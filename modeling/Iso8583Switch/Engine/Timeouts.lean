import Iso8583Switch.Engine.Turns

/-!
# Who times out

The timeouts of a run are part of its trace.  The sections of the other threads
add none, and the reaper adds one for each entry that it finds `UpstreamSent` in
its first pass.
-/

namespace Iso8583Switch

open Text

/-- The reaper has reversed an entry. -/
def Event.isTimedOut : Event → Bool
  | .timedOut _ _ => true
  | _ => false

namespace Engine

/-- The timeouts so far, oldest first. -/
def timeouts (s : Engine) : List Event := s.trace.filter Event.isTimedOut

/-! ## Updates -/

section Updates

variable (s : Engine)

/-- A timeout is kept in the order of the trace. -/
@[simp] theorem timeouts_log (e : Event) :
    (s.log e).timeouts = if e.isTimedOut then s.timeouts ++ [e] else s.timeouts := by
  rw [timeouts, log, List.filter_append, List.filter_singleton]
  cases e.isTimedOut with
  | true => rfl
  | false => exact List.append_nil _

@[simp] theorem timeouts_setGuard (key : String) (entry : ActiveTransaction) :
    (s.setGuard key entry).timeouts = s.timeouts := rfl

@[simp] theorem timeouts_setIngress (w : Nat) (pc : IngressPc) :
    (s.setIngress w pc).timeouts = s.timeouts := rfl

@[simp] theorem timeouts_setHsm (i : Serial) (pc : HsmPc) :
    (s.setHsm i pc).timeouts = s.timeouts := rfl

@[simp] theorem timeouts_setReaper (pc : ReaperPc) : (s.setReaper pc).timeouts = s.timeouts := rfl

@[simp] theorem timeouts_setReply (w : Nat) (pc : ReplyPc) :
    (s.setReply w pc).timeouts = s.timeouts := rfl

@[simp] theorem timeouts_mem (mem : GlobalState) : { s with mem := mem }.timeouts = s.timeouts := rfl

@[simp] theorem timeouts_stipDb (db : DashMap Bytes (Option CardProfile)) :
    { s with stipDb := db }.timeouts = s.timeouts := rfl

@[simp] theorem timeouts_respond (responder : Option Responder) (source : Source)
    (reply : UniversalPaymentEvent) :
    (s.respond responder source reply).timeouts = s.timeouts := by
  cases responder with
  | none => rfl
  | some r => exact timeouts_log s _

@[simp] theorem timeouts_evict (key : String) : (s.evict key).timeouts = s.timeouts := by
  unfold evict
  split
  · exact timeouts_log _ _
  · rfl

end Updates

attribute [local simp] Event.isTimedOut

/-! ## The other threads -/

section Others

variable {s t : Engine} {w : Nat} {i : Serial} {input : Input}

/-- A worker that carries an accepted context times nothing out. -/
theorem CarryTurn.timeouts {key : String} {ctx : TransactionContext} {stage : Stage}
    {pc : IngressPc} (hturn : s.CarryTurn i key ctx input stage pc t) : t.timeouts = s.timeouts := by
  cases hturn with
  | lose | unjournaled | route | noRoute | declineNobody | recordNowhere | fallback => rfl
  | spawn | record | debit => rfl
  | journal | number | decline | send | fail | decide | undecided => simp

/-- Neither does a worker before the guard. -/
theorem timeouts_ingressStep (h : s.ingressStep w input = some t) : t.timeouts = s.timeouts := by
  obtain ⟨pc, u, hturn, rfl⟩ := ingressStep_turn h
  rw [timeouts_setIngress]
  generalize s.ingress w = pc₀ at hturn
  cases hturn with
  | binPanic | dpanPanic | dataPanic => rfl
  | clear | plain | detokenize | screen | reverse | pass | skip => rfl
  | receive | answer | mark | accept | evict => simp
  | carry hturn => exact hturn.timeouts

theorem timeouts_hsmStep (h : s.hsmStep i input = some t) : t.timeouts = s.timeouts := by
  obtain ⟨pc, u, hturn, rfl⟩ := hsmStep_turn h
  rw [timeouts_setHsm]
  generalize s.hsm i = pc₀ at hturn
  cases hturn with
  | route | verifyMac | verifyPin | translatePin | resolve | unjournaled | fail => rfl
  | decline | journal | drop | send => simp

/-- A reply that comes too late is handled, but it times nothing out. -/
theorem timeouts_replyStep (h : s.replyStep w input = some t) : t.timeouts = s.timeouts := by
  have hturn := replyStep_turn h
  generalize s.repliers w = pc at hturn
  cases hturn with
  | translate => rfl
  | late | unknown | complete | completeUnjournaled | evict => simp

end Others

/-! ## The reaper -/

/-- The step is the first pass of the reaper on an entry that is still
`UpstreamSent`. -/
structure TimesOut (s : Engine) (a : Action) (key : String) (rest : List String)
    (entry : ActiveTransaction) (ok : Bool) : Prop where
  action : a = .reaper (.outcome ok)
  reaper : s.reaper = .reversing (key :: rest)
  guard : s.guard.get key = some entry
  upstreamSent : entry.state = .upstreamSent

section Reaper

variable {s t : Engine}

/-- The step is the section on the entry, and the reaper goes on to its NAT entry. -/
theorem TimesOut.step_eq {a : Action} {key : String} {rest : List String}
    {entry : ActiveTransaction} {ok : Bool} (h : s.TimesOut a key rest entry ok)
    (hstep : s.step a = some t) :
    t = (s.timeOut key entry ok).setReaper (.reclaiming key entry.egressStan true rest) := by
  obtain ⟨rfl, hpc, hget, hstate⟩ := h
  simp only [step, reaperStep, hpc, reverseSection, hget, hstate] at hstep
  exact (Option.some.inj hstep).symm

/-- An entry that is gone or has moved on is left alone. -/
theorem timeouts_reverseSection (key : String) (ok : Bool) :
    (s.reverseSection key ok).1.timeouts = s.timeouts ∨
      ∃ entry, s.guard.get key = some entry ∧ entry.state = .upstreamSent := by
  unfold reverseSection
  split
  next entry hget =>
    split
    next hstate => exact .inr ⟨entry, hget, hstate⟩
    next => exact .inl rfl
  next => exact .inl rfl

theorem timeouts_reaperStep {input : Input} (h : s.reaperStep input = some t) :
    t.timeouts = s.timeouts ∨ ∃ key rest entry ok, s.TimesOut (.reaper input) key rest entry ok := by
  obtain ⟨pc', u, hturn, rfl⟩ := reaperStep_turn h
  generalize hpc : s.reaper = pc at hturn
  cases hturn with
  | walk => exact .inl rfl
  | @reverse key ok rest =>
      rcases timeouts_reverseSection (s := s) key ok with hsame | ⟨entry, hget, hstate⟩
      · exact .inl hsame
      · exact .inr ⟨key, rest, entry, ok, rfl, hpc, hget, hstate⟩
  | collect => unfold collectNat; split <;> exact .inl rfl
  | evict => exact .inl (by simp)

/-- Every timeout of a run is added by the first pass of the reaper. -/
theorem timeouts_step {a : Action} (h : s.step a = some t) :
    t.timeouts = s.timeouts ∨ ∃ key rest entry ok, s.TimesOut a key rest entry ok := by
  cases a with
  | ingress w input => exact .inl (timeouts_ingressStep h)
  | hsm i input => exact .inl (timeouts_hsmStep h)
  | reaper input => exact timeouts_reaperStep h
  | reply w input => exact .inl (timeouts_replyStep h)
  | bank packet => cases h; exact .inl (timeouts_log _ _)
  | probe node secs ok =>
      obtain ⟨channel, -, rfl⟩ := Option.map_eq_some_iff.mp h
      unfold probe
      dsimp only
      split
      · exact .inl (timeouts_log _ _)
      · exact .inl rfl
  | tick ms => cases h; exact .inl rfl
  | storeStip stip => cases h; exact .inl rfl
  | storeCrdb crdb => cases h; exact .inl rfl
  | storeRouter router => cases h; exact .inl rfl
  | pollSanctions cache => cases h; exact .inl rfl

end Reaper

end Engine

end Iso8583Switch
