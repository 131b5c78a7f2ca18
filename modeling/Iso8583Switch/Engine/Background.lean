import Iso8583Switch.Engine.Turns

/-!
# What the threads leave alone

`Local` is said of what depends neither on the guard nor on the trace.  An answer and an
eviction leave it as it was, and so does a timeout.  Of the rest of the state the reaper and
the reply workers write their own positions, the NAT and the replies of the bank.

An ingress worker and an HSM task write the guard, the global state, the STIP database, the
trace and their own positions.  `Background` is said of what depends on none of these, and it
is as it was after any of their steps.
-/

namespace Iso8583Switch

namespace Engine

/-! ## Neither the guard nor the trace -/

/-- What is read neither from the guard nor from the trace. -/
structure Local {α : Type} (F : Engine → α) : Prop where
  log : ∀ s e, F (s.log e) = F s
  setGuard : ∀ s key entry, F (s.setGuard key entry) = F s
  removed : ∀ s guard, F { s with guard := guard } = F s

namespace Local

variable {α : Type} {F : Engine → α} (hF : Local F) {s t : Engine} {w : Nat} {input : Input}
include hF

/-- An answer is only an event. -/
theorem respond (s : Engine) (responder : Option Responder) (source : Source)
    (reply : UniversalPaymentEvent) : F (s.respond responder source reply) = F s := by
  cases responder with
  | none => rfl
  | some r => exact hF.log s _

/-- The entry that goes is part of the guard. -/
theorem evict (s : Engine) (key : String) : F (s.evict key) = F s := by
  unfold Engine.evict
  split
  · exact (hF.log _ _).trans (hF.removed s _)
  · rfl

/-- The 0420 of the reaper is put on a channel, and the trace alone tells of it. -/
theorem sendReversal (s : Engine) (i : Serial) (reversal : UniversalPaymentEvent) (ok : Bool) :
    F (s.sendReversal i reversal ok) = F s := by
  unfold Engine.sendReversal
  split
  · split
    · exact hF.log s _
    · rfl
  · rfl

/-- A timeout marks the entry, answers the client and sends the 0420. -/
theorem timeOut (s : Engine) (key : String) (entry : ActiveTransaction) (ok : Bool) :
    F (s.timeOut key entry ok) = F s :=
  calc F (s.timeOut key entry ok) = F _ := hF.sendReversal _ _ _ _
    _ = F _ := hF.log _ _
    _ = F _ := hF.respond _ _ _ _
    _ = F s := hF.setGuard _ _ _

theorem reverseSection (s : Engine) (key : String) (ok : Bool) :
    F (s.reverseSection key ok).1 = F s := by
  unfold Engine.reverseSection
  split
  · split
    · exact hF.timeOut s _ _ _
    · rfl
  · rfl

/-- Besides its own position the reaper writes the NAT when it collects a STAN. -/
theorem reaperStep (hmem : ∀ s mem, F { s with mem := mem } = F s)
    (hset : ∀ s pc, F (s.setReaper pc) = F s) (h : s.reaperStep input = some t) : F t = F s := by
  obtain ⟨pc, u, hturn, rfl⟩ := reaperStep_turn h
  refine (hset u pc).trans ?_
  generalize s.reaper = pc₀ at hturn
  cases hturn with
  | walk => rfl
  | reverse => exact hF.reverseSection s _ _
  | collect =>
      unfold collectNat
      split
      · exact hmem s _
      · rfl
  | evict => exact hF.evict s _

/-- Besides its own position a reply worker takes a reply and its NAT entry. -/
theorem replyStep
    (hmem : ∀ s mem replies, F { s with mem := mem, bankReply := replies } = F s)
    (hset : ∀ s w pc, F (s.setReply w pc) = F s) (h : s.replyStep w input = some t) :
    F t = F s := by
  have hturn := replyStep_turn h
  generalize s.repliers w = pc at hturn
  cases hturn with
  | translate => exact (hset _ w _).trans (hmem s _ _)
  | late | unknown => exact (hset _ w _).trans (hF.log s _)
  | complete =>
      exact (hset _ w _).trans ((hF.respond _ _ _ _).trans ((hF.log _ _).trans
        ((hF.setGuard _ _ _).trans (hF.log s _))))
  | completeUnjournaled => exact (hset _ w _).trans ((hF.setGuard _ _ _).trans (hF.log s _))
  | evict => exact (hset _ w _).trans (hF.evict s _)

end Local

/-- The shared memory, the STIP database and the positions of the workers and the tasks
are such parts of the state. -/
theorem local_mem : Local Engine.mem := ⟨fun _ _ => rfl, fun _ _ _ => rfl, fun _ _ => rfl⟩

theorem local_stipDb : Local Engine.stipDb := ⟨fun _ _ => rfl, fun _ _ _ => rfl, fun _ _ => rfl⟩

theorem local_ingress : Local Engine.ingress := ⟨fun _ _ => rfl, fun _ _ _ => rfl, fun _ _ => rfl⟩

theorem local_hsm : Local Engine.hsm := ⟨fun _ _ => rfl, fun _ _ _ => rfl, fun _ _ => rfl⟩

section Updates

variable (s : Engine) (responder : Option Responder) (source : Source)
  (reply : UniversalPaymentEvent) (key : String)

@[simp] theorem respond_mem : (s.respond responder source reply).mem = s.mem :=
  local_mem.respond s _ _ _

@[simp] theorem respond_stipDb : (s.respond responder source reply).stipDb = s.stipDb :=
  local_stipDb.respond s _ _ _

@[simp] theorem respond_ingress : (s.respond responder source reply).ingress = s.ingress :=
  local_ingress.respond s _ _ _

@[simp] theorem respond_hsm : (s.respond responder source reply).hsm = s.hsm :=
  local_hsm.respond s _ _ _

@[simp] theorem evict_mem : (s.evict key).mem = s.mem := local_mem.evict s key

@[simp] theorem evict_stipDb : (s.evict key).stipDb = s.stipDb := local_stipDb.evict s key

@[simp] theorem evict_ingress : (s.evict key).ingress = s.ingress := local_ingress.evict s key

@[simp] theorem evict_hsm : (s.evict key).hsm = s.hsm := local_hsm.evict s key

end Updates

/-! ## The workers and the tasks -/

/-- What the workers and the tasks do not write. -/
structure Background {α : Type} (F : Engine → α) : Prop where
  log : ∀ s e, F (s.log e) = F s
  setGuard : ∀ s key entry, F (s.setGuard key entry) = F s
  removed : ∀ s guard, F { s with guard := guard } = F s
  setIngress : ∀ s w pc, F (s.setIngress w pc) = F s
  setHsm : ∀ s i pc, F (s.setHsm i pc) = F s
  mem : ∀ s mem, F { s with mem := mem } = F s
  stipDb : ∀ s db, F { s with stipDb := db } = F s

namespace Background

variable {α : Type} {F : Engine → α} (hF : Background F) {s t : Engine} {w : Nat} {i : Serial}
  {key : String} {ctx : TransactionContext} {input : Input}
include hF

/-- What the workers do not write is neither guard nor trace. -/
theorem toLocal : Local F := ⟨hF.log, hF.setGuard, hF.removed⟩

/-- A probe writes the health of a node, and its frame is an event. -/
theorem probe (s : Engine) (node : String) (channel : ChannelId) (secs : Nat) (ok : Bool) :
    F (s.probe node channel secs ok) = F s := by
  cases ok with
  | false => exact hF.mem s _
  | true => exact (hF.log _ _).trans (hF.mem s _)

/-- A worker that carries an accepted context writes the guard, the NAT and the STIP
database, or starts an HSM task. -/
theorem carryTurn {stage : Stage} {pc : IngressPc} (h : s.CarryTurn i key ctx input stage pc t) :
    F t = F s := by
  cases h with
  | lose | unjournaled | route | noRoute | declineNobody | recordNowhere | fallback => rfl
  | spawn => exact hF.setHsm s i _
  | journal | fail | undecided => exact hF.log s _
  | number => exact (hF.log _ _).trans (hF.mem s _)
  | decline => exact (hF.setGuard _ _ _).trans (hF.toLocal.respond s _ _ _)
  | record => exact hF.setGuard s _ _
  | send => exact (hF.log _ _).trans (hF.log s _)
  | debit => exact hF.stipDb s _
  | decide => exact ((hF.toLocal.respond _ _ _ _).trans (hF.log _ _)).trans (hF.log s _)

/-- In front of the guard a worker only logs and answers. -/
theorem ingressStep (h : s.ingressStep w input = some t) : F t = F s := by
  obtain ⟨pc, u, hturn, rfl⟩ := ingressStep_turn h
  refine (hF.setIngress u w pc).trans ?_
  generalize s.ingress w = pc₀ at hturn
  cases hturn with
  | binPanic | dpanPanic | dataPanic => rfl
  | clear | plain | detokenize | screen | reverse | pass | skip => rfl
  | receive => exact hF.log s _
  | answer => exact hF.toLocal.respond s _ _ _
  | mark => exact ((hF.log _ _).trans (hF.log _ _)).trans (hF.setGuard s _ _)
  | accept => exact (hF.log _ _).trans (hF.setGuard s _ _)
  | carry hturn => exact hF.carryTurn hturn
  | evict => exact hF.toLocal.evict s _

/-- An HSM task logs, declines its entry and moves on. -/
theorem hsmStep (h : s.hsmStep i input = some t) : F t = F s := by
  obtain ⟨pc, u, hturn, rfl⟩ := hsmStep_turn h
  refine (hF.setHsm u i pc).trans ?_
  generalize s.hsm i = pc₀ at hturn
  cases hturn with
  | route | verifyMac | verifyPin | translatePin | resolve | unjournaled | fail => rfl
  | decline => exact (hF.toLocal.respond _ _ _ _).trans (hF.log s _)
  | journal | drop | send => exact hF.log s _

end Background

/-! ## The positions of the reaper and of the reply workers -/

/-- No worker and no task moves the reaper. -/
theorem background_reaper : Background Engine.reaper where
  log _ _ := rfl
  setGuard _ _ _ := rfl
  removed _ _ := rfl
  setIngress _ _ _ := rfl
  setHsm _ _ _ := rfl
  mem _ _ := rfl
  stipDb _ _ := rfl

/-- Nor does one move a reply worker. -/
theorem background_repliers : Background Engine.repliers where
  log _ _ := rfl
  setGuard _ _ _ := rfl
  removed _ _ := rfl
  setIngress _ _ _ := rfl
  setHsm _ _ _ := rfl
  mem _ _ := rfl
  stipDb _ _ := rfl

@[simp] theorem evict_reaper (s : Engine) (key : String) : (s.evict key).reaper = s.reaper :=
  background_reaper.toLocal.evict s key

@[simp] theorem evict_repliers (s : Engine) (key : String) :
    (s.evict key).repliers = s.repliers :=
  background_repliers.toLocal.evict s key

theorem replyStep_reaper {s t : Engine} {w : Nat} {input : Input}
    (h : s.replyStep w input = some t) : t.reaper = s.reaper :=
  background_reaper.toLocal.replyStep (fun _ _ _ => rfl) (fun _ _ _ => rfl) h

theorem reaperStep_repliers {s t : Engine} {input : Input} (h : s.reaperStep input = some t) :
    t.repliers = s.repliers :=
  background_repliers.toLocal.reaperStep (fun _ _ => rfl) (fun _ _ => rfl) h

end Engine

end Iso8583Switch
