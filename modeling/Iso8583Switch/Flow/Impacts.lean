import Iso8583Switch.Engine.Ledger
import Iso8583Switch.Flow.Paths
import Iso8583Switch.Flow.Responders
import Mathlib.Data.UInt

/-!
# The impact of a step

The worker posts a request before it sends it, whatever becomes of it, and a
reversal posts its own amount, whatever the request was.  The trace does not say
for which instance an event was posted, so a run keeps its postings.

`Impact` is what one step means to the ledger and to the clients: it posts the
request of an instance, it posts a reversal that hits an instance, it answers the
client of an instance, or none of these.  `Impact.conserves` says which of these
are in order, and `step_booked` that a step does what its impact says.
-/

namespace Iso8583Switch

open Text Function

/-! ## Postings -/

/-- The posted events, each with the instance that it is posted for. -/
abbrev Postings := List (Serial × UniversalPaymentEvent)

namespace Postings

/-- The sum of the amounts. -/
def total (l : List UniversalPaymentEvent) : Nat := (l.map (·.amount.toNat)).sum

variable (ledger : Postings) (i : Serial)

def postedFor : List UniversalPaymentEvent := (ledger.filter (·.1 = i)).map Prod.snd

def captures : List UniversalPaymentEvent := (postedFor ledger i).filter (!·.isReversal)

def offsets : List UniversalPaymentEvent := (postedFor ledger i).filter (·.isReversal)

/-- The sum of the principal amounts. -/
def balance : Int := ((postedFor ledger i).map fun tx => (LedgerWorker.finalPrincipal tx).toInt).sum

end Postings

/-! ## What became of an instance -/

inductive Outcome where
  /-- The client has got a reply with this response code. -/
  | answered (i : Serial) (responseCode : String)
  /-- A reversal has marked the entry. -/
  | reversed (i : Serial)
deriving DecidableEq

def Event.outcome : Event → Option Outcome
  | .responded _ source reply => source.serial.map fun i => .answered i reply.responseCode
  | .marked i => some (.reversed i)
  | _ => none

def Event.posting : Event → Option UniversalPaymentEvent
  | .posted tx => some tx
  | _ => none

def Outcome.answers (i : Serial) : Outcome → Bool
  | .answered j _ => j = i
  | .reversed _ => false

/-- The client was answered with RC 00 and the transaction was not reversed. -/
def stands (outcomes : List Outcome) (i : Serial) : Bool :=
  .answered i "00" ∈ outcomes && .reversed i ∉ outcomes

namespace Engine

def outcomes (s : Engine) : List Outcome := s.trace.filterMap Event.outcome

def IsAnswered (s : Engine) (i : Serial) : Prop := s.outcomes.any (·.answers i) = true

instance (s : Engine) (i : Serial) : Decidable (s.IsAnswered i) :=
  inferInstanceAs (Decidable (_ = true))

end Engine

/-! ## The steps that matter to the ledger -/

inductive Impact where
  | none
  | capture (i : Serial) (tx : UniversalPaymentEvent)
  | reverse (entry : ActiveTransaction) (reversal : UniversalPaymentEvent)
  | answer (entry : ActiveTransaction) (responseCode : String)

namespace Impact

def postings : Impact → Postings
  | .capture i tx => [(i, tx)]
  | .reverse entry reversal => [(entry.serial, reversal)]
  | .none | .answer _ _ => []

def outcomes : Impact → List Outcome
  | .reverse entry _ => [.reversed entry.serial]
  | .answer entry responseCode => [.answered entry.serial responseCode]
  | .none | .capture _ _ => []

/-- The client of an entry is answered, if it has not been. -/
def ofAnswer (entry : ActiveTransaction) (responseCode : String) : Impact :=
  if entry.responder.isSome then .answer entry responseCode else .none

/-- A request is posted before its client is answered.  A reversal of an answered
transaction carries what the ledger should hold of it.  An answer with RC 00, and
no other, is for a request that was posted.  If reversals came before the answer,
they carry what was posted. -/
def conserves (outcomes : List Outcome) (ledger : Postings) : Impact → Bool
  | .none => true
  | .capture i tx => tx.amount = 0 || !outcomes.any (·.answers i)
  | .reverse entry reversal =>
      !outcomes.any (·.answers entry.serial) ||
        reversal.amount =
          if stands outcomes entry.serial then entry.transactionData.amount.toUInt64 else 0
  | .answer entry responseCode =>
      if ledger.offsets entry.serial = [] then
        entry.transactionData.amount = 0 ||
          ((ledger.captures entry.serial).isEmpty != decide (responseCode = "00"))
      else
        Postings.total (ledger.captures entry.serial) = Postings.total (ledger.offsets entry.serial)

end Impact

namespace Engine

def workerImpact (s : Engine) : IngressPc → Input → Impact
  | .carrying i _ ctx (.recorded _ _), .outcome _ => .capture i ctx.transaction
  | .carrying _ key _ .unrouted, .run =>
      match s.guard.get key with
      | some entry => .ofAnswer entry "05"
      | none => .none
  | .scanning ctx origStan _ _, .visit key =>
      match s.guard.get key with
      | some entry =>
          if entry.transactionData.stan = origStan then
            .reverse entry { ctx.transaction with rrn := entry.transactionData.rrn }
          else .none
      | none => .none
  | _, _ => .none

def reaperImpact (s : Engine) : ReaperPc → Input → Impact
  | .reversing (key :: _), .outcome _ =>
      match s.guard.get key with
      | some entry => if entry.state = .upstreamSent then .ofAnswer entry "68" else .none
      | none => .none
  | _, _ => .none

def replyImpact (s : Engine) : ReplyPc → Input → Impact
  | .translated packet key, .outcome true =>
      match s.guard.get key with
      | some entry =>
          if entry.state = .reversed then .none
          else .ofAnswer entry packet.transaction.responseCode
      | none => .none
  | _, _ => .none

def impact (s : Engine) : Action → Impact
  | .ingress w input => s.workerImpact (s.ingress w) input
  | .reaper input => s.reaperImpact s.reaper input
  | .reply w input => s.replyImpact (s.repliers w) input
  | _ => .none

/-- The postings of a run. -/
def postings (s : Engine) (a : Action) : Postings := (s.impact a).postings

/-- A request that comes in has an amount that the ledger can hold. -/
def fits : Action → Bool
  | .ingress _ (.receive tx _) => tx.amount.toNat < 2 ^ 63
  | _ => true

/-- The step is in order. -/
def Conserves (p : Engine × Postings) (a : Action) : Prop :=
  fits a = true ∧ (p.1.impact a).conserves p.1.outcomes p.2 = true

instance (p : Engine × Postings) (a : Action) : Decidable (Conserves p a) :=
  inferInstanceAs (Decidable (_ ∧ _))

/-! ## Every step has its impact -/

/-- The events of a step are those of its impact. -/
structure Booked (l : List Event) (impact : Impact) : Prop where
  outcomes : l.filterMap Event.outcome = impact.outcomes
  postings : l.filterMap Event.posting = impact.postings.map Prod.snd

theorem booked_none {l : List Event} (h : ∀ e ∈ l, e.outcome = none ∧ e.posting = none) :
    Booked l .none :=
  ⟨List.filterMap_eq_nil_iff.mpr fun e he => (h e he).1,
    List.filterMap_eq_nil_iff.mpr fun e he => (h e he).2⟩

theorem booked_nil : Booked [] .none := ⟨rfl, rfl⟩

theorem booked_answers {entry : ActiveTransaction} {source : Source} (reply : UniversalPaymentEvent)
    (hserial : source.serial = some entry.serial) :
    Booked (answers entry.responder source reply) (.ofAnswer entry reply.responseCode) := by
  rw [Impact.ofAnswer]
  cases hr : entry.responder with
  | none => exact booked_nil
  | some r => exact ⟨by simp [answers, Event.outcome, hserial, Impact.outcomes], rfl⟩

theorem booked_evicted {l : List Event} {key : String} (h : ∀ e ∈ l, ∃ i, e = .evicted key i) :
    Booked l .none := by
  refine booked_none fun e he => ?_
  obtain ⟨i, rfl⟩ := h e he
  exact ⟨rfl, rfl⟩

theorem Booked.cons {l : List Event} {impact : Impact} {e : Event} (h : Booked l impact)
    (he : e.outcome = none ∧ e.posting = none) : Booked (e :: l) impact :=
  ⟨(List.filterMap_cons_none he.1).trans h.outcomes,
    (List.filterMap_cons_none he.2).trans h.postings⟩

theorem Booked.append {l l' : List Event} {impact : Impact} (h : Booked l impact)
    (h' : Booked l' .none) : Booked (l ++ l') impact := by
  constructor
  · rw [List.filterMap_append, h.outcomes, h'.outcomes]
    exact List.append_nil _
  · rw [List.filterMap_append, h.postings, h'.postings]
    exact List.append_nil _

section Step

variable {s t : Engine} {w : Nat} {input : Input} {l : List Event}

theorem CarryTurn.booked {i : Serial} {key : String} {ctx : TransactionContext} {stage : Stage}
    {pc : IngressPc} (hturn : s.CarryTurn i key ctx input stage pc t)
    (hctx : ctx.responder = none) :
    ∃ l, t.trace = s.trace ++ l ∧ Booked l (s.workerImpact (.carrying i key ctx stage) input) := by
  cases hturn with
  | decline hget =>
      -- It answers whatever entry has the key.
      rw [workerImpact, hget]
      exact ⟨_, respond_trace s _ _ _, booked_answers _ rfl⟩
  | declineNobody hget =>
      rw [workerImpact, hget]
      exact ⟨[], (List.append_nil _).symm, booked_nil⟩
  | send => exact ⟨_, List.append_assoc _ [_] [_], rfl, rfl⟩
  | fail => exact ⟨_, rfl, rfl, rfl⟩
  | decide =>
      rw [hctx]
      exact ⟨_, List.append_assoc _ [_] [_], rfl, rfl⟩
  | journal | number | undecided => exact ⟨_, rfl, rfl, rfl⟩
  | spawn | lose | unjournaled | route | noRoute | record | recordNowhere | fallback | debit =>
      exact ⟨[], (List.append_nil _).symm, booked_nil⟩

/-- A worker in front of the guard is of no account until it visits an entry. -/
theorem workerImpact_of_held {pc : IngressPc} {ctx : TransactionContext}
    (h : pc.held = some ctx) : s.workerImpact pc .run = .none := by
  cases pc <;> first | rfl | cases h

theorem ingressStep_booked (hdisowned : s.Disowned) (h : s.ingressStep w input = some t) :
    ∃ l, t.trace = s.trace ++ l ∧ Booked l (s.workerImpact (s.ingress w) input) := by
  obtain ⟨pc', u, hturn, rfl⟩ := ingressStep_turn h
  have hctx := hdisowned.ingress w
  show ∃ l, u.trace = s.trace ++ l ∧ _
  generalize s.ingress w = pc at hturn hctx
  cases hturn with
  | receive => exact ⟨_, rfl, rfl, rfl⟩
  | answer reply hheld hfront =>
      rw [workerImpact_of_held hheld]
      refine ⟨_, respond_trace s _ _ _, booked_none fun e he => ?_⟩
      obtain ⟨r, -, rfl⟩ := mem_answers.mp he
      exact ⟨by rw [Event.outcome, Source.serial_of_front hfront]; rfl, rfl⟩
  | mark hget _ hstan =>
      rw [workerImpact, hget]
      dsimp only
      rw [if_pos hstan]
      exact ⟨_, List.append_assoc _ [_] [_], rfl, rfl⟩
  | pass hget _ hstan =>
      rw [workerImpact, hget]
      dsimp only
      rw [if_neg hstan]
      exact ⟨[], (List.append_nil _).symm, booked_nil⟩
  | accept => exact ⟨_, rfl, rfl, rfl⟩
  | carry hturn => exact hturn.booked hctx
  | @evict key =>
      obtain ⟨l, hl, hmem⟩ := evict_trace s key
      exact ⟨l, hl, booked_evicted hmem⟩
  | clear | binPanic | plain | detokenize | dpanPanic | screen | reverse | dataPanic | skip =>
      exact ⟨[], (List.append_nil _).symm, booked_nil⟩

/-- A task answers nobody, since the responder is in the guard. -/
theorem hsmStep_booked {i : Serial} (hdisowned : s.Disowned) (h : s.hsmStep i input = some t) :
    ∃ l, t.trace = s.trace ++ l ∧ Booked l .none := by
  obtain ⟨pc, l, hpath, -, -, -, hl⟩ := hsmStep_path h
  refine ⟨l, hl, ?_⟩
  have htask := hdisowned.hsm i
  generalize s.hsm i = pc₀ at hpath htask
  cases hpath with
  | route | verifyMac | verifyPin | translatePin | resolve | unjournaled | fail => exact booked_nil
  | journal | drop | send => exact ⟨rfl, rfl⟩
  | @decline ctx target =>
      rw [show ctx.responder = none from htask]
      exact ⟨rfl, rfl⟩

theorem reaperImpact_none {pc : ReaperPc} (h : pc.target = none) :
    s.reaperImpact pc input = .none := by
  unfold reaperImpact
  split
  · cases h
  · rfl

theorem reaperStep_booked (h : s.reaperStep input = some t) :
    ∃ l, t.trace = s.trace ++ l ∧ Booked l (s.reaperImpact s.reaper input) := by
  have hsilent {s' : Engine} (hs' : s'.trace = s.trace) :
      ∃ l, s'.trace = s.trace ++ l ∧ Booked l .none :=
    ⟨[], hs'.trans (List.append_nil _).symm, booked_nil⟩
  obtain ⟨pc', u, hturn, rfl⟩ := reaperStep_turn h
  generalize s.reaper = pc at hturn
  cases hturn with
  | walk htarget => rw [reaperImpact_none htarget]; exact hsilent rfl
  | @reverse key ok rest =>
      show ∃ l, (s.reverseSection key ok).1.trace = s.trace ++ l ∧ Booked l _
      rw [reaperImpact]
      unfold reverseSection
      cases s.guard.get key with
      | none => exact hsilent rfl
      | some entry =>
          dsimp only
          split
          · refine ⟨_, (timeOut_trace s key entry ok).trans (List.append_assoc _ _ _), ?_⟩
            refine (booked_answers (timeoutReply entry) rfl).append (booked_none fun e he => ?_)
            rcases List.mem_cons.mp he with rfl | he
            · exact ⟨rfl, rfl⟩
            · obtain ⟨_, -, rfl⟩ := mem_reversals.mp he
              exact ⟨rfl, rfl⟩
          · exact hsilent rfl
  | collect => unfold collectNat; split <;> exact hsilent rfl
  | @evict key _ _ htarget =>
      obtain ⟨l, hl, hmem⟩ := evict_trace s key
      rw [reaperImpact_none htarget]
      exact ⟨l, hl, booked_evicted hmem⟩

theorem replyStep_booked (h : s.replyStep w input = some t) :
    ∃ l, t.trace = s.trace ++ l ∧ Booked l (s.replyImpact (s.repliers w) input) := by
  obtain ⟨pc, l, hpath, -, hl⟩ := replyStep_path h
  refine ⟨l, hl, ?_⟩
  generalize s.repliers w = pc₀ at hpath
  cases hpath with
  | translate => exact booked_nil
  | @complete packet key entry hget hstate =>
      rw [replyImpact, hget]
      dsimp only
      rw [if_neg hstate]
      exact ((booked_answers (approval packet) rfl).cons ⟨rfl, rfl⟩).cons ⟨rfl, rfl⟩
  | completeUnjournaled => exact ⟨rfl, rfl⟩
  | @discard packet key ok pc hreversed =>
      have hnone : s.replyImpact (.translated packet key) (.outcome ok) = .none := by
        cases ok with
        | false => rfl
        | true =>
            rw [replyImpact]
            cases hget : s.guard.get key with
            | none => rfl
            | some entry => exact if_pos (hreversed entry hget)
      rw [hnone]
      exact ⟨rfl, rfl⟩
  | evict hmem => exact booked_evicted hmem

theorem step_booked {a : Action} (hdisowned : s.Disowned) (h : s.step a = some t) :
    ∃ l, t.trace = s.trace ++ l ∧ Booked l (s.impact a) := by
  have hsilent {s' : Engine} (hs' : s'.trace = s.trace) :
      ∃ l, s'.trace = s.trace ++ l ∧ Booked l .none :=
    ⟨[], hs'.trans (List.append_nil _).symm, booked_nil⟩
  cases a with
  | ingress w input => exact ingressStep_booked hdisowned h
  | hsm i input => exact hsmStep_booked hdisowned h
  | reaper input => exact reaperStep_booked h
  | reply w input => exact replyStep_booked h
  | bank packet => cases h; exact ⟨_, rfl, rfl, rfl⟩
  | probe node secs ok =>
      obtain ⟨channel, -, rfl⟩ := Option.map_eq_some_iff.mp h
      cases ok with
      | true => exact ⟨_, rfl, rfl, rfl⟩
      | false => exact hsilent rfl
  | tick ms => cases h; exact hsilent rfl
  | storeStip stip => cases h; exact hsilent rfl
  | storeCrdb crdb => cases h; exact hsilent rfl
  | storeRouter router => cases h; exact hsilent rfl
  | pollSanctions cache => cases h; exact hsilent rfl

end Step

end Engine

end Iso8583Switch
