import Iso8583Switch.Flow.Impacts
import Iso8583Switch.Flow.Runs
import Mathlib.Data.UInt

/-!
# What the ledger holds of a transaction

The ledger should hold the amount of a transaction that stands and nothing of one
that does not.  `Books` is what a run keeps in order for that: a request is posted
once at most, with the amount that was inserted, and reversals are what the ledger
has offsets for.  Where every step is in order, the ledger is right about every
client that has got an answer.
-/

namespace Iso8583Switch

open Text Function

/-! ## Postings -/

/-- The row of an amount that the ledger can hold has that amount, or its negative. -/
theorem LedgerWorker.toInt_finalPrincipal {tx : UniversalPaymentEvent}
    (h : tx.amount.toNat < 2 ^ 63) :
    (finalPrincipal tx).toInt =
      if tx.isReversal then -(tx.amount.toNat : Int) else tx.amount.toNat := by
  rw [finalPrincipal]
  split
  · rw [Int64.toInt_neg, toInt_toInt64 h]
    exact Int.bmod_eq_of_le (by omega) (by omega)
  · exact toInt_toInt64 h

namespace Postings

variable {ledger : Postings} {i j : Serial} {tx : UniversalPaymentEvent}

theorem postedFor_self (ledger : Postings) (i : Serial) (tx : UniversalPaymentEvent) :
    postedFor (ledger ++ [(i, tx)]) i = postedFor ledger i ++ [tx] := by
  simp [postedFor]

theorem postedFor_of_ne (h : j ≠ i) (tx : UniversalPaymentEvent) :
    postedFor (ledger ++ [(j, tx)]) i = postedFor ledger i := by
  simp [postedFor, h]

theorem captures_of_ne (h : j ≠ i) (tx : UniversalPaymentEvent) :
    captures (ledger ++ [(j, tx)]) i = captures ledger i := by
  rw [captures, postedFor_of_ne h, captures]

theorem offsets_of_ne (h : j ≠ i) (tx : UniversalPaymentEvent) :
    offsets (ledger ++ [(j, tx)]) i = offsets ledger i := by
  rw [offsets, postedFor_of_ne h, offsets]

theorem balance_of_ne (h : j ≠ i) (tx : UniversalPaymentEvent) :
    balance (ledger ++ [(j, tx)]) i = balance ledger i := by
  rw [balance, postedFor_of_ne h, balance]

theorem captures_capture (h : tx.isReversal = false) :
    captures (ledger ++ [(i, tx)]) i = captures ledger i ++ [tx] := by
  simp [captures, postedFor_self, h]

theorem offsets_capture (h : tx.isReversal = false) (j : Serial) :
    offsets (ledger ++ [(j, tx)]) i = offsets ledger i := by
  by_cases hij : j = i
  · subst hij
    simp [offsets, postedFor_self, h]
  · exact offsets_of_ne hij tx

theorem captures_offset (h : tx.isReversal = true) (j : Serial) :
    captures (ledger ++ [(j, tx)]) i = captures ledger i := by
  by_cases hij : j = i
  · subst hij
    simp [captures, postedFor_self, h]
  · exact captures_of_ne hij tx

theorem offsets_offset (h : tx.isReversal = true) :
    offsets (ledger ++ [(i, tx)]) i = offsets ledger i ++ [tx] := by
  simp [offsets, postedFor_self, h]

theorem balance_self (ledger : Postings) (i : Serial) (tx : UniversalPaymentEvent) :
    balance (ledger ++ [(i, tx)]) i =
      balance ledger i + (LedgerWorker.finalPrincipal tx).toInt := by
  simp [balance, postedFor_self]

theorem sum_principals {l : List UniversalPaymentEvent} (h : ∀ tx ∈ l, tx.amount.toNat < 2 ^ 63) :
    (l.map fun tx => (LedgerWorker.finalPrincipal tx).toInt).sum =
      (total (l.filter (!·.isReversal)) : Int) - total (l.filter (·.isReversal)) := by
  induction l with
  | nil => rfl
  | cons tx l ih =>
      have hl := ih fun tx' htx' => h tx' (List.mem_cons_of_mem _ htx')
      have htx := LedgerWorker.toInt_finalPrincipal (h tx List.mem_cons_self)
      rw [List.map_cons, List.sum_cons, hl, htx]
      cases hrev : tx.isReversal <;> simp [total, hrev] <;> omega

/-- The ledger holds what was captured less what was offset. -/
theorem balance_eq (h : ∀ p ∈ ledger, p.2.amount.toNat < 2 ^ 63) (i : Serial) :
    balance ledger i = (total (captures ledger i) : Int) - total (offsets ledger i) := by
  refine sum_principals fun tx htx => ?_
  obtain ⟨p, hp, rfl⟩ := List.mem_map.mp htx
  exact h p (List.mem_filter.mp hp).1

end Postings

/-! ## Outcomes -/

theorem stands_reversed (outcomes : List Outcome) (i : Serial) :
    stands (outcomes ++ [.reversed i]) i = false := by
  simp [stands]

theorem stands_reversed_of_ne {i j : Serial} (h : j ≠ i) (outcomes : List Outcome) :
    stands (outcomes ++ [.reversed j]) i = stands outcomes i := by
  simp [stands, Ne.symm h]

theorem stands_answered_of_ne {i j : Serial} (h : j ≠ i) (outcomes : List Outcome)
    (responseCode : String) :
    stands (outcomes ++ [.answered j responseCode]) i = stands outcomes i := by
  simp [stands, Ne.symm h]

/-- The first answer decides. -/
theorem stands_answered {outcomes : List Outcome} {i : Serial}
    (h : outcomes.any (·.answers i) = false) (responseCode : String) :
    stands (outcomes ++ [.answered i responseCode]) i =
      (decide (responseCode = "00") && decide (.reversed i ∉ outcomes)) := by
  have hnone : .answered i "00" ∉ outcomes := fun hmem => by
    have hany := List.any_eq_false.mp h _ hmem
    simp [Outcome.answers] at hany
  simp [stands, hnone, eq_comm]

namespace Engine

section Step

variable {s t : Engine} {a : Action} {ledger : Postings}

theorem isAnswered_iff {i : Serial} :
    s.IsAnswered i ↔
      ∃ r source reply, .responded r source reply ∈ s.trace ∧ source.serial = some i := by
  rw [IsAnswered, List.any_eq_true]
  constructor
  · rintro ⟨o, ho, hi⟩
    obtain ⟨e, he, heo⟩ := List.mem_filterMap.mp ho
    cases e <;> simp only [Event.outcome, reduceCtorEq, Option.some.injEq] at heo
    case responded r source reply =>
      obtain ⟨j, hj, rfl⟩ := Option.map_eq_some_iff.mp heo
      rw [Outcome.answers, decide_eq_true_eq] at hi
      exact ⟨r, source, reply, he, hi ▸ hj⟩
    case marked => subst heo; cases hi
  · rintro ⟨r, source, reply, he, hi⟩
    refine ⟨.answered i reply.responseCode, List.mem_filterMap.mpr ⟨_, he, ?_⟩,
      decide_eq_true rfl⟩
    rw [Event.outcome, hi]
    rfl

/-- The answers of an instance are the messages to its responder. -/
theorem Reachable.isAnswered_iff_sent {P : Engine → Action → Prop} (hs : Reachable P s) {i : Serial}
    {key : String} {tx : UniversalPaymentEvent} {r : Responder}
    (hi : s.flow.Inserted i key tx (some r)) : s.IsAnswered i ↔ s.flow.Sent r := by
  have howned := hs.flow_free.owned
  rw [isAnswered_iff]
  constructor
  · rintro ⟨r', source, reply, hmem, hserial⟩
    obtain ⟨key', tx', hi'⟩ := howned.sent_serial hmem hserial
    obtain ⟨-, -, hr⟩ := hi.unique hi'
    cases hr
    exact ⟨source, reply, hmem⟩
  · rintro ⟨source, reply, hmem⟩
    cases hserial : source.serial with
    | none =>
        have hfront : source.front = true := by cases source <;> first | rfl | cases hserial
        exact absurd hi (howned.sent_front hmem hfront)
    | some j =>
        obtain ⟨key', tx', hj⟩ := howned.sent_serial hmem hserial
        rw [howned.inserted_inj hj hi] at hserial
        exact ⟨r, source, reply, hmem, hserial⟩

/-- The client of an entry that has its responder is still waiting. -/
theorem Reachable.waiting {P : Engine → Action → Prop} (hs : Reachable P s) {key : String}
    {entry : ActiveTransaction} (hget : s.guard.get key = some entry)
    (hresponder : entry.responder.isSome = true) : ¬ s.IsAnswered entry.serial := by
  obtain ⟨r, hr⟩ := Option.isSome_iff_exists.mp hresponder
  obtain ⟨tx, hi⟩ := hs.flow_free.inserted_responder hget hr
  rw [hs.isAnswered_iff_sent hi]
  exact hs.flow_free.owned.entry_unsent hget hr

theorem outcomes_of_step (hdisowned : s.Disowned) (h : s.step a = some t) :
    t.outcomes = s.outcomes ++ (s.impact a).outcomes := by
  obtain ⟨l, hl, hbooked⟩ := step_booked hdisowned h
  rw [outcomes, hl, List.filterMap_append, hbooked.outcomes, outcomes]

/-! ## Where an impact comes from -/

theorem ofAnswer_cases (entry : ActiveTransaction) (responseCode : String) :
    (Impact.ofAnswer entry responseCode = .none) ∨
      (Impact.ofAnswer entry responseCode = .answer entry responseCode ∧
        entry.responder.isSome = true) := by
  rw [Impact.ofAnswer]
  split
  next h => exact .inr ⟨rfl, h⟩
  next => exact .inl rfl

/-- What a step must have been to have an impact. -/
inductive Origins (s : Engine) : Action → Impact → Prop where
  | none {a : Action} : Origins s a .none
  | capture {w : Nat} {i : Serial} {key : String} {ctx : TransactionContext}
      {destination : RouteDestination} {channel : ChannelId} {ok : Bool} :
      s.ingress w = .carrying i key ctx (.recorded destination channel) →
      Origins s (.ingress w (.outcome ok)) (.capture i ctx.transaction)
  | reverse {w : Nat} {key origStan : String} {ctx : TransactionContext} {scan : Scan}
      {marked : List Serial} {entry : ActiveTransaction} {reversal : UniversalPaymentEvent} :
      s.ingress w = .scanning ctx origStan scan marked → s.guard.get key = some entry →
      reversal = { ctx.transaction with rrn := entry.transactionData.rrn } →
      Origins s (.ingress w (.visit key)) (.reverse entry reversal)
  | answer {a : Action} {key responseCode : String} {entry : ActiveTransaction} :
      s.guard.get key = some entry → entry.responder.isSome = true →
      Origins s a (.answer entry responseCode)

theorem origins_ofAnswer {key : String} {entry : ActiveTransaction}
    (hget : s.guard.get key = some entry) (responseCode : String) :
    s.Origins a (.ofAnswer entry responseCode) := by
  rcases ofAnswer_cases entry responseCode with hnone | ⟨hanswer, hresponder⟩
  · rw [hnone]
    exact .none
  · rw [hanswer]
    exact .answer hget hresponder

theorem origins_impact (s : Engine) (a : Action) : s.Origins a (s.impact a) := by
  cases a with
  | ingress w input =>
      rw [impact]
      unfold workerImpact
      split
      case h_1 hpc => exact .capture hpc
      case h_2 =>
          split
          next entry hget => exact origins_ofAnswer hget _
          next => exact .none
      case h_3 hpc =>
          split
          next entry hget =>
            split
            · exact .reverse hpc hget rfl
            · exact .none
          next => exact .none
      case h_4 => exact .none
  | reaper input =>
      rw [impact]
      unfold reaperImpact
      split
      · split
        next entry hget =>
          split
          · exact origins_ofAnswer hget _
          · exact .none
        next => exact .none
      · exact .none
  | reply w input =>
      rw [impact]
      unfold replyImpact
      split
      · split
        next entry hget =>
          split
          · exact .none
          · exact origins_ofAnswer hget _
        next => exact .none
      · exact .none
  | hsm | bank | probe | tick | storeStip | storeCrdb | storeRouter | pollSanctions => exact .none

end Step

end Engine

/-! ## Contexts that fit -/

/-- The context has an amount that the ledger can hold.  Reversals do not get behind
the guard, and only reversals scan it. -/
def IngressPc.Fits : IngressPc → Prop
  | .received ctx | .cleared ctx | .detokenized ctx | .screened ctx =>
      ctx.transaction.amount.toNat < 2 ^ 63
  | .scanning ctx _ _ _ =>
      ctx.transaction.amount.toNat < 2 ^ 63 ∧ ctx.transaction.isReversal = true
  | .carrying _ _ ctx _ =>
      ctx.transaction.amount.toNat < 2 ^ 63 ∧ ctx.transaction.isReversal = false
  | .idle | .panicked | .evicting _ => True

theorem CarryPath.fits {s : Engine} {i : Serial} {key : String} {ctx : TransactionContext}
    {input : Input} {stage : Stage} {pc : IngressPc} {l : List Event}
    (h : CarryPath s i key ctx input stage pc l)
    (hctx : (IngressPc.carrying i key ctx stage).Fits) : pc.Fits := by
  cases h with
  | journal | route | noRoute | number | record | fail | debit => exact hctx
  | task | unjournaled | decline | send | undecided | decide => trivial
  | fallback =>
      rcases Engine.stipDecision_cases _ ctx with ⟨profile, -, heq⟩ | ⟨rc, -, heq⟩
      · rw [heq]
        exact hctx
      · rw [heq]
        exact hctx

theorem IngressPath.fits {s : Engine} {input : Input} {pc pc' : IngressPc} {l : List Event}
    (h : IngressPath s input pc pc' l) (hpc : pc.Fits)
    (hinput : ∀ tx answerable, input = .receive tx answerable → tx.amount.toNat < 2 ^ 63) :
    pc'.Fits := by
  cases h with
  | receive tx answerable => exact hinput tx answerable rfl
  | panic | answer | evict => trivial
  | clear | plain | detokenize | screen | mark | pass => exact hpc
  | reverse hreversal => exact ⟨hpc, hreversal⟩
  | accept hreversal => exact ⟨hpc, hreversal⟩
  | carry hcarry => exact hcarry.fits hpc

namespace Engine

section Step

variable {s t : Engine} {a : Action} {ledger : Postings}

theorem step_fits (hpcs : ∀ w, (s.ingress w).Fits) (hfits : fits a = true)
    (hstep : s.step a = some t) (w : Nat) : (t.ingress w).Fits := by
  by_cases ha : ∃ input, a = .ingress w input
  · obtain ⟨input, rfl⟩ := ha
    obtain ⟨pc, l, hpath, htook⟩ := ingressStep_path hstep
    rw [htook.ingress, update_self]
    refine hpath.fits (hpcs w) ?_
    rintro tx answerable rfl
    simpa [fits] using hfits
  · rw [step_ingress hstep fun input heq => ha ⟨input, heq⟩]
    exact hpcs w

/-! ## The books of a run -/

theorem amount_of {c : Carried} {tx : UniversalPaymentEvent} (h : c.Of tx) :
    c.tx.amount = tx.amount := by
  rcases h with ⟨-, htx⟩ | ⟨e, -, htx⟩
  · rw [htx]
  · rw [htx]

open Postings

/-- The ledger holds the amount of an instance that stands, and nothing of one that
does not. -/
def BalancedAt (s : Engine) (ledger : Postings) (i : Serial) : Prop :=
  ∃ key tx r, s.flow.Inserted i key tx r ∧
    balance ledger i = if stands s.outcomes i then (tx.amount.toNat : Int) else 0

/-- The ledger is right about every client that has got an answer. -/
def Balanced (s : Engine) (ledger : Postings) : Prop :=
  ∀ i, s.IsAnswered i → s.BalancedAt ledger i

/-- What a run keeps in order. -/
structure Books (s : Engine) (ledger : Postings) : Prop where
  fits : ∀ w, (s.ingress w).Fits
  amounts : ∀ p ∈ ledger, p.2.amount.toNat < 2 ^ 63
  captured : ∀ {i e}, e ∈ captures ledger i →
    ∃ key tx r, s.flow.Inserted i key tx r ∧ e.amount = tx.amount
  once : ∀ i, (captures ledger i).length ≤ 1
  uncaptured : ∀ {w c}, s.flow.carried w = some c → captures ledger c.serial = []
  offset : ∀ i, .reversed i ∈ s.outcomes ↔ offsets ledger i ≠ []
  balanced : s.Balanced ledger

theorem Initial.books (h : s.Initial) : s.Books [] := by
  have houtcomes : s.outcomes = [] := by rw [outcomes, h.trace]; rfl
  constructor
  · intro w
    rw [h.ingress]
    trivial
  · simp
  · intro i e he
    cases he
  · intro i
    exact Nat.zero_le 1
  · intro w c hc
    rfl
  · intro i
    rw [houtcomes]
    simp [offsets, postedFor]
  · intro i hi
    rw [IsAnswered, houtcomes] at hi
    cases hi

namespace Books

variable {P : Engine → Action → Prop}

theorem keep_amounts (hv : s.Books ledger) {p : Serial × UniversalPaymentEvent}
    (hp : p ∈ ledger ++ s.postings a) : p.2.amount.toNat < 2 ^ 63 := by
  rw [List.mem_append, postings] at hp
  rcases hp with hp | hp
  · exact hv.amounts p hp
  · have horigin := origins_impact s a
    generalize s.impact a = impact at hp horigin
    cases horigin with
    | none | answer => cases hp
    | @capture w _ _ _ _ _ _ hpc =>
        cases List.mem_singleton.mp hp
        have hfits := hv.fits w
        rw [hpc] at hfits
        exact hfits.1
    | @reverse w _ _ _ _ _ _ _ hpc _ hreversal =>
        cases List.mem_singleton.mp hp
        subst hreversal
        have hfits := hv.fits w
        rw [hpc] at hfits
        exact hfits.1

theorem isReversal (hv : s.Books ledger) {w : Nat} {ctx : TransactionContext}
    {origStan rrn : String} {scan : Scan} {marked : List Serial} {reversal : UniversalPaymentEvent}
    (hpc : s.ingress w = .scanning ctx origStan scan marked)
    (hreversal : reversal = { ctx.transaction with rrn := rrn }) : reversal.isReversal = true := by
  have hfits := hv.fits w
  rw [hpc] at hfits
  rw [hreversal]
  exact hfits.2

/-- What is captured for an instance before a step and after it. -/
theorem captures_step (hv : s.Books ledger) (i : Serial) :
    captures (ledger ++ s.postings a) i = captures ledger i ∨
      ∃ w key ctx destination channel ok, a = .ingress w (.outcome ok) ∧
        s.ingress w = .carrying i key ctx (.recorded destination channel) ∧
        captures (ledger ++ s.postings a) i = captures ledger i ++ [ctx.transaction] := by
  have horigin := origins_impact s a
  rw [postings]
  generalize s.impact a = impact at horigin
  cases horigin with
  | none | answer => exact .inl (by rw [Impact.postings, List.append_nil])
  | @capture w j key ctx destination channel ok hpc =>
      by_cases hij : j = i
      · subst hij
        have hfits := hv.fits w
        rw [hpc] at hfits
        exact .inr ⟨w, key, ctx, destination, channel, ok, rfl, hpc, captures_capture hfits.2⟩
      · exact .inl (captures_of_ne hij _)
  | @reverse w _ _ _ _ _ entry reversal hpc hget hreversal =>
      exact .inl (captures_offset (hv.isReversal hpc hreversal) entry.serial)

theorem keep_captured (hv : s.Books ledger) (hs : Reachable P s) (hstep : s.step a = some t)
    {i : Serial} {e : UniversalPaymentEvent} (he : e ∈ captures (ledger ++ s.postings a) i) :
    ∃ key tx r, t.flow.Inserted i key tx r ∧ e.amount = tx.amount := by
  obtain ⟨l, hl⟩ : ∃ l, t.flow.trace = s.flow.trace ++ l := step_trace_append hs.disowned hstep
  have hold (he : e ∈ captures ledger i) :
      ∃ key tx r, t.flow.Inserted i key tx r ∧ e.amount = tx.amount := by
    obtain ⟨key, tx, r, hi, hamount⟩ := hv.captured he
    exact ⟨key, tx, r, hi.grow hl, hamount⟩
  rcases hv.captures_step (a := a) i with heq | ⟨w, key, ctx, _, _, _, -, hpc, heq⟩
  · exact hold (heq ▸ he)
  · rw [heq, List.mem_append, List.mem_singleton] at he
    rcases he with he | rfl
    · exact hold he
    · obtain ⟨tx, r, hi, hof⟩ := hs.flow_free.held.carried_inserted (carried_recorded hpc)
      exact ⟨key, tx, r, hi.grow hl, amount_of hof⟩

theorem keep_once (hv : s.Books ledger) (i : Serial) :
    (captures (ledger ++ s.postings a) i).length ≤ 1 := by
  rcases hv.captures_step (a := a) i with heq | ⟨w, key, ctx, _, _, _, -, hpc, heq⟩
  · rw [heq]
    exact hv.once i
  · have hempty : captures ledger i = [] := hv.uncaptured (carried_recorded hpc)
    rw [heq, hempty]
    exact Nat.le_refl 1

/-- The context that is posted is not carried any longer. -/
theorem keep_uncaptured (hv : s.Books ledger) (hs : Reachable P s) (hstep : s.step a = some t)
    {w : Nat} {c : Carried} (hc : t.flow.carried w = some c) :
    captures (ledger ++ s.postings a) c.serial = [] := by
  have hheld := hs.flow_free.held
  have hold : captures ledger c.serial = [] := by
    rcases step_flow hs.disowned hstep with hflow | hmove
    · rw [hflow] at hc
      exact hv.uncaptured hc
    · rcases hmove.carried_cases hc with hc₀ | ⟨tx, r, rfl, -, -⟩ | ⟨c₀, e, hc₀, -, rfl, -⟩
      · exact hv.uncaptured hc₀
      · refine List.eq_nil_iff_forall_not_mem.mpr fun e he => ?_
        obtain ⟨key, tx', r', hi, -⟩ := hv.captured he
        exact absurd hi.lt (Nat.lt_irrefl _)
      · have hempty : captures ledger c₀.serial = [] := hv.uncaptured hc₀
        exact hempty
  rcases hv.captures_step (a := a) c.serial with heq | ⟨w', key, ctx, _, _, ok, rfl, hpc, -⟩
  · exact heq.trans hold
  · exfalso
    have hc' := carried_recorded hpc
    obtain ⟨pc, l, hpath, htook⟩ := ingressStep_path hstep
    rw [hpc] at hpath
    have hgone : pc.carried = none := by
      cases hpath with
      | carry hcarry => cases hcarry <;> rfl
    rw [flow_carried, htook.ingress] at hc
    by_cases hw : w = w'
    · subst hw
      rw [update_self, hgone] at hc
      cases hc
    · rw [update_of_ne hw] at hc
      exact hw (hheld.carried_inj hc hc' rfl)

theorem keep_offset (hv : s.Books ledger) (hs : Reachable P s) (hstep : s.step a = some t)
    (i : Serial) : .reversed i ∈ t.outcomes ↔ offsets (ledger ++ s.postings a) i ≠ [] := by
  have horigin := origins_impact s a
  rw [outcomes_of_step hs.disowned hstep, postings]
  generalize s.impact a = impact at horigin
  cases horigin with
  | none => simpa [Impact.outcomes, Impact.postings] using hv.offset i
  | answer => simpa [Impact.outcomes, Impact.postings] using hv.offset i
  | @capture w j _ _ _ _ _ hpc =>
      have hfits := hv.fits w
      rw [hpc] at hfits
      rw [Impact.postings, offsets_capture hfits.2]
      simpa [Impact.outcomes] using hv.offset i
  | @reverse w _ _ _ _ _ entry reversal hpc hget hreversal =>
      by_cases hi : entry.serial = i
      · rw [Impact.postings, hi, offsets_offset (hv.isReversal hpc hreversal)]
        simp [Impact.outcomes, hi]
      · rw [Impact.postings, offsets_of_ne hi]
        simpa [Impact.outcomes, Ne.symm hi] using hv.offset i

/-- The first answer makes the ledger right, if it is in order. -/
theorem balance_answer (hv : s.Books ledger) (hs : Reachable P s) (responseCode : String)
    {key : String} {entry : ActiveTransaction} {tx : UniversalPaymentEvent} {r : Option Responder}
    (hget : s.guard.get key = some entry)
    (hresponder : entry.responder.isSome = true) (hacc : s.flow.Accounted key entry tx r) :
    (Impact.answer entry responseCode).conserves s.outcomes ledger = true ↔
      balance ledger entry.serial =
        if stands (s.outcomes ++ [.answered entry.serial responseCode]) entry.serial then
          (tx.amount.toNat : Int) else 0 := by
  have hwaiting : s.outcomes.any (·.answers entry.serial) = false :=
    Bool.not_eq_true _ ▸ hs.waiting hget hresponder
  rw [stands_answered hwaiting, balance_eq hv.amounts]
  simp only [Impact.conserves]
  by_cases hoffsets : offsets ledger entry.serial = []
  · have hkept : .reversed entry.serial ∉ s.outcomes := fun hmem =>
      (hv.offset entry.serial).mp hmem hoffsets
    rw [if_pos hoffsets, hacc.transactionData, Bool.or_eq_true, decide_eq_true_eq,
      toPb_amount_eq_zero, hoffsets, decide_eq_true hkept, Bool.and_true]
    have hzero : tx.amount = 0 ↔ tx.amount.toNat = 0 := UInt64.toNat_inj.symm
    -- Nothing was captured, or the request was, once.
    cases hcaptures : captures ledger entry.serial with
    | nil =>
        by_cases hrc : responseCode = "00"
        · simp [total, hrc, hzero]
          omega
        · simp [total, hrc]
    | cons e l =>
        have honce := hv.once entry.serial
        rw [hcaptures, List.length_cons] at honce
        obtain rfl := List.length_eq_zero_iff.mp (show l.length = 0 by omega)
        obtain ⟨_, tx', _, hi, hamount⟩ := hv.captured (hcaptures ▸ List.mem_cons_self)
        obtain ⟨-, rfl, -⟩ := hacc.inserted.unique hi
        by_cases hrc : responseCode = "00" <;> simp [total, hamount, hrc, hzero]
  · have hreversed := (hv.offset entry.serial).mpr hoffsets
    rw [if_neg hoffsets, decide_eq_true_eq, decide_eq_false (not_not_intro hreversed),
      Bool.and_false, if_neg Bool.false_ne_true]
    omega

/-- A reversal of a client that has its answer takes out what the ledger holds, if it
is in order. -/
theorem balance_reverse (hv : s.Books ledger) (hs : Reachable P s) {key : String}
    {entry : ActiveTransaction} {reversal : UniversalPaymentEvent}
    (hget : s.guard.get key = some entry) (hreversal : reversal.isReversal = true)
    (hsmall : reversal.amount.toNat < 2 ^ 63) (hanswered : s.IsAnswered entry.serial) :
    (Impact.reverse entry reversal).conserves s.outcomes ledger = true ↔
      balance (ledger ++ [(entry.serial, reversal)]) entry.serial = 0 := by
  obtain ⟨key', tx, r, hi, hbalance⟩ := hv.balanced _ hanswered
  obtain ⟨tx', r', hacc⟩ := hs.flow_free.accounted hget
  obtain ⟨-, rfl, -⟩ := hacc.inserted.unique hi
  rw [IsAnswered] at hanswered
  simp only [Impact.conserves]
  rw [hanswered, Bool.not_true, Bool.false_or, decide_eq_true_eq, hacc.transactionData,
    toUInt64_toPb_amount, balance_self, hbalance, LedgerWorker.toInt_finalPrincipal hsmall,
    if_pos hreversal, ← UInt64.toNat_inj]
  split
  · omega
  · rw [UInt64.toNat_zero]
    omega

/-- A request that is captured after the answer is in order if it is for nothing. -/
theorem balance_capture (ledger : Postings) {i : Serial} {tx : UniversalPaymentEvent}
    (hcapture : tx.isReversal = false) (hsmall : tx.amount.toNat < 2 ^ 63)
    (hanswered : s.IsAnswered i) :
    (Impact.capture i tx).conserves s.outcomes ledger = true ↔
      balance (ledger ++ [(i, tx)]) i = balance ledger i := by
  rw [IsAnswered] at hanswered
  simp only [Impact.conserves]
  rw [hanswered, Bool.not_true, Bool.or_false, decide_eq_true_eq, balance_self,
    LedgerWorker.toInt_finalPrincipal hsmall, hcapture, if_neg Bool.false_ne_true,
    ← UInt64.toNat_inj, UInt64.toNat_zero]
  omega

/-- What a step does not touch stays right. -/
theorem balancedAt_frame (hv : s.Books ledger) {l : List Event} {ledger' : Postings} {i : Serial}
    (hl : t.flow.trace = s.flow.trace ++ l) (hi : s.IsAnswered i)
    (hstands : stands t.outcomes i = stands s.outcomes i)
    (hbalance : balance ledger' i = balance ledger i) : t.BalancedAt ledger' i := by
  obtain ⟨key, tx, r, hinserted, hold⟩ := hv.balanced i hi
  exact ⟨key, tx, r, hinserted.grow hl, by rw [hbalance, hold, hstands]⟩

/-- A step is in order exactly if it leaves the ledger right. -/
theorem balanced_step (hv : s.Books ledger) (hs : Reachable P s) (hstep : s.step a = some t) :
    (s.impact a).conserves s.outcomes ledger = true ↔ t.Balanced (ledger ++ s.postings a) := by
  obtain ⟨l, hl⟩ : ∃ l, t.flow.trace = s.flow.trace ++ l := step_trace_append hs.disowned hstep
  have houtcomes := outcomes_of_step hs.disowned hstep
  have horigin := origins_impact s a
  rw [postings]
  generalize s.impact a = impact at houtcomes horigin
  cases horigin with
  | none =>
      rw [Impact.outcomes, List.append_nil] at houtcomes
      rw [Impact.postings, List.append_nil]
      refine iff_of_true rfl fun i hi => hv.balancedAt_frame hl ?_ (by rw [houtcomes]) rfl
      rwa [IsAnswered, houtcomes] at hi
  | @capture w j key ctx _ _ _ hpc =>
      rw [Impact.outcomes, List.append_nil] at houtcomes
      have hsame (i : Serial) : t.IsAnswered i ↔ s.IsAnswered i := by
        rw [IsAnswered, houtcomes, IsAnswered]
      have hfits := hv.fits w
      rw [hpc] at hfits
      have hcapture (hj : s.IsAnswered j) := balance_capture ledger hfits.2 hfits.1 hj
      constructor
      · intro hconserves i hi
        rw [hsame] at hi
        refine hv.balancedAt_frame hl hi (by rw [houtcomes]) ?_
        by_cases hij : j = i
        · subst hij
          exact (hcapture hi).mp hconserves
        · exact balance_of_ne hij _
      · intro hbalanced
        by_cases hj : s.IsAnswered j
        · obtain ⟨_, tx, _, hi, hbefore⟩ := hv.balanced j hj
          obtain ⟨_, tx', _, hi', hafter⟩ := hbalanced j ((hsame j).mpr hj)
          obtain ⟨-, rfl, -⟩ := hi'.unique (hi.grow hl)
          rw [houtcomes, ← hbefore] at hafter
          exact (hcapture hj).mpr hafter
        · rw [IsAnswered, Bool.not_eq_true] at hj
          simp only [Impact.conserves]
          rw [hj]
          exact Bool.or_true _
  | @reverse w key _ ctx _ _ entry reversal hpc hget hreversal =>
      have hsmall : reversal.amount.toNat < 2 ^ 63 := by
        have hfits := hv.fits w
        rw [hpc] at hfits
        rw [hreversal]
        exact hfits.1
      have hsame (i : Serial) : t.IsAnswered i ↔ s.IsAnswered i := by
        rw [IsAnswered, houtcomes, IsAnswered, List.any_append]
        simp [Impact.outcomes, Outcome.answers]
      have hreverse := hv.balance_reverse hs hget (hv.isReversal hpc hreversal) hsmall
      constructor
      · intro hconserves i hi
        rw [hsame] at hi
        by_cases hij : entry.serial = i
        · subst hij
          obtain ⟨key, tx, r, hinserted, -⟩ := hv.balanced _ hi
          refine ⟨key, tx, r, hinserted.grow hl, ?_⟩
          rw [houtcomes, Impact.outcomes, stands_reversed]
          exact (hreverse hi).mp hconserves
        · refine hv.balancedAt_frame hl hi ?_ (balance_of_ne hij _)
          rw [houtcomes, Impact.outcomes, stands_reversed_of_ne hij]
      · intro hbalanced
        by_cases hj : s.IsAnswered entry.serial
        · obtain ⟨_, _, _, -, hafter⟩ := hbalanced entry.serial ((hsame _).mpr hj)
          rw [houtcomes, Impact.outcomes, stands_reversed] at hafter
          exact (hreverse hj).mpr hafter
        · rw [IsAnswered, Bool.not_eq_true] at hj
          simp only [Impact.conserves]
          rw [hj]
          rfl
  | @answer _ key responseCode entry hget hresponder =>
      obtain ⟨tx, r, hacc⟩ := hs.flow_free.accounted hget
      have hanswer := hv.balance_answer hs responseCode hget hresponder hacc
      have hsame {i : Serial} (hi : entry.serial ≠ i) : t.IsAnswered i ↔ s.IsAnswered i := by
        rw [IsAnswered, houtcomes, IsAnswered, List.any_append]
        simp [Impact.outcomes, Outcome.answers, hi]
      rw [Impact.postings, List.append_nil, hanswer]
      constructor
      · intro hbalance i hi
        by_cases hij : entry.serial = i
        · subst hij
          exact ⟨key, tx, r, hacc.inserted.grow hl, by rw [houtcomes]; exact hbalance⟩
        · refine hv.balancedAt_frame hl ((hsame hij).mp hi) ?_ rfl
          rw [houtcomes, Impact.outcomes, stands_answered_of_ne hij]
      · intro hbalanced
        have hi : t.IsAnswered entry.serial := by
          rw [IsAnswered, houtcomes, List.any_append]
          simp [Impact.outcomes, Outcome.answers]
        obtain ⟨_, tx', _, hi', hafter⟩ := hbalanced entry.serial hi
        obtain ⟨-, rfl, -⟩ := hi'.unique (hacc.inserted.grow hl)
        rw [houtcomes] at hafter
        exact hafter

theorem keep (hv : s.Books ledger) (hs : Reachable P s) (hstep : s.step a = some t)
    (hc : Conserves (s, ledger) a) : t.Books (ledger ++ s.postings a) where
  fits := step_fits hv.fits hc.1 hstep
  amounts _ := hv.keep_amounts
  captured := hv.keep_captured hs hstep
  once := hv.keep_once
  uncaptured := hv.keep_uncaptured hs hstep
  offset := hv.keep_offset hs hstep
  balanced := (hv.balanced_step hs hstep).mp hc.2

end Books

end Step

/-- The run is over: every accepted transaction was answered. -/
def Settled (s : Engine) : Prop :=
  ∀ i key tx r, s.flow.Inserted i key tx r → s.IsAnswered i

theorem Noted.reachable {p : Engine × Postings}
    (hp : Transition.Noted Initial step postings Conserves p) : Reachable Transition.Free p.1 :=
  Transition.Noted.state (fun _ _ _ => trivial) hp

theorem Noted.books {p : Engine × Postings}
    (hp : Transition.Noted Initial step postings Conserves p) : p.1.Books p.2 := by
  refine hp.invariant (I := fun p => p.1.Books p.2) (fun p hp => ?_)
    fun p q hp hv ⟨a, hc, hstep⟩ => ?_
  · rw [hp.2]
    exact hp.1.books
  · obtain ⟨hstep, hledger⟩ := Transition.noting_eq_some hstep
    rw [hledger]
    exact hv.keep (Noted.reachable hp) hstep hc

/-- Where every step is in order, the ledger holds the amount of a transaction that
stands and nothing of one that does not. -/
theorem ledger_conservation {p : Engine × Postings}
    (hp : Transition.Noted Initial step postings Conserves p) (hsettled : p.1.Settled) {i : Serial}
    {key : String} {tx : UniversalPaymentEvent} {responder : Option Responder}
    (hi : p.1.flow.Inserted i key tx responder) :
    p.2.balance i = if stands p.1.outcomes i then (tx.amount.toNat : Int) else 0 := by
  obtain ⟨key', tx', r, hi', hbalance⟩ :=
    (Noted.books hp).balanced i (hsettled i key tx responder hi)
  obtain ⟨-, rfl, -⟩ := hi.unique hi'
  exact hbalance

/-- The first step that is not in order leaves the ledger wrong about somebody. -/
theorem conserves_iff_balanced {p q : Engine × Postings} {a : Action}
    (hp : Transition.Noted Initial step postings Conserves p)
    (hstep : Transition.noting step postings p a = some q) (hfits : fits a = true) :
    Conserves p a ↔ q.1.Balanced q.2 := by
  obtain ⟨hstep, hledger⟩ := Transition.noting_eq_some hstep
  rw [hledger, ← (Noted.books hp).balanced_step (Noted.reachable hp) hstep, Conserves, hfits]
  exact and_iff_right rfl

/-! ## A purchase in order, and one that is declined -/

theorem settled_iff {s : Engine} :
    s.Settled ↔ ∀ i < s.trace.length, ∀ e ∈ s.trace[i]?, e.isInserted = true → s.IsAnswered i := by
  constructor
  · intro h i hlt e he hinserted
    cases e <;> simp only [Event.isInserted, Bool.false_eq_true] at hinserted
    exact h i _ _ _ he
  · intro h i key tx r hi
    exact h i hi.lt _ hi rfl

instance (s : Engine) : Decidable s.Settled := decidable_of_iff' _ settled_iff

/-- A run from the start, with its postings. -/
def posting (actions : List Action) : Engine × Postings :=
  Transition.noted step postings (start 100 ∅) actions

/-- The bank approves, and the client has its answer. -/
def approved : List Action :=
  asked ++ [.bank purchaseApproval, .reply 0 .run, .reply 0 (.outcome true)]

/-- The bank declines. -/
def declined : List Action :=
  asked ++ bankAnswer 0
    ⟨{ purchaseApproval.transaction with responseCode := "05" }, purchaseApproval.answers⟩

theorem posting_noted {P : Engine × Postings → Action → Prop} [∀ p a, Decidable (P p a)]
    {actions : List Action}
    (h : Transition.complies (Transition.noting step postings) P (start 100 ∅, []) actions = true) :
    Transition.Noted Initial step postings P (posting actions) :=
  Transition.Noted.of_complies (start_initial 100 ∅) h

set_option maxRecDepth 8000 in
/-- The amount is in the ledger while the purchase stands, and out of it once it is
reversed. -/
theorem ledger_conservation_purchase :
    (posting approved).2.balance 1 = 1000 ∧
      (posting (approved ++ acknowledge 1)).2.balance 1 = 0 := by
  constructor
  · exact (ledger_conservation (posting_noted (by decide)) (by decide)
      (show (posting approved).1.flow.Inserted 1 "RRN000000001-000100-ACQ1"
        (purchase "000100" "RRN000000001") (some 0) by decide)).trans (by decide)
  · exact (ledger_conservation (posting_noted (by decide)) (by decide)
      (show (posting (approved ++ acknowledge 1)).1.flow.Inserted 1 "RRN000000001-000100-ACQ1"
        (purchase "000100" "RRN000000001") (some 0) by decide)).trans (by decide)

set_option maxRecDepth 8000 in
/-- What was posted for a declined purchase stays in the ledger. -/
theorem ledger_conservation_declined : ¬ ∀ p : Engine × Postings,
    Transition.Noted Initial step postings (fun p a => Transition.Free p.1 a) p → p.1.Settled →
    ∀ (i : Serial) (key : String) (tx : UniversalPaymentEvent) (responder : Option Responder),
      p.1.flow.Inserted i key tx responder →
        p.2.balance i = if stands p.1.outcomes i then (tx.amount.toNat : Int) else 0 := by
  intro h
  have hbalance := h (posting declined) (posting_noted (by decide)) (by decide) 1
    "RRN000000001-000100-ACQ1" (purchase "000100" "RRN000000001") (some 0) (by decide)
  exact absurd hbalance (by decide)

end Engine

end Iso8583Switch
