import Iso8583Switch.Daemon.GeneralLedger
import Iso8583Switch.Flow.Impacts
import Iso8583Switch.Flow.Runs
import Mathlib.Algebra.Order.BigOperators.Group.List

/-!
# Reversals and settlement

The row of a reversal has a status that no update settles.  So the settled rows are
the captures, all of them once `trigger_settlement` has run, and a reversal takes
nothing off their sum.  `Books` is the invariant: the rows book the posted events in
order, and the status of a row says whether it books a capture or a reversal.
-/

namespace Iso8583Switch

open Text

def LedgerUpdate.posting : LedgerUpdate → Option (Serial × UniversalPaymentEvent)
  | .insert _ _ i tx => some (i, tx)
  | .startCron _ | .triggerSettlement => none

namespace GeneralLedger

variable {ledger ledger' : GeneralLedger} {posted : Postings} {updates : List LedgerUpdate}

/-! ## The postings of a sequence of updates -/

def postings (updates : List LedgerUpdate) : Postings := updates.filterMap LedgerUpdate.posting

def captured (posted : Postings) : Postings := posted.filter (!·.2.isReversal)

def reversals (posted : Postings) : Postings := posted.filter (·.2.isReversal)

def isReversed (posted : Postings) (i : Serial) : Bool := (reversals posted).any (·.1 = i)

/-- A transaction is captured once at most.  It is reversed once at most, with the
amount that is captured before or after. -/
structure Paired (posted : Postings) : Prop where
  capturedOnce : (captured posted).Pairwise (·.1 ≠ ·.1)
  reversedOnce : (reversals posted).Pairwise (·.1 ≠ ·.1)
  amount : ∀ r ∈ reversals posted, ∃ c ∈ captured posted, c.1 = r.1 ∧ c.2.amount = r.2.amount

/-- The settled rows hold what was captured and not reversed, and nothing of a
transaction that was reversed. -/
structure NetsReversals (posted : Postings) (ledger : GeneralLedger) : Prop where
  total : ledger.settledTotal =
    Postings.total (((captured posted).filter fun c => !isReversed posted c.1).map Prod.snd)
  net : ∀ i, isReversed posted i = true → ledger.settledFor i = 0

theorem mem_captured {c : Serial × UniversalPaymentEvent} :
    c ∈ captured posted ↔ c ∈ posted ∧ c.2.isReversal = false := by
  simp [captured]

/-! ## The rows of the postings -/

end GeneralLedger

/-- What a row books: for which transaction, how much, and whether it is an offset. -/
def GeneralLedgerRow.booking (row : GeneralLedgerRow) : Serial × Int64 × Bool :=
  (row.serial, row.principalAmount, row.status = "reversed_offset_hold")

namespace LedgerWorker

theorem row_principalAmount {worker : LedgerWorker} {tx : UniversalPaymentEvent} {row : LedgerRow}
    (h : worker.row tx = some row) : row.principalAmount = finalPrincipal tx := by
  simp only [LedgerWorker.row, Option.bind_eq_bind, Option.bind_eq_some_iff, Option.some.injEq] at h
  obtain ⟨_, -, _, -, _, -, rfl⟩ := h
  rfl

theorem row_status {worker : LedgerWorker} {tx : UniversalPaymentEvent} {row : LedgerRow}
    (h : worker.row tx = some row) :
    row.status = if tx.isReversal then "reversed_offset_hold" else "shadow" := by
  simp only [LedgerWorker.row, Option.bind_eq_bind, Option.bind_eq_some_iff, Option.some.injEq] at h
  obtain ⟨_, -, _, -, _, -, rfl⟩ := h
  rfl

end LedgerWorker

namespace GeneralLedger

structure Books (posted : Postings) (ledger : GeneralLedger) : Prop where
  rows : ledger.map GeneralLedgerRow.booking =
    posted.map fun p => (p.1, LedgerWorker.finalPrincipal p.2, p.2.isReversal)
  status : ∀ row ∈ ledger,
    row.status = "shadow" ∨ row.status = "settled" ∨ row.status = "reversed_offset_hold"

/-- A settlement changes no booking. -/
theorem booking_settleWhere (due : GeneralLedgerRow → Bool) (ledger : GeneralLedger) :
    (ledger.settleWhere due).map GeneralLedgerRow.booking =
      ledger.map GeneralLedgerRow.booking := by
  rw [settleWhere, List.map_map]
  refine List.map_congr_left fun row _ => ?_
  show GeneralLedgerRow.booking (if row.status = "shadow" && due row then _ else row) = row.booking
  split
  next hdue =>
    rw [Bool.and_eq_true, decide_eq_true_eq] at hdue
    simp [GeneralLedgerRow.booking, hdue.1]
  next => rfl

theorem Books.settleWhere (h : Books posted ledger) (due : GeneralLedgerRow → Bool) :
    Books posted (ledger.settleWhere due) where
  rows := by rw [booking_settleWhere, h.rows]
  status := by
    intro row hrow
    obtain ⟨old, hold, rfl⟩ := List.mem_map.mp hrow
    split
    next => exact .inr (.inl rfl)
    next => exact h.status old hold

theorem Books.insert (h : Books posted ledger) {worker : LedgerWorker} {tx : UniversalPaymentEvent}
    {row : LedgerRow} (hrow : worker.row tx = some row) (now : Nat) (i : Serial) :
    Books (posted ++ [(i, tx)])
      (ledger ++ [{ row with bookingTimestamp := now, serial := i }]) where
  rows := by
    have hoffset : decide (row.status = "reversed_offset_hold") = tx.isReversal := by
      rw [LedgerWorker.row_status hrow]
      cases tx.isReversal with
      | true => rfl
      | false => rfl
    rw [List.map_append, List.map_append, h.rows, List.map_singleton, List.map_singleton]
    show _ ++ [(i, row.principalAmount, decide (row.status = "reversed_offset_hold"))] = _
    rw [hoffset, LedgerWorker.row_principalAmount hrow]
  status := by
    intro r hr
    rcases List.mem_append.mp hr with hr | hr
    · exact h.status r hr
    · cases List.mem_singleton.mp hr
      show row.status = _ ∨ row.status = _ ∨ row.status = _
      rw [LedgerWorker.row_status hrow]
      cases tx.isReversal with
      | true => exact .inr (.inr rfl)
      | false => exact .inl rfl

theorem Books.update (h : Books posted ledger) {u : LedgerUpdate}
    (hu : ledger.update u = some ledger') : Books (posted ++ u.posting.toList) ledger' := by
  cases u with
  | insert worker now i tx =>
      obtain ⟨row, hrow, rfl⟩ := Option.map_eq_some_iff.mp hu
      exact h.insert hrow now i
  | startCron now =>
      cases hu
      rw [LedgerUpdate.posting, Option.toList_none, List.append_nil]
      exact h.settleWhere _
  | triggerSettlement =>
      cases hu
      rw [LedgerUpdate.posting, Option.toList_none, List.append_nil]
      exact h.settleWhere _

theorem Books.exec (h : Books posted ledger)
    (hrun : Transition.exec GeneralLedger.update ledger updates = some ledger') :
    Books (posted ++ postings updates) ledger' := by
  induction updates generalizing ledger posted with
  | nil =>
      cases hrun
      rw [postings, List.filterMap_nil, List.append_nil]
      exact h
  | cons u updates ih =>
      obtain ⟨next, hnext, hrest⟩ := Option.bind_eq_some_iff.mp hrun
      have hbooks := ih (h.update hnext) hrest
      have hpostings : postings (u :: updates) = u.posting.toList ++ postings updates := by
        rw [postings, List.filterMap_cons]
        cases u.posting with
        | none => rfl
        | some p => rfl
      rw [hpostings, ← List.append_assoc]
      exact hbooks

/-! ## What is settled after `trigger_settlement` -/

theorem status_triggerSettlement (h : Books posted ledger) :
    ∀ row ∈ ledger.triggerSettlement,
      row.status = "settled" ∨ row.status = "reversed_offset_hold" := by
  intro row hrow
  obtain ⟨old, hold, rfl⟩ := List.mem_map.mp hrow
  rcases h.status old hold with hs | hs | hs
  · simp [hs]
  · simp [hs]
  · simp [hs]

/-- The captures are settled, with their casted amounts, and nothing else is. -/
theorem settled_triggerSettlement (h : Books posted ledger) :
    ledger.triggerSettlement.settled.map (fun row => (row.serial, row.principalAmount)) =
      (captured posted).map fun c => (c.1, c.2.amount.toInt64) := by
  have hstatus := status_triggerSettlement h
  have hbooked := (h.settleWhere fun _ => true).rows
  have hfilter : ledger.triggerSettlement.settled =
      ledger.triggerSettlement.filter fun row => !row.booking.2.2 := by
    refine List.filter_congr fun row hrow => ?_
    rcases hstatus row hrow with hs | hs <;> simp [GeneralLedgerRow.booking, hs]
  calc ledger.triggerSettlement.settled.map (fun row => (row.serial, row.principalAmount))
      = ((ledger.triggerSettlement.map GeneralLedgerRow.booking).filter (!·.2.2)).map
          fun b => (b.1, b.2.1) := by
        rw [hfilter, List.filter_map, List.map_map]
        rfl
    _ = ((posted.map fun p => (p.1, LedgerWorker.finalPrincipal p.2, p.2.isReversal)).filter
          (!·.2.2)).map fun b => (b.1, b.2.1) := by
        rw [← hbooked]
        rfl
    _ = (captured posted).map fun c => (c.1, c.2.amount.toInt64) := by
        rw [List.filter_map, List.map_map]
        refine List.map_congr_left fun c hc => ?_
        have hcapture := (mem_captured.mp hc).2
        simp [LedgerWorker.finalPrincipal, hcapture]

theorem settledTotal_triggerSettlement (h : Books posted ledger) :
    ledger.triggerSettlement.settledTotal =
      ((captured posted).map fun c => c.2.amount.toInt64.toInt).sum := by
  have hsettled :=
    congrArg (List.map fun b : Serial × Int64 => b.2.toInt) (settled_triggerSettlement h)
  rw [List.map_map, List.map_map] at hsettled
  exact congrArg List.sum hsettled

theorem settledFor_triggerSettlement (h : Books posted ledger) (i : Serial) :
    ledger.triggerSettlement.settledFor i =
      (((captured posted).filter (·.1 = i)).map fun c => c.2.amount.toInt64.toInt).sum := by
  have hsettled := congrArg
    (fun l : List (Serial × Int64) => (l.filter (·.1 = i)).map (·.2.toInt))
    (settled_triggerSettlement h)
  simp only [List.filter_map, List.map_map] at hsettled
  exact congrArg List.sum hsettled

/-! ## The amounts -/

/-- The cast of an amount loses the values with the sign bit. -/
theorem toInt_toInt64_cases (amount : UInt64) :
    amount.toNat < 2 ^ 63 ∧ amount.toInt64.toInt = amount.toNat ∨
      2 ^ 63 ≤ amount.toNat ∧ amount.toInt64.toInt = amount.toNat - 2 ^ 64 := by
  by_cases h : amount.toNat < 2 ^ 63
  · exact .inl ⟨h, toInt_toInt64 h⟩
  · refine .inr ⟨Nat.le_of_not_lt h, ?_⟩
    have hcast : amount.toInt64.toInt = amount.toBitVec.toInt := rfl
    rw [hcast, BitVec.toInt_eq_toNat_cond, UInt64.toNat_toBitVec, if_neg (by omega)]
    rfl

theorem toInt_toInt64_eq_zero {amount : UInt64} : amount.toInt64.toInt = 0 ↔ amount = 0 := by
  constructor
  · intro h
    have hlt := amount.toNat_lt
    refine UInt64.toNat_inj.mp ?_
    show amount.toNat = 0
    rcases toInt_toInt64_cases amount with hcase | hcase
    · omega
    · omega
  · intro h
    rw [h]
    rfl

theorem sum_toInt64_le (l : Postings) :
    (l.map fun c => c.2.amount.toInt64.toInt).sum ≤ (Postings.total (l.map Prod.snd) : Int) := by
  induction l with
  | nil => exact Int.le_refl _
  | cons c l ih =>
      simp only [Postings.total, List.map_cons, List.sum_cons, Nat.cast_add] at ih ⊢
      rcases toInt_toInt64_cases c.2.amount with hcase | hcase
      · omega
      · omega

/-- The casts add up to the amounts where they keep all of them. -/
theorem sum_toInt64_eq_iff (l : Postings) :
    (l.map fun c => c.2.amount.toInt64.toInt).sum = (Postings.total (l.map Prod.snd) : Int) ↔
      ∀ c ∈ l, c.2.amount.toNat < 2 ^ 63 := by
  induction l with
  | nil => simp [Postings.total]
  | cons c l ih =>
      have hle := sum_toInt64_le l
      rw [List.forall_mem_cons, ← ih]
      simp only [Postings.total, List.map_cons, List.sum_cons, Nat.cast_add] at hle ⊢
      rcases toInt_toInt64_cases c.2.amount with hcase | hcase
      · constructor
        · intro h
          exact ⟨hcase.1, by omega⟩
        · intro h
          omega
      · constructor
        · intro h
          omega
        · intro h
          omega

/-- What has no amount may be left out of the total. -/
theorem total_filter {l : Postings} {p : Serial × UniversalPaymentEvent → Bool}
    (h : ∀ c ∈ l, p c = false → c.2.amount = 0) :
    Postings.total ((l.filter p).map Prod.snd) = Postings.total (l.map Prod.snd) := by
  induction l with
  | nil => rfl
  | cons c l ih =>
      have htail := ih fun c' hc' => h c' (List.mem_cons_of_mem _ hc')
      rw [List.filter_cons]
      split
      next =>
        simp only [Postings.total, List.map_cons, List.sum_cons] at htail ⊢
        rw [htail]
      next hp =>
        have hzero := h c List.mem_cons_self (Bool.eq_false_iff.mpr hp)
        simp only [Postings.total, List.map_cons, List.sum_cons] at htail ⊢
        rw [htail, hzero]
        exact (Nat.zero_add _).symm

theorem filter_serial {l : Postings} (honce : l.Pairwise (·.1 ≠ ·.1))
    {c : Serial × UniversalPaymentEvent} (hc : c ∈ l) : l.filter (·.1 = c.1) = [c] := by
  induction l with
  | nil => cases hc
  | cons d l ih =>
      obtain ⟨hhead, htail⟩ := List.pairwise_cons.mp honce
      rcases List.mem_cons.mp hc with rfl | hc
      · have hnone : l.filter (·.1 = c.1) = [] :=
          List.filter_eq_nil_iff.mpr fun d hd => by simpa using (hhead d hd).symm
        rw [List.filter_cons, if_pos (decide_eq_true rfl), hnone]
      · rw [List.filter_cons, if_neg (by simpa using hhead c hc)]
        exact ih htail hc

theorem Paired.settledFor_eq (hpaired : Paired posted) (h : Books posted ledger)
    {c : Serial × UniversalPaymentEvent} (hc : c ∈ captured posted) :
    ledger.triggerSettlement.settledFor c.1 = c.2.amount.toInt64.toInt := by
  rw [settledFor_triggerSettlement h, filter_serial hpaired.capturedOnce hc, List.map_singleton,
    List.sum_singleton]

theorem Paired.exists_capture (hpaired : Paired posted) {i : Serial}
    (hi : isReversed posted i = true) : ∃ c ∈ captured posted, c.1 = i := by
  obtain ⟨r, hr, hri⟩ := List.any_eq_true.mp hi
  obtain ⟨c, hc, hcr, -⟩ := hpaired.amount r hr
  exact ⟨c, hc, hcr.trans (of_decide_eq_true hri)⟩

/-- Captures and reversals net in the settled rows if no capture with an amount is
reversed, and only then. -/
theorem Books.netsReversals_iff (h : Books posted ledger) (hpaired : Paired posted) :
    NetsReversals posted ledger.triggerSettlement ↔
      (∀ c ∈ captured posted, isReversed posted c.1 = true → c.2.amount = 0) ∧
        ∀ c ∈ captured posted, c.2.amount.toNat < 2 ^ 63 := by
  have htotal (hzero : ∀ c ∈ captured posted, isReversed posted c.1 = true → c.2.amount = 0) :
      Postings.total (((captured posted).filter fun c => !isReversed posted c.1).map Prod.snd) =
        Postings.total ((captured posted).map Prod.snd) :=
    total_filter fun c hc hrev => hzero c hc (by simpa using hrev)
  constructor
  · intro hnets
    have hzero : ∀ c ∈ captured posted, isReversed posted c.1 = true → c.2.amount = 0 := by
      intro c hc hrev
      have hnet := hnets.net c.1 hrev
      rw [hpaired.settledFor_eq h hc] at hnet
      exact toInt_toInt64_eq_zero.mp hnet
    refine ⟨hzero, (sum_toInt64_eq_iff _).mp ?_⟩
    rw [← settledTotal_triggerSettlement h, hnets.total, htotal hzero]
  · rintro ⟨hzero, hfits⟩
    constructor
    · rw [settledTotal_triggerSettlement h, htotal hzero]
      exact (sum_toInt64_eq_iff _).mpr hfits
    · intro i hi
      obtain ⟨c, hc, rfl⟩ := hpaired.exists_capture hi
      rw [hpaired.settledFor_eq h hc]
      exact toInt_toInt64_eq_zero.mpr (hzero c hc hi)

theorem Books.empty : Books [] [] where
  rows := rfl
  status := List.forall_mem_nil _

theorem reversed_settled_iff {updates : List LedgerUpdate} {ledger : GeneralLedger}
    (hpaired : Paired (postings updates))
    (hrun : Transition.exec update [] (updates ++ [.triggerSettlement]) = some ledger) :
    NetsReversals (postings updates) ledger ↔
      (∀ c ∈ captured (postings updates),
          isReversed (postings updates) c.1 = true → c.2.amount = 0) ∧
        ∀ c ∈ captured (postings updates), c.2.amount.toNat < 2 ^ 63 := by
  rw [Transition.exec_append] at hrun
  obtain ⟨before, hbefore, hlast⟩ := Option.bind_eq_some_iff.mp hrun
  cases hlast
  exact (Books.empty.exec hbefore).netsReversals_iff hpaired

/-- A purchase, its reversal a minute later, and a run of the job in between. -/
def reversedPurchase : List LedgerUpdate :=
  [.insert ⟨∅, ∅⟩ 0 1 (purchase "000100" "RRN000000001"), .startCron 61,
    .insert ⟨∅, ∅⟩ 62 1 terminalReversal]

def afterSettlement : GeneralLedger :=
  (Transition.exec update [] (reversedPurchase ++ [.triggerSettlement])).getD []

theorem exec_reversedPurchase :
    Transition.exec update [] (reversedPurchase ++ [.triggerSettlement]) = some afterSettlement :=
  rfl

theorem paired_reversedPurchase : Paired (postings reversedPurchase) where
  capturedOnce := by decide
  reversedOnce := by decide
  amount := by decide

theorem reversed_settled_iff_purchase :
    NetsReversals (postings reversedPurchase) afterSettlement ↔
      (∀ c ∈ captured (postings reversedPurchase),
          isReversed (postings reversedPurchase) c.1 = true → c.2.amount = 0) ∧
        ∀ c ∈ captured (postings reversedPurchase), c.2.amount.toNat < 2 ^ 63 :=
  reversed_settled_iff paired_reversedPurchase exec_reversedPurchase

/-- The purchase stays settled with its whole amount. -/
theorem purchase_stays_settled : ¬ ∀ (updates : List LedgerUpdate) (ledger : GeneralLedger),
    Paired (postings updates) →
    Transition.exec update [] (updates ++ [.triggerSettlement]) = some ledger →
      NetsReversals (postings updates) ledger := by
  intro h
  have hnets := h _ _ paired_reversedPurchase exec_reversedPurchase
  exact absurd (hnets.net 1 (by decide)) (by decide)

end GeneralLedger

end Iso8583Switch
