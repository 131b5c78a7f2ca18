import Iso8583Switch.Daemon.Bookkeeping
import Iso8583Switch.Properties.Conservation
import Iso8583Switch.Properties.LedgerPosting
import Iso8583Switch.Properties.ReversedSettlement
import Mathlib.Algebra.Order.Group.Multiset
import Mathlib.Tactic.Abel

/-!
# The liquidity report

Every posting of a run is in the table, on its way or lost, and in one of these places only
(`Accounts`).  A settlement gives a capture another status and leaves a reversal alone, so for
an institution the report adds up to what is booked: the reversals under their own status, and
the captures under the other two (`liquidity_balances`).

The fee of a row is that of the caches at the time of its batch.  A reversal does not take back
the fee of its capture, if the rules have changed.

A round in which every statement succeeds is one of the loop that `LedgerPosting` is about
(`loop_round`).
-/

namespace Iso8583Switch

open Text GroupedTotals

/-- A posting that is in the table, with the row that was inserted for it. -/
structure Booking where
  serial : Serial
  transaction : UniversalPaymentEvent
  row : LedgerRow
  made : IsRow transaction row

namespace Booking

def posting (b : Booking) : Serial × UniversalPaymentEvent := (b.serial, b.transaction)

/-- The row of the table is the one that was inserted.  Only a capture is ever settled. -/
structure HasRow (b : Booking) (row : GeneralLedgerRow) : Prop where
  serial : row.serial = b.serial
  content : row.toLedgerRow = { b.row with status := row.status }
  status : if b.transaction.isReversal then row.status = "reversed_offset_hold"
    else row.status = "shadow" ∨ row.status = "settled"

variable {b : Booking} {row : GeneralLedgerRow}

theorem HasRow.amount (h : b.HasRow row) : row.amount = b.row.amount := by
  rw [h.content]
  rfl

theorem HasRow.institutionId (h : b.HasRow row) : row.institutionId = b.row.institutionId := by
  rw [h.content]

theorem HasRow.principalAmount (h : b.HasRow row) :
    row.principalAmount = LedgerWorker.finalPrincipal b.transaction := by
  obtain ⟨worker, hrow⟩ := b.made
  rw [h.content, ← LedgerWorker.row_principalAmount hrow]

theorem HasRow.isReversal (h : b.HasRow row) :
    decide (row.status = "reversed_offset_hold") = b.transaction.isReversal := by
  have hstatus := h.status
  cases hrev : b.transaction.isReversal with
  | true =>
      rw [hrev, if_pos rfl] at hstatus
      rw [hstatus]
      rfl
  | false =>
      rw [hrev, if_neg Bool.false_ne_true] at hstatus
      rcases hstatus with hstatus | hstatus <;> rw [hstatus] <;> rfl

/-- A row that is inserted has the status of its event. -/
theorem hasRow_inserted {worker : LedgerWorker} {tx : UniversalPaymentEvent} {inserted : LedgerRow}
    (hrow : worker.row tx = some inserted) (now : Nat) (i : Serial) :
    (Booking.mk i tx inserted ⟨worker, hrow⟩).HasRow
      { inserted with bookingTimestamp := now, serial := i } where
  serial := rfl
  content := rfl
  status := by
    dsimp only
    rw [LedgerWorker.row_status hrow]
    split
    next => rfl
    next => exact .inl rfl

/-- A settlement changes the status of a capture. -/
theorem HasRow.settle (h : b.HasRow row) (due : GeneralLedgerRow → Bool) :
    b.HasRow
      (if row.status = "shadow" && due row then { row with status := "settled" } else row) := by
  split
  next hdue =>
    rw [Bool.and_eq_true, decide_eq_true_eq] at hdue
    refine ⟨h.serial, ?_, ?_⟩
    · dsimp only
      rw [h.content]
    · have hrev := h.isReversal
      rw [hdue.1] at hrev
      rw [← hrev, if_neg (by decide)]
      exact .inr rfl
  next => exact h

end Booking

/-- A transaction books every event of its batch or refuses it. -/
theorem bookBatch_eq_some {now : Nat} {caches : Nat → LedgerWorker} {inserts : Nat → Bool}
    {batch : Postings} {rows : GeneralLedger} (h : bookBatch now caches inserts batch = some rows) :
    ∃ booked : List Booking, List.Forall₂ Booking.HasRow booked rows ∧
      batch.Perm (booked.map Booking.posting ++ refused inserts batch) := by
  induction batch generalizing caches inserts rows with
  | nil =>
      cases h
      exact ⟨[], .nil, .nil⟩
  | cons p batch ih =>
      obtain ⟨i, tx⟩ := p
      rw [bookBatch] at h
      obtain ⟨row, hrow, h⟩ := Option.bind_eq_some_iff.mp h
      obtain ⟨rest, hrest, h⟩ := Option.bind_eq_some_iff.mp h
      cases h
      obtain ⟨booked, hrows, hperm⟩ := ih hrest
      cases hinsert : inserts 0 with
      | false =>
          refine ⟨booked, ?_, ?_⟩
          · rw [if_neg Bool.false_ne_true]
            exact hrows
          · simp only [refused, hinsert, Bool.false_eq_true, if_false]
            exact (hperm.cons _).trans List.perm_middle.symm
      | true =>
          refine ⟨⟨i, tx, row, _, hrow⟩ :: booked, ?_, ?_⟩
          · rw [if_pos rfl]
            exact .cons (Booking.hasRow_inserted hrow now i) hrows
          · simp only [refused, hinsert, if_true]
            exact hperm.cons _

theorem BookingRound.rows_eq_some {r : BookingRound} {batch : Postings} {rows : GeneralLedger}
    (h : r.rows batch = some rows) : bookBatch r.now r.caches r.inserts batch = some rows := by
  rw [BookingRound.rows] at h
  split at h
  next => exact h
  next => cases h

/-! ## The books of a run -/

namespace Bookkeeping

@[simp] theorem posts_round (k : Bookkeeping) (r : BookingRound) : k.posts (.round r) = [] := rfl

@[simp] theorem posts_startCron (k : Bookkeeping) (now : Nat) : k.posts (.startCron now) = [] := rfl

@[simp] theorem posts_triggerSettlement (k : Bookkeeping) : k.posts .triggerSettlement = [] := rfl

/-- What was posted is booked, lost, in the buffer or in the channel. -/
structure Accounts (p : Bookkeeping × Postings) (booked : List Booking) : Prop where
  rows : List.Forall₂ Booking.HasRow booked p.1.generalLedger
  postings : (p.2 : Multiset (Serial × UniversalPaymentEvent)) =
    ↑(booked.map Booking.posting) + ↑p.1.lost + ↑p.1.batchBuffer + ↑p.1.channel

variable {k k' : Bookkeeping} {posted : Postings} {booked : List Booking}

/-- A step may book nothing. -/
theorem Accounts.unbooked (h : Accounts (k, posted) booked) :
    ∃ more, Accounts (k, posted) (booked ++ more) := by
  refine ⟨[], ?_⟩
  rw [List.append_nil]
  exact h

theorem Accounts.settle (h : Accounts (k, posted) booked) (due : GeneralLedgerRow → Bool) :
    Accounts ({ k with generalLedger := k.generalLedger.settleWhere due }, posted) booked where
  rows := List.forall₂_map_right_iff.mpr (h.rows.imp fun _ _ hrow => hrow.settle due)
  postings := h.postings

theorem Accounts.send (h : Accounts (k, posted) booked) {more : Postings}
    (hsend : k.send more = some k') : Accounts (k', posted ++ more) booked := by
  have hpostings := h.postings
  rw [Bookkeeping.send] at hsend
  split at hsend
  next =>
    cases hsend
    refine ⟨h.rows, ?_⟩
    rw [← Multiset.coe_add, ← Multiset.coe_add, hpostings]
    abel
  next =>
    split at hsend
    next =>
      cases hsend
      refine ⟨h.rows, ?_⟩
      rw [← Multiset.coe_add, ← Multiset.coe_add, hpostings]
      abel
    next => cases hsend

/-- The batch is lost. -/
theorem Accounts.drop (h : Accounts (k, posted) booked) :
    Accounts ({ k with batchBuffer := [], sinceCommit := 0, lost := k.lost ++ k.batchBuffer }, posted)
      booked := by
  refine ⟨h.rows, h.postings.trans ?_⟩
  rw [← Multiset.coe_add, Multiset.coe_nil]
  abel

/-- So are the batch and the channel, if the worker panics. -/
theorem Accounts.panic (h : Accounts (k, posted) booked) :
    Accounts
      ({ k with
          batchBuffer := []
          channel := []
          panicked := true
          lost := k.lost ++ k.batchBuffer ++ k.channel }, posted) booked := by
  refine ⟨h.rows, h.postings.trans ?_⟩
  simp only [← Multiset.coe_add, Multiset.coe_nil]
  abel

theorem Accounts.commit (h : Accounts (k, posted) booked) (r : BookingRound) :
    ∃ more, Accounts (k.commit r, posted) (booked ++ more) := by
  rw [Bookkeeping.commit]
  split
  next =>
    split
    next rows hrows =>
      split
      next =>
        obtain ⟨more, hmore, hperm⟩ := bookBatch_eq_some (BookingRound.rows_eq_some hrows)
        refine ⟨more, List.rel_append h.rows hmore, h.postings.trans ?_⟩
        rw [Multiset.coe_eq_coe.mpr hperm]
        simp only [← Multiset.coe_add, Multiset.coe_nil, List.map_append]
        abel
      next => exact h.drop.unbooked
    next => exact h.panic.unbooked
  next => exact h.drop.unbooked

theorem Accounts.flush (h : Accounts (k, posted) booked) (r : BookingRound) :
    ∃ more, Accounts (k.flush r, posted) (booked ++ more) := by
  rw [Bookkeeping.flush]
  split
  next => exact h.commit r
  next => exact h.unbooked

/-- A round without a panic before it, up to its check. -/
inductive Receives (k : Bookkeeping) (r : BookingRound) : Bookkeeping → Prop where
  | event {p : Serial × UniversalPaymentEvent} {rest : Postings} : r.received = true →
      k.channel = p :: rest →
      Receives k r { k with
        channel := rest
        batchBuffer := k.batchBuffer ++ [p]
        sinceCommit := k.sinceCommit + r.passed }
  | timeout : r.received = false →
      Receives k r { k with sinceCommit := k.sinceCommit + r.passed }

theorem round_cases {r : BookingRound} (hround : k.round r = some k') :
    k.panicked = false ∧ ∃ y, Receives k r y ∧ k' = y.flush r := by
  rw [Bookkeeping.round] at hround
  split at hround
  next => cases hround
  next halive =>
    refine ⟨Bool.not_eq_true _ ▸ halive, ?_⟩
    dsimp only at hround
    split at hround
    next hreceived =>
      split at hround
      next p rest hchannel =>
        cases hround
        exact ⟨_, .event hreceived hchannel, rfl⟩
      next => cases hround
    next hreceived =>
      cases hround
      exact ⟨_, .timeout (Bool.not_eq_true _ ▸ hreceived), rfl⟩

theorem Accounts.receives (h : Accounts (k, posted) booked) {r : BookingRound}
    (hreceives : Receives k r k') : Accounts (k', posted) booked := by
  cases hreceives with
  | event _ hchannel =>
      refine ⟨h.rows, h.postings.trans ?_⟩
      dsimp only
      rw [hchannel, ← Multiset.coe_add, ← Multiset.cons_coe, ← Multiset.singleton_add,
        Multiset.coe_singleton]
      abel
  | timeout => exact ⟨h.rows, h.postings⟩

theorem Accounts.round (h : Accounts (k, posted) booked) {r : BookingRound}
    (hround : k.round r = some k') : ∃ more, Accounts (k', posted) (booked ++ more) := by
  obtain ⟨-, y, hreceives, rfl⟩ := round_cases hround
  exact (h.receives hreceives).flush r

theorem Accounts.step (h : Accounts (k, posted) booked) {a : BookkeepingAction}
    (hstep : k.step a = some k') : ∃ more, Accounts (k', posted ++ k.posts a) (booked ++ more) := by
  cases a with
  | engine a =>
      obtain ⟨e, -, hsend⟩ := Option.bind_eq_some_iff.mp hstep
      have hengine : Accounts ({ k with engine := e }, posted) booked := ⟨h.rows, h.postings⟩
      exact (hengine.send hsend).unbooked
  | round r =>
      rw [posts_round, List.append_nil]
      exact h.round hstep
  | startCron now =>
      cases hstep
      rw [posts_startCron, List.append_nil]
      exact (h.settle _).unbooked
  | triggerSettlement =>
      cases hstep
      rw [posts_triggerSettlement, List.append_nil]
      exact (h.settle _).unbooked

/-- The runs from the start, with their postings. -/
abbrev Kept (P : Bookkeeping × Postings → BookkeepingAction → Prop) :
    Bookkeeping × Postings → Prop :=
  Transition.Noted (fun k => ∃ timeoutMs stipDb, k = start timeoutMs stipDb) step posts P

variable {P : Bookkeeping × Postings → BookkeepingAction → Prop} {p : Bookkeeping × Postings}

theorem Kept.accounts (hp : Kept P p) : ∃ booked, Accounts p booked := by
  refine hp.invariant (I := fun p => ∃ booked, Accounts p booked) ?_
    fun q q' _ ⟨booked, hq⟩ ⟨a, _, hnoted⟩ => ?_
  · rintro ⟨k, posted⟩ ⟨⟨timeoutMs, stipDb, rfl⟩, rfl⟩
    exact ⟨[], .nil, rfl⟩
  · obtain ⟨hstep, hnotes⟩ := Transition.noting_eq_some hnoted
    obtain ⟨k', posted⟩ := q'
    obtain rfl : posted = q.2 ++ _ := hnotes
    obtain ⟨more, hmore⟩ := Accounts.step hq hstep
    exact ⟨_, hmore⟩

end Bookkeeping

/-! ## The query -/

theorem toInt_of_sumQuery {values : List Int} {total : Int64} (h : sumQuery values = some total) :
    total.toInt = values.sum := by
  rw [sumQuery] at h
  split at h
  next hfits =>
    cases h
    rw [Bool.and_eq_true, List.all_eq_true, List.all_eq_true] at hfits
    have hsum := hfits.2 values (List.mem_inits values values |>.mpr (List.prefix_refl values))
    rw [fitsI64, Bool.and_eq_true, decide_eq_true_eq, decide_eq_true_eq] at hsum
    exact Int64.toInt_ofInt_of_le hsum.1 hsum.2
  next => cases h

/-- The sum of the rows of a report whose institution and status are selected. -/
def reported (report : List LiquidityRow) (q : String × String → Bool) : Int :=
  ((report.filter fun row => q (row.institutionId, row.status)).map (·.total.toInt)).sum

theorem reported_eq {scan : GeneralLedger} {report : List LiquidityRow}
    (h : liquidityQuery scan = some report) (q : String × String → Bool) :
    reported report q = selected GeneralLedgerRow.group (fun row => row.amount) q scan := by
  rw [← sum_groupTotals, groupTotals]
  rw [liquidityQuery] at h
  generalize (scan.map GeneralLedgerRow.group).dedup = groups at h ⊢
  induction groups generalizing report with
  | nil =>
      cases h
      rfl
  | cons g groups ih =>
      rw [List.mapM_cons] at h
      obtain ⟨row, hrow, h⟩ := Option.bind_eq_some_iff.mp h
      obtain ⟨rest, hrest, h⟩ := Option.bind_eq_some_iff.mp h
      cases h
      obtain ⟨total, htotal, rfl⟩ := Option.map_eq_some_iff.mp hrow
      have hsum : total.toInt = selected GeneralLedgerRow.group (fun row => row.amount) (· = g) scan :=
        toInt_of_sumQuery htotal
      have hih := ih hrest
      rw [reported] at hih ⊢
      rw [List.map_cons, List.filter_cons, List.filter_cons]
      dsimp only
      split
      next => rw [List.map_cons, List.map_cons, List.sum_cons, List.sum_cons, hih, hsum]
      next => exact hih

/-- Selected rows add up to the bookings that they are of. -/
theorem selected_of_rows {booked : List Booking} {rows : GeneralLedger}
    (h : List.Forall₂ Booking.HasRow booked rows) {q : String × String → Bool} {q' : Booking → Bool}
    (hq : ∀ b row, b.HasRow row → q row.group = q' b) :
    selected GeneralLedgerRow.group (fun row => row.amount) q rows =
      ((booked.filter q').map (·.row.amount)).sum := by
  induction h with
  | nil => rfl
  | @cons b row booked rows hrow _ ih =>
      rw [selected_cons, ih, hq b row hrow, hrow.amount, List.filter_cons]
      split
      next => rw [List.map_cons, List.sum_cons]
      next => rw [Int.zero_add]

namespace Bookkeeping

variable {P : Bookkeeping × Postings → BookkeepingAction → Prop} {p : Bookkeeping × Postings}

/-- The bookings of an institution: its captures or its reversals. -/
def bookedAt (booked : List Booking) (institution : String) (isReversal : Bool) : Int :=
  ((booked.filter fun b =>
    b.row.institutionId = institution && b.transaction.isReversal == isReversal).map
      (·.row.amount)).sum

/-- What the report says of an institution under the status of a reversal, or under another. -/
def reportedAt (report : List LiquidityRow) (institution : String) (held : Bool) : Int :=
  reported report fun g => g.1 = institution && decide (g.2 = "reversed_offset_hold") == held

/-- In every run, each posting is in the table once, lost or on its way.  In the table it has
the row that the worker has made of it, and nothing else is there.  For each institution a
report that does not fail adds up to the captures and to the reversals that are booked, in
whatever order the table is scanned and whatever was settled before. -/
theorem liquidity_balances (hp : Kept P p) :
    ∃ booked : List Booking,
      p.2.Perm (booked.map Booking.posting ++ (p.1.lost ++ p.1.batchBuffer ++ p.1.channel)) ∧
      List.Forall₂ Booking.HasRow booked p.1.generalLedger ∧
      ∀ scan, scan.Perm p.1.generalLedger → (liquidityQuery scan).isSome = true →
        ∀ institution isReversal, reportedAt (getLedgerLiquidity scan) institution isReversal =
          bookedAt booked institution isReversal := by
  obtain ⟨booked, haccounts⟩ := hp.accounts
  refine ⟨booked, ?_, haccounts.rows, fun scan hscan hsome institution isReversal => ?_⟩
  · rw [← Multiset.coe_eq_coe, haccounts.postings]
    simp only [← Multiset.coe_add]
    abel
  · obtain ⟨report, hreport⟩ := Option.isSome_iff_exists.mp hsome
    rw [getLedgerLiquidity, hreport, Option.getD_some, reportedAt, reported_eq hreport,
      selected_perm _ hscan]
    refine selected_of_rows haccounts.rows fun b row hrow => ?_
    rw [GeneralLedgerRow.group, hrow.institutionId, hrow.isReversal]

/-- A round in which every statement succeeds. -/
def booking (received : Bool) (passedMillis : Nat) : BookkeepingAction :=
  .round
    { received
      passed := passedMillis * 1000000
      now := 0
      caches := fun _ => ⟨∅, ∅⟩
      begins := true
      prepares := true
      inserts := fun _ => true
      commits := true }

/-- The purchase is captured and booked, and its reversal comes after a settlement. -/
def settledThenReversed : List BookkeepingAction :=
  (Engine.approved.map .engine ++ [booking true 100, .triggerSettlement]) ++
    ((acknowledge 1).map .engine ++ [booking true 0, booking false 100])

def kept (actions : List BookkeepingAction) : Bookkeeping × Postings :=
  Transition.noted step posts (start 100 ∅) actions

theorem kept_of_complies {actions : List BookkeepingAction} [∀ p a, Decidable (P p a)]
    (h : Transition.complies (Transition.noting step posts) P (start 100 ∅, []) actions = true) :
    Kept P (kept actions) :=
  Transition.Noted.of_complies ⟨100, ∅, rfl⟩ h

/-- What is reported of the bank of the card. -/
def citiReport : List LiquidityRow :=
  [⟨"CITI", "settled", 1000⟩, ⟨"CITI", "reversed_offset_hold", -1000⟩]

set_option maxRecDepth 8000 in
theorem liquidity_balances_reversed : ∃ booked : List Booking,
    (kept settledThenReversed).2.Perm (booked.map Booking.posting) ∧
      List.Forall₂ Booking.HasRow booked (kept settledThenReversed).1.generalLedger ∧
      bookedAt booked "CITI" false = 1000 ∧ bookedAt booked "CITI" true = -1000 := by
  have hp : Kept (fun _ _ => True) (kept settledThenReversed) := kept_of_complies (by decide +kernel)
  obtain ⟨booked, hperm, hrows, hreport⟩ := liquidity_balances hp
  have hquery : liquidityQuery (kept settledThenReversed).1.generalLedger = some citiReport := by
    decide +kernel
  have hcharges := hreport _ (List.Perm.refl _) (by rw [hquery]; rfl)
  rw [getLedgerLiquidity, hquery] at hcharges
  have hplaces : (kept settledThenReversed).1.lost ++ (kept settledThenReversed).1.batchBuffer ++
      (kept settledThenReversed).1.channel = [] := by decide +kernel
  rw [hplaces, List.append_nil] at hperm
  refine ⟨booked, hperm, hrows, ?_, ?_⟩
  · rw [← hcharges]
    decide
  · rw [← hcharges]
    decide

/-! ## Books without losses -/

/-- The step loses nothing: the statements succeed, and no PAN that is posted is cut inside a
character. -/
def Sound (k : Bookkeeping) : BookkeepingAction → Prop
  | .engine a => ∀ p ∈ k.engine.postings a, p.2.cutsPan = true
  | .round r => r.begins = true ∧ r.prepares = true ∧ r.commits = true ∧
      ∀ n < k.batchBuffer.length + 1, r.inserts n = true
  | .startCron _ | .triggerSettlement => True

instance (k : Bookkeeping) : (a : BookkeepingAction) → Decidable (k.Sound a)
  | .engine _ => inferInstanceAs (Decidable (∀ p ∈ _, _))
  | .round _ => inferInstanceAs (Decidable (_ ∧ _ ∧ _ ∧ ∀ n < _, _))
  | .startCron _ | .triggerSettlement => inferInstanceAs (Decidable True)

/-! ### The loop on its own -/

/-- The rows of a batch are those of the loop. -/
theorem bookBatch_insertBatch (now : Nat) (caches : Nat → LedgerWorker) {inserts : Nat → Bool}
    {batch : Postings} (h : ∀ n < batch.length, inserts n = true) :
    (bookBatch now caches inserts batch).map (List.map fun row => row.toLedgerRow) =
      insertBatch caches (batch.map Prod.snd) := by
  induction batch generalizing caches inserts with
  | nil => rfl
  | cons p batch ih =>
      obtain ⟨i, tx⟩ := p
      have hrest := ih (fun k => caches (k + 1)) fun n hn => h (n + 1) (Nat.succ_lt_succ hn)
      rw [List.map_cons, insertBatch, ← hrest, bookBatch]
      cases (caches 0).row tx with
      | none => rfl
      | some row =>
          dsimp only [Option.bind_eq_bind, Option.bind_some]
          rw [h 0 (Nat.zero_lt_succ _)]
          cases bookBatch now (fun k => caches (k + 1)) (fun k => inserts (k + 1)) batch <;> rfl

theorem loop_flush {k : Bookkeeping} {r : BookingRound} (hbegins : r.begins = true)
    (hprepares : r.prepares = true) (hcommits : r.commits = true)
    (hinserts : ∀ n < k.batchBuffer.length, r.inserts n = true) :
    (k.flush r).loop = if k.loop.flushes then k.loop.commit r.caches else k.loop := by
  rw [flush]
  split
  next =>
    have hrows := bookBatch_insertBatch r.now r.caches hinserts
    have hbuffer : k.loop.batchBuffer = k.batchBuffer.map Prod.snd := rfl
    rw [commit, if_pos hbegins, BookingRound.rows, if_pos hprepares, LedgerLoop.commit, hbuffer,
      ← hrows]
    cases bookBatch r.now r.caches r.inserts k.batchBuffer with
    | none => rfl
    | some rows =>
        dsimp only
        rw [if_pos hcommits, Option.map_some, loop, List.map_append]
        rfl
  next => rfl

/-- What the loop on its own has of a round. -/
def ledgerRound (k : Bookkeeping) (r : BookingRound) : LedgerRound where
  received := if r.received then k.channel.head?.map Prod.snd else none
  passed := r.passed
  caches := r.caches

/-- A round in which no statement fails is one of the loop on its own. -/
theorem loop_round {k k' : Bookkeeping} {r : BookingRound} (hsound : k.Sound (.round r))
    (hround : k.round r = some k') : k'.loop = k.loop.round (k.ledgerRound r) := by
  obtain ⟨hbegins, hprepares, hcommits, hinserts⟩ := hsound
  obtain ⟨halive, y, hreceives, rfl⟩ := round_cases hround
  have hy : y.loop = k.loop.receive (k.ledgerRound r) ∧
      ∀ n < y.batchBuffer.length, r.inserts n = true := by
    cases hreceives with
    | event hreceived hchannel =>
        refine ⟨?_, by simpa using hinserts⟩
        simp [loop, LedgerLoop.receive, ledgerRound, hreceived, hchannel]
    | timeout hreceived =>
        refine ⟨?_, fun n hn => hinserts n (Nat.lt_succ_of_lt hn)⟩
        simp [loop, LedgerLoop.receive, ledgerRound, hreceived]
  have halive' : ¬ k.loop.panicked = true := by
    rw [loop, halive]
    exact Bool.false_ne_true
  rw [loop_flush hbegins hprepares hcommits hy.2, hy.1, LedgerLoop.round, if_neg halive']
  rfl

/-! ### No loss -/

structure Intact (k : Bookkeeping) : Prop where
  lost : k.lost = []
  panicked : k.panicked = false
  cutsPan : ∀ p ∈ k.batchBuffer ++ k.channel, p.2.cutsPan = true

theorem refused_eq_nil {inserts : Nat → Bool} {batch : Postings}
    (h : ∀ n < batch.length, inserts n = true) : refused inserts batch = [] := by
  induction batch generalizing inserts with
  | nil => rfl
  | cons p batch ih =>
      rw [refused, h 0 (Nat.zero_lt_succ _), if_pos rfl]
      exact ih fun n hn => h (n + 1) (Nat.succ_lt_succ hn)

theorem isSome_bookBatch (now : Nat) (caches : Nat → LedgerWorker) (inserts : Nat → Bool)
    {batch : Postings} (h : ∀ p ∈ batch, p.2.cutsPan = true) :
    ∃ rows, bookBatch now caches inserts batch = some rows := by
  induction batch generalizing caches inserts with
  | nil => exact ⟨[], rfl⟩
  | cons p batch ih =>
      obtain ⟨i, tx⟩ := p
      rw [List.forall_mem_cons] at h
      obtain ⟨row, hrow⟩ := Option.isSome_iff_exists.mp
        ((LedgerWorker.isSome_row (caches 0) tx).trans h.1)
      obtain ⟨rows, hrows⟩ := ih (fun n => caches (n + 1)) (fun n => inserts (n + 1)) h.2
      rw [bookBatch, hrow, Option.bind_eq_bind, Option.bind_some, hrows]
      exact ⟨_, rfl⟩

theorem Intact.flush {k : Bookkeeping} (h : k.Intact) {r : BookingRound} (hbegins : r.begins = true)
    (hprepares : r.prepares = true) (hcommits : r.commits = true)
    (hinserts : ∀ n < k.batchBuffer.length, r.inserts n = true) : (k.flush r).Intact := by
  obtain ⟨hbatch, hchannel⟩ := List.forall_mem_append.mp h.cutsPan
  rw [Bookkeeping.flush]
  split
  next =>
    obtain ⟨rows, hrows⟩ := isSome_bookBatch r.now r.caches r.inserts hbatch
    rw [commit, if_pos hbegins, BookingRound.rows, if_pos hprepares, hrows]
    dsimp only
    rw [if_pos hcommits, refused_eq_nil hinserts, List.append_nil]
    exact ⟨h.lost, h.panicked, hchannel⟩
  next => exact h

theorem Intact.step {k k' : Bookkeeping} (h : k.Intact) {a : BookkeepingAction} (hsound : k.Sound a)
    (hstep : k.step a = some k') : k'.Intact := by
  have halive : ¬ k.panicked = true := by
    rw [h.panicked]
    exact Bool.false_ne_true
  cases a with
  | engine a =>
      obtain ⟨e, -, hsend⟩ := Option.bind_eq_some_iff.mp hstep
      rw [send] at hsend
      dsimp only at hsend
      rw [if_neg halive] at hsend
      split at hsend
      next =>
        cases hsend
        refine ⟨h.lost, h.panicked, ?_⟩
        rw [← List.append_assoc]
        exact List.forall_mem_append.mpr ⟨h.cutsPan, hsound⟩
      next => cases hsend
  | round r =>
      obtain ⟨hbegins, hprepares, hcommits, hinserts⟩ := hsound
      obtain ⟨-, y, hreceives, rfl⟩ := round_cases hstep
      cases hreceives with
      | @event p rest _ hchannel =>
          have hreceived : Intact
              { k with
                channel := rest
                batchBuffer := k.batchBuffer ++ [p]
                sinceCommit := k.sinceCommit + r.passed } := by
            refine ⟨h.lost, h.panicked, ?_⟩
            rw [List.append_assoc, List.singleton_append, ← hchannel]
            exact h.cutsPan
          exact hreceived.flush hbegins hprepares hcommits (by simpa using hinserts)
      | timeout =>
          have hwaited : Intact { k with sinceCommit := k.sinceCommit + r.passed } :=
            ⟨h.lost, h.panicked, h.cutsPan⟩
          exact hwaited.flush hbegins hprepares hcommits
            fun n hn => hinserts n (Nat.lt_succ_of_lt hn)
  | startCron | triggerSettlement =>
      cases hstep
      exact ⟨h.lost, h.panicked, h.cutsPan⟩

theorem Kept.intact (hp : Kept (fun p a => p.1.Sound a) p) : p.1.Intact := by
  refine hp.invariant (I := fun p => p.1.Intact) ?_ fun q q' _ hq ⟨a, hsound, hnoted⟩ => ?_
  · rintro ⟨k, posted⟩ ⟨⟨timeoutMs, stipDb, rfl⟩, -⟩
    exact ⟨rfl, rfl, List.forall_mem_nil _⟩
  · exact hq.step hsound (Transition.noting_eq_some hnoted).1

/-! ## What stands -/

theorem engine_commit (k : Bookkeeping) (r : BookingRound) : (k.commit r).engine = k.engine := by
  rw [commit]
  split
  next =>
    split
    next => split <;> rfl
    next => rfl
  next => rfl

/-- The worker leaves the engine alone. -/
theorem engine_round {k k' : Bookkeeping} {r : BookingRound} (h : k.round r = some k') :
    k'.engine = k.engine := by
  have hflush (k : Bookkeeping) : (k.flush r).engine = k.engine := by
    rw [flush]
    split
    next => exact engine_commit k r
    next => rfl
  obtain ⟨-, y, hreceives, rfl⟩ := round_cases h
  cases hreceives with
  | event => exact hflush _
  | timeout => exact hflush _

theorem engine_send {k k' : Bookkeeping} {posted : Postings} (h : k.send posted = some k') :
    k'.engine = k.engine := by
  rw [send] at h
  split at h
  next => cases h; rfl
  next => split at h <;> cases h; rfl

/-- The step loses nothing, and the step of the engine is in order. -/
def Conserving (p : Bookkeeping × Postings) (a : BookkeepingAction) : Prop :=
  p.1.Sound a ∧ match a with
    | .engine b => Engine.Conserves (p.1.engine, p.2) b
    | _ => True

instance (p : Bookkeeping × Postings) : (a : BookkeepingAction) → Decidable (Conserving p a)
  | .engine _ => inferInstanceAs (Decidable (_ ∧ Engine.Conserves _ _))
  | .round _ | .startCron _ | .triggerSettlement => inferInstanceAs (Decidable (_ ∧ True))

/-- The principal of the rows of a request, whatever their status. -/
def principalFor (k : Bookkeeping) (i : Serial) : Int :=
  ((k.generalLedger.filter (·.serial = i)).map (·.principalAmount.toInt)).sum

theorem Kept.engine (hp : Kept Conserving p) :
    Transition.Noted Engine.Initial Engine.step Engine.postings Engine.Conserves
      (p.1.engine, p.2) := by
  refine hp.simulate (f := fun p => (p.1.engine, p.2)) ?_ fun q q' _ ⟨a, hconserving, hnoted⟩ => ?_
  · rintro ⟨k, posted⟩ ⟨⟨timeoutMs, stipDb, rfl⟩, rfl⟩
    exact ⟨Engine.start_initial timeoutMs stipDb, rfl⟩
  obtain ⟨hstep, hnotes⟩ := Transition.noting_eq_some hnoted
  obtain ⟨k', posted⟩ := q'
  obtain rfl : posted = q.2 ++ _ := hnotes
  dsimp only at hstep ⊢
  cases a with
  | engine b =>
      obtain ⟨e, he, hsend⟩ := Option.bind_eq_some_iff.mp hstep
      obtain rfl : k'.engine = e := engine_send hsend
      refine .inr ⟨b, hconserving.2, ?_⟩
      rw [Transition.noting, he]
      rfl
  | round r =>
      rw [posts_round, List.append_nil, engine_round hstep]
      exact .inl rfl
  | startCron | triggerSettlement =>
      cases hstep
      exact .inl (by simp)

theorem balance_perm {ledger ledger' : Postings} (h : ledger.Perm ledger') (i : Serial) :
    ledger.balance i = ledger'.balance i :=
  (((h.filter _).map _).map _).sum_eq

theorem principalFor_eq {k : Bookkeeping} {booked : List Booking}
    (h : List.Forall₂ Booking.HasRow booked k.generalLedger) (i : Serial) :
    k.principalFor i = Postings.balance (booked.map Booking.posting) i := by
  rw [principalFor]
  generalize k.generalLedger = rows at h ⊢
  induction h with
  | nil => rfl
  | @cons b row booked rows hrow _ ih =>
      rw [Postings.balance, Postings.postedFor] at ih ⊢
      have hserial : b.posting.1 = b.serial := rfl
      rw [List.map_cons, List.filter_cons, List.filter_cons, hrow.serial, hserial]
      split
      next =>
        rw [List.map_cons, List.map_cons, List.map_cons, List.sum_cons, List.sum_cons, ih,
          hrow.principalAmount]
        rfl
      next => exact ih

/-- Where nothing is lost and the steps of the engine are in order, what is booked for a
request in the end is its amount if it stands and nothing if it does not. -/
theorem standing_amounts (hp : Kept Conserving p) (hsettled : p.1.engine.Settled)
    (hchannel : p.1.channel = []) (hbuffer : p.1.batchBuffer = []) {i : Serial} {key : String}
    {tx : UniversalPaymentEvent} {responder : Option Responder}
    (hi : p.1.engine.flow.Inserted i key tx responder) :
    p.1.principalFor i = if stands p.1.engine.outcomes i then (tx.amount.toNat : Int) else 0 := by
  obtain ⟨booked, haccounts⟩ := hp.accounts
  have hintact : p.1.Intact :=
    Kept.intact (Transition.Reachable.relax (fun _ _ hconserving => hconserving.1) hp)
  have hperm : p.2.Perm (booked.map Booking.posting) := by
    have hpostings := haccounts.postings
    rw [hintact.lost, hchannel, hbuffer] at hpostings
    simpa [Multiset.coe_eq_coe] using hpostings
  obtain ⟨key', tx', r, hi', hbalance⟩ :=
    (Engine.Noted.books hp.engine).balanced i (hsettled i key tx responder hi)
  obtain ⟨-, rfl, -⟩ := hi.unique hi'
  rw [principalFor_eq haccounts.rows, ← balance_perm hperm]
  exact hbalance

set_option maxRecDepth 8000 in
theorem standing_amounts_reversed : (kept settledThenReversed).1.principalFor 1 = 0 := by
  have hp : Kept Conserving (kept settledThenReversed) := kept_of_complies (by decide +kernel)
  exact (standing_amounts hp (by decide +kernel) (by decide +kernel) (by decide +kernel)
    (show (kept settledThenReversed).1.engine.flow.Inserted 1 "RRN000000001-000100-ACQ1"
      (purchase "000100" "RRN000000001") (some 0) by decide +kernel)).trans (by decide +kernel)

end Bookkeeping

end Iso8583Switch
