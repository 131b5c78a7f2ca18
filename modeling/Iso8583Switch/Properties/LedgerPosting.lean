import Iso8583Switch.Engine.LedgerBatches
import Iso8583Switch.Properties.SliceSafety

/-!
# Every event is posted once

What the loop has received is what it has inserted and then what is in its buffer, as long
as no row panics (`Posted`).  Nothing drains the buffer at the end.

The rounds fall into batches, each of which ends when it is due (`Batched`).  The loop has
inserted a row for each event when it is left exactly where none came behind the last batch and
no PAN was cut inside a character.  The first holds if the channel was quiet for 100 ms before
it was disconnected (`batchBuffer_of_quiet`).
-/

namespace Iso8583Switch

open Text

/-- A row for an event, whatever is in the caches. -/
def IsRow (tx : UniversalPaymentEvent) (row : LedgerRow) : Prop :=
  ∃ worker : LedgerWorker, worker.row tx = some row

theorem IsRow.cutsPan {tx : UniversalPaymentEvent} {row : LedgerRow} (h : IsRow tx row) :
    tx.cutsPan = true := by
  obtain ⟨worker, hrow⟩ := h
  have hsome := LedgerWorker.isSome_row worker tx
  rw [hrow] at hsome
  exact hsome.symm

theorem cutsPan_of_rows {events : List UniversalPaymentEvent} {rows : List LedgerRow}
    (h : List.Forall₂ IsRow events rows) : ∀ tx ∈ events, tx.cutsPan = true := by
  induction h with
  | nil => exact List.forall_mem_nil _
  | cons hrow _ ih => exact List.forall_mem_cons.mpr ⟨hrow.cutsPan, ih⟩

theorem insertBatch_eq_some {caches : Nat → LedgerWorker} {batch : List UniversalPaymentEvent}
    {rows : List LedgerRow} (h : insertBatch caches batch = some rows) :
    List.Forall₂ IsRow batch rows := by
  induction batch generalizing caches rows with
  | nil =>
      cases h
      exact .nil
  | cons tx batch ih =>
      rw [insertBatch] at h
      obtain ⟨row, hrow, h⟩ := Option.bind_eq_some_iff.mp h
      obtain ⟨rest, hrest, h⟩ := Option.bind_eq_some_iff.mp h
      cases h
      exact .cons ⟨_, hrow⟩ (ih hrest)

theorem isSome_insertBatch (caches : Nat → LedgerWorker) {batch : List UniversalPaymentEvent}
    (h : ∀ tx ∈ batch, tx.cutsPan = true) : ∃ rows, insertBatch caches batch = some rows := by
  induction batch generalizing caches with
  | nil => exact ⟨[], rfl⟩
  | cons tx batch ih =>
      obtain ⟨row, hrow⟩ := Option.isSome_iff_exists.mp
        ((LedgerWorker.isSome_row (caches 0) tx).trans (h tx List.mem_cons_self))
      obtain ⟨rows, hrows⟩ := ih (fun i => caches (i + 1))
        fun tx htx => h tx (List.mem_cons_of_mem _ htx)
      refine ⟨row :: rows, ?_⟩
      rw [insertBatch, hrow, hrows]
      rfl

namespace LedgerLoop

/-- The events that were received. -/
def received (rounds : List LedgerRound) : List UniversalPaymentEvent :=
  rounds.flatMap fun r => r.received.toList

theorem received_concat (rounds : List LedgerRound) (r : LedgerRound) :
    received (rounds ++ [r]) = received rounds ++ r.received.toList := by
  rw [received, List.flatMap_append, List.flatMap_singleton]
  rfl

theorem mem_received_append_left {rounds : List LedgerRound} {tx : UniversalPaymentEvent}
    (h : tx ∈ received rounds) (rest : List LedgerRound) : tx ∈ received (rounds ++ rest) := by
  rw [received, List.flatMap_append]
  exact List.mem_append_left _ h

/-- Some events have their rows and the others are in the buffer. -/
structure Posted (l : LedgerLoop) (events : List UniversalPaymentEvent) : Prop where
  alive : l.panicked = false
  rows : ∃ posted, events = posted ++ l.batchBuffer ∧ List.Forall₂ IsRow posted l.generalLedger

theorem Posted.round {l : LedgerLoop} {events : List UniversalPaymentEvent} (h : l.Posted events)
    {r : LedgerRound} (hcuts : ∀ tx ∈ events ++ r.received.toList, tx.cutsPan = true) :
    (l.round r).Posted (events ++ r.received.toList) := by
  obtain ⟨posted, rfl, hposted⟩ := h.rows
  rw [List.append_assoc] at hcuts ⊢
  have hbatch (tx : UniversalPaymentEvent) (htx : tx ∈ (l.receive r).batchBuffer) :
      tx.cutsPan = true := hcuts tx (List.mem_append_right _ htx)
  rcases round_cases h.alive r with ⟨-, hround⟩ | ⟨rows, -, hrows, hround⟩ | ⟨hnone, -⟩
  · rw [hround]
    exact ⟨h.alive, posted, rfl, hposted⟩
  · rw [hround]
    refine ⟨h.alive, posted ++ (l.receive r).batchBuffer, (List.append_nil _).symm, ?_⟩
    exact List.rel_append hposted (insertBatch_eq_some hrows)
  · obtain ⟨rows, hrows⟩ := isSome_insertBatch r.caches hbatch
    rw [hrows] at hnone
    cases hnone

theorem posted_run {rounds : List LedgerRound}
    (h : ∀ tx ∈ received rounds, tx.cutsPan = true) : (run rounds).Posted (received rounds) := by
  induction rounds using List.reverseRecOn with
  | nil => exact ⟨rfl, [], rfl, .nil⟩
  | append_singleton rounds r ih =>
      rw [received_concat] at h ⊢
      rw [run_concat]
      exact (ih fun tx htx => h tx (List.mem_append_left _ htx)).round h

/-! ## Batches -/

/-- The batch that was begun at the last commit is due: it has 1000 events, or it has any
and has taken 100 ms. -/
def Due (batch : List LedgerRound) : Prop :=
  1000 ≤ (received batch).length ∨
    received batch ≠ [] ∧ 100 ≤ (batch.map LedgerRound.passed).sum / 1000000

/-- Rounds that end with a batch.  A batch ends with the first round in which it is due. -/
inductive Batched : List LedgerRound → Prop
  | start : Batched []
  | batch {rounds batch : List LedgerRound} {r : LedgerRound} : Batched rounds →
      (∀ part, part <+: batch → ¬ Due part) → Due (batch ++ [r]) →
      Batched (rounds ++ (batch ++ [r]))

/-- No event is received behind the last batch. -/
def Drained (rounds : List LedgerRound) : Prop :=
  ∃ batches rest, rounds = batches ++ rest ∧ Batched batches ∧ received rest = []

theorem not_due_of_quiet {rounds : List LedgerRound} (h : received rounds = []) :
    ¬ Due rounds := by
  rintro (hmany | ⟨hsome, -⟩)
  · rw [h] at hmany
    exact absurd hmany (Nat.not_succ_le_zero _)
  · exact hsome h

/-- What the loop keeps of the rounds since the last commit. -/
structure Filling (l : LedgerLoop) (batch : List LedgerRound) : Prop where
  buffer : l.batchBuffer = received batch
  since : l.sinceCommit = (batch.map LedgerRound.passed).sum

namespace Filling

variable {l : LedgerLoop} {batch : List LedgerRound}

theorem receive (h : l.Filling batch) (r : LedgerRound) :
    (l.receive r).Filling (batch ++ [r]) := by
  constructor
  · rw [received_concat, ← h.buffer]
    rfl
  · rw [List.map_append, List.sum_append, ← h.since, List.map_singleton, List.sum_singleton]
    rfl

theorem flushes_iff (h : l.Filling batch) : l.flushes = true ↔ Due batch := by
  rw [Due, ← h.buffer, ← h.since, flushes, Bool.or_eq_true, Bool.and_eq_true,
    Bool.not_eq_true', List.isEmpty_eq_false_iff, decide_eq_true_iff, decide_eq_true_iff,
    elapsedMillis]

/-- A round that does not panic goes on with the batch or ends it, as it is due. -/
theorem round (h : l.Filling batch) {r : LedgerRound} (hbefore : l.panicked = false)
    (hbehind : (l.round r).panicked = false) :
    (¬ Due (batch ++ [r]) ∧ (l.round r).Filling (batch ++ [r])) ∨
      (Due (batch ++ [r]) ∧ (l.round r).Filling []) := by
  have hreceive := h.receive r
  rw [← hreceive.flushes_iff]
  rcases round_cases hbefore r with ⟨hkept, hround⟩ | ⟨rows, hflush, -, hround⟩ | ⟨-, hpanic, -⟩
  · rw [hround, hkept]
    exact .inl ⟨Bool.false_ne_true, hreceive⟩
  · rw [hround, hflush]
    exact .inr ⟨rfl, rfl, rfl⟩
  · rw [hbehind] at hpanic
    cases hpanic

end Filling

theorem filling_concat {rounds batch : List LedgerRound} (h : (run rounds).Filling batch)
    {r : LedgerRound} (hcuts : ∀ tx ∈ received (rounds ++ [r]), tx.cutsPan = true) :
    (¬ Due (batch ++ [r]) ∧ (run (rounds ++ [r])).Filling (batch ++ [r])) ∨
      (Due (batch ++ [r]) ∧ (run (rounds ++ [r])).Filling []) := by
  have hbehind := (posted_run hcuts).alive
  rw [run_concat] at hbehind ⊢
  exact h.round (posted_run fun tx htx => hcuts tx (mem_received_append_left htx _)).alive hbehind

/-- Rounds fall into batches and a rest in which nothing is due. -/
theorem exists_batches {rounds : List LedgerRound}
    (hcuts : ∀ tx ∈ received rounds, tx.cutsPan = true) :
    ∃ batches rest, rounds = batches ++ rest ∧ Batched batches ∧
      (∀ part, part <+: rest → ¬ Due part) ∧ (run rounds).Filling rest := by
  induction rounds using List.reverseRecOn with
  | nil =>
      refine ⟨[], [], rfl, .start, fun part hpart => ?_, rfl, rfl⟩
      rw [List.prefix_nil.mp hpart]
      exact not_due_of_quiet rfl
  | append_singleton rounds r ih =>
      obtain ⟨batches, rest, hrounds, hbatches, hrest, hfilling⟩ :=
        ih fun tx htx => hcuts tx (mem_received_append_left htx _)
      rcases filling_concat hfilling hcuts with ⟨hdue, hround⟩ | ⟨hdue, hround⟩
      · refine ⟨batches, rest ++ [r], by rw [hrounds, List.append_assoc], hbatches,
          fun part hpart => ?_, hround⟩
        rcases List.prefix_concat_iff.mp hpart with rfl | hpart
        · exact hdue
        · exact hrest part hpart
      · refine ⟨batches ++ (rest ++ [r]), [], by rw [hrounds, List.append_nil, List.append_assoc],
          .batch hbatches hrest hdue, fun part hpart => ?_, hround⟩
        rw [List.prefix_nil.mp hpart]
        exact not_due_of_quiet rfl

/-- Rounds behind a commit in which nothing is due. -/
theorem filling_append {rounds rest : List LedgerRound} (h : (run rounds).Filling [])
    (hrest : ∀ part, part <+: rest → ¬ Due part)
    (hcuts : ∀ tx ∈ received (rounds ++ rest), tx.cutsPan = true) :
    (run (rounds ++ rest)).Filling rest := by
  induction rest using List.reverseRecOn with
  | nil => rwa [List.append_nil]
  | append_singleton rest r ih =>
      rw [← List.append_assoc] at hcuts ⊢
      have hfilling := ih (fun part hpart => hrest part (hpart.trans (List.prefix_append _ _)))
        fun tx htx => hcuts tx (mem_received_append_left htx _)
      rcases filling_concat hfilling hcuts with ⟨-, hround⟩ | ⟨hdue, -⟩
      · exact hround
      · exact absurd hdue (hrest _ (List.prefix_refl _))

/-- The loop begins anew behind each batch. -/
theorem filling_of_batched {rounds : List LedgerRound} (h : Batched rounds)
    (hcuts : ∀ tx ∈ received rounds, tx.cutsPan = true) : (run rounds).Filling [] := by
  induction h with
  | start => exact ⟨rfl, rfl⟩
  | batch _ hbatch hdue ih =>
      have hbefore := ih fun tx htx => hcuts tx (mem_received_append_left htx _)
      rw [← List.append_assoc] at hcuts ⊢
      have hfilling := filling_append hbefore hbatch
        fun tx htx => hcuts tx (mem_received_append_left htx _)
      rcases filling_concat hfilling hcuts with ⟨hnot, -⟩ | ⟨-, hround⟩
      · exact absurd hdue hnot
      · exact hround

/-- Nothing is left in the buffer exactly where no event comes behind the last batch. -/
theorem batchBuffer_eq_nil_iff {rounds : List LedgerRound}
    (hcuts : ∀ tx ∈ received rounds, tx.cutsPan = true) :
    (run rounds).batchBuffer = [] ↔ Drained rounds := by
  constructor
  · intro hempty
    obtain ⟨batches, rest, hrounds, hbatches, -, hfilling⟩ := exists_batches hcuts
    exact ⟨batches, rest, hrounds, hbatches, hfilling.buffer.symm.trans hempty⟩
  · rintro ⟨batches, rest, rfl, hbatches, hquiet⟩
    have hbatched := filling_of_batched hbatches
      fun tx htx => hcuts tx (mem_received_append_left htx _)
    have hrest (part : List LedgerRound) (hpart : part <+: rest) : ¬ Due part := by
      obtain ⟨behind, rfl⟩ := hpart
      rw [received, List.flatMap_append] at hquiet
      exact not_due_of_quiet (List.append_eq_nil_iff.mp hquiet).1
    rw [(filling_append hbatched hrest hcuts).buffer, hquiet]

/-! ## A quiet channel -/

theorem round_timeout_of_empty {l : LedgerLoop} (h : l.batchBuffer = []) {r : LedgerRound}
    (hr : r.received = none) : (l.round r).batchBuffer = [] := by
  have hbuffer : (l.receive r).batchBuffer = [] := by
    rw [receive, h, hr]
    rfl
  cases hpanicked : l.panicked with
  | true => rwa [round_of_panicked hpanicked]
  | false =>
      rcases round_cases hpanicked r with ⟨-, hround⟩ | ⟨rows, -, -, hround⟩ | ⟨-, -, hempty, -⟩
      · rwa [hround]
      · rw [hround]
      · exact hempty

theorem foldl_timeouts_of_empty {rounds : List LedgerRound}
    (hquiet : ∀ r ∈ rounds, r.received = none) {l : LedgerLoop} (h : l.batchBuffer = []) :
    (rounds.foldl round l).batchBuffer = [] := by
  induction rounds generalizing l with
  | nil => exact h
  | cons r rounds ih =>
      exact ih (fun r hr => hquiet r (List.mem_cons_of_mem _ hr))
        (round_timeout_of_empty h (hquiet r List.mem_cons_self))

/-- What is in the buffer between two rounds was not there 100 ms after the last commit. -/
theorem sinceCommit_lt_of_kept {l : LedgerLoop} (h : l.flushes = false) :
    l.batchBuffer = [] ∨ l.sinceCommit < 100000000 := by
  simp only [flushes, elapsedMillis, Bool.or_eq_false_iff, Bool.and_eq_false_iff,
    Bool.not_eq_false', List.isEmpty_iff, decide_eq_false_iff_not] at h
  refine h.2.imp id fun hshort => ?_
  have hmillis := of_decide_eq_false hshort
  omega

/-- Timeouts of 100 ms empty the buffer. -/
theorem foldl_timeouts {rounds : List LedgerRound} (hquiet : ∀ r ∈ rounds, r.received = none)
    {l : LedgerLoop} (halive : l.panicked = false) (hrecent : l.sinceCommit < 100000000)
    (hlong : 100000000 ≤ l.sinceCommit + (rounds.map LedgerRound.passed).sum) :
    (rounds.foldl round l).batchBuffer = [] := by
  induction rounds generalizing l with
  | nil => exact absurd hlong (Nat.not_le.mpr hrecent)
  | cons r rounds ih =>
      have hrest (r : LedgerRound) (hr : r ∈ rounds) := hquiet r (List.mem_cons_of_mem _ hr)
      rcases round_cases halive r with ⟨hkept, hround⟩ | ⟨rows, -, -, hround⟩ | ⟨-, -, hempty, -⟩
      · rw [List.foldl_cons, hround]
        rcases sinceCommit_lt_of_kept hkept with hempty | hrecent
        · exact foldl_timeouts_of_empty hrest hempty
        · refine ih hrest halive hrecent ?_
          rw [List.map_cons, List.sum_cons] at hlong
          show _ ≤ l.sinceCommit + r.passed + _
          omega
      · rw [List.foldl_cons, hround]
        exact foldl_timeouts_of_empty hrest rfl
      · exact foldl_timeouts_of_empty hrest hempty

/-- Between two rounds the buffer is empty, or the last commit was less than 100 ms ago. -/
theorem run_recent (rounds : List LedgerRound) : (run rounds).batchBuffer = [] ∨
    ((run rounds).panicked = false ∧ (run rounds).sinceCommit < 100000000) := by
  induction rounds using List.reverseRecOn with
  | nil => exact .inl rfl
  | append_singleton rounds r ih =>
      rw [run_concat]
      cases hpanicked : (run rounds).panicked with
      | true =>
          rw [round_of_panicked hpanicked]
          exact ih.imp id fun h => absurd (hpanicked.symm.trans h.1) Bool.noConfusion
      | false =>
          rcases round_cases hpanicked r with ⟨hkept, hround⟩ | ⟨rows, -, -, hround⟩ |
            ⟨-, -, hempty, -⟩
          · rw [hround]
            exact (sinceCommit_lt_of_kept hkept).imp id fun hrecent => ⟨hpanicked, hrecent⟩
          · rw [hround]
            exact .inl rfl
          · exact .inl hempty

/-- Nothing is left in the buffer if the last 100 ms were timeouts. -/
theorem batchBuffer_of_quiet (rounds : List LedgerRound) {quiet : List LedgerRound}
    (hquiet : ∀ r ∈ quiet, r.received = none)
    (hlong : 100000000 ≤ (quiet.map LedgerRound.passed).sum) :
    (run (rounds ++ quiet)).batchBuffer = [] := by
  rw [run, List.foldl_append]
  rcases run_recent rounds with hempty | ⟨halive, hrecent⟩
  · exact foldl_timeouts_of_empty hquiet hempty
  · exact foldl_timeouts hquiet halive hrecent (by omega)

end LedgerLoop

/-- The loop has inserted a row for each event, in their order, exactly where no event came
behind the last batch and no row panicked. -/
theorem every_event_is_posted_iff (rounds : List LedgerRound) :
    List.Forall₂ IsRow (LedgerLoop.received rounds) (LedgerLoop.run rounds).generalLedger ↔
      (∀ tx ∈ LedgerLoop.received rounds, tx.cutsPan = true) ∧ LedgerLoop.Drained rounds := by
  constructor
  · intro h
    have hcuts := cutsPan_of_rows h
    refine ⟨hcuts, (LedgerLoop.batchBuffer_eq_nil_iff hcuts).mp ?_⟩
    obtain ⟨posted, hevents, hposted⟩ := (LedgerLoop.posted_run hcuts).rows
    have hlength := h.length_eq
    rw [hevents, List.length_append, hposted.length_eq] at hlength
    exact List.length_eq_zero_iff.mp (by omega)
  · rintro ⟨hcuts, hdrained⟩
    have hempty := (LedgerLoop.batchBuffer_eq_nil_iff hcuts).mpr hdrained
    obtain ⟨posted, hevents, hposted⟩ := (LedgerLoop.posted_run hcuts).rows
    rw [hempty, List.append_nil] at hevents
    rwa [hevents]

/-- An event that is followed by the disconnection. -/
theorem last_event_is_lost : ¬ ∀ rounds : List LedgerRound,
    List.Forall₂ IsRow (LedgerLoop.received rounds) (LedgerLoop.run rounds).generalLedger := by
  intro h
  have hlost := h [⟨some (blankEvent (asBytes "0100")), 0, fun _ => ⟨∅, ∅⟩⟩]
  cases hlost

end Iso8583Switch
