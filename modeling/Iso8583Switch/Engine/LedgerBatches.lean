import Mathlib.Data.List.Induction
import Iso8583Switch.Engine.Ledger

/-!
# The batches of the ledger worker

switch-core/src/ledger_worker.rs, `start_worker`.  The loop waits up to 50 ms for an
event and puts it into a buffer.  It inserts what is buffered in one transaction if there
are 1000 events or if there are any and the last commit was 100 ms ago.  When the channel is
disconnected it is left, whatever is in the buffer.

A row that cannot be built panics inside the transaction.  Then nothing of the batch is
committed, and the thread ends.

The statements of the database succeed here.  `Bookkeeping` has those that fail.
-/

namespace Iso8583Switch

/-- A round of the loop: the event that was received, or `none` at a timeout, the time
since the check before in nanoseconds, and the caches as each event of a batch finds them. -/
structure LedgerRound where
  received : Option UniversalPaymentEvent
  passed : Nat
  caches : Nat → LedgerWorker

structure LedgerLoop where
  batchBuffer : List UniversalPaymentEvent
  sinceCommit : Nat
  generalLedger : List LedgerRow
  panicked : Bool

/-- The rows of a batch, or `none` where the row of an event panics. -/
def insertBatch (caches : Nat → LedgerWorker) :
    List UniversalPaymentEvent → Option (List LedgerRow)
  | [] => some []
  | tx :: batch => do
      let row ← (caches 0).row tx
      let rows ← insertBatch (fun i => caches (i + 1)) batch
      some (row :: rows)

namespace LedgerLoop

def start : LedgerLoop :=
  { batchBuffer := [], sinceCommit := 0, generalLedger := [], panicked := false }

/-- `elapsed().as_millis()`. -/
def elapsedMillis (l : LedgerLoop) : Nat := l.sinceCommit / 1000000

def flushes (l : LedgerLoop) : Bool :=
  1000 ≤ l.batchBuffer.length || (!l.batchBuffer.isEmpty && 100 ≤ l.elapsedMillis)

/-- The first half of a round. -/
def receive (l : LedgerLoop) (r : LedgerRound) : LedgerLoop :=
  { l with
    batchBuffer := l.batchBuffer ++ r.received.toList
    sinceCommit := l.sinceCommit + r.passed }

/-- The transaction of a batch.  `drain` empties the buffer in either case. -/
def commit (l : LedgerLoop) (caches : Nat → LedgerWorker) : LedgerLoop :=
  match insertBatch caches l.batchBuffer with
  | some rows =>
      { l with batchBuffer := [], sinceCommit := 0, generalLedger := l.generalLedger ++ rows }
  | none => { l with batchBuffer := [], panicked := true }

def round (l : LedgerLoop) (r : LedgerRound) : LedgerLoop :=
  if l.panicked then l
  else if (l.receive r).flushes then (l.receive r).commit r.caches
  else l.receive r

/-- The state in which the loop is left behind some rounds. -/
def run (rounds : List LedgerRound) : LedgerLoop := rounds.foldl round start

/-! ## What a round does -/

theorem round_of_panicked {l : LedgerLoop} (h : l.panicked = true) (r : LedgerRound) :
    l.round r = l := by
  rw [round, if_pos h]

/-- A round keeps the event, commits the batch or panics. -/
theorem round_cases {l : LedgerLoop} (h : l.panicked = false) (r : LedgerRound) :
    ((l.receive r).flushes = false ∧ l.round r = l.receive r) ∨
    (∃ rows, (l.receive r).flushes = true ∧
      insertBatch r.caches (l.receive r).batchBuffer = some rows ∧
      l.round r = { l with
        batchBuffer := [], sinceCommit := 0, generalLedger := l.generalLedger ++ rows }) ∨
    (insertBatch r.caches (l.receive r).batchBuffer = none ∧ (l.round r).panicked = true ∧
      (l.round r).batchBuffer = [] ∧ (l.round r).generalLedger = l.generalLedger) := by
  have hround : l.round r = if (l.receive r).flushes then (l.receive r).commit r.caches
      else l.receive r := by
    rw [round, h, if_neg Bool.false_ne_true]
  rw [hround]
  cases hflush : (l.receive r).flushes with
  | false => exact .inl ⟨rfl, rfl⟩
  | true =>
      rw [if_pos rfl, commit]
      cases hrows : insertBatch r.caches (l.receive r).batchBuffer with
      | some rows => exact .inr (.inl ⟨rows, rfl, rfl, rfl⟩)
      | none => exact .inr (.inr ⟨rfl, rfl, rfl, rfl⟩)

theorem run_concat (rounds : List LedgerRound) (r : LedgerRound) :
    run (rounds ++ [r]) = (run rounds).round r := by
  rw [run, List.foldl_append]
  rfl

/-- No more than 999 events are in the buffer between two rounds. -/
theorem length_batchBuffer_lt (rounds : List LedgerRound) :
    (run rounds).batchBuffer.length < 1000 := by
  induction rounds using List.reverseRecOn with
  | nil => exact Nat.zero_lt_succ _
  | append_singleton rounds r ih =>
      rw [run_concat]
      cases hpanicked : (run rounds).panicked with
      | true => rwa [round_of_panicked hpanicked]
      | false =>
          rcases round_cases hpanicked r with ⟨hflush, hround⟩ | ⟨rows, -, -, hround⟩ |
            ⟨-, -, hempty, -⟩
          · rw [flushes, Bool.or_eq_false_iff, decide_eq_false_iff_not] at hflush
            rw [hround]
            exact Nat.lt_of_not_le hflush.1
          · rw [hround]
            exact Nat.zero_lt_succ _
          · rw [hempty]
            exact Nat.zero_lt_succ _

end LedgerLoop

end Iso8583Switch
