import Iso8583Switch.Engine.Ledger
import Iso8583Switch.Engine.State
import Mathlib.Algebra.Ring.Int.Defs

/-!
# The general ledger and its settlement

The table general_ledger, the rows that the ledger worker inserts in it, and the
two updates that settle: the job of switch-core/src/settlement_cron.rs and
`trigger_settlement` of ops-control-plane/src/main.rs.  Both set the status of the
rows with status `shadow`, and the job skips the rows of the last minute.

The serial of a row says which transaction the row books.  The table has no such
column, and no update reads it.  Times are in seconds, as SQLite compares them.
-/

namespace Iso8583Switch

structure GeneralLedgerRow extends LedgerRow where
  bookingTimestamp : Nat
  serial : Serial

abbrev GeneralLedger := List GeneralLedgerRow

inductive LedgerUpdate where
  /-- The worker inserts the row of an event. -/
  | insert (worker : LedgerWorker) (now : Nat) (i : Serial) (tx : UniversalPaymentEvent)
  | startCron (now : Nat)
  | triggerSettlement

namespace GeneralLedger

/-- `UPDATE general_ledger SET status = 'settled' WHERE status = 'shadow' AND …` -/
def settleWhere (due : GeneralLedgerRow → Bool) (ledger : GeneralLedger) : GeneralLedger :=
  ledger.map fun row =>
    if row.status = "shadow" && due row then { row with status := "settled" } else row

/-- `datetime(booking_timestamp) < datetime('now', '-1 minutes')` -/
def startCron (now : Nat) : GeneralLedger → GeneralLedger :=
  settleWhere fun row => row.bookingTimestamp + 60 < now

def triggerSettlement : GeneralLedger → GeneralLedger := settleWhere fun _ => true

/-- An update of the table, or `none` where the worker panics over the event. -/
def update (ledger : GeneralLedger) : LedgerUpdate → Option GeneralLedger
  | .insert worker now i tx =>
      (worker.row tx).map fun row => ledger ++ [{ row with bookingTimestamp := now, serial := i }]
  | .startCron now => some (startCron now ledger)
  | .triggerSettlement => some (triggerSettlement ledger)

/-! ## What is settled -/

def settled (ledger : GeneralLedger) : GeneralLedger := ledger.filter (·.status = "settled")

/-- `SUM(principal_amount)` over the settled rows. -/
def settledTotal (ledger : GeneralLedger) : Int :=
  (ledger.settled.map (·.principalAmount.toInt)).sum

def settledFor (ledger : GeneralLedger) (i : Serial) : Int :=
  ((ledger.settled.filter (·.serial = i)).map (·.principalAmount.toInt)).sum

end GeneralLedger

end Iso8583Switch
