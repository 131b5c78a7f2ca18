import Iso8583Switch.Daemon.GeneralLedger
import Iso8583Switch.Engine.LedgerBatches
import Iso8583Switch.Flow.Impacts
import Iso8583Switch.Library.GroupedTotals
import Mathlib.Data.List.Infix

/-!
# The engine and its general ledger

switch-core/src/ledger_worker.rs and `get_ledger_liquidity` of ops-control-plane/src/main.rs.
What the engine posts goes through a channel of 10000 places to the ledger worker, which
inserts it in batches, and the two settlements and the report read the table at any time.

* A send waits for a free place.  It fails once the worker is gone.
* A transaction that cannot be begun or committed loses its batch, and an INSERT that fails
  loses its event.  The worker goes on in each case.
* An INSERT that cannot be prepared panics, and so does a row that cannot be built.  The
  transaction is rolled back, and with the worker goes the channel.

`lost` lists what has not come into the table on one of these ways and never will.
-/

namespace Iso8583Switch

open Text GroupedTotals

/-! ## The ledger worker -/

/-- A round of the loop: whether it receives an event, the time since the check before in
nanoseconds, the caches as each event of a batch finds them, and which statements succeed. -/
structure BookingRound where
  received : Bool
  passed : Nat
  now : Nat
  caches : Nat → LedgerWorker
  begins : Bool
  prepares : Bool
  inserts : Nat → Bool
  commits : Bool

/-- The rows that a transaction inserts, or `none` where the row of an event panics. -/
def bookBatch (now : Nat) (caches : Nat → LedgerWorker) (inserts : Nat → Bool) :
    Postings → Option GeneralLedger
  | [] => some []
  | (i, tx) :: batch => do
      let row ← (caches 0).row tx
      let rows ← bookBatch now (fun k => caches (k + 1)) (fun k => inserts (k + 1)) batch
      let booked : GeneralLedgerRow := { row with bookingTimestamp := now, serial := i }
      some (if inserts 0 then booked :: rows else rows)

/-- `prepare_cached(…).unwrap()`, and then the rows. -/
def BookingRound.rows (r : BookingRound) (batch : Postings) : Option GeneralLedger :=
  if r.prepares then bookBatch r.now r.caches r.inserts batch else none

/-- The events of a batch whose INSERT fails. -/
def refused (inserts : Nat → Bool) : Postings → Postings
  | [] => []
  | p :: batch =>
      let rest := refused (fun k => inserts (k + 1)) batch
      if inserts 0 then rest else p :: rest

structure Bookkeeping where
  engine : Engine
  channel : Postings
  batchBuffer : Postings
  sinceCommit : Nat
  panicked : Bool
  generalLedger : GeneralLedger
  lost : Postings

inductive BookkeepingAction where
  | engine (a : Action)
  | round (r : BookingRound)
  | startCron (now : Nat)
  | triggerSettlement

namespace Bookkeeping

def start (timeoutMs : Nat) (stipDb : DashMap Bytes (Option CardProfile)) : Bookkeeping where
  engine := Engine.start timeoutMs stipDb
  channel := []
  batchBuffer := []
  sinceCommit := 0
  panicked := false
  generalLedger := []
  lost := []

/-- The capacity of the channel. -/
def capacity : Nat := 10000

/-- `ledger_tx.send` -/
def send (k : Bookkeeping) (posted : Postings) : Option Bookkeeping :=
  if k.panicked then some { k with lost := k.lost ++ posted }
  else if k.channel.length + posted.length ≤ capacity then
    some { k with channel := k.channel ++ posted }
  else none

/-- What the loop of the worker has of it. -/
def loop (k : Bookkeeping) : LedgerLoop where
  batchBuffer := k.batchBuffer.map Prod.snd
  sinceCommit := k.sinceCommit
  generalLedger := k.generalLedger.map fun row => row.toLedgerRow
  panicked := k.panicked

/-- The transaction of the batch. -/
def commit (k : Bookkeeping) (r : BookingRound) : Bookkeeping :=
  if r.begins then
    match r.rows k.batchBuffer with
    | some rows =>
        if r.commits then
          { k with
            batchBuffer := []
            sinceCommit := 0
            generalLedger := k.generalLedger ++ rows
            lost := k.lost ++ refused r.inserts k.batchBuffer }
        else { k with batchBuffer := [], sinceCommit := 0, lost := k.lost ++ k.batchBuffer }
    | none =>
        { k with
          batchBuffer := []
          channel := []
          panicked := true
          lost := k.lost ++ k.batchBuffer ++ k.channel }
  else { k with batchBuffer := [], sinceCommit := 0, lost := k.lost ++ k.batchBuffer }

/-- The second half of a round. -/
def flush (k : Bookkeeping) (r : BookingRound) : Bookkeeping :=
  if k.loop.flushes then k.commit r else k

def round (k : Bookkeeping) (r : BookingRound) : Option Bookkeeping :=
  if k.panicked then none
  else
    let sinceCommit := k.sinceCommit + r.passed
    if r.received then
      match k.channel with
      | p :: rest =>
          some ({ k with channel := rest, batchBuffer := k.batchBuffer ++ [p], sinceCommit }.flush r)
      | [] => none
    else some ({ k with sinceCommit }.flush r)

def step (k : Bookkeeping) : BookkeepingAction → Option Bookkeeping
  | .engine a =>
      (k.engine.step a).bind fun engine => { k with engine }.send (k.engine.postings a)
  | .round r => k.round r
  | .startCron now => some { k with generalLedger := k.generalLedger.startCron now }
  | .triggerSettlement => some { k with generalLedger := k.generalLedger.triggerSettlement }

/-- What a step posts. -/
def posts (k : Bookkeeping) : BookkeepingAction → Postings
  | .engine a => k.engine.postings a
  | _ => []

end Bookkeeping

/-! ## get_ledger_liquidity -/

structure LiquidityRow where
  institutionId : String
  status : String
  total : Int64
deriving DecidableEq

def fitsI64 (n : Int) : Bool := -2 ^ 63 ≤ n && n < 2 ^ 63

/-- `SUM` over the values in the order of a scan.  A value that does not fit is a REAL, which
is no `i64`, and a sum that does not fit is an error. -/
def sumQuery (values : List Int) : Option Int64 :=
  if values.all fitsI64 && values.inits.all fun l => fitsI64 l.sum then
    some (Int64.ofInt values.sum)
  else none

def GeneralLedgerRow.group (row : GeneralLedgerRow) : String × String :=
  (row.institutionId, row.status)

/-- `principal_amount + fee_amount` -/
def LedgerRow.amount (row : LedgerRow) : Int := row.principalAmount.toInt + row.feeAmount.toInt

/-- The rows of the query, or `none` where it fails. -/
def liquidityQuery (scan : GeneralLedger) : Option (List LiquidityRow) :=
  (scan.map GeneralLedgerRow.group).dedup.mapM fun g =>
    (sumQuery ((scan.filter (·.group = g)).map fun row => row.amount)).map fun total =>
      ⟨g.1, g.2, total⟩

/-- `unwrap_or_default` -/
def getLedgerLiquidity (scan : GeneralLedger) : List LiquidityRow := (liquidityQuery scan).getD []

end Iso8583Switch
