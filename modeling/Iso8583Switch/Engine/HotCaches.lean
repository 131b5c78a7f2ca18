import Iso8583Switch.Engine.Ledger
import Iso8583Switch.GlobalState
import Iso8583Switch.Library.TableCache

/-!
# The hot caches

switch-core/src/compliance.rs and ledger_worker.rs, `start_polling`.  Every 60 s the live
rows of three tables are read into maps, in the order of a scan.

* The poller of the sanctions collects the blocking rows in a map of its own.  It drops the
  keys of the cache that are not in it and inserts the others.
* The poller of the ledger worker inserts the rows of `fee_matrix` and `chart_of_accounts`
  into their caches as it reads them.

A row of `fee_matrix` whose flat fee does not fit 32 bits is skipped.  Nothing else can
fail to be converted in the columns of schema.sql.
-/

namespace Iso8583Switch

open TableCache

/-! ## The rows -/

structure SanctionsListRow where
  listType : String
  listValue : String
  action : String
  isLive : Bool

structure FeeMatrixRow where
  mcc : Option String
  binPrefix : Option String
  basePct : Float
  flatFeeCents : Int64
  fxMarkupPct : Float
  isLive : Bool

structure ChartOfAccountsRow where
  institutionId : String
  vostroAccountId : String
  nostroAccountId : String
  isLive : Bool

/-- `row.get` of an `i32`. -/
def getI32 (n : Int64) : Option Int32 := if n.toInt32.toInt64 = n then some n.toInt32 else none

namespace FeeMatrixRow

def key (row : FeeMatrixRow) : String :=
  match row.mcc, row.binPrefix with
  | some mcc, _ => mcc
  | none, some bin => bin
  | none, none => "DEFAULT"

def rule (row : FeeMatrixRow) : Option FeeRule :=
  (getI32 row.flatFeeCents).map fun flatFeeCents =>
    { basePct := row.basePct
      flatFeeCents := flatFeeCents
      fxMarkupPct := row.fxMarkupPct }

end FeeMatrixRow

/-! ## The queries -/

section Queries

variable (toLowercase toUppercase : String → String)

def SanctionsListRow.key (row : SanctionsListRow) : String :=
  toLowercase row.listType ++ ":" ++ toUppercase row.listValue

def blockingRows (rows : List SanctionsListRow) : List (String × Option String) :=
  (rows.filter fun row => row.isLive && row.action == "block").map fun row =>
    (row.key toLowercase toUppercase, some "block")

end Queries

def liveFees (rows : List FeeMatrixRow) : List (String × Option FeeRule) :=
  (rows.filter FeeMatrixRow.isLive).map fun row => (row.key, row.rule)

def liveAccounts (rows : List ChartOfAccountsRow) : List (String × Option AccountMapping) :=
  (rows.filter ChartOfAccountsRow.isLive).map fun row =>
    (row.institutionId, some ⟨row.vostroAccountId, row.nostroAccountId⟩)

/-! ## The pollers -/

/-- The caches that the workers look up. -/
structure HotCaches where
  compliance : ComplianceGuard
  ledger : LedgerWorker

/-- A poll of a table, with what is in the table then. -/
inductive TablePoll where
  | sanctionsList (rows : List SanctionsListRow)
  | feeMatrix (rows : List FeeMatrixRow)
  | chartOfAccounts (rows : List ChartOfAccountsRow)

namespace HotCaches

def start : HotCaches := { compliance := ⟨∅⟩, ledger := ⟨∅, ∅⟩ }

section Polls

variable (toLowercase toUppercase : String → String)

def poll (caches : HotCaches) : TablePoll → HotCaches
  | .sanctionsList rows =>
      let tempCache := upsertAll ∅ (blockingRows toLowercase toUppercase rows)
      { caches with compliance := ⟨replaceBy caches.compliance.cache tempCache⟩ }
  | .feeMatrix rows =>
      let feeMatrix := upsertAll caches.ledger.feeMatrix (liveFees rows)
      { caches with ledger := { caches.ledger with feeMatrix } }
  | .chartOfAccounts rows =>
      let chartOfAccounts := upsertAll caches.ledger.chartOfAccounts (liveAccounts rows)
      { caches with ledger := { caches.ledger with chartOfAccounts } }

def run (polls : List TablePoll) : HotCaches :=
  polls.foldl (poll toLowercase toUppercase) start

end Polls

end HotCaches

end Iso8583Switch
