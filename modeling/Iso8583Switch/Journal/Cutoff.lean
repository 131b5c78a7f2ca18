import Iso8583Switch.Journal.Settle

/-!
# The cutoff

`execute_cutoff` (switch-core/src/bin/settle.rs) writes a row for every total of the
tally database and takes the totals and the counts out.  It tells totals from counts and
from the cursor by their keys.

`Settlement` is the database with the journal that is swept into it and the rows that
were written, under any order of sweeps and cutoffs.
-/

namespace Iso8583Switch

open Text PrefixedLog

/-- A row of the file, but for the heading. -/
structure CutoffRow where
  acquirerId : String
  totalCount : UInt64
  totalSettlementAmount : UInt64
deriving DecidableEq

namespace TallyDb

/-- The keys that a cutoff passes over. -/
def isSystemKey (kStr : String) : Bool :=
  kStr = cursorKey || "_count".toList.isSuffixOf kStr.toList

/-- The loop over the database. -/
def cutoffRows (db : TallyDb) : List CutoffRow :=
  (db.keys.filter fun kStr => !isSystemKey kStr).map fun kStr =>
    ⟨kStr, (DashMap.get db (countKey kStr)).getD 0, (DashMap.get db kStr).getD 0⟩

def keysToReset (rows : List CutoffRow) : List String :=
  rows.flatMap fun row => [row.acquirerId, countKey row.acquirerId]

/-- The rows, and the database that is left. -/
def executeCutoff (db : TallyDb) : List CutoffRow × TallyDb :=
  (db.cutoffRows, (keysToReset db.cutoffRows).foldl DashMap.remove db)

end TallyDb

/-! ## Sweeps and cutoffs -/

inductive SettlementOp where
  /-- Records are appended, and the file, with zeros behind them, is swept. -/
  | sweep (appended : List Bytes) (padding : Nat)
  | cutoff

structure Settlement where
  db : TallyDb
  /-- The journal. -/
  records : List Bytes
  /-- What was appended since the last cutoff. -/
  recent : List Bytes
  /-- For each cutoff what had been appended since the one before, and its rows. -/
  reports : List (List Bytes × List CutoffRow)

namespace Settlement

def new : Settlement := ⟨∅, [], [], []⟩

def step (codec : RecordCodec) (s : Settlement) : SettlementOp → Option Settlement
  | .sweep appended padding =>
      (settle codec s.db (paddedFile (s.records ++ appended) padding)).map fun db =>
        { s with db := db, records := s.records ++ appended, recent := s.recent ++ appended }
  | .cutoff =>
      let (rows, db) := s.db.executeCutoff
      some { s with db := db, recent := [], reports := s.reports ++ [(s.recent, rows)] }

def run (codec : RecordCodec) (s : Settlement) (ops : List SettlementOp) : Option Settlement :=
  ops.foldlM (step codec) s

end Settlement

end Iso8583Switch
