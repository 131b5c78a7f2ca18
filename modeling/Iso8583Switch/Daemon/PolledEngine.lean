import Iso8583Switch.Engine.HotCaches
import Iso8583Switch.Engine.Step
import Iso8583Switch.Library.InPlaceUpdate

/-!
# The engine and the poller of its sanctions

`ComplianceGuard::start_polling` runs in a thread of its own.  Every 60 s it reads the
blocking rows into a map, brings the cache of the guard up to date with it, and the workers
look BINs up meanwhile.  `retain` and `insert` lock one shard of the cache at a time.

The table may change at any time.  A poll that cannot open the database or prepare its query
leaves everything as it is, and one whose scan fails goes on with the rows it has read.

`read` has the rows of the last poll that has read any, and `ended` those of the last poll
that is through with the cache.
-/

namespace Iso8583Switch

open TableCache InPlaceUpdate

structure PolledEngine where
  engine : Engine
  sanctionsList : List SanctionsListRow
  phase : Phase String String
  read : List SanctionsListRow
  ended : List SanctionsListRow

inductive PolledAction where
  | engine (a : Action)
  /-- The table has other rows from now on. -/
  | change (rows : List SanctionsListRow)
  /-- The poller reads the table, up to so many rows of the result. -/
  | poll (readable : Nat)
  /-- It goes on with the cache. -/
  | update (a : UpdateAction String)

namespace PolledEngine

def start (engine : Engine) (sanctionsList : List SanctionsListRow) : PolledEngine :=
  ⟨engine, sanctionsList, .idle, [], []⟩

variable (toLowercase toUppercase : String → String)

/-- The result of the query. -/
def blocking (rows : List SanctionsListRow) : List SanctionsListRow :=
  rows.filter fun row => row.isLive && row.action == "block"

def tempCache (rows : List SanctionsListRow) : DashMap String String :=
  upsertAll ∅ (rows.map fun row => (row.key toLowercase toUppercase, some "block"))

/-- The cache of the guard, as the poller has it in hand. -/
def updating (z : PolledEngine) : Updating String String :=
  ⟨z.engine.compliance.cache, z.phase, tempCache toLowercase toUppercase z.ended⟩

/-- The step of the engine that an action takes. -/
def moves (z : PolledEngine) : PolledAction → Option Action
  | .engine (.pollSanctions _) => none
  | .engine a => some a
  | .update a =>
      ((z.updating toLowercase toUppercase).step a).map fun u => .pollSanctions u.cache
  | .change _ | .poll _ => none

def step (z : PolledEngine) (a : PolledAction) : Option PolledEngine :=
  match a with
  | .engine _ =>
      ((z.moves toLowercase toUppercase a).bind z.engine.step).map fun engine =>
        { z with engine }
  | .change rows => some { z with sanctionsList := rows }
  | .poll readable =>
      let rows := (blocking z.sanctionsList).take readable
      ((z.updating toLowercase toUppercase).begin (tempCache toLowercase toUppercase rows)).map
        fun u => { z with phase := u.phase, read := rows }
  | .update b =>
      ((z.updating toLowercase toUppercase).step b).bind fun u =>
        (z.engine.step (.pollSanctions u.cache)).map fun engine =>
          { z with
            engine
            phase := u.phase
            ended := match u.phase with
              | .idle => z.read
              | _ => z.ended }

end PolledEngine

end Iso8583Switch
