import Iso8583Switch.Engine.Step
import Iso8583Switch.Ops.Publish

/-!
# The switch and its control plane

A publish handler reads the live rows of its table and posts what it has built to the
daemon, and the handlers of the daemon put it behind the pointer that the engine reads
(payment-daemon/src/main.rs).  Requests are served side by side, so rows may change while a
post is on its way, and posts may overtake each other or get lost.

`posts` lists all posts that were sent, and `delivered` those that have come to the daemon.
Nobody else stores a table.
-/

namespace Iso8583Switch

open ControlPlane

inductive Post where
  | crdb (cards : DashMap String CardRecord)
  | stip (rules : DashMap String StipRule)
  | routes (rows : List Iso8583Switch.RouteRow)

/-- What the handler of the daemon stores. -/
def Post.store : Post → Action
  | .crdb cards => .storeCrdb ⟨cards⟩
  | .stip rules => .storeStip ⟨rules⟩
  | .routes rows => .storeRouter (compileRoutes rows)

/-- The table that a handler publishes. -/
inductive Published where
  | crdb
  | stip
  | routes

/-- The SELECT, and what is posted. -/
def Published.post (json : Float → Float) (tables : Tables) (failure : Option String) :
    Published → Post
  | .crdb => .crdb (crdbEngine json
      (unwrapOrDefault (fetchAll CrdbRecord.isLive tables.crdbRecords failure)))
  | .stip => .stip (stipEngine
      (unwrapOrDefault (fetchAll StipRuleRow.isLive tables.stipRules failure)))
  | .routes => .routes ((unwrapOrDefault
      (fetchAll ControlPlane.RouteRow.isLive tables.routingRules failure)).map
        ControlPlane.RouteRow.payload)

structure Operated where
  tables : Tables
  engine : Engine
  posts : List Post
  delivered : List Nat

inductive OperatedAction where
  | request (succeeds : Bool) (r : Request)
  /-- A handler posts a table.  The SELECT may fail. -/
  | publish (table : Published) (failure : Option String)
  /-- Post `k` comes to the daemon. -/
  | deliver (k : Nat)
  | engine (a : Action)

namespace Operated

def start (tables : Tables) (timeoutMs : Nat) (stipDb : DashMap Bytes (Option CardProfile)) :
    Operated :=
  ⟨tables, Engine.start timeoutMs stipDb, [], []⟩

/-- The step of the engine that an action takes. -/
def stores (z : Operated) : OperatedAction → Option Action
  | .request _ _ | .publish _ _ => none
  | .deliver k => z.posts[k]?.map Post.store
  | .engine (.storeCrdb _) | .engine (.storeStip _) | .engine (.storeRouter _) => none
  | .engine a => some a

def step (json : Float → Float) (z : Operated) (a : OperatedAction) : Option Operated :=
  match a with
  | .request succeeds r => some { z with tables := z.tables.handle succeeds r }
  | .publish table failure =>
      some { z with posts := z.posts ++ [table.post json z.tables failure] }
  | .deliver k =>
      if k ∈ z.delivered then none
      else
        ((z.stores (.deliver k)).bind z.engine.step).map fun engine =>
          { z with engine, delivered := z.delivered ++ [k] }
  | .engine a => ((z.stores (.engine a)).bind z.engine.step).map fun engine => { z with engine }

end Operated

end Iso8583Switch
