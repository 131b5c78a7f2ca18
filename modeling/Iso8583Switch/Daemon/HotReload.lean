import Iso8583Switch.GlobalState

/-!
# Hot reload of the tables

payment-daemon/src/main.rs.  The control plane posts whole tables and each is
stored behind its pointer in one swap.
-/

namespace Iso8583Switch

open Text

structure RouteRow where
  binPrefix : String
  /-- `InternalCrdb`.  Anything else is taken for an external node. -/
  destinationType : String
  targetNode : Option String
  failoverNode : Option String

/-- The route of a row.  An external row without a target node is invalid. -/
def RouteRow.route (row : RouteRow) : Option Route :=
  if row.destinationType = "InternalCrdb" then some ⟨.internalCrdb, row.failoverNode⟩
  else row.targetNode.map fun target => ⟨.externalNode target, row.failoverNode⟩

/-- The loop over the rows.  Invalid rows are skipped. -/
def compileRoutes (rows : List RouteRow) : BinTrie :=
  rows.foldl (fun trie row =>
    match row.route with
    | some route => trie.insert (asBytes row.binPrefix) route
    | none => trie) .new

def hotReloadCrdb (g : GlobalState) (cards : DashMap String CardRecord) : GlobalState :=
  { g with crdb := ⟨cards⟩ }

def hotReloadStip (g : GlobalState) (rules : DashMap String StipRule) : GlobalState :=
  { g with stip := ⟨rules⟩ }

def hotReloadRoutes (g : GlobalState) (rows : List RouteRow) : GlobalState :=
  { g with router := compileRoutes rows }

end Iso8583Switch
