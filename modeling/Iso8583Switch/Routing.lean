import Iso8583Switch.Library.Text

/-!
# The routing trie

switch-core/src/routing.rs.  A node's `HashMap` of children is a partial
function from the next byte.
-/

namespace Iso8583Switch

inductive RouteDestination where
  | internalCrdb
  | externalNode (node : String)
deriving DecidableEq, Repr

structure Route where
  destination : RouteDestination
  failoverNode : Option String
deriving DecidableEq, Repr

structure BinTrieNode where
  route : Option Route
  children : UInt8 → Option BinTrieNode

namespace BinTrieNode

def new : BinTrieNode := ⟨none, fun _ => none⟩

/-- Walk down along `bin`, creating missing nodes, and set the route there. -/
def insert (curr : BinTrieNode) : Bytes → Route → BinTrieNode
  | [], route => { curr with route := some route }
  | b :: bin, route =>
      let child := (curr.children b).getD new
      { curr with children := fun c => if c = b then some (insert child bin route)
                                       else curr.children c }

/-- The loop of `find`: walk down along `pan` and keep the last route seen. -/
def findFrom (curr : BinTrieNode) (bestMatch : Option Route) : Bytes → Option Route
  | [] => bestMatch
  | b :: pan =>
      match curr.children b with
      | some child =>
          findFrom child (if child.route.isSome then child.route else bestMatch) pan
      | none => bestMatch

end BinTrieNode

structure BinTrie where
  root : BinTrieNode

namespace BinTrie

def new : BinTrie := ⟨.new⟩

def insert (trie : BinTrie) (bin : Bytes) (route : Route) : BinTrie :=
  ⟨trie.root.insert bin route⟩

def find (trie : BinTrie) (pan : Bytes) : Option Route :=
  trie.root.findFrom trie.root.route pan

example : ((new.insert [0x34] ⟨.externalNode "MockVisaNode", none⟩).find [0x34, 0x31]).isSome := by
  decide

end BinTrie

end Iso8583Switch
