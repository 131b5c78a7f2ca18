import Iso8583Switch.Edge.BankLink
import Iso8583Switch.Engine.Step
import Iso8583Switch.Library.History

/-!
# The engine and its connections to the banks

payment-daemon/src/main.rs starts the engine and a client for each egress channel.  What
the clients read they put on the one `bank_reply` channel of the engine, and nobody else
does.  A `Clearing` has the engine with all connections that its clients open, by number.

Which client takes a frame off its channel, and whether it is fed to a connection or kept
back, is left open: any frame may be fed to any connection, but to one only.
-/

namespace Iso8583Switch

open Function History

/-- `fed` is a history: the connection that a frame was fed to, and the position of the
frame in the trace of the engine. -/
structure Clearing where
  engine : Engine
  links : Nat → BankLink
  fed : List (Nat × Nat)

inductive ClearingAction where
  | engine (a : Action)
  /-- A client feeds a frame that was put on an egress channel. -/
  | feed (c n : Nat)
  | link (c : Nat) (a : LinkAction)

namespace Clearing

def new (engine : Engine) : Clearing := ⟨engine, fun _ => .opened, []⟩

/-- A delivery of a connection as the engine gets it. -/
def packet (z : Clearing) (c : Nat) (d : Nat × Transaction) : Packet :=
  ⟨d.2, (under z.fed c)[d.1]?⟩

def feedStep (z : Clearing) (c n : Nat) : Option Clearing :=
  match z.engine.trace[n]? with
  | some (.placed f) =>
      if n ∈ z.fed.map Prod.snd then none
      else
        ((z.links c).step (.feed f.transaction)).map fun link =>
          { z with links := update z.links c link, fed := z.fed ++ [(c, n)] }
  | _ => none

/-- What a connection has delivered is on the `bank_reply` channel. -/
def moved (z : Clearing) (c : Nat) (link : BankLink) : Option Clearing :=
  let z' := { z with links := update z.links c link }
  match link.delivered[(z.links c).delivered.length]? with
  | some d => (z.engine.step (.bank (z.packet c d))).map fun engine => { z' with engine }
  | none => some z'

def step (z : Clearing) : ClearingAction → Option Clearing
  | .engine (.bank _) => none
  | .engine a => (z.engine.step a).map fun engine => { z with engine }
  | .feed c n => z.feedStep c n
  | .link _ (.feed _) => none
  | .link c a => ((z.links c).step a).bind (z.moved c)

abbrev Reachable (P : Clearing → ClearingAction → Prop) : Clearing → Prop :=
  Transition.Reachable (fun z => ∃ engine : Engine, engine.Initial ∧ z = new engine)
    (Transition.Steps step P)

end Clearing

end Iso8583Switch
