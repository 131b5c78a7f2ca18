import Iso8583Switch.Daemon.Clearing
import Iso8583Switch.Edge.IngressServer

/-!
# The switch with its terminals and its banks

payment-daemon/src/main.rs starts a listener for each dialect next to the engine and the
clients of the banks.  All connections of the listeners put their contexts on the one
ingress channel of the engine, and what the engine sends to a responder is in the oneshot
channel of a frame.

A `Network` has a clearing and all connections that the listeners accept, by number.  Which
context a worker takes next is left open: it may take any that was put on the channel, but
each one once only.
-/

namespace Iso8583Switch

open Function EdgeIngress

/-- `taken` is a history: the connection of a context that a worker has taken, the place of
the context among those of the connection, and the responder that the engine has for it. -/
structure Network where
  dialects : Nat → IngressDialect
  clearing : Clearing
  sessions : Nat → Session
  taken : List ((Nat × Nat) × Responder)

inductive NetworkAction where
  | session (c : Nat) (a : SessionAction)
  /-- Worker `w` takes context `k` of connection `c`. -/
  | receive (w c k : Nat)
  | clearing (a : ClearingAction)

namespace Network

def new (dialects : Nat → IngressDialect) (engine : Engine) : Network :=
  ⟨dialects, .new engine, fun _ => .new, []⟩

def engine (z : Network) : Engine := z.clearing.engine

/-- The connection and the frame that a responder is for. -/
def frameOf (z : Network) (r : Responder) : Option (Nat × Nat) :=
  (z.taken.find? fun x => x.2 = r).bind fun x =>
    ((z.sessions x.1.1).contexts[x.1.2]?).map fun sent => (x.1.1, sent.1)

/-- `let _ = responder.send(reply);` -/
def send (z : Network) (r : Responder) (reply : UniversalPaymentEvent) : Network :=
  match z.frameOf r with
  | some (c, n) =>
      match (z.sessions c).step (z.dialects c) (.respond n reply) with
      | some s => { z with sessions := update z.sessions c s }
      | none => z
  | none => z

def hand (z : Network) : Event → Network
  | .responded r _ reply => z.send r reply
  | _ => z

/-- The clearing has gone on, and the answers of the engine are sent. -/
def moved (z : Network) (clearing : Clearing) : Network :=
  (Engine.newEvents z.engine clearing.engine).foldl hand { z with clearing }

/-- The step of the clearing that an action takes. -/
def clears (z : Network) : NetworkAction → Option ClearingAction
  | .session _ _ => none
  | .receive w c k =>
      ((z.sessions c).contexts[k]?).map fun sent =>
        .engine (.ingress w (.receive sent.2.transaction sent.2.responder.isSome))
  | .clearing (.engine (.ingress _ (.receive _ _))) => none
  | .clearing a => some a

def step (z : Network) : NetworkAction → Option Network
  | .session _ (.respond _ _) => none
  | .session c a =>
      ((z.sessions c).step (z.dialects c) a).map fun s =>
        { z with sessions := update z.sessions c s }
  | .receive w c k =>
      if (c, k) ∈ z.taken.map Prod.fst then none
      else
        ((z.clears (.receive w c k)).bind z.clearing.step).map fun clearing =>
          { z with clearing, taken := z.taken ++ [((c, k), z.engine.trace.length)] }
  | .clearing a => ((z.clears (.clearing a)).bind z.clearing.step).map z.moved

abbrev Reachable (P : Network → NetworkAction → Prop) : Network → Prop :=
  Transition.Reachable
    (fun z => ∃ (dialects : Nat → IngressDialect) (engine : Engine),
      engine.Initial ∧ z = new dialects engine)
    (Transition.Steps step P)

end Network

end Iso8583Switch
