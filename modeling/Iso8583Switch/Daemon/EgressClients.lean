import Iso8583Switch.Edge.UpstreamClient

/-!
# The two upstream clients of the daemon

payment-daemon/src/main.rs, where one `saf_db` is opened and cloned into both clients.
-/

namespace Iso8583Switch

open Text Function

inductive Bank where
  | visa
  | mastercard
deriving DecidableEq

def Bank.host : Bank → String
  | .visa => "127.0.0.1:9188"
  | .mastercard => "127.0.0.1:9200"

structure EgressClients where
  client : Bank → UpstreamClient
  safDb : SafDb

namespace EgressClients

/-- One client with the shared store. -/
def view (d : EgressClients) (bank : Bank) : Egress := ⟨d.client bank, d.safDb⟩

def step (codec : RecordCodec) (d : EgressClients) (p : Bank × EgressAction) :
    Option EgressClients :=
  ((d.view p.1).step codec p.2).map fun s =>
    { client := update d.client p.1 s.client, safDb := s.safDb }

/-- The clients start with what earlier runs of the daemon have left in the store. -/
def Initial (d : EgressClients) : Prop :=
  ∃ next, (∀ bank, d.client bank = .new bank.host next) ∧
    ∀ key row, d.safDb.get key = some row → row.taken.number < next

abbrev Reachable (codec : RecordCodec) (P : EgressClients → Bank × EgressAction → Prop) :
    EgressClients → Prop :=
  Transition.Reachable Initial (Transition.Steps (step codec) P)

end EgressClients

end Iso8583Switch
