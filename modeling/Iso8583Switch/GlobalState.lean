import Iso8583Switch.Library.DashMap
import Iso8583Switch.Canonical
import Iso8583Switch.Routing

/-!
# The shared memory of the switch

switch-core/src/state.rs, tsp_vault.rs and the cache of compliance.rs.  The
snapshots behind `ArcSwap` are plain values.  A channel sender is an opaque
channel number.

The two places that route a request (the ingress worker and the HSM task) repeat
the same health and failover logic.  `selectNode` and `channelFor` are that
logic.
-/

namespace Iso8583Switch

open Text

/-- A crossbeam sender, by the channel it feeds. -/
abbrev ChannelId := Nat

structure StipRule where
  action : String
  maxRiskScore : UInt8

structure StipEngine where
  rules : DashMap String StipRule

/-- A card of the CRDB.  The engine reads only the PVV. -/
structure CardRecord where
  balance : Float
  isBlocked : Bool
  pvv : String

structure CrdbEngine where
  cards : DashMap String CardRecord

/-- A card of the STIP database (context.rs). -/
structure CardProfile where
  balance : Int64
  isBlocked : Bool

/-! ## The token vault -/

structure TspVault where
  tokenMap : DashMap String String

namespace TspVault

def new : TspVault := ⟨DashMap.put ∅ "4000000000009999" "4111222233334444"⟩

def detokenize (vault : TspVault) (dpan : String) : Option String := vault.tokenMap.get dpan

end TspVault

/-! ## The compliance cache -/

structure ComplianceGuard where
  cache : DashMap String String

/-- Whether the BIN of the event is blocked, or `none` where the slice of the
PAN panics. -/
def ComplianceGuard.evaluate (guard : ComplianceGuard) (tx : UniversalPaymentEvent) :
    Option Bool :=
  let panStr := fromUtf8Lossy tx.fpan
  if 6 ≤ len panStr then
    (slice panStr 0 6).map fun bin => (guard.cache.get ("bin:" ++ bin)).isSome
  else some false

/-! ## The global state -/

structure GlobalState where
  stip : StipEngine
  crdb : CrdbEngine
  router : BinTrie
  nodeHealth : DashMap String Bool
  egressChannels : DashMap String ChannelId
  tspVault : TspVault
  /-- Egress STAN to ingress STAN. -/
  stanNat : DashMap String String
  /-- The next egress number, before reduction to six digits. -/
  stanCounter : UInt64

namespace GlobalState

def new : GlobalState where
  stip := ⟨∅⟩
  crdb := ⟨∅⟩
  router := .new
  nodeHealth := ∅
  egressChannels := ∅
  tspVault := .new
  stanNat := ∅
  stanCounter := 0

/-- A node without a health entry counts as online. -/
def isOnline (g : GlobalState) (node : String) : Bool := (g.nodeHealth.get node).getD true

/-- The primary if it is online, else the failover if there is one and it is
online. -/
def selectNode (g : GlobalState) (node : String) (failover : Option String) : Option String :=
  if g.isOnline node then some node
  else match failover with
    | some f => if g.isOnline f then some f else none
    | none => none

/-- The channel under which the internal card database is registered. -/
def crdbDomain : String := "CRDB_DOMAIN_2"

/-- The channel of a route, with the destination that was chosen. -/
def channelFor (g : GlobalState) (destination : RouteDestination) (failover : Option String) :
    Option (RouteDestination × ChannelId) :=
  match destination with
  | .internalCrdb => (g.egressChannels.get crdbDomain).map fun ch => (.internalCrdb, ch)
  | .externalNode node =>
      match g.selectNode node failover with
      | some n => (g.egressChannels.get n).map fun ch => (.externalNode n, ch)
      | none => none

/-- The message classes that the ingress worker routes. -/
def routable : MessageClass → Bool
  | .authorization | .financial | .reversalAdvice | .networkManagement => true
  | _ => false

/-- `target_egress` of the ingress worker. -/
def targetEgress (g : GlobalState) (tx : UniversalPaymentEvent) :
    Option (RouteDestination × ChannelId) :=
  if routable tx.messageClass then
    match g.router.find tx.fpan with
    | some route => g.channelFor route.destination route.failoverNode
    | none => none
  else none

/-- The egress STAN that the next `fetch_add` yields. -/
def nextEgressStan (g : GlobalState) : String := zeroPadded 6 (g.stanCounter.toNat % 1000000)

/-- The channel on which the reaper puts the reversal of a PAN: the primary of
the route, whatever its health. -/
def reversalChannel (g : GlobalState) (fpan : Bytes) : Option (RouteDestination × ChannelId) :=
  match g.router.find fpan with
  | some route =>
      match route.destination with
      | .externalNode n => (g.egressChannels.get n).map fun ch => (.externalNode n, ch)
      | .internalCrdb => none
  | none => none

/-- The network id under which a risk threshold is looked up. -/
def networkId (fpan : Bytes) : String :=
  if (asBytes "4").isPrefixOf fpan then "VISA"
  else if (asBytes "5").isPrefixOf fpan then "MASTERCARD"
  else "DEFAULT"

/-- The threshold of a network.  100, no screening, where there is no rule. -/
def riskThreshold (g : GlobalState) (fpan : Bytes) : UInt8 :=
  ((g.stip.rules.get (networkId fpan)).map StipRule.maxRiskScore).getD 100

end GlobalState

end Iso8583Switch
