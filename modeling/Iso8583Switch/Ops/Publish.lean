import Iso8583Switch.Daemon.HotReload
import Iso8583Switch.Ops.Tables

/-!
# Publishing to the switch

The three publish handlers of ops-control-plane/src/main.rs.  Each reads the live rows of
its table, builds what the daemon expects and posts it to an endpoint for hot reload,
which replaces the whole table of the switch.

A SELECT that fails is taken for one that finds nothing.
-/

namespace Iso8583Switch.ControlPlane

open Text

variable {Row ε : Type}

/-- `SELECT * … WHERE is_live = 1`, which may fail. -/
def fetchAll (isLive : Row → Bool) (rows : List Row) : Option ε → Except ε (List Row)
  | some failure => .error failure
  | none => .ok (rows.filter isLive)

def unwrapOrDefault : Except ε (List Row) → List Row
  | .ok rows => rows
  | .error _ => []

/-- What becomes of a POST.  The daemon answers every table with 200, but the answer may
get lost. -/
inductive Delivery where
  | refused
  | answered
  | unanswered
deriving DecidableEq

/-- The POST and the `match` on its result. -/
def postReload (reload : GlobalState → GlobalState) (g : GlobalState) :
    Delivery → GlobalState × StatusCode
  | .refused => (g, .badGateway)
  | .answered => (reload g, .ok)
  | .unanswered => (reload g, .badGateway)

/-! ## publish_crdb -/

/-- The card of a record.  `json` is what becomes of a number on its way through JSON. -/
def CrdbRecord.card (json : Float → Float) (r : CrdbRecord) : CardRecord where
  balance := json r.dailyLimit.toFloat
  isBlocked := r.status = "Blocked"
  pvv := "1234"

def crdbEngine (json : Float → Float) (crdbRecords : List CrdbRecord) : DashMap String CardRecord :=
  crdbRecords.foldl (fun cards r => cards.put r.panHash (r.card json)) ∅

def publishCrdb (json : Float → Float) (rows : List CrdbRecord) (failure : Option ε) (g : GlobalState) :
    Delivery → GlobalState × StatusCode :=
  let crdbRecords := unwrapOrDefault (fetchAll CrdbRecord.isLive rows failure)
  postReload (fun g => hotReloadCrdb g (crdbEngine json crdbRecords)) g

/-! ## publish_stip -/

/-- `clamp(0, 100) as u8`. -/
def clampScore (score : Int32) : UInt8 := UInt8.ofNat (max 0 (min 100 score.toInt)).toNat

def StipRuleRow.rule (r : StipRuleRow) : StipRule where
  action := "APPROVE_UP_TO_" ++ toString r.maxApprovalAmount
  maxRiskScore := clampScore r.maxRiskScore

/-- The condition type is no part of the key. -/
def stipEngine (stipRules : List StipRuleRow) : DashMap String StipRule :=
  stipRules.foldl (fun rules r => rules.put r.networkId r.rule) ∅

def publishStip (rows : List StipRuleRow) (failure : Option ε) (g : GlobalState) :
    Delivery → GlobalState × StatusCode :=
  let stipRules := unwrapOrDefault (fetchAll StipRuleRow.isLive rows failure)
  postReload (fun g => hotReloadStip g (stipEngine stipRules)) g

/-! ## publish_routes -/

/-- The fields that the daemon deserializes. -/
def RouteRow.payload (r : RouteRow) : Iso8583Switch.RouteRow :=
  ⟨r.binPrefix, r.destinationType, r.targetNode, r.failoverNode⟩

def publishRoutes (rows : List RouteRow) (failure : Option ε) (g : GlobalState) :
    Delivery → GlobalState × StatusCode :=
  let routingRules := unwrapOrDefault (fetchAll RouteRow.isLive rows failure)
  postReload (fun g => hotReloadRoutes g (routingRules.map RouteRow.payload)) g

end Iso8583Switch.ControlPlane
