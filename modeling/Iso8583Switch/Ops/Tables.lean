import Mathlib.Data.List.Basic

/-!
# The tables of the control plane

ops-control-plane/src/main.rs and schema.sql.  A table is the list of its rows in the
order of a scan, and an INSERT puts its row behind the others.  No row is ever deleted:
an update makes the live version of a record a dead one and inserts the next.

The statements of an update are one transaction.  If one of them fails, `unwrap` panics
and the transaction is rolled back.

* `update_crdb_record`, `update_stip_rule` and `update_route` keep the key of the version
  that they replace.
* `create_crdb_record`, `create_stip_rule` and `create_route` insert version 1 without a
  look at the rows that are there.
* An inserted row of `routing_rules` has no id.  `SERIAL PRIMARY KEY` names no rowid in
  SQLite, and no INSERT gives an id.
-/

namespace Iso8583Switch.ControlPlane

inductive StatusCode where
  | ok
  | created
  | notFound
  | internalServerError
  | badGateway
deriving DecidableEq

/-! ## The rows -/

structure CrdbRecord where
  id : Int32
  panHash : String
  dailyLimit : Int64
  status : String
  version : Int32
  isLive : Bool
deriving DecidableEq

structure StipRuleRow where
  id : Int32
  networkId : String
  conditionType : String
  maxApprovalAmount : Int64
  maxRiskScore : Int32
  version : Int32
  isLive : Bool
deriving DecidableEq

structure RouteRow where
  id : Option Int32
  binPrefix : String
  destinationType : String
  targetNode : Option String
  failoverNode : Option String
  version : Int32
  isLive : Bool
deriving DecidableEq

structure Tables where
  crdbRecords : List CrdbRecord
  stipRules : List StipRuleRow
  routingRules : List RouteRow

/-! ## The requests -/

structure CreateCrdbReq where
  panHash : String
  dailyLimit : Int64
  status : String

structure UpdateCrdbReq where
  dailyLimit : Int64
  status : String

structure CreateStipReq where
  networkId : String
  conditionType : String
  maxApprovalAmount : Int64
  maxRiskScore : Int32 := 100

structure UpdateStipReq where
  maxApprovalAmount : Int64
  maxRiskScore : Int32 := 100

structure CreateRouteReq where
  binPrefix : String
  destinationType : String
  targetNode : Option String
  failoverNode : Option String

structure UpdateRouteReq where
  destinationType : String
  targetNode : Option String
  failoverNode : Option String

/-! ## What the handlers do with the database -/

section
variable {Row : Type}

/-- `INSERT INTO`, and the status that the outcome is mapped to. -/
def insertRow (row : Row) (succeeds : Bool) (rows : List Row) : List Row × StatusCode :=
  if succeeds then (rows ++ [row], .created) else (rows, .internalServerError)

/-- The transaction of an update: `SELECT` the live row of an id, `UPDATE` the rows of
that id, `INSERT` the next version.  There is no status if a statement fails. -/
def replaceRow (hasId isLive : Row → Bool) (retire next : Row → Row) (succeeds : Bool)
    (rows : List Row) : List Row × Option StatusCode :=
  if succeeds then
    match rows.find? fun row => hasId row && isLive row with
    | some oldRecord =>
        (rows.map (fun row => if hasId row then retire row else row) ++ [next oldRecord], some .ok)
    | none => (rows, some .notFound)
  else (rows, none)

end

/-! ## crdb_records -/

/-- The row that a POST inserts.  SQLite chooses the id. -/
def CreateCrdbReq.row (payload : CreateCrdbReq) (id : Int32) : CrdbRecord :=
  ⟨id, payload.panHash, payload.dailyLimit, payload.status, 1, true⟩

def CrdbRecord.retire (record : CrdbRecord) : CrdbRecord := { record with isLive := false }

def UpdateCrdbReq.next (payload : UpdateCrdbReq) (id : Int32) (record : CrdbRecord) : CrdbRecord :=
  ⟨id, record.panHash, payload.dailyLimit, payload.status, record.version + 1, true⟩

def createCrdbRecord (payload : CreateCrdbReq) (newId : Int32) :
    Bool → List CrdbRecord → List CrdbRecord × StatusCode :=
  insertRow (payload.row newId)

def updateCrdbRecord (id : Int32) (payload : UpdateCrdbReq) (newId : Int32) :
    Bool → List CrdbRecord → List CrdbRecord × Option StatusCode :=
  replaceRow (·.id = id) (·.isLive) CrdbRecord.retire (payload.next newId)

/-! ## stip_rules -/

def CreateStipReq.row (payload : CreateStipReq) (id : Int32) : StipRuleRow :=
  ⟨id, payload.networkId, payload.conditionType, payload.maxApprovalAmount, payload.maxRiskScore,
    1, true⟩

def StipRuleRow.retire (rule : StipRuleRow) : StipRuleRow := { rule with isLive := false }

def UpdateStipReq.next (payload : UpdateStipReq) (id : Int32) (rule : StipRuleRow) : StipRuleRow :=
  ⟨id, rule.networkId, rule.conditionType, payload.maxApprovalAmount, payload.maxRiskScore,
    rule.version + 1, true⟩

def createStipRule (payload : CreateStipReq) (newId : Int32) :
    Bool → List StipRuleRow → List StipRuleRow × StatusCode :=
  insertRow (payload.row newId)

def updateStipRule (id : Int32) (payload : UpdateStipReq) (newId : Int32) :
    Bool → List StipRuleRow → List StipRuleRow × Option StatusCode :=
  replaceRow (·.id = id) (·.isLive) StipRuleRow.retire (payload.next newId)

/-! ## routing_rules -/

def CreateRouteReq.row (payload : CreateRouteReq) : RouteRow :=
  ⟨none, payload.binPrefix, payload.destinationType, payload.targetNode, payload.failoverNode, 1,
    true⟩

def RouteRow.retire (route : RouteRow) : RouteRow := { route with isLive := false }

def UpdateRouteReq.next (payload : UpdateRouteReq) (route : RouteRow) : RouteRow :=
  ⟨none, route.binPrefix, payload.destinationType, payload.targetNode, payload.failoverNode,
    route.version + 1, true⟩

def createRoute (payload : CreateRouteReq) : Bool → List RouteRow → List RouteRow × StatusCode :=
  insertRow payload.row

def updateRoute (id : Int32) (payload : UpdateRouteReq) :
    Bool → List RouteRow → List RouteRow × Option StatusCode :=
  replaceRow (·.id = some id) (·.isLive) RouteRow.retire payload.next

/-! ## Requests -/

/-- A request, with the id of the row that it inserts. -/
inductive Request where
  | createCrdbRecord (payload : CreateCrdbReq) (newId : Int32)
  | updateCrdbRecord (id : Int32) (payload : UpdateCrdbReq) (newId : Int32)
  | createStipRule (payload : CreateStipReq) (newId : Int32)
  | updateStipRule (id : Int32) (payload : UpdateStipReq) (newId : Int32)
  | createRoute (payload : CreateRouteReq)
  | updateRoute (id : Int32) (payload : UpdateRouteReq)

/-- What a request does to the tables.  `succeeds` says whether the database does. -/
def Tables.handle (t : Tables) (succeeds : Bool) : Request → Tables
  | .createCrdbRecord payload newId =>
      { t with crdbRecords := (ControlPlane.createCrdbRecord payload newId succeeds t.crdbRecords).1 }
  | .updateCrdbRecord id payload newId =>
      { t with
        crdbRecords := (ControlPlane.updateCrdbRecord id payload newId succeeds t.crdbRecords).1 }
  | .createStipRule payload newId =>
      { t with stipRules := (ControlPlane.createStipRule payload newId succeeds t.stipRules).1 }
  | .updateStipRule id payload newId =>
      { t with stipRules := (ControlPlane.updateStipRule id payload newId succeeds t.stipRules).1 }
  | .createRoute payload =>
      { t with routingRules := (ControlPlane.createRoute payload succeeds t.routingRules).1 }
  | .updateRoute id payload =>
      { t with routingRules := (ControlPlane.updateRoute id payload succeeds t.routingRules).1 }

end Iso8583Switch.ControlPlane
