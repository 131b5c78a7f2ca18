import Iso8583Switch.Library.Versioned
import Iso8583Switch.Ops.Publish

/-!
# One live version per key

The three tables are versioned alike, so what an INSERT and what the transaction of an
update keep is proved once (`OneLive`), and so is that what is published does not depend
on the order in which a SELECT comes to the rows.

An update keeps both, as long as a version can be counted up.  A create does not look at
the rows that are there: it breaks them whenever a row of its key is.  The rules of STIP
are published by network alone, so there rules of one network have to agree, whatever
their condition.
-/

namespace Iso8583Switch.ControlPlane

open Text Versioned

/-! ## The keys -/

def crdbScheme : Scheme CrdbRecord String := ⟨(·.panHash), (·.version.toInt), (·.isLive)⟩

def stipScheme : Scheme StipRuleRow (String × String) :=
  ⟨fun r => (r.networkId, r.conditionType), (·.version.toInt), (·.isLive)⟩

def routeScheme : Scheme RouteRow String := ⟨(·.binPrefix), (·.version.toInt), (·.isLive)⟩

/-- What publish_routes sends for a prefix. -/
def sentRoutes (rows : List RouteRow) (binPrefix : String) : List Iso8583Switch.RouteRow :=
  (rows.map RouteRow.payload).filter (·.binPrefix = binPrefix)

/-- Every key has at most one live row, its newest, and no version twice.  What is
published for a key is the same in whatever order the live rows come. -/
structure LiveVersions (t : Tables) : Prop where
  crdb : crdbScheme.OneLive t.crdbRecords
  stip : stipScheme.OneLive t.stipRules
  routes : routeScheme.OneLive t.routingRules
  crdbOrder : ∀ rows, rows.Perm (t.crdbRecords.filter (·.isLive)) → ∀ json panHash,
    (crdbEngine json rows).get panHash =
      (crdbEngine json (t.crdbRecords.filter (·.isLive))).get panHash
  stipOrder : ∀ rows, rows.Perm (t.stipRules.filter (·.isLive)) → ∀ networkId,
    (stipEngine rows).get networkId = (stipEngine (t.stipRules.filter (·.isLive))).get networkId
  routeOrder : ∀ rows, rows.Perm (t.routingRules.filter (·.isLive)) → ∀ binPrefix,
    sentRoutes rows binPrefix = sentRoutes (t.routingRules.filter (·.isLive)) binPrefix

/-! ## The order of the rows -/

section
variable {Row Key α : Type} {scheme : Scheme Row Key} {rows : List Row}

theorem oneValue_of_oneLive (h : scheme.OneLive rows) (value : Row → α) :
    OneValue scheme.key value (rows.filter scheme.live) := by
  intro r hr s hs hkey
  obtain ⟨hr, hlive⟩ := List.mem_filter.mp hr
  obtain ⟨hs, hlive'⟩ := List.mem_filter.mp hs
  rw [h.eq_of_live hr hs hkey hlive hlive']

/-- One row is in one order only. -/
theorem filter_perm [DecidableEq Key] (h : scheme.OneLive rows) {rows' : List Row}
    (hperm : rows'.Perm (rows.filter scheme.live)) (k : Key) :
    rows'.filter (fun r => scheme.key r = k) =
      (rows.filter scheme.live).filter fun r => scheme.key r = k := by
  have hpair : ((rows.filter scheme.live).filter fun r => scheme.key r = k).Pairwise
      fun _ _ => False := by
    rw [List.pairwise_filter, List.pairwise_filter]
    refine h.single.imp fun hne hlive hlive' hkey hkey' => ?_
    rw [decide_eq_true_eq] at hkey hkey'
    exact hne (hkey.trans hkey'.symm) ⟨hlive, hlive'⟩
  have hfilter := hperm.filter fun r => decide (scheme.key r = k)
  generalize (rows.filter scheme.live).filter (fun r => decide (scheme.key r = k)) = one
    at hpair hfilter ⊢
  match one with
  | [] => exact hfilter.eq_nil
  | [r] => exact List.perm_singleton.mp hfilter
  | r :: s :: _ => exact absurd (List.rel_of_pairwise_cons hpair List.mem_cons_self) id

end

theorem crdbEngine_get (json : Float → Float) (rows : List CrdbRecord) (panHash : String) :
    (crdbEngine json rows).get panHash =
      lastFor CrdbRecord.panHash (CrdbRecord.card json) rows panHash :=
  get_foldl_put rows panHash

theorem stipEngine_get (rows : List StipRuleRow) (networkId : String) :
    (stipEngine rows).get networkId =
      lastFor StipRuleRow.networkId StipRuleRow.rule rows networkId :=
  get_foldl_put rows networkId

theorem sentRoutes_eq (rows : List RouteRow) (binPrefix : String) :
    sentRoutes rows binPrefix =
      (rows.filter fun r => routeScheme.key r = binPrefix).map RouteRow.payload :=
  List.filter_map

/-- The live rules of a network are published alike. -/
def NetworksAgree (rules : List StipRuleRow) : Prop :=
  OneValue StipRuleRow.networkId StipRuleRow.rule (rules.filter (·.isLive))

/-- For two of the tables the order follows from the versions. -/
theorem liveVersions_iff {t : Tables} : LiveVersions t ↔ crdbScheme.OneLive t.crdbRecords ∧
    stipScheme.OneLive t.stipRules ∧ routeScheme.OneLive t.routingRules ∧
      NetworksAgree t.stipRules := by
  have hstip : (∀ rows, rows.Perm (t.stipRules.filter (·.isLive)) → ∀ networkId,
      (stipEngine rows).get networkId =
        (stipEngine (t.stipRules.filter (·.isLive))).get networkId) ↔
      NetworksAgree t.stipRules := by
    rw [NetworksAgree, ← orderFree_iff, OrderFree]
    simp only [stipEngine_get]
  constructor
  · rintro ⟨hcrdb, hrules, hroutes, -, horder, -⟩
    exact ⟨hcrdb, hrules, hroutes, hstip.mp horder⟩
  · rintro ⟨hcrdb, hrules, hroutes, hagree⟩
    refine ⟨hcrdb, hrules, hroutes, fun rows hperm json panHash => ?_, hstip.mpr hagree,
      fun rows hperm binPrefix => ?_⟩
    · rw [crdbEngine_get, crdbEngine_get]
      exact orderFree_iff.mpr (oneValue_of_oneLive hcrdb (CrdbRecord.card json)) rows hperm panHash
    · rw [sentRoutes_eq, sentRoutes_eq]
      exact congrArg _ (filter_perm hroutes hperm binPrefix)

/-! ## The condition -/

/-- When a request keeps the versions.  A create needs a key of which there is no row, or
only dead ones with versions below 1.  An update needs a version that can be counted up.
The live rules of the network of a STIP rule have to be published like the new one. -/
def Request.Keeps (t : Tables) : Request → Prop
  | .createCrdbRecord payload _ =>
      ∀ r ∈ t.crdbRecords, r.panHash = payload.panHash → r.isLive = false ∧ r.version < 1
  | .updateCrdbRecord id _ _ =>
      ∀ r ∈ t.crdbRecords, r.id = id → r.isLive = true → r.version < Int32.maxValue
  | .createStipRule payload newId =>
      (∀ r ∈ t.stipRules, r.networkId = payload.networkId →
        r.conditionType = payload.conditionType → r.isLive = false ∧ r.version < 1) ∧
      ∀ r ∈ t.stipRules, r.isLive = true → r.networkId = payload.networkId →
        r.rule = (payload.row newId).rule
  | .updateStipRule id payload newId =>
      ∀ r ∈ t.stipRules, r.id = id → r.isLive = true → r.version < Int32.maxValue ∧
        ∀ s ∈ t.stipRules, s.id ≠ id → s.isLive = true → s.networkId = r.networkId →
          s.rule = (payload.next newId r).rule
  | .createRoute payload =>
      ∀ r ∈ t.routingRules, r.binPrefix = payload.binPrefix → r.isLive = false ∧ r.version < 1
  | .updateRoute id _ =>
      ∀ r ∈ t.routingRules, r.id = some id → r.isLive = true → r.version < Int32.maxValue

/-! ## One request -/

section
variable {Row Key : Type} {scheme : Scheme Row Key} {rows : List Row}

theorem oneLive_insertRow (h : scheme.OneLive rows) {row : Row} {succeeds : Bool}
    (hfresh : succeeds = true → ∀ s ∈ rows, scheme.key s = scheme.key row →
      scheme.live s = false ∧ scheme.version s < scheme.version row) :
    scheme.OneLive (insertRow row succeeds rows).1 := by
  cases succeeds with
  | false => exact h
  | true => exact h.concat (hfresh rfl)

theorem oneLive_replaceRow (h : scheme.OneLive rows) {hasId : Row → Bool} {retire next : Row → Row}
    {succeeds : Bool} (hkey : ∀ r, scheme.key (retire r) = scheme.key r)
    (hversion : ∀ r, scheme.version (retire r) = scheme.version r)
    (hdead : ∀ r, scheme.live (retire r) = false) (hnext : ∀ r, scheme.key (next r) = scheme.key r)
    (hnewer : succeeds = true → ∀ r ∈ rows, hasId r = true → scheme.live r = true →
      scheme.version r < scheme.version (next r)) :
    scheme.OneLive (replaceRow hasId scheme.live retire next succeeds rows).1 := by
  rw [replaceRow]
  cases succeeds with
  | false => exact h
  | true =>
      rw [if_pos rfl]
      cases hfind : rows.find? fun row => hasId row && scheme.live row with
      | none => exact h
      | some old =>
          have hfound := List.find?_some hfind
          obtain ⟨hid, hlive⟩ := Bool.and_eq_true_iff.mp hfound
          have hmem := List.mem_of_find?_eq_some hfind
          refine h.replace (fun r => ?_) (fun r => ?_) (fun r hr => ?_) hmem hlive ?_ (hnext old)
            (hnewer rfl old hmem hid hlive)
          · split
            · exact hkey r
            · rfl
          · split
            · exact hversion r
            · rfl
          · split at hr
            · rw [hdead] at hr
              cases hr
            · exact hr
          · rw [if_pos hid, hdead]

/-- What is live behind an update was live before, and has another id. -/
theorem mem_stillLive {hasId live : Row → Bool} {retire : Row → Row}
    (hdead : ∀ r, live (retire r) = false) {s : Row}
    (hs : s ∈ (rows.map fun r => if hasId r = true then retire r else r).filter live) :
    s ∈ rows ∧ live s = true ∧ hasId s ≠ true := by
  obtain ⟨hs, hlive⟩ := List.mem_filter.mp hs
  obtain ⟨r, hr, rfl⟩ := List.mem_map.mp hs
  split at hlive
  next =>
    rw [hdead] at hlive
    cases hlive
  next hid =>
    rw [if_neg hid]
    exact ⟨hr, hlive, hid⟩

end

theorem toInt_add_one {version : Int32} (h : version < Int32.maxValue) :
    version.toInt < (version + 1).toInt := by
  have hlt : version.toInt < 2147483647 := Int32.lt_iff_toInt_lt.mp h
  have hge := version.le_toInt
  have hone : (1 : Int32).toInt = 1 := rfl
  rw [Int32.toInt_add, hone, Int.bmod_eq_of_le (by omega) (by omega)]
  omega

theorem toInt_lt_one {version : Int32} (h : version < 1) : version.toInt < (1 : Int32).toInt :=
  Int32.lt_iff_toInt_lt.mp h

theorem networksAgree_create {rules : List StipRuleRow} (h : NetworksAgree rules)
    {payload : CreateStipReq} {newId : Int32} {succeeds : Bool}
    (hrule : succeeds = true → ∀ r ∈ rules, r.isLive = true → r.networkId = payload.networkId →
      r.rule = (payload.row newId).rule) :
    NetworksAgree (createStipRule payload newId succeeds rules).1 := by
  cases succeeds with
  | false => exact h
  | true =>
      show OneValue _ _ ((rules ++ [payload.row newId]).filter (·.isLive))
      rw [List.filter_append]
      refine h.concat fun r hr hnetwork => ?_
      obtain ⟨hr, hlive⟩ := List.mem_filter.mp hr
      exact hrule rfl r hr hlive hnetwork

theorem networksAgree_update {rules : List StipRuleRow} (h : NetworksAgree rules) {id : Int32}
    {payload : UpdateStipReq} {newId : Int32} {succeeds : Bool}
    (hrule : succeeds = true → ∀ r ∈ rules, r.id = id → r.isLive = true → ∀ s ∈ rules, s.id ≠ id →
      s.isLive = true → s.networkId = r.networkId → s.rule = (payload.next newId r).rule) :
    NetworksAgree (updateStipRule id payload newId succeeds rules).1 := by
  rw [updateStipRule, replaceRow]
  cases succeeds with
  | false => exact h
  | true =>
      rw [if_pos rfl]
      cases hfind : rules.find? fun rule => decide (rule.id = id) && rule.isLive with
      | none => exact h
      | some old =>
          have hfound := List.find?_some hfind
          rw [Bool.and_eq_true, decide_eq_true_eq] at hfound
          show OneValue _ _ ((_ ++ [payload.next newId old]).filter (·.isLive))
          rw [List.filter_append]
          have hagree : OneValue StipRuleRow.networkId StipRuleRow.rule ((rules.map fun rule =>
              if decide (rule.id = id) = true then rule.retire else rule).filter (·.isLive)) :=
            h.of_subset fun s hs => by
              obtain ⟨hs, hlive, -⟩ := mem_stillLive (fun _ => rfl) hs
              exact List.mem_filter.mpr ⟨hs, hlive⟩
          refine hagree.concat fun s hs hnetwork => ?_
          obtain ⟨hs, hlive, hid⟩ := mem_stillLive (fun _ => rfl) hs
          have hother : s.id ≠ id := fun hid' => hid (decide_eq_true hid')
          exact hrule rfl old (List.mem_of_find?_eq_some hfind) hfound.1 hfound.2 s hs hother hlive
            hnetwork

/-- What a request keeps. -/
theorem liveVersions_handle {t : Tables} (h : LiveVersions t) {request : Request} {succeeds : Bool}
    (hkeeps : succeeds = true → request.Keeps t) : LiveVersions (t.handle succeeds request) := by
  rw [liveVersions_iff] at h ⊢
  obtain ⟨hcrdb, hstip, hroutes, hagree⟩ := h
  cases request with
  | createCrdbRecord payload newId =>
      refine ⟨oneLive_insertRow hcrdb fun hok r hr hkey => ?_, hstip, hroutes, hagree⟩
      obtain ⟨hdead, hversion⟩ := hkeeps hok r hr hkey
      exact ⟨hdead, toInt_lt_one hversion⟩
  | updateCrdbRecord id payload newId =>
      refine ⟨oneLive_replaceRow hcrdb (fun _ => rfl) (fun _ => rfl) (fun _ => rfl) (fun _ => rfl)
        fun hok r hr hid hlive => ?_, hstip, hroutes, hagree⟩
      exact toInt_add_one (hkeeps hok r hr (of_decide_eq_true hid) hlive)
  | createStipRule payload newId =>
      refine ⟨hcrdb, oneLive_insertRow hstip fun hok r hr hkey => ?_, hroutes,
        networksAgree_create hagree fun hok => (hkeeps hok).2⟩
      obtain ⟨hnetwork, hcondition⟩ := Prod.mk.inj hkey
      obtain ⟨hdead, hversion⟩ := (hkeeps hok).1 r hr hnetwork hcondition
      exact ⟨hdead, toInt_lt_one hversion⟩
  | updateStipRule id payload newId =>
      refine ⟨hcrdb, oneLive_replaceRow hstip (fun _ => rfl) (fun _ => rfl) (fun _ => rfl)
        (fun _ => rfl) fun hok r hr hid hlive => ?_, hroutes,
        networksAgree_update hagree fun hok r hr hid hlive => (hkeeps hok r hr hid hlive).2⟩
      exact toInt_add_one (hkeeps hok r hr (of_decide_eq_true hid) hlive).1
  | createRoute payload =>
      refine ⟨hcrdb, hstip, oneLive_insertRow hroutes fun hok r hr hkey => ?_, hagree⟩
      obtain ⟨hdead, hversion⟩ := hkeeps hok r hr hkey
      exact ⟨hdead, toInt_lt_one hversion⟩
  | updateRoute id payload =>
      refine ⟨hcrdb, hstip, oneLive_replaceRow hroutes (fun _ => rfl) (fun _ => rfl) (fun _ => rfl)
        (fun _ => rfl) fun hok r hr hid hlive => ?_, hagree⟩
      exact toInt_add_one (hkeeps hok r hr (of_decide_eq_true hid) hlive)

/-! ## Runs -/

/-- Requests that the database carries out or not, one after the other. -/
def Tables.run (t : Tables) (requests : List (Request × Bool)) : Tables :=
  requests.foldl (fun t request => t.handle request.2 request.1) t

/-- Every request that the database carries out meets the condition where it is made. -/
def KeepsVersions : Tables → List (Request × Bool) → Prop
  | _, [] => True
  | t, (request, succeeds) :: requests =>
      (succeeds = true → request.Keeps t) ∧ KeepsVersions (t.handle succeeds request) requests

/-- In a run whose requests meet the condition there is always one live version. -/
theorem liveVersions_run (t : Tables) (h : LiveVersions t) (requests : List (Request × Bool))
    (hkeeps : KeepsVersions t requests) : LiveVersions (t.run requests) := by
  induction requests generalizing t with
  | nil => exact h
  | cons request requests ih =>
      obtain ⟨hfirst, hrest⟩ := hkeeps
      exact ih _ (liveVersions_handle h hfirst) hrest

/-- A card of the schema is unblocked, a new one is not stored, and a rule is made. -/
def updates : List (Request × Bool) :=
  [(.updateCrdbRecord 2 ⟨5000, "Active"⟩ 3, true),
    (.createCrdbRecord ⟨"4111222233334444", 150000, "Active"⟩ 4, false),
    (.createStipRule ⟨"VISA", "STAND_IN_APPROVAL", 5000, 85⟩ 1, true)]

def seededTables : Tables := ⟨[⟨2, "5555666677778888", 5000, "Blocked", 1, true⟩], [], []⟩

theorem seededTables_live : LiveVersions seededTables :=
  liveVersions_iff.mpr
    ⟨⟨List.pairwise_singleton _ _, List.pairwise_singleton _ _, by decide⟩, .nil, .nil, nofun⟩

theorem liveVersions_run_updates : LiveVersions (seededTables.run updates) :=
  liveVersions_run seededTables seededTables_live updates
    ⟨fun _ => by
      show ∀ r ∈ [_], _
      decide, nofun, fun _ => ⟨nofun, nofun⟩, trivial⟩

/-- A card that is created again has two live rows with one version, and whether it is
blocked depends on which of them comes last. -/
def twice : List (Request × Bool) :=
  [(.createCrdbRecord ⟨"5555666677778888", 5000, "Blocked"⟩ 1, true),
    (.createCrdbRecord ⟨"5555666677778888", 5000, "Active"⟩ 2, true)]

theorem created_twice_has_two_live_rows :
    LiveVersions ⟨[], [], []⟩ ∧ ¬ LiveVersions (Tables.run ⟨[], [], []⟩ twice) := by
  refine ⟨liveVersions_iff.mpr ⟨.nil, .nil, .nil, nofun⟩, fun h => ?_⟩
  have hsingle := h.crdb.single
  revert hsingle
  decide

end Iso8583Switch.ControlPlane
