import Iso8583Switch.Library.Versioned
import Iso8583Switch.Ops.Publish
import Iso8583Switch.Properties.RoutingTable

/-!
# Publishing and the tables of the switch

A table of the switch is compared with the rows it was built from key by key: the last
row of a key is the one that counts.  The three handlers differ in the table that they
replace, so what a failed SELECT does is proved once, of `postReload`.
-/

namespace Iso8583Switch.ControlPlane

open Text LongestPrefix Versioned

variable {Row ε : Type}

/-! ## Images -/

/-- The cards of the switch are those of the rows, and nothing else has changed. -/
structure CrdbImage (json : Float → Float) (g : GlobalState) (rows : List CrdbRecord)
    (g' : GlobalState) : Prop where
  cards : ∀ panHash, g'.crdb.cards.get panHash =
    lastFor CrdbRecord.panHash (CrdbRecord.card json) rows panHash
  frame : g' = { g with crdb := g'.crdb }

structure StipImage (g : GlobalState) (rows : List StipRuleRow) (g' : GlobalState) : Prop where
  rules : ∀ networkId, g'.stip.rules.get networkId =
    lastFor StipRuleRow.networkId StipRuleRow.rule rows networkId
  frame : g' = { g with stip := g'.stip }

/-- The routes of the trie are those of the last valid rows. -/
structure RoutesImage (g : GlobalState) (rows : List RouteRow) (g' : GlobalState) : Prop where
  routes : g'.router.root.routeAt = lastAt (validRows (rows.map RouteRow.payload))
  frame : g' = { g with router := g'.router }

theorem crdbImage (json : Float → Float) (g : GlobalState) (rows : List CrdbRecord) :
    CrdbImage json g rows (hotReloadCrdb g (crdbEngine json rows)) where
  cards := get_foldl_put rows
  frame := rfl

theorem stipImage (g : GlobalState) (rows : List StipRuleRow) :
    StipImage g rows (hotReloadStip g (stipEngine rows)) where
  rules := get_foldl_put rows
  frame := rfl

theorem routesImage (g : GlobalState) (rows : List RouteRow) :
    RoutesImage g rows (hotReloadRoutes g (rows.map RouteRow.payload)) where
  routes := routeAt_compileRoutes _
  frame := rfl

/-! ## A publication -/

/-- The switch has the image of the live rows or is as it was, and OK says that it has
the image.  So if the rows were not read, nothing has changed and OK is not returned. -/
structure Sound (Image : List Row → GlobalState → Prop) (select : Except ε (List Row))
    (g : GlobalState) (result : GlobalState × StatusCode) : Prop where
  active : (∃ rows, select = .ok rows ∧ Image rows result.1) ∨ result.1 = g
  ok : result.2 = .ok → ∃ rows, select = .ok rows ∧ Image rows result.1

/-- When a publication is sound: the rows were read, or what was posted instead did not
arrive, or it changed nothing and the answer got lost. -/
theorem sound_postReload (reload : List Row → GlobalState → GlobalState)
    {Image : List Row → GlobalState → Prop} {g : GlobalState}
    (himage : ∀ rows, Image rows (reload rows g)) (select : Except ε (List Row))
    (delivery : Delivery) :
    Sound Image select g (postReload (reload (unwrapOrDefault select)) g delivery) ↔
      (∃ rows, select = .ok rows) ∨ delivery = .refused ∨
        (delivery = .unanswered ∧ reload [] g = g) := by
  cases select with
  | ok rows =>
      refine iff_of_true ?_ (.inl ⟨rows, rfl⟩)
      cases delivery with
      | refused => exact ⟨.inr rfl, nofun⟩
      | answered => exact ⟨.inl ⟨rows, rfl, himage rows⟩, fun _ => ⟨rows, rfl, himage rows⟩⟩
      | unanswered => exact ⟨.inl ⟨rows, rfl, himage rows⟩, nofun⟩
  | error failure =>
      constructor
      · rintro ⟨⟨_, hread, -⟩ | hsame, hok⟩
        · cases hread
        · cases delivery with
          | refused => exact .inr (.inl rfl)
          | answered =>
              obtain ⟨_, hread, -⟩ := hok rfl
              cases hread
          | unanswered => exact .inr (.inr ⟨rfl, hsame⟩)
      · rintro (⟨_, hread⟩ | rfl | ⟨rfl, hsame⟩)
        · cases hread
        · exact ⟨.inr rfl, nofun⟩
        · exact ⟨.inr hsame, nofun⟩

theorem fetchAll_ok {isLive : Row → Bool} {rows : List Row} {failure : Option ε} :
    (∃ live, fetchAll isLive rows failure = .ok live) ↔ failure = none := by
  cases failure with
  | none => exact iff_of_true ⟨_, rfl⟩ rfl
  | some e => exact iff_of_false (by rintro ⟨_, h⟩; cases h) (by rintro ⟨⟩)

/-- Each of the three publications is sound just if its SELECT succeeds, or nothing gets
to the daemon, or the switch had an empty table and the answer gets lost. -/
theorem publish_sound_iff (json : Float → Float) (t : Tables) (failure : Option ε) (g : GlobalState)
    (delivery : Delivery) :
    (Sound (CrdbImage json g) (fetchAll CrdbRecord.isLive t.crdbRecords failure) g
        (publishCrdb json t.crdbRecords failure g delivery) ↔
      failure = none ∨ delivery = .refused ∨ (delivery = .unanswered ∧ g.crdb = ⟨∅⟩)) ∧
    (Sound (StipImage g) (fetchAll StipRuleRow.isLive t.stipRules failure) g
        (publishStip t.stipRules failure g delivery) ↔
      failure = none ∨ delivery = .refused ∨ (delivery = .unanswered ∧ g.stip = ⟨∅⟩)) ∧
    (Sound (RoutesImage g) (fetchAll RouteRow.isLive t.routingRules failure) g
        (publishRoutes t.routingRules failure g delivery) ↔
      failure = none ∨ delivery = .refused ∨ (delivery = .unanswered ∧ g.router = .new)) := by
  have hcrdb : hotReloadCrdb g (crdbEngine json []) = g ↔ g.crdb = ⟨∅⟩ :=
    ⟨fun h => (congrArg GlobalState.crdb h).symm, fun h => by
      rw [hotReloadCrdb, crdbEngine, List.foldl_nil, ← h]⟩
  have hstip : hotReloadStip g (stipEngine []) = g ↔ g.stip = ⟨∅⟩ :=
    ⟨fun h => (congrArg GlobalState.stip h).symm, fun h => by
      rw [hotReloadStip, stipEngine, List.foldl_nil, ← h]⟩
  have hroutes : hotReloadRoutes g ([].map RouteRow.payload) = g ↔ g.router = .new :=
    ⟨fun h => (congrArg GlobalState.router h).symm, fun h => by
      rw [hotReloadRoutes, List.map_nil, compileRoutes, List.foldl_nil, ← h]⟩
  refine ⟨?_, ?_, ?_⟩
  · rw [← hcrdb, ← fetchAll_ok]
    exact sound_postReload (fun rows g => hotReloadCrdb g (crdbEngine json rows))
      (crdbImage json g) _ delivery
  · rw [← hstip, ← fetchAll_ok]
    exact sound_postReload (fun rows g => hotReloadStip g (stipEngine rows)) (stipImage g) _ delivery
  · rw [← hroutes, ← fetchAll_ok]
    exact sound_postReload (fun rows g => hotReloadRoutes g (rows.map RouteRow.payload))
      (routesImage g) _ delivery

/-- One of the cards of the schema. -/
def seededCard : CrdbRecord := ⟨2, "5555666677778888", 5000, "Blocked", 1, true⟩

/-- The switch after that card was published. -/
def seededSwitch : GlobalState :=
  (publishCrdb id [seededCard] (none : Option String) .new .answered).1

/-- A SELECT that fails empties the table of the switch, and the answer is OK. -/
theorem failed_select_unblocks :
    (publishCrdb id [seededCard] (some "database is locked") seededSwitch .answered).2 = .ok ∧
      (publishCrdb id [seededCard] (some "database is locked") seededSwitch .answered).1.crdb = ⟨∅⟩ ∧
      ¬ Sound (CrdbImage id seededSwitch)
        (fetchAll CrdbRecord.isLive [seededCard] (some "database is locked")) seededSwitch
        (publishCrdb id [seededCard] (some "database is locked") seededSwitch .answered) := by
  refine ⟨rfl, rfl, ?_⟩
  rintro ⟨-, hok⟩
  obtain ⟨rows, hread, -⟩ := hok rfl
  cases hread

end Iso8583Switch.ControlPlane
