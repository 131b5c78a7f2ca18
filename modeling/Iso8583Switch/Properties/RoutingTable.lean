import Iso8583Switch.Daemon.HotReload
import Iso8583Switch.Library.LongestPrefix

/-!
# The routing trie is a longest prefix match

A trie is read as the table of the routes on its paths, `routeAt`.  An insert
changes the table at one path, and `find` is the longest prefix match in it.
-/

namespace Iso8583Switch

open Text LongestPrefix

namespace BinTrieNode

/-- The route at the end of a path. -/
def routeAt (node : BinTrieNode) : Bytes → Option Route
  | [] => node.route
  | b :: path => (node.children b).bind fun child => child.routeAt path

@[simp] theorem routeAt_nil (node : BinTrieNode) : node.routeAt [] = node.route := rfl

theorem routeAt_cons_some {node child : BinTrieNode} {b : UInt8} (h : node.children b = some child)
    (path : Bytes) : node.routeAt (b :: path) = child.routeAt path := by
  rw [routeAt, h]
  rfl

theorem routeAt_cons_none {node : BinTrieNode} {b : UInt8} (h : node.children b = none)
    (path : Bytes) : node.routeAt (b :: path) = none := by
  rw [routeAt, h]
  rfl

@[simp] theorem routeAt_new (path : Bytes) : new.routeAt path = none := by
  cases path with
  | nil => rfl
  | cons b path => exact routeAt_cons_none rfl path

/-- A missing child has the routes of a new node. -/
theorem routeAt_getD (node : BinTrieNode) (b : UInt8) (path : Bytes) :
    ((node.children b).getD new).routeAt path = node.routeAt (b :: path) := by
  cases h : node.children b with
  | none => rw [routeAt_cons_none h, Option.getD_none, routeAt_new]
  | some child => rw [routeAt_cons_some h, Option.getD_some]

theorem routeAt_insert (node : BinTrieNode) (bin : Bytes) (route : Route) (path : Bytes) :
    (node.insert bin route).routeAt path = if path = bin then some route else node.routeAt path := by
  induction bin generalizing node path with
  | nil =>
      cases path with
      | nil => rw [if_pos rfl]; rfl
      | cons b path => rw [if_neg (List.cons_ne_nil b path)]; rfl
  | cons c bin ih =>
      cases path with
      | nil => rw [if_neg (List.cons_ne_nil c bin).symm]; rfl
      | cons b path =>
          by_cases hb : b = c
          · subst hb
            have hchild : (node.insert (b :: bin) route).children b =
                some (((node.children b).getD new).insert bin route) := if_pos rfl
            rw [routeAt_cons_some hchild, ih, routeAt_getD]
            simp only [List.cons.injEq, true_and]
          · have hne : b :: path ≠ c :: bin := fun heq => hb (List.cons.inj heq).1
            have hchild : (node.insert (c :: bin) route).children b = node.children b := if_neg hb
            rw [if_neg hne, routeAt, hchild, routeAt]

/-- The loop of `find` computes the longest match, or what it came with. -/
theorem findFrom_eq (curr : BinTrieNode) (bestMatch : Option Route) (pan : Bytes) :
    curr.findFrom (curr.route.or bestMatch) pan = (longest curr.routeAt pan).or bestMatch := by
  induction pan generalizing curr bestMatch with
  | nil => rfl
  | cons b pan ih =>
      rw [findFrom, longest_cons, routeAt_nil, Option.or_assoc]
      cases h : curr.children b with
      | none =>
          have hnone : longest (fun p => curr.routeAt (b :: p)) pan = none :=
            longest_eq_none.mpr fun p _ => routeAt_cons_none h p
          rw [hnone, Option.none_or]
      | some child =>
          have hkeep : (if child.route.isSome then child.route else curr.route.or bestMatch) =
              child.route.or (curr.route.or bestMatch) := by
            cases child.route <;> rfl
          have hroutes : (fun p => curr.routeAt (b :: p)) = child.routeAt :=
            funext (routeAt_cons_some h)
          rw [hroutes, ← ih]
          exact congrArg (child.findFrom · pan) hkeep

end BinTrieNode

namespace BinTrie

theorem find_eq (trie : BinTrie) (pan : Bytes) : trie.find pan = longest trie.root.routeAt pan := by
  have h := trie.root.findFrom_eq none pan
  rw [Option.or_none, Option.or_none] at h
  exact h

end BinTrie

/-! ## The compiled table -/

/-- The prefixes and routes of the valid rows, in order. -/
def validRows (rows : List RouteRow) : List (Bytes × Route) :=
  rows.filterMap fun row => row.route.map fun route => (asBytes row.binPrefix, route)

theorem mem_validRows {rows : List RouteRow} {bin : Bytes} {route : Route} :
    (bin, route) ∈ validRows rows ↔
      ∃ row ∈ rows, asBytes row.binPrefix = bin ∧ row.route = some route := by
  simp only [validRows, List.mem_filterMap, Option.map_eq_some_iff, Prod.mk.injEq]
  constructor
  · rintro ⟨row, hmem, route', hroute, hbin, rfl⟩
    exact ⟨row, hmem, hbin, hroute⟩
  · rintro ⟨row, hmem, hbin, hroute⟩
    exact ⟨row, hmem, route, hroute, hbin, rfl⟩

theorem compileRoutes_concat (rows : List RouteRow) (row : RouteRow) :
    compileRoutes (rows ++ [row]) = match row.route with
      | some route => (compileRoutes rows).insert (asBytes row.binPrefix) route
      | none => compileRoutes rows := by
  rw [compileRoutes, List.foldl_append]
  rfl

/-- The compiled trie is the table of the last valid rows. -/
theorem routeAt_compileRoutes (rows : List RouteRow) :
    (compileRoutes rows).root.routeAt = lastAt (validRows rows) := by
  induction rows using List.reverseRecOn with
  | nil => exact funext BinTrieNode.routeAt_new
  | append_singleton rows row ih =>
      rw [compileRoutes_concat, validRows, List.filterMap_append]
      cases hroute : row.route with
      | none =>
          simp only [List.filterMap_cons, hroute, Option.map_none, List.filterMap_nil,
            List.append_nil]
          exact ih
      | some route =>
          funext path
          have hinsert := (compileRoutes rows).root.routeAt_insert (asBytes row.binPrefix) route path
          rw [ih] at hinsert
          simp only [List.filterMap_cons, hroute, Option.map_some, List.filterMap_nil,
            lastAt_append, lastAt, Option.none_or]
          refine hinsert.trans ?_
          by_cases h : path = asBytes row.binPrefix
          · rw [if_pos h, if_pos h.symm]
            rfl
          · rw [if_neg h, if_neg (Ne.symm h), Option.none_or]
            rfl

/-- `bin` is the longest prefix of the PAN that a valid row has. -/
structure LongestBin (rows : List RouteRow) (pan bin : Bytes) : Prop where
  isPrefix : bin <+: pan
  valid : ∃ route, (bin, route) ∈ validRows rows
  longest : ∀ bin' route, (bin', route) ∈ validRows rows → bin' <+: pan → bin'.length ≤ bin.length

theorem longestBin_iff {rows : List RouteRow} {pan bin : Bytes} :
    LongestBin rows pan bin ↔ IsLongest (lastAt (validRows rows)) pan bin := by
  constructor
  · intro h
    refine ⟨h.isPrefix, ?_, fun bin' hbegins hsome => ?_⟩
    · obtain ⟨route, hmem⟩ := h.valid
      exact lastAt_isSome.mpr ⟨_, hmem, rfl⟩
    · obtain ⟨⟨_, route⟩, hmem, rfl⟩ := lastAt_isSome.mp hsome
      exact h.longest _ route hmem hbegins
  · intro h
    refine ⟨h.isPrefix, ?_, fun bin' route hmem hbegins => ?_⟩
    · obtain ⟨⟨_, route⟩, hmem, rfl⟩ := lastAt_isSome.mp h.isSome
      exact ⟨route, hmem⟩
    · exact h.longest bin' hbegins (lastAt_isSome.mpr ⟨_, hmem, rfl⟩)

/-- The last valid row of a prefix has this route. -/
def LastRow (rows : List RouteRow) (bin : Bytes) (route : Route) : Prop :=
  ∃ before after, validRows rows = before ++ (bin, route) :: after ∧ ∀ row ∈ after, row.1 ≠ bin

/-- After a hot reload `find` is the longest prefix match over the valid rows, the
last row of the prefix counts, and rows of other prefixes do not. -/
theorem hotReloadRoutes_find (g : GlobalState) (rows : List RouteRow) (pan : Bytes) :
    ((hotReloadRoutes g rows).router.find pan = none ↔
      ∀ row ∈ rows, row.route.isSome → ¬ asBytes row.binPrefix <+: pan) ∧
    (∀ route, (hotReloadRoutes g rows).router.find pan = some route ↔
      ∃ bin, LongestBin rows pan bin ∧ LastRow rows bin route) ∧
    ∀ before row after bin, rows = before ++ row :: after → LongestBin rows pan bin →
      asBytes row.binPrefix ≠ bin →
      (hotReloadRoutes g (before ++ after)).router.find pan =
        (hotReloadRoutes g rows).router.find pan := by
  have hfind (rows : List RouteRow) : (hotReloadRoutes g rows).router.find pan =
      longest (lastAt (validRows rows)) pan := by
    rw [← routeAt_compileRoutes]
    exact BinTrie.find_eq _ pan
  refine ⟨?_, fun route => ?_, fun before row after bin hrows hbin hne => ?_⟩
  · rw [hfind, longest_eq_none]
    constructor
    · intro h row hmem hsome hbegins
      obtain ⟨route, hroute⟩ := Option.isSome_iff_exists.mp hsome
      have hat := lastAt_isSome.mpr ⟨_, mem_validRows.mpr ⟨row, hmem, rfl, hroute⟩, rfl⟩
      rw [h _ hbegins] at hat
      cases hat
    · intro h bin hbegins
      refine Option.not_isSome_iff_eq_none.mp fun hsome => ?_
      obtain ⟨⟨_, route⟩, hmem, rfl⟩ := lastAt_isSome.mp hsome
      obtain ⟨row, hrow, rfl, hroute⟩ := mem_validRows.mp hmem
      exact h row hrow (by rw [hroute]; rfl) hbegins
  · rw [hfind]
    constructor
    · intro h
      obtain ⟨bin, hbin⟩ := exists_isLongest_of_eq_some h
      rw [longest_of_isLongest hbin, lastAt_eq_some] at h
      exact ⟨bin, longestBin_iff.mpr hbin, h⟩
    · rintro ⟨bin, hbin, hlast⟩
      rw [longest_of_isLongest (longestBin_iff.mp hbin), lastAt_eq_some]
      exact hlast
  · rw [hfind, hfind]
    cases hroute : row.route with
    | none =>
        have hsame : validRows (before ++ after) = validRows rows := by
          simp [hrows, validRows, hroute]
        rw [hsame]
    | some route =>
        have hsplit : validRows rows =
            validRows before ++ (asBytes row.binPrefix, route) :: validRows after := by
          simp [hrows, validRows, hroute]
        have hless : validRows (before ++ after) = validRows before ++ validRows after := by
          simp [validRows]
        rw [hless]
        refine longest_congr (longestBin_iff.mp hbin) ?_ fun bin' hsome => ?_
        · rw [hsplit, lastAt_remove hne]
        · obtain ⟨row', hmem, hkey⟩ := lastAt_isSome.mp hsome
          refine lastAt_isSome.mpr ⟨row', ?_, hkey⟩
          rw [hsplit]
          rcases List.mem_append.mp hmem with hmem | hmem
          · exact List.mem_append_left _ hmem
          · exact List.mem_append_right _ (List.mem_cons_of_mem _ hmem)

/-- A nested and repeated prefix, and an invalid row. -/
def nestedRows : List RouteRow :=
  [⟨"41", "ExternalNode", some "A", none⟩, ⟨"4", "ExternalNode", some "B", none⟩,
    ⟨"41", "InternalCrdb", none, none⟩, ⟨"411", "ExternalNode", none, none⟩]

theorem hotReloadRoutes_find_nested :
    (hotReloadRoutes .new nestedRows).router.find (asBytes "4111") = some ⟨.internalCrdb, none⟩ := by
  refine ((hotReloadRoutes_find .new nestedRows (asBytes "4111")).2.1 _).mpr
    ⟨asBytes "41", ⟨by decide, ⟨⟨.internalCrdb, none⟩, by decide⟩, ?_⟩, ?_⟩
  · intro bin' route hmem hbegins
    have hall : ∀ row ∈ validRows nestedRows, row.1.length ≤ (asBytes "41").length := by decide
    exact hall _ hmem
  · exact ⟨validRows (nestedRows.take 2), [], by decide, by decide⟩

end Iso8583Switch
