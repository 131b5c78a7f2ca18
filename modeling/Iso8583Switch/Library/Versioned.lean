import Iso8583Switch.Library.DashMap
import Mathlib.Data.List.Induction
import Mathlib.Data.List.Perm.Basic
import Mathlib.Data.List.Pairwise

/-!
# Versioned rows

A table that keeps the old versions of its records.  A record is a key, and the rows of a
key are its versions.  `OneLive` says that a key has at most one live row and that this
row is its newest.  A new key keeps it, and so does a new version of the live row of a
key, once the old version is dead (`OneLive.replace`).

The second part is about what is built from the rows of a table, key by key, with the
last row of a key as the one that counts.  It does not depend on the order of the rows
just if the rows of a key have one value (`orderFree_iff`).
-/

namespace Versioned

variable {Row Key α κ : Type}

structure Scheme (Row Key : Type) where
  key : Row → Key
  version : Row → Int
  live : Row → Bool

namespace Scheme

variable {scheme : Scheme Row Key} {rows : List Row}

structure OneLive (scheme : Scheme Row Key) (rows : List Row) : Prop where
  single : rows.Pairwise fun r s =>
    scheme.key r = scheme.key s → ¬ (scheme.live r = true ∧ scheme.live s = true)
  distinct : rows.Pairwise fun r s =>
    scheme.key r = scheme.key s → scheme.version r ≠ scheme.version s
  largest : ∀ r ∈ rows, scheme.live r = true → ∀ s ∈ rows, scheme.key s = scheme.key r →
    scheme.version s ≤ scheme.version r

namespace OneLive

theorem nil : scheme.OneLive [] := ⟨.nil, .nil, nofun⟩

/-- The live row of a key. -/
theorem eq_of_live (h : scheme.OneLive rows) {r s : Row} (hr : r ∈ rows) (hs : s ∈ rows)
    (hkey : scheme.key r = scheme.key s) (hlive : scheme.live r = true)
    (hlive' : scheme.live s = true) : r = s := by
  have hall := List.Pairwise.forall_of_forall_of_flip (R := fun r s =>
      scheme.key r = scheme.key s → scheme.live r = true → scheme.live s = true → r = s)
    (fun _ _ _ _ _ => rfl)
    (h.single.imp fun hne hkey hlive hlive' => absurd ⟨hlive, hlive'⟩ (hne hkey))
    (h.single.imp fun hne hkey hlive hlive' => absurd ⟨hlive', hlive⟩ (hne hkey.symm))
  exact hall hr hs hkey hlive hlive'

/-- Rows may die. -/
theorem map (h : scheme.OneLive rows) {f : Row → Row}
    (hkey : ∀ r, scheme.key (f r) = scheme.key r)
    (hversion : ∀ r, scheme.version (f r) = scheme.version r)
    (hlive : ∀ r, scheme.live (f r) = true → scheme.live r = true) :
    scheme.OneLive (rows.map f) where
  single := by
    rw [List.pairwise_map]
    refine h.single.imp fun hne hkey' => ?_
    rw [hkey, hkey] at hkey'
    exact fun hboth => hne hkey' ⟨hlive _ hboth.1, hlive _ hboth.2⟩
  distinct := by
    rw [List.pairwise_map]
    refine h.distinct.imp fun hne hkey' => ?_
    rw [hkey, hkey] at hkey'
    rw [hversion, hversion]
    exact hne hkey'
  largest := by
    intro fr hfr hlive' fs hfs hkey'
    obtain ⟨r, hr, rfl⟩ := List.mem_map.mp hfr
    obtain ⟨s, hs, rfl⟩ := List.mem_map.mp hfs
    rw [hkey, hkey] at hkey'
    rw [hversion, hversion]
    exact h.largest r hr (hlive r hlive') s hs hkey'

/-- A row that is newer than the rows of its key, which are dead. -/
theorem concat (h : scheme.OneLive rows) {r : Row}
    (hfresh : ∀ s ∈ rows, scheme.key s = scheme.key r →
      scheme.live s = false ∧ scheme.version s < scheme.version r) :
    scheme.OneLive (rows ++ [r]) where
  single := by
    refine List.pairwise_append.mpr ⟨h.single, List.pairwise_singleton _ _, fun s hs r' hr' => ?_⟩
    cases List.mem_singleton.mp hr'
    intro hkey hboth
    rw [(hfresh s hs hkey).1] at hboth
    cases hboth.1
  distinct := by
    refine List.pairwise_append.mpr ⟨h.distinct, List.pairwise_singleton _ _, fun s hs r' hr' => ?_⟩
    cases List.mem_singleton.mp hr'
    intro hkey
    exact Int.ne_of_lt (hfresh s hs hkey).2
  largest := by
    intro r' hr' hlive s hs hkey
    rcases List.mem_append.mp hr' with hr' | hr'
    · rcases List.mem_append.mp hs with hs | hs
      · exact h.largest r' hr' hlive s hs hkey
      · cases List.mem_singleton.mp hs
        rw [(hfresh r' hr' hkey.symm).1] at hlive
        cases hlive
    · cases List.mem_singleton.mp hr'
      rcases List.mem_append.mp hs with hs | hs
      · exact Int.le_of_lt (hfresh s hs hkey).2
      · cases List.mem_singleton.mp hs
        exact Int.le_refl _

/-- The live row of a key dies and a newer one takes its place. -/
theorem replace (h : scheme.OneLive rows) {f : Row → Row} {old new : Row}
    (hkey : ∀ r, scheme.key (f r) = scheme.key r)
    (hversion : ∀ r, scheme.version (f r) = scheme.version r)
    (hlive : ∀ r, scheme.live (f r) = true → scheme.live r = true) (hmem : old ∈ rows)
    (hold : scheme.live old = true) (hdead : scheme.live (f old) = false)
    (hnew : scheme.key new = scheme.key old) (hnewer : scheme.version old < scheme.version new) :
    scheme.OneLive (rows.map f ++ [new]) := by
  refine (h.map hkey hversion hlive).concat fun s hs hsame => ?_
  obtain ⟨r, hr, rfl⟩ := List.mem_map.mp hs
  rw [hkey, hnew] at hsame
  have hle := h.largest old hmem hold r hr hsame
  refine ⟨?_, by rw [hversion]; omega⟩
  cases hr' : scheme.live (f r) with
  | false => rfl
  | true =>
      have heq := h.eq_of_live hr hmem hsame (hlive r hr') hold
      rw [heq, hdead] at hr'
      cases hr'

end OneLive

end Scheme

/-! ## What is built from rows -/

section
variable [DecidableEq κ]

/-- The value of the last row of a key. -/
def lastFor (key : Row → κ) (value : Row → α) (rows : List Row) (k : κ) : Option α :=
  (rows.reverse.find? fun r => key r = k).map value

/-- Rows of one key have one value. -/
def OneValue (key : Row → κ) (value : Row → α) (rows : List Row) : Prop :=
  ∀ r ∈ rows, ∀ s ∈ rows, key r = key s → value r = value s

variable {key : Row → κ} {value : Row → α} {rows : List Row}

omit [DecidableEq κ] in
theorem OneValue.of_subset (h : OneValue key value rows) {rows' : List Row}
    (hsub : ∀ r ∈ rows', r ∈ rows) : OneValue key value rows' :=
  fun r hr s hs => h r (hsub r hr) s (hsub s hs)

omit [DecidableEq κ] in
theorem OneValue.concat (h : OneValue key value rows) {r : Row}
    (hr : ∀ s ∈ rows, key s = key r → value s = value r) : OneValue key value (rows ++ [r]) := by
  intro s hs s' hs' hkey
  rcases List.mem_append.mp hs with hs | hs
  · rcases List.mem_append.mp hs' with hs' | hs'
    · exact h s hs s' hs' hkey
    · cases List.mem_singleton.mp hs'
      exact hr s hs hkey
  · cases List.mem_singleton.mp hs
    rcases List.mem_append.mp hs' with hs' | hs'
    · exact (hr s' hs' hkey.symm).symm
    · cases List.mem_singleton.mp hs'
      rfl

theorem lastFor_concat (rows : List Row) (r : Row) (k : κ) :
    lastFor key value (rows ++ [r]) k =
      if key r = k then some (value r) else lastFor key value rows k := by
  rw [lastFor, List.reverse_append, List.reverse_singleton, List.singleton_append, List.find?_cons]
  by_cases h : key r = k
  · rw [if_pos h, decide_eq_true h]
    rfl
  · rw [if_neg h, decide_eq_false h]
    rfl

theorem lastFor_eq_none {k : κ} (h : ∀ r ∈ rows, key r ≠ k) : lastFor key value rows k = none := by
  have hfind : (rows.reverse.find? fun r => key r = k) = none := by
    rw [List.find?_eq_none]
    intro r hr
    simpa using h r (List.mem_reverse.mp hr)
  rw [lastFor, hfind]
  rfl

theorem lastFor_eq_some (h : OneValue key value rows) {r : Row} (hr : r ∈ rows) :
    lastFor key value rows (key r) = some (value r) := by
  rw [lastFor]
  cases hfind : rows.reverse.find? fun s => key s = key r with
  | none =>
      have hne := List.find?_eq_none.mp hfind r (List.mem_reverse.mpr hr)
      simp at hne
  | some s =>
      have hs : s ∈ rows := List.mem_reverse.mp (List.mem_of_find?_eq_some hfind)
      have hkey : key s = key r := by simpa using List.find?_some hfind
      rw [Option.map_some, h s hs r hr hkey]

/-- The order of the rows does not matter. -/
def OrderFree (key : Row → κ) (value : Row → α) (rows : List Row) : Prop :=
  ∀ rows', rows'.Perm rows → ∀ k, lastFor key value rows' k = lastFor key value rows k

theorem orderFree_iff : OrderFree key value rows ↔ OneValue key value rows := by
  constructor
  · intro h r hr s hs hkey
    -- Each of the two rows can be the last.
    have hlast (t : Row) (ht : t ∈ rows) : lastFor key value rows (key t) = some (value t) := by
      classical
      have hperm : (rows.erase t ++ [t]).Perm rows :=
        List.perm_append_comm.trans (List.perm_cons_erase ht).symm
      rw [← h _ hperm, lastFor_concat, if_pos rfl]
    have hr' := hlast r hr
    rw [hkey, hlast s hs] at hr'
    exact (Option.some.inj hr').symm
  · intro h rows' hperm k
    have hagree : OneValue key value rows' := h.of_subset fun _ hr => hperm.mem_iff.mp hr
    by_cases hk : ∃ r ∈ rows, key r = k
    · obtain ⟨r, hr, rfl⟩ := hk
      rw [lastFor_eq_some h hr, lastFor_eq_some hagree (hperm.mem_iff.mpr hr)]
    · have hnone : ∀ r ∈ rows, key r ≠ k := fun r hr heq => hk ⟨r, hr, heq⟩
      rw [lastFor_eq_none hnone, lastFor_eq_none fun r hr => hnone r (hperm.mem_iff.mp hr)]

/-- A map that the rows are put into one after the other. -/
theorem get_foldl_put (rows : List Row) (k : κ) :
    (rows.foldl (fun m r => m.put (key r) (value r)) (∅ : DashMap κ α)).get k =
      lastFor key value rows k := by
  induction rows using List.reverseRecOn with
  | nil => exact DashMap.get_empty k
  | append_singleton rows r ih =>
      rw [List.foldl_append, List.foldl_cons, List.foldl_nil, DashMap.get_put, lastFor_concat, ih]
      by_cases h : key r = k
      · rw [if_pos h, if_pos h.symm]
      · rw [if_neg h, if_neg (Ne.symm h)]

end

end Versioned
