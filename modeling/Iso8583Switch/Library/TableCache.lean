import Mathlib.Data.List.Induction
import Iso8583Switch.Library.DashMap

/-!
# Maps that copy a table

A row of a table gives a key and a value, or a key alone if its value cannot be converted.
A map follows a table if it has the keys of the rows and for each key the value of the last
row that has it (`Follows`).

Writing the rows over what is in a map leaves the keys that are in no row.  The result
follows the table exactly where there are none (`follows_upsertAll_iff`).  Writing them
into an empty map and taking its place works always (`follows_replaceBy`).
-/

namespace TableCache

variable {κ ν : Type} [DecidableEq κ]

/-- The value of the last row of a key, if there is such a row and the value is good. -/
def lastValue (rows : List (κ × Option ν)) (k : κ) : Option (Option ν) := rows.reverse.lookup k

@[simp] theorem lastValue_nil (k : κ) : lastValue ([] : List (κ × Option ν)) k = none := rfl

theorem lastValue_concat (rows : List (κ × Option ν)) (row : κ × Option ν) (k : κ) :
    lastValue (rows ++ [row]) k = if k = row.1 then some row.2 else lastValue rows k := by
  rw [lastValue, List.reverse_append, List.reverse_singleton, List.singleton_append,
    List.lookup_cons]
  by_cases h : k = row.1
  · rw [if_pos h, beq_iff_eq.mpr h]
  · rw [if_neg h, beq_eq_false_iff_ne.mpr h]
    rfl

theorem lastValue_isSome {rows : List (κ × Option ν)} {k : κ} :
    (lastValue rows k).isSome = true ↔ k ∈ rows.map Prod.fst := by
  induction rows using List.reverseRecOn with
  | nil => exact iff_of_false Bool.noConfusion List.not_mem_nil
  | append_singleton rows row ih =>
      rw [lastValue_concat, List.map_append, List.mem_append, List.map_singleton,
        List.mem_singleton]
      split
      next h => exact iff_of_true rfl (.inr h)
      next h => rw [ih, or_iff_left h]

/-- Rows whose values are all good. -/
theorem lastValue_map_ne {ρ : Type} (rows : List ρ) (key : ρ → κ) (val : ρ → ν) (k : κ) :
    lastValue (rows.map fun row => (key row, some (val row))) k ≠ some none := by
  induction rows using List.reverseRecOn with
  | nil => nofun
  | append_singleton rows row ih =>
      rw [List.map_append, List.map_singleton, lastValue_concat]
      split
      · nofun
      · exact ih

/-- The map has the rows of the table, the last one for each key, and nothing else. -/
def Follows (cache : DashMap κ ν) (rows : List (κ × Option ν)) : Prop :=
  ∀ k, (cache.get k).map some = lastValue rows k

theorem Follows.isSome_get_iff {cache : DashMap κ ν} {rows : List (κ × Option ν)}
    (h : Follows cache rows) (k : κ) : (cache.get k).isSome = true ↔ k ∈ rows.map Prod.fst := by
  rw [← lastValue_isSome, ← h k, Option.isSome_map]

/-- `insert` of a row, if its value is good. -/
def upsert (cache : DashMap κ ν) (row : κ × Option ν) : DashMap κ ν :=
  match row.2 with
  | some v => cache.put row.1 v
  | none => cache

def upsertAll (cache : DashMap κ ν) (rows : List (κ × Option ν)) : DashMap κ ν :=
  rows.foldl upsert cache

theorem upsertAll_concat (cache : DashMap κ ν) (rows : List (κ × Option ν))
    (row : κ × Option ν) : upsertAll cache (rows ++ [row]) = upsert (upsertAll cache rows) row := by
  rw [upsertAll, List.foldl_append]
  rfl

theorem get_upsert (cache : DashMap κ ν) (row : κ × Option ν) (k : κ) :
    (upsert cache row).get k = if k = row.1 then row.2.or (cache.get k) else cache.get k := by
  obtain ⟨k', v⟩ := row
  cases v with
  | none => exact (ite_self _).symm
  | some v => exact DashMap.get_put cache k' k v

/-- What a key has behind all rows. -/
theorem get_upsertAll_of_last {rows : List (κ × Option ν)} {k : κ} {v : ν}
    (h : lastValue rows k = some (some v)) (cache : DashMap κ ν) :
    (upsertAll cache rows).get k = some v := by
  induction rows using List.reverseRecOn with
  | nil => cases h
  | append_singleton rows row ih =>
      rw [lastValue_concat] at h
      rw [upsertAll_concat, get_upsert]
      split at h
      next hk =>
        rw [if_pos hk, Option.some.inj h]
        rfl
      next hk => rw [if_neg hk, ih h]

theorem get_upsertAll_of_absent {rows : List (κ × Option ν)} {k : κ} (h : lastValue rows k = none)
    (cache : DashMap κ ν) : (upsertAll cache rows).get k = cache.get k := by
  induction rows using List.reverseRecOn with
  | nil => rfl
  | append_singleton rows row ih =>
      rw [lastValue_concat] at h
      split at h
      next hk => cases h
      next hk => rw [upsertAll_concat, get_upsert, if_neg hk, ih h]

/-- No key is lost. -/
theorem isSome_get_upsertAll {cache : DashMap κ ν} {k : κ} (h : (cache.get k).isSome = true)
    (rows : List (κ × Option ν)) : ((upsertAll cache rows).get k).isSome = true := by
  induction rows using List.reverseRecOn with
  | nil => exact h
  | append_singleton rows row ih =>
      rw [upsertAll_concat, get_upsert]
      split
      · rw [Option.isSome_or, ih, Bool.or_true]
      · exact ih

theorem isSome_or_mem {cache : DashMap κ ν} {rows : List (κ × Option ν)} {k : κ}
    (h : ((upsertAll cache rows).get k).isSome = true) :
    (cache.get k).isSome = true ∨ k ∈ rows.map Prod.fst := by
  cases hlast : lastValue rows k with
  | none =>
      rw [get_upsertAll_of_absent hlast] at h
      exact .inl h
  | some v => exact .inr (lastValue_isSome.mp (by rw [hlast]; rfl))

/-- Rows that are written over a map give the table if every last value is good and the map
had no other keys. -/
theorem follows_upsertAll_iff (cache : DashMap κ ν) (rows : List (κ × Option ν)) :
    Follows (upsertAll cache rows) rows ↔ (∀ k, lastValue rows k ≠ some none) ∧
      ∀ k, (cache.get k).isSome = true → k ∈ rows.map Prod.fst := by
  constructor
  · intro h
    refine ⟨fun k hnone => ?_, fun k hcached => ?_⟩
    · have hget := h k
      rw [hnone, Option.map_eq_some_iff] at hget
      obtain ⟨v, -, hv⟩ := hget
      cases hv
    · exact (h.isSome_get_iff k).mp (isSome_get_upsertAll hcached rows)
  · rintro ⟨hgood, hkeys⟩ k
    cases hlast : lastValue rows k with
    | none =>
        rw [get_upsertAll_of_absent hlast]
        cases hcached : cache.get k with
        | none => rfl
        | some v =>
            have hmem := lastValue_isSome.mpr (hkeys k (by rw [hcached]; rfl))
            rw [hlast] at hmem
            cases hmem
    | some value =>
        cases value with
        | none => exact absurd hlast (hgood k)
        | some v =>
            rw [get_upsertAll_of_last hlast]
            rfl

/-! ## Replacing a map -/

/-- `retain` by the key. -/
def retain (cache : DashMap κ ν) (keep : κ → Bool) : DashMap κ ν :=
  (cache.keys.filter fun k => !keep k).foldl DashMap.remove cache

theorem get_retain (cache : DashMap κ ν) (keep : κ → Bool) (k : κ) :
    (retain cache keep).get k = if keep k then cache.get k else none := by
  rw [retain, DashMap.get_foldl_remove]
  cases hkeep : keep k with
  | true => simp [hkeep]
  | false =>
      cases hcached : cache.get k with
      | none => simp
      | some v =>
          have hmem : k ∈ cache.keys := DashMap.mem_keys_iff.mpr ⟨v, hcached⟩
          simp [hmem, hkeep]

/-- Drop the keys that another map does not have, and insert what it has. -/
def replaceBy (cache temp : DashMap κ ν) : DashMap κ ν :=
  temp.entries.foldl (fun cache entry => cache.put entry.1 entry.2)
    (retain cache fun k => (temp.get k).isSome)

theorem get_foldl_put {entries : List (Sigma fun _ : κ => ν)} (h : entries.NodupKeys)
    (cache : DashMap κ ν) (k : κ) :
    (entries.foldl (fun cache entry => cache.put entry.1 entry.2) cache).get k =
      (entries.dlookup k).or (cache.get k) := by
  induction entries generalizing cache with
  | nil => rfl
  | cons entry entries ih =>
      obtain ⟨hnot, hnodup⟩ := List.nodupKeys_cons.mp h
      rw [List.foldl_cons, ih hnodup, DashMap.get_put]
      by_cases hk : k = entry.1
      · subst hk
        rw [if_pos rfl, List.dlookup_eq_none.mpr hnot, List.dlookup_cons_eq]
        rfl
      · rw [if_neg hk, List.dlookup_cons_ne _ _ hk]

/-- The map becomes the other one. -/
theorem get_replaceBy (cache temp : DashMap κ ν) (k : κ) :
    (replaceBy cache temp).get k = temp.get k := by
  rw [replaceBy, get_foldl_put temp.nodupKeys, get_retain]
  show (temp.get k).or _ = temp.get k
  cases temp.get k with
  | none => rfl
  | some v => rfl

theorem follows_replaceBy (cache : DashMap κ ν) {rows : List (κ × Option ν)}
    (h : ∀ k, lastValue rows k ≠ some none) :
    Follows (replaceBy cache (upsertAll ∅ rows)) rows := by
  intro k
  rw [get_replaceBy]
  refine (follows_upsertAll_iff ∅ rows).mpr ⟨h, fun k hk => ?_⟩ k
  rw [DashMap.get_empty] at hk
  cases hk

end TableCache
