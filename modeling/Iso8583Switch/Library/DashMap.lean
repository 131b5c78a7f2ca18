import Mathlib.Data.List.AList

/-!
# Concurrent maps

A concurrent map is modelled by its contents, an association list with distinct
keys.  Every access of the source locks one shard, so it is one atomic function
on the contents.  The order of the list is the order in which an iterator
happens to meet the entries and no statement depends on it.
-/

variable {κ ν : Type} [DecidableEq κ]

/-- The contents of a concurrent map. -/
abbrev DashMap (κ ν : Type) := AList (fun _ : κ => ν)

namespace DashMap

/-- `get` and the lookup inside `get_mut` and `entry`. -/
def get (m : DashMap κ ν) (k : κ) : Option ν := m.lookup k

/-- `insert`, and the write through a mutable reference to the value at `k`. -/
def put (m : DashMap κ ν) (k : κ) (v : ν) : DashMap κ ν := AList.insert k v m

/-- `remove`. -/
def remove (m : DashMap κ ν) (k : κ) : DashMap κ ν := AList.erase k m

@[simp] theorem get_empty (k : κ) : (∅ : DashMap κ ν).get k = none := AList.lookup_empty k

@[simp] theorem get_put_self (m : DashMap κ ν) (k : κ) (v : ν) : (m.put k v).get k = some v :=
  AList.lookup_insert m

theorem get_put_ne (m : DashMap κ ν) {k k' : κ} (v : ν) (h : k' ≠ k) :
    (m.put k v).get k' = m.get k' := AList.lookup_insert_ne h

theorem get_put (m : DashMap κ ν) (k k' : κ) (v : ν) :
    (m.put k v).get k' = if k' = k then some v else m.get k' := by
  split
  next h => rw [h, get_put_self]
  next h => exact get_put_ne m v h

@[simp] theorem get_remove_self (m : DashMap κ ν) (k : κ) : (m.remove k).get k = none :=
  AList.lookup_erase k m

theorem get_remove_ne (m : DashMap κ ν) {k k' : κ} (h : k' ≠ k) :
    (m.remove k).get k' = m.get k' := AList.lookup_erase_ne h

theorem get_remove (m : DashMap κ ν) (k k' : κ) :
    (m.remove k).get k' = if k' = k then none else m.get k' := by
  split
  next h => rw [h, get_remove_self]
  next h => exact get_remove_ne m h

theorem get_foldl_remove (ks : List κ) (m : DashMap κ ν) (k : κ) :
    (ks.foldl remove m).get k = if k ∈ ks then none else m.get k := by
  induction ks generalizing m with
  | nil => rw [List.foldl_nil, if_neg List.not_mem_nil]
  | cons k' ks ih =>
      rw [List.foldl_cons, ih, get_remove]
      by_cases hk : k = k'
      · simp [hk]
      · simp [hk]

theorem get_put_eq_some {m : DashMap κ ν} {k k' : κ} {v x : ν} :
    (m.put k v).get k' = some x ↔ (k' = k ∧ x = v) ∨ (k' ≠ k ∧ m.get k' = some x) := by
  rw [get_put]
  split
  next h => simp [h, eq_comm]
  next h => simp [h]

theorem get_remove_eq_some {m : DashMap κ ν} {k k' : κ} {v : ν} :
    (m.remove k).get k' = some v ↔ k' ≠ k ∧ m.get k' = some v := by
  rw [get_remove]
  split
  next h => simp [h]
  next h => simp [h]

theorem mem_keys_iff {m : DashMap κ ν} {k : κ} : k ∈ m.keys ↔ ∃ v, m.get k = some v := by
  rw [← AList.mem_keys, ← AList.lookup_isSome, Option.isSome_iff_exists]
  rfl

theorem mem_entries_of_get {m : DashMap κ ν} {k : κ} {v : ν} (h : m.get k = some v) :
    ⟨k, v⟩ ∈ m.entries :=
  AList.mem_lookup_iff.mp h

/-- A map that holds nothing is the empty map. -/
theorem eq_empty_of_get {m : DashMap κ ν} (h : ∀ k, m.get k = none) : m = ∅ := by
  apply AList.ext
  rw [AList.empty_entries]
  have hkeys : m.keys = [] := by
    rw [List.eq_nil_iff_forall_not_mem]
    intro k hk
    obtain ⟨v, hv⟩ := mem_keys_iff.mp hk
    rw [h k] at hv
    cases hv
  exact List.map_eq_nil_iff.mp hkeys

end DashMap
