import Mathlib.Data.List.Basic
import Mathlib.Data.List.Count
import Mathlib.Data.List.Nodup

/-!
# Histories

A history is the list of the events of a run, oldest first.  The position of an
event never changes while the history grows, so the position is a name for what
the event created.  Where events have numbers, `under` has those with the same one.
-/

namespace History

variable {ε : Type*} {h l : List ε} {n : Nat} {e : ε}

/-- What a grown history holds at a position it held before, or it is new. -/
theorem getElem?_append_eq_some :
    (h ++ l)[n]? = some e ↔ h[n]? = some e ∨ (h.length ≤ n ∧ l[n - h.length]? = some e) := by
  rcases Nat.lt_or_ge n h.length with hn | hn
  · rw [List.getElem?_append_left hn]
    constructor
    · exact Or.inl
    · rintro (h' | ⟨h', -⟩)
      · exact h'
      · omega
  · rw [List.getElem?_append_right hn]
    constructor
    · exact fun h' => .inr ⟨hn, h'⟩
    · rintro (h' | ⟨-, h'⟩)
      · rw [List.getElem?_eq_none hn] at h'; cases h'
      · exact h'

/-- Positions keep their events. -/
theorem kept (he : h[n]? = some e) : (h ++ l)[n]? = some e :=
  getElem?_append_eq_some.mpr (.inl he)

/-- An event that was not added was there before. -/
theorem old (he : (h ++ l)[n]? = some e) (hl : e ∉ l) : h[n]? = some e := by
  rcases getElem?_append_eq_some.mp he with he | ⟨-, he⟩
  · exact he
  · exact absurd (List.mem_of_getElem? he) hl

/-- The event logged next is at the position that was the length. -/
theorem logged_at_length : (h ++ e :: l)[h.length]? = some e := by simp

theorem lt_length (he : h[n]? = some e) : n < h.length :=
  (List.getElem?_eq_some_iff.mp he).1

theorem mem (he : h[n]? = some e) : e ∈ h := List.mem_of_getElem? he

/-- A kind of event that happens at most once happens at one position. -/
theorem position_unique {p : ε → Bool} {m : Nat} {e' : ε} (hp : h.countP p ≤ 1)
    (hm : h[m]? = some e) (hn : h[n]? = some e') (he : p e = true) (he' : p e' = true) : m = n := by
  induction h generalizing m n with
  | nil => cases hm
  | cons a h ih =>
      have hrest {k : Nat} {x : ε} (hx : h[k]? = some x) (hpx : p x = true) : 1 ≤ h.countP p :=
        List.countP_pos_iff.mpr ⟨x, mem hx, hpx⟩
      rw [List.countP_cons] at hp
      cases m with
      | zero =>
          cases n with
          | zero => rfl
          | succ n =>
              cases hm
              rw [if_pos he] at hp
              have := hrest hn he'
              omega
      | succ m =>
          cases n with
          | zero =>
              cases hn
              rw [if_pos he'] at hp
              have := hrest hm he
              omega
          | succ n => exact congrArg _ (ih (by omega) hm hn)

/-! ## Events with numbers -/

section
variable {ι α : Type*} [DecidableEq ι] {k : List (ι × α)} {i j : ι} {x : α}

/-- The events with a number, oldest first. -/
def under (k : List (ι × α)) (i : ι) : List α := (k.filter (·.1 = i)).map Prod.snd

@[simp] theorem under_nil : under ([] : List (ι × α)) i = [] := rfl

@[simp] theorem under_snoc_self (k : List (ι × α)) (i : ι) (x : α) :
    under (k ++ [(i, x)]) i = under k i ++ [x] := by
  simp [under]

theorem under_snoc_of_ne (k : List (ι × α)) (h : j ≠ i) (x : α) :
    under (k ++ [(i, x)]) j = under k j := by
  simp [under, h.symm]

theorem mem_under : x ∈ under k i ↔ (i, x) ∈ k := by
  simp [under]

/-- If no number has two events, the numbers are all different. -/
theorem nodup_of_under (h : ∀ i x, (i, x) ∈ k → under k i = [x]) : (k.map Prod.fst).Nodup := by
  rw [List.nodup_iff_count_le_one]
  intro i
  have hcount : (k.map Prod.fst).count i = (under k i).length := by
    rw [under, List.length_map, ← List.countP_eq_length_filter, List.count, List.countP_map]
    exact List.countP_congr fun x _ => by simp
  rw [hcount]
  cases hunder : under k i with
  | nil => exact Nat.zero_le 1
  | cons x rest =>
      have hmem : (i, x) ∈ k := by
        rw [← mem_under, hunder]
        exact List.mem_cons_self
      rw [← hunder, h i x hmem]
      exact Nat.le_refl 1

/-- Events that are all different have one number each, and are different under it. -/
theorem nodup_under (h : (k.map Prod.snd).Nodup) (i : ι) : (under k i).Nodup :=
  h.sublist (List.filter_sublist.map _)

theorem under_unique (h : (k.map Prod.snd).Nodup) (hi : x ∈ under k i) (hj : x ∈ under k j) :
    i = j :=
  congrArg Prod.fst (List.inj_on_of_nodup_map h (mem_under.mp hi) (mem_under.mp hj) rfl)

end

end History
