import Mathlib.Algebra.BigOperators.Group.List.Basic
import Mathlib.Algebra.Ring.Int.Defs
import Mathlib.Data.List.Dedup

/-!
# Totals by group

The rows of a table fall into groups by a key, and the value of a group is the sum of its
rows.  A selection of groups that is made by the key adds up to the sum of the rows with
such a key (`sum_groupTotals`), however the rows are ordered.
-/

namespace GroupedTotals

variable {Row Key : Type} {key : Row → Key} {value : Row → Int} {rows : List Row}

/-- The sum of the rows whose key is selected. -/
def selected (key : Row → Key) (value : Row → Int) (q : Key → Bool) (rows : List Row) : Int :=
  ((rows.filter fun r => q (key r)).map value).sum

@[simp] theorem selected_nil (q : Key → Bool) : selected key value q [] = 0 := rfl

theorem selected_cons (q : Key → Bool) (r : Row) (rows : List Row) :
    selected key value q (r :: rows) =
      (if q (key r) then value r else 0) + selected key value q rows := by
  rw [selected, List.filter_cons]
  split
  · rw [List.map_cons, List.sum_cons]
    rfl
  · rw [Int.zero_add]
    rfl

theorem selected_perm (q : Key → Bool) {rows' : List Row} (h : rows'.Perm rows) :
    selected key value q rows' = selected key value q rows :=
  ((h.filter _).map value).sum_eq

variable [DecidableEq Key]

/-- The groups in the order of their first rows, each with its sum. -/
def groupTotals (key : Row → Key) (value : Row → Int) (rows : List Row) : List (Key × Int) :=
  (rows.map key).dedup.map fun k => (k, selected key value (· = k) rows)

/-- Among keys without repetition, a row counts in the group of its key. -/
theorem sum_ite_eq {ks : List Key} (hnodup : ks.Nodup) (k₀ : Key) (v : Int) :
    (ks.map fun k => if k₀ = k then v else 0).sum = if k₀ ∈ ks then v else 0 := by
  induction ks with
  | nil => rfl
  | cons k ks ih =>
      obtain ⟨hk, hnodup⟩ := List.nodup_cons.mp hnodup
      rw [List.map_cons, List.sum_cons, ih hnodup]
      by_cases h : k₀ = k
      · subst h
        simp [hk]
      · simp [h]

theorem sum_selected {ks : List Key} (hnodup : ks.Nodup) (rows : List Row) :
    (ks.map fun k => selected key value (· = k) rows).sum = selected key value (· ∈ ks) rows := by
  induction rows with
  | nil => simp
  | cons r rows ih =>
      have hsplit : (ks.map fun k => selected key value (· = k) (r :: rows)) =
          ks.map fun k => (if key r = k then value r else 0) + selected key value (· = k) rows :=
        List.map_congr_left fun k _ => by simp [selected_cons]
      rw [selected_cons, hsplit, List.sum_map_add, sum_ite_eq hnodup, ih]
      simp

/-- The selected groups add up to the rows with a selected key. -/
theorem sum_groupTotals (q : Key → Bool) (rows : List Row) :
    (((groupTotals key value rows).filter fun g => q g.1).map Prod.snd).sum =
      selected key value q rows := by
  rw [groupTotals, List.filter_map, List.map_map]
  refine (sum_selected ((List.nodup_dedup _).filter _) rows).trans ?_
  rw [selected, selected]
  congr 2
  refine List.filter_congr fun r hr => ?_
  have hmem : key r ∈ (rows.map key).dedup := List.mem_dedup.mpr (List.mem_map_of_mem hr)
  simp [hmem]

end GroupedTotals
