import Mathlib.Data.List.Infix

/-!
# Longest prefix match

A table gives some lists a value.  The longest prefix match of a list in a table
is the value of its longest prefix that has one.

`longest` computes it from the front, as a walk down a trie does: a value found
further on is preferred to the one found here.  `longest_eq_some` and
`longest_eq_none` are its meaning.  A table may also be given as rows of which
the last one for a key counts, which is `lastAt`.
-/

namespace LongestPrefix

variable {α β : Type*}

/-- The value of the longest prefix of the list that has one. -/
def longest (f : List α → Option β) : List α → Option β
  | [] => f []
  | x :: xs => (longest (fun p => f (x :: p)) xs).or (f [])

@[simp] theorem longest_nil (f : List α → Option β) : longest f [] = f [] := rfl

theorem longest_cons (f : List α → Option β) (x : α) (xs : List α) :
    longest f (x :: xs) = (longest (fun p => f (x :: p)) xs).or (f []) := rfl

theorem longest_eq_none {f : List α → Option β} {xs : List α} :
    longest f xs = none ↔ ∀ p, p <+: xs → f p = none := by
  induction xs generalizing f with
  | nil => simp
  | cons x xs ih =>
      rw [longest_cons, Option.or_eq_none_iff, ih]
      constructor
      · rintro ⟨hmore, hhere⟩ p hp
        rcases List.prefix_cons_iff.mp hp with rfl | ⟨q, rfl, hq⟩
        · exact hhere
        · exact hmore q hq
      · intro h
        refine ⟨fun q hq => h (x :: q) ?_, h [] List.nil_prefix⟩
        exact List.prefix_cons_inj x |>.mpr hq

/-- Every prefix that has a value is at most as long as `p`. -/
structure IsLongest (f : List α → Option β) (xs p : List α) : Prop where
  isPrefix : p <+: xs
  isSome : (f p).isSome
  longest : ∀ q, q <+: xs → (f q).isSome → q.length ≤ p.length

theorem IsLongest.unique {f : List α → Option β} {xs p q : List α} (hp : IsLongest f xs p)
    (hq : IsLongest f xs q) : p = q := by
  have hpq : p.length ≤ q.length := hq.longest p hp.isPrefix hp.isSome
  have hqp : q.length ≤ p.length := hp.longest q hq.isPrefix hq.isSome
  exact (List.prefix_of_prefix_length_le hp.isPrefix hq.isPrefix hpq).eq_of_length
    (Nat.le_antisymm hpq hqp)

theorem longest_of_isLongest {f : List α → Option β} {xs p : List α} (h : IsLongest f xs p) :
    longest f xs = f p := by
  induction xs generalizing f p with
  | nil =>
      obtain rfl := List.prefix_nil.mp h.isPrefix
      rfl
  | cons x xs ih =>
      rw [longest_cons]
      rcases List.prefix_cons_iff.mp h.isPrefix with rfl | ⟨q, rfl, hq⟩
      · have hmore : longest (fun p => f (x :: p)) xs = none := by
          refine longest_eq_none.mpr fun q hq => Option.not_isSome_iff_eq_none.mp fun hsome => ?_
          have hlen := h.longest (x :: q) ((List.prefix_cons_inj x).mpr hq) hsome
          simp at hlen
        rw [hmore, Option.none_or]
      · have hfrom : IsLongest (fun p => f (x :: p)) xs q := by
          refine ⟨hq, h.isSome, fun q' hq' hsome => ?_⟩
          have hlen := h.longest (x :: q') ((List.prefix_cons_inj x).mpr hq') hsome
          simpa using hlen
        rw [ih hfrom, Option.or_of_isSome h.isSome]

/-- Where some prefix has a value, there is a longest one. -/
theorem exists_isLongest {f : List α → Option β} {xs p : List α} (hp : p <+: xs)
    (hsome : (f p).isSome) : ∃ q, IsLongest f xs q := by
  induction xs generalizing f p with
  | nil =>
      obtain rfl := List.prefix_nil.mp hp
      refine ⟨[], List.nil_prefix, hsome, fun q hq _ => ?_⟩
      rw [List.prefix_nil.mp hq]
  | cons x xs ih =>
      by_cases hmore : ∃ q, q <+: xs ∧ (f (x :: q)).isSome
      · obtain ⟨q, hq, hqsome⟩ := hmore
        obtain ⟨q', hlongest⟩ := ih (f := fun p => f (x :: p)) hq hqsome
        refine ⟨x :: q', (List.prefix_cons_inj x).mpr hlongest.isPrefix, hlongest.isSome, ?_⟩
        intro r hr hrsome
        rcases List.prefix_cons_iff.mp hr with rfl | ⟨r', rfl, hr'⟩
        · exact Nat.zero_le _
        · exact Nat.succ_le_succ (hlongest.longest r' hr' hrsome)
      · refine ⟨[], List.nil_prefix, ?_, ?_⟩
        · rcases List.prefix_cons_iff.mp hp with rfl | ⟨q, rfl, hq⟩
          · exact hsome
          · exact absurd ⟨q, hq, hsome⟩ hmore
        · intro r hr hrsome
          rcases List.prefix_cons_iff.mp hr with rfl | ⟨r', rfl, hr'⟩
          · exact Nat.le_refl _
          · exact absurd ⟨r', hr', hrsome⟩ hmore

theorem exists_isLongest_of_eq_some {f : List α → Option β} {xs : List α} {v : β}
    (h : longest f xs = some v) : ∃ p, IsLongest f xs p := by
  by_cases hsome : ∃ p, p <+: xs ∧ (f p).isSome
  · obtain ⟨p, hp, hpsome⟩ := hsome
    exact exists_isLongest hp hpsome
  · have hnone : longest f xs = none := by
      refine longest_eq_none.mpr fun p hp => Option.not_isSome_iff_eq_none.mp fun hpsome => ?_
      exact hsome ⟨p, hp, hpsome⟩
    rw [hnone] at h
    cases h

/-- A table that differs only at prefixes that do not count gives the same value. -/
theorem longest_congr {f g : List α → Option β} {xs p : List α} (h : IsLongest f xs p)
    (hp : g p = f p) (hle : ∀ q, (g q).isSome → (f q).isSome) : longest g xs = longest f xs := by
  have hg : IsLongest g xs p :=
    ⟨h.isPrefix, hp ▸ h.isSome, fun q hq hsome => h.longest q hq (hle q hsome)⟩
  rw [longest_of_isLongest hg, longest_of_isLongest h, hp]

/-! ## Tables given as rows -/

variable [DecidableEq α]

/-- The value of the last row for a key. -/
def lastAt : List (List α × β) → List α → Option β
  | [], _ => none
  | row :: rows, key => (lastAt rows key).or (if row.1 = key then some row.2 else none)

theorem lastAt_append (rows more : List (List α × β)) (key : List α) :
    lastAt (rows ++ more) key = (lastAt more key).or (lastAt rows key) := by
  induction rows with
  | nil => simp [lastAt]
  | cons row rows ih => rw [List.cons_append, lastAt, lastAt, ih, Option.or_assoc]

theorem lastAt_isSome {rows : List (List α × β)} {key : List α} :
    (lastAt rows key).isSome ↔ ∃ row ∈ rows, row.1 = key := by
  induction rows with
  | nil => simp [lastAt]
  | cons row rows ih =>
      rw [lastAt, Option.isSome_or, Bool.or_eq_true, ih]
      by_cases h : row.1 = key
      · simp [h]
      · simp [h]

/-- The last row for a key, with what comes before and after it. -/
theorem lastAt_eq_some {rows : List (List α × β)} {key : List α} {v : β} :
    lastAt rows key = some v ↔ ∃ before after, rows = before ++ (key, v) :: after ∧
      ∀ row ∈ after, row.1 ≠ key := by
  constructor
  · intro h
    induction rows with
    | nil => cases h
    | cons row rows ih =>
        rw [lastAt, Option.or_eq_some_iff] at h
        rcases h with h | ⟨hnone, h⟩
        · obtain ⟨before, after, rfl, hlast⟩ := ih h
          exact ⟨row :: before, after, rfl, hlast⟩
        · split at h
          next hkey =>
            cases h
            refine ⟨[], rows, by rw [← hkey]; rfl, fun row' hmem hkey' => ?_⟩
            have hsome := lastAt_isSome.mpr ⟨row', hmem, hkey'⟩
            rw [hnone] at hsome
            cases hsome
          next => cases h
  · rintro ⟨before, after, rfl, hlast⟩
    have hafter : lastAt after key = none := by
      refine Option.not_isSome_iff_eq_none.mp fun hsome => ?_
      obtain ⟨row, hmem, hkey⟩ := lastAt_isSome.mp hsome
      exact hlast row hmem hkey
    rw [lastAt_append, lastAt, hafter, if_pos rfl]
    rfl

/-- A row under another key changes nothing. -/
theorem lastAt_remove {before after : List (List α × β)} {row : List α × β} {key : List α}
    (h : row.1 ≠ key) : lastAt (before ++ row :: after) key = lastAt (before ++ after) key := by
  rw [lastAt_append, lastAt_append, lastAt, if_neg h, Option.or_none]

end LongestPrefix
