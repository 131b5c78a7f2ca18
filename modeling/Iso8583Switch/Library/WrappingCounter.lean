import Mathlib.Data.List.Iterate
import Mathlib.Data.List.Nodup
import Mathlib.Data.Nat.ModEq
import Mathlib.Data.Set.Function
import Iso8583Switch.Library.Transition

/-!
# Counters that wrap

A counter has `size` values and starts again behind the last one.  Calls take its values in
turn and reduce them modulo `k`.

The residues of `k` calls in a row are pairwise distinct exactly where `k` divides `size` or
the counter does not wrap between them (`injOn_residue_iff`).  If it wraps, the values start
again at a residue that is not the next one.

`readings` is what a number of calls in a row read off a counter.  In a system in which every
step takes the next value or leaves the counter alone (`Counts`), what a run reads is what
calls in a row read (`Counts.exec`).
-/

namespace WrappingCounter

/-! ## Residues -/

/-- The residue of the value that comes `i` calls behind `c`. -/
def residue (size k c i : Nat) : Nat := (c + i) % size % k

variable {size k c n : Nat}

theorem injOn_residue_of_modEq (hn : n ≤ k)
    (h : ∀ i < n, residue size k c i = (c + i) % k) :
    Set.InjOn (residue size k c) (Set.Iio n) := by
  intro i hi j hj heq
  rw [Set.mem_Iio] at hi hj
  rw [h i hi, h j hj] at heq
  have hmod : i ≡ j [MOD k] := Nat.ModEq.add_left_cancel' c heq
  exact hmod.eq_of_lt_of_lt (by omega) (by omega)

/-- The counter does not wrap. -/
theorem injOn_residue_of_le (hn : n ≤ k) (h : c + n ≤ size) :
    Set.InjOn (residue size k c) (Set.Iio n) := by
  refine injOn_residue_of_modEq hn fun i hi => ?_
  rw [residue, Nat.mod_eq_of_lt (by omega : c + i < size)]

/-- The counter wraps at a residue of zero. -/
theorem injOn_residue_of_dvd (hn : n ≤ k) (h : k ∣ size) :
    Set.InjOn (residue size k c) (Set.Iio n) :=
  injOn_residue_of_modEq hn fun _ _ => Nat.mod_mod_of_dvd _ h

/-- Two calls with the same residue, one in front of the wrap and one behind it. -/
theorem exists_residue_eq (hc : c < size) (hwrap : size < c + k) (hk : ¬ k ∣ size) :
    ∃ i j, i < j ∧ j < k ∧ residue size k c i = residue size k c j := by
  have hpos : 0 < size % k := Nat.pos_of_ne_zero fun hzero => hk (Nat.dvd_of_mod_eq_zero hzero)
  have hlt : size % k < k := Nat.mod_lt _ (by omega)
  have hdiv : k * (size / k) + size % k = size := Nat.div_add_mod size k
  rcases Nat.lt_or_ge (size % k) (size - c) with hfar | hnear
  · -- The last multiple of `k` is not in front of `c`, and behind it comes zero.
    refine ⟨size - c - size % k, size - c, by omega, by omega, ?_⟩
    have hmultiple : c + (size - c - size % k) = k * (size / k) := by omega
    have hzero : c + (size - c) = size := by omega
    rw [residue, residue, hmultiple, hzero, Nat.mod_eq_of_lt (by omega : k * (size / k) < size),
      Nat.mul_mod_right, Nat.mod_self, Nat.zero_mod]
  · -- The residue of `c` comes again `size % k` calls later.
    refine ⟨0, size % k, hpos, hlt, ?_⟩
    have hagain : (c + size % k) % size = c + size % k - size := by
      rw [Nat.mod_eq_sub_mod (by omega), Nat.mod_eq_of_lt (by omega)]
    have hback : c = c + size % k - size + k * (size / k) := by omega
    calc residue size k c 0 = c % k := by rw [residue, Nat.add_zero, Nat.mod_eq_of_lt hc]
      _ = (c + size % k - size + k * (size / k)) % k := by rw [← hback]
      _ = (c + size % k - size) % k := Nat.add_mul_mod_self_left _ _ _
      _ = residue size k c (size % k) := by rw [residue, hagain]

/-- As many calls as there are residues. -/
theorem injOn_residue_iff (hc : c < size) :
    Set.InjOn (residue size k c) (Set.Iio k) ↔ k ∣ size ∨ c + k ≤ size := by
  constructor
  · intro h
    by_contra hnot
    rw [not_or, Nat.not_le] at hnot
    obtain ⟨i, j, hij, hj, heq⟩ := exists_residue_eq hc hnot.2 hnot.1
    exact Nat.ne_of_lt hij (h (Nat.lt_trans hij hj) hj heq)
  · rintro (hdvd | hle)
    · exact injOn_residue_of_dvd (Nat.le_refl k) hdvd
    · exact injOn_residue_of_le (Nat.le_refl k) hle

/-! ## Calls in a row -/

variable {γ ν σ α : Type*}

/-- What `n` calls in a row read off a counter. -/
def readings (incr : γ → γ) (read : γ → ν) (n : Nat) (c : γ) : List ν :=
  (List.iterate incr c n).map read

@[simp] theorem length_readings (incr : γ → γ) (read : γ → ν) (n : Nat) (c : γ) :
    (readings incr read n c).length = n := by
  rw [readings, List.length_map, List.length_iterate]

theorem readings_eq (incr : γ → γ) (read : γ → ν) (n : Nat) (c : γ) :
    readings incr read n c = (List.range n).map fun i => read (incr^[i] c) := by
  rw [readings, ← List.range_map_iterate, List.map_map]
  rfl

/-- Readings that are distinct just where the residues are. -/
theorem nodup_readings_iff {incr : γ → γ} {read : γ → ν} {c : γ} {f : Nat → Nat}
    (h : ∀ i < n, ∀ j < n, read (incr^[i] c) = read (incr^[j] c) ↔ f i = f j) :
    (readings incr read n c).Nodup ↔ Set.InjOn f (Set.Iio n) := by
  rw [readings_eq, List.nodup_map_iff_inj_on List.nodup_range]
  constructor
  · intro hinj i hi j hj heq
    exact hinj i (List.mem_range.mpr hi) j (List.mem_range.mpr hj) ((h i hi j hj).mpr heq)
  · intro hinj i hi j hj heq
    rw [List.mem_range] at hi hj
    exact hinj hi hj ((h i hi j hj).mp heq)

/-- Every step notes a reading and takes the counter to its next value, or does neither. -/
def Counts (step : σ → α → Option σ) (note : σ → α → List ν) (counter : σ → γ) (incr : γ → γ)
    (read : γ → ν) : Prop :=
  ∀ s a t, step s a = some t → (note s a = [] ∧ counter t = counter s) ∨
    (note s a = [read (counter s)] ∧ counter t = incr (counter s))

/-- The notes of a run are the readings of calls in a row. -/
theorem Counts.exec {step : σ → α → Option σ} {note : σ → α → List ν} {counter : σ → γ}
    {incr : γ → γ} {read : γ → ν} (h : Counts step note counter incr read) {s t : σ}
    {notes notes' : List ν} {as : List α}
    (hrun : Transition.exec (Transition.noting step note) (s, notes) as = some (t, notes')) :
    ∃ n, notes' = notes ++ readings incr read n (counter s) := by
  induction as generalizing s notes with
  | nil =>
      cases hrun
      exact ⟨0, (List.append_nil _).symm⟩
  | cons a as ih =>
      rw [Transition.exec_cons, Option.bind_eq_some_iff] at hrun
      obtain ⟨⟨u, between⟩, hstep, hrun⟩ := hrun
      obtain ⟨hu, hbetween⟩ := Transition.noting_eq_some hstep
      dsimp only at hu hbetween
      obtain ⟨n, hnotes⟩ := ih hrun
      rcases h s a u hu with ⟨hnote, hkept⟩ | ⟨hnote, hnext⟩
      · rw [hnote, List.append_nil] at hbetween
        exact ⟨n, by rw [hnotes, hbetween, hkept]⟩
      · refine ⟨n + 1, ?_⟩
        rw [hnotes, hbetween, hnote, hnext, List.append_assoc]
        rfl

/-- What is noted of a run from its start. -/
theorem Counts.noted {step : σ → α → Option σ} {note : σ → α → List ν} {counter : σ → γ}
    {incr : γ → γ} {read : γ → ν} (h : Counts step note counter incr read) {s t : σ}
    {notes : List ν} {as : List α}
    (hrun : Transition.exec (Transition.noting step note) (s, []) as = some (t, notes)) :
    notes = readings incr read notes.length (counter s) := by
  obtain ⟨n, hnotes⟩ := h.exec hrun
  rw [List.nil_append] at hnotes
  rw [hnotes, length_readings]

end WrappingCounter
