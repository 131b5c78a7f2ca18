import Iso8583Switch.Library.DashMap

/-!
# Maps that are brought up to date in place

One thread gives a map new contents while others look keys up in it.  It meets the keys of
the map and drops those that the new contents do not have, and then it inserts the new
contents entry by entry.  Nobody else writes to the map.

What is looked up meanwhile is from the old contents or from the new (`old_or_new`).  So a
key that is in both is never missed, and no key is found that is in neither.
-/

namespace InPlaceUpdate

variable {κ ν : Type} [DecidableEq κ]

/-- How far the thread is: the new contents, and the keys that it still has to meet or to
insert. -/
inductive Phase (κ ν : Type) where
  | idle
  | retaining (target : DashMap κ ν) (todo : List κ)
  | inserting (target : DashMap κ ν) (todo : List κ)

/-- The new contents, until they are all in the map. -/
def Phase.target : Phase κ ν → Option (DashMap κ ν)
  | .idle => none
  | .retaining target _ | .inserting target _ => some target

/-- `last` is what the last update that has ended has put into the map. -/
structure Updating (κ ν : Type) where
  cache : DashMap κ ν
  phase : Phase κ ν
  last : DashMap κ ν

inductive UpdateAction (κ : Type) where
  /-- `retain` meets a key. -/
  | meet (k : κ)
  | retained
  | insert (k : κ)
  | finish

namespace Updating

/-- The update to new contents begins. -/
def begin (s : Updating κ ν) (target : DashMap κ ν) : Option (Updating κ ν) :=
  match s.phase with
  | .idle => some { s with phase := .retaining target s.cache.keys }
  | _ => none

def step (s : Updating κ ν) : UpdateAction κ → Option (Updating κ ν)
  | .meet k =>
      match s.phase with
      | .retaining target todo =>
          if k ∈ todo then
            some { s with
              cache := if (target.get k).isSome then s.cache else s.cache.remove k
              phase := .retaining target (todo.filter (· ≠ k)) }
          else none
      | _ => none
  | .retained =>
      match s.phase with
      | .retaining target [] => some { s with phase := .inserting target target.keys }
      | _ => none
  | .insert k =>
      match s.phase with
      | .inserting target todo =>
          if k ∈ todo then
            (target.get k).map fun v =>
              { s with
                cache := s.cache.put k v
                phase := .inserting target (todo.filter (· ≠ k)) }
          else none
      | _ => none
  | .finish =>
      match s.phase with
      | .inserting target [] => some { s with phase := .idle, last := target }
      | _ => none

/-! ## What is in the map -/

/-- What a key has in the map. -/
def Fits (s : Updating κ ν) (k : κ) : Prop :=
  match s.phase with
  | .idle => s.cache.get k = s.last.get k
  | .retaining target todo =>
      (s.cache.get k = none ∧ target.get k = none) ∨
        (s.cache.get k = s.last.get k ∧ (target.get k = none → k ∈ todo))
  | .inserting target todo =>
      s.cache.get k = target.get k ∨ (s.cache.get k = s.last.get k ∧ k ∈ todo)

def Consistent (s : Updating κ ν) : Prop := ∀ k, s.Fits k

variable {s t : Updating κ ν} {target : DashMap κ ν} {k : κ}

omit [DecidableEq κ] in
theorem begin_eq (h : s.begin target = some t) :
    t = { s with phase := .retaining target s.cache.keys } := by
  unfold Updating.begin at h
  split at h <;> cases h
  rfl

/-- Only with its end an update takes the place of the last one. -/
theorem step_last {a : UpdateAction κ} (h : s.step a = some t) :
    (t.phase = .idle ∧ s.phase.target = some t.last) ∨
      (t.phase ≠ .idle ∧ t.phase.target = s.phase.target ∧ t.last = s.last) := by
  cases a with
  | meet k =>
      simp only [Updating.step] at h
      split at h
      next hphase =>
        split at h <;> cases h
        exact .inr ⟨(fun hidle => by cases hidle), by rw [hphase]; rfl, rfl⟩
      next => cases h
  | retained =>
      simp only [Updating.step] at h
      split at h <;> cases h
      next hphase => exact .inr ⟨(fun hidle => by cases hidle), by rw [hphase]; rfl, rfl⟩
  | insert k =>
      simp only [Updating.step] at h
      split at h
      next hphase =>
        split at h
        · obtain ⟨v, -, rfl⟩ := Option.map_eq_some_iff.mp h
          exact .inr ⟨(fun hidle => by cases hidle), by rw [hphase]; rfl, rfl⟩
        · cases h
      next => cases h
  | finish =>
      simp only [Updating.step] at h
      split at h <;> cases h
      next hphase => exact .inl ⟨rfl, by rw [hphase]; rfl⟩

theorem Consistent.begin (hs : s.Consistent) (h : s.begin target = some t) : t.Consistent := by
  unfold Updating.begin at h
  split at h <;> cases h
  next hphase =>
    intro k
    have hk := hs k
    rw [Fits, hphase] at hk
    cases hcached : s.cache.get k with
    | none =>
        cases htarget : target.get k with
        | none => exact .inl ⟨hcached, htarget⟩
        | some v => exact .inr ⟨hk, fun h => by rw [htarget] at h; cases h⟩
    | some v => exact .inr ⟨hk, fun _ => DashMap.mem_keys_iff.mpr ⟨v, hcached⟩⟩

theorem Consistent.meet {todo : List κ} (hs : s.Consistent)
    (hphase : s.phase = .retaining target todo) (k : κ) :
    Consistent
      { s with
        cache := if (target.get k).isSome then s.cache else s.cache.remove k
        phase := .retaining target (todo.filter (· ≠ k)) } := by
  intro k'
  have hk' := hs k'
  rw [Fits, hphase] at hk'
  dsimp only at hk'
  unfold Fits
  dsimp only
  by_cases hself : k' = k
  · subst hself
    split
    next hkept =>
      obtain ⟨v, hv⟩ := Option.isSome_iff_exists.mp hkept
      rw [hv] at hk' ⊢
      exact .inr ⟨(hk'.resolve_left fun h => Option.some_ne_none v h.2).1, fun h => by cases h⟩
    next hdropped =>
      exact .inl ⟨DashMap.get_remove_self _ _, Option.not_isSome_iff_eq_none.mp hdropped⟩
  · have hother : (if (target.get k).isSome then s.cache else s.cache.remove k).get k' =
        s.cache.get k' := by
      split
      · rfl
      · exact DashMap.get_remove_ne _ hself
    rw [hother]
    refine hk'.imp_right fun hold => ⟨hold.1, fun hnone => ?_⟩
    simpa [hself] using hold.2 hnone

theorem Consistent.retained (hs : s.Consistent) (hphase : s.phase = .retaining target []) :
    Consistent { s with phase := .inserting target target.keys } := by
  intro k
  have hk := hs k
  rw [Fits, hphase] at hk
  rcases hk with ⟨hcached, hnone⟩ | ⟨hcached, hmem⟩
  · exact .inl (hcached.trans hnone.symm)
  · cases htarget : target.get k with
    | none => cases hmem htarget
    | some v => exact .inr ⟨hcached, DashMap.mem_keys_iff.mpr ⟨v, htarget⟩⟩

theorem Consistent.insert {todo : List κ} {v : ν} (hs : s.Consistent)
    (hphase : s.phase = .inserting target todo) (hv : target.get k = some v) :
    Consistent
      { s with cache := s.cache.put k v, phase := .inserting target (todo.filter (· ≠ k)) } := by
  intro k'
  have hk' := hs k'
  rw [Fits, hphase] at hk'
  unfold Fits
  dsimp only
  by_cases hself : k' = k
  · subst hself
    exact .inl (by rw [DashMap.get_put_self, hv])
  · rw [DashMap.get_put_ne _ _ hself]
    refine hk'.imp_right fun hold => ⟨hold.1, ?_⟩
    simpa [hself] using hold.2

theorem Consistent.finish (hs : s.Consistent) (hphase : s.phase = .inserting target []) :
    Consistent { s with phase := .idle, last := target } := by
  intro k
  have hk := hs k
  rw [Fits, hphase] at hk
  exact hk.resolve_right fun h => List.not_mem_nil h.2

/-- No access of the thread breaks what is in the map. -/
theorem Consistent.step {a : UpdateAction κ} (hs : s.Consistent) (h : s.step a = some t) :
    t.Consistent := by
  cases a with
  | meet k =>
      simp only [Updating.step] at h
      split at h
      next target todo hphase =>
        split at h <;> cases h
        exact hs.meet hphase k
      next => cases h
  | retained =>
      simp only [Updating.step] at h
      split at h <;> cases h
      next hphase => exact hs.retained hphase
  | insert k =>
      simp only [Updating.step] at h
      split at h
      next target todo hphase =>
        split at h
        · obtain ⟨v, hv, rfl⟩ := Option.map_eq_some_iff.mp h
          exact hs.insert hphase hv
        · cases h
      next => cases h
  | finish =>
      simp only [Updating.step] at h
      split at h <;> cases h
      next hphase => exact hs.finish hphase

/-! ## What is looked up -/

/-- A look-up finds what the old contents have, or what the new contents have. -/
theorem Consistent.old_or_new (hs : s.Consistent) (k : κ) :
    s.cache.get k = s.last.get k ∨
      ∃ target, s.phase.target = some target ∧ s.cache.get k = target.get k := by
  have hk := hs k
  unfold Fits at hk
  split at hk
  next => exact .inl hk
  next target todo hphase =>
    rcases hk with ⟨hcached, hnone⟩ | ⟨hcached, -⟩
    · exact .inr ⟨target, by rw [hphase]; rfl, hcached.trans hnone.symm⟩
    · exact .inl hcached
  next target todo hphase =>
    rcases hk with hcached | ⟨hcached, -⟩
    · exact .inr ⟨target, by rw [hphase]; rfl, hcached⟩
    · exact .inl hcached

/-- A key that is in the old and in the new contents is never missed. -/
theorem Consistent.never_missed (hs : s.Consistent) (hold : (s.last.get k).isSome = true)
    (hnew : ∀ target, s.phase.target = some target → (target.get k).isSome = true) :
    (s.cache.get k).isSome = true := by
  rcases hs.old_or_new k with hcached | ⟨target, htarget, hcached⟩
  · rw [hcached]
    exact hold
  · rw [hcached]
    exact hnew target htarget

/-- No key is found that is in neither. -/
theorem Consistent.no_stranger (hs : s.Consistent) (h : (s.cache.get k).isSome = true) :
    (s.last.get k).isSome = true ∨
      ∃ target, s.phase.target = some target ∧ (target.get k).isSome = true := by
  rcases hs.old_or_new k with hcached | ⟨target, htarget, hcached⟩
  · exact .inl (hcached ▸ h)
  · exact .inr ⟨target, htarget, hcached ▸ h⟩

end Updating

end InPlaceUpdate
