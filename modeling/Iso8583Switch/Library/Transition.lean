import Mathlib.Logic.Relation

/-!
# Reachable states and partial step functions

`Reachable` collects the states of all runs of a relation from its initial
states, so a fact about every run is a fact about every reachable state.

* `Reachable.invariant` is the induction principle.  It hands the reachability
  of the pre-state to the step case, so an invariant proved earlier is available
  in the proof of the next one.
* `Reachable.simulate` carries runs of one system to another along a function.

A system may be given by a partial step function `σ → α → Option σ`, where an
action that is not enabled gives `none`.  A *discipline* is a condition on the
state before a step and on the action.  `Reachable.of_exec` turns the evaluation
of a list of actions into a reachability proof, and `ran` is the state that it
ends in.  `tracking` adds to the state what a run should keep track of, for
properties that the state alone does not show, and `noting` is the case of a list
of notes.

`Endless` is a run that goes on for ever, for what happens eventually.
`Endless.drains` is its rule: what a fair action brings down and no other action
brings up is used up in the end.  `Endless.of_loop` makes one of a list of actions that
ends where some action changes nothing.
-/

namespace Transition

open Relation

variable {σ τ α : Type*} {init : σ → Prop} {R R' : σ → σ → Prop}

/-- The states that the runs from an initial state reach. -/
def Reachable (init : σ → Prop) (R : σ → σ → Prop) (t : σ) : Prop :=
  ∃ s, init s ∧ ReflTransGen R s t

namespace Reachable

theorem start {s : σ} (hs : init s) : Reachable init R s := ⟨s, hs, .refl⟩

theorem step {s t : σ} (h : Reachable init R s) (hst : R s t) : Reachable init R t := by
  obtain ⟨s₀, h₀, hrun⟩ := h
  exact ⟨s₀, h₀, hrun.tail hst⟩

/-- What holds initially and is kept by every step holds in every reachable
state. -/
theorem invariant {I : σ → Prop} (base : ∀ s, init s → I s)
    (keep : ∀ s t, Reachable init R s → I s → R s t → I t) {s : σ}
    (h : Reachable init R s) : I s := by
  obtain ⟨s₀, h₀, hrun⟩ := h
  induction hrun with
  | refl => exact base _ h₀
  | tail hrun hst ih => exact keep _ _ ⟨s₀, h₀, hrun⟩ ih hst

/-- More steps reach more states. -/
theorem mono (hR : ∀ s t, R s t → R' s t) {s : σ} (h : Reachable init R s) :
    Reachable init R' s := by
  obtain ⟨s₀, h₀, hrun⟩ := h
  exact ⟨s₀, h₀, ReflTransGen.mono hR _ _ hrun⟩

/-- A function that maps initial states to initial states, and every step to a
step or to none, maps reachable states to reachable states. -/
theorem simulate {init' : τ → Prop} {S : τ → τ → Prop} {f : σ → τ}
    (base : ∀ s, init s → init' (f s))
    (match_step : ∀ s t, Reachable init R s → R s t → f t = f s ∨ S (f s) (f t)) {s : σ}
    (h : Reachable init R s) : Reachable init' S (f s) := by
  refine h.invariant (fun s hs => start (base s hs)) fun s t hs ih hst => ?_
  rcases match_step s t hs hst with heq | hstep
  · rw [heq]; exact ih
  · exact ih.step hstep

end Reachable

/-! ## Partial step functions -/

/-- The discipline that every step meets. -/
def Free (_ : σ) (_ : α) : Prop := True

instance (s : σ) (a : α) : Decidable (Free s a) := inferInstanceAs (Decidable True)

/-- The steps that meet a discipline. -/
def Steps (step : σ → α → Option σ) (P : σ → α → Prop) (s t : σ) : Prop :=
  ∃ a, P s a ∧ step s a = some t

variable {step : σ → α → Option σ} {P Q : σ → α → Prop}

/-- A stricter discipline reaches fewer states. -/
theorem Reachable.relax (hPQ : ∀ s a, P s a → Q s a) {s : σ}
    (h : Reachable init (Steps step P) s) : Reachable init (Steps step Q) s :=
  h.mono fun _ _ ⟨a, hp, hs⟩ => ⟨a, hPQ _ _ hp, hs⟩

theorem Reachable.free {s : σ} (h : Reachable init (Steps step P) s) :
    Reachable init (Steps step Free) s :=
  h.relax fun _ _ _ => trivial

/-- Take a list of actions in order. -/
def exec (step : σ → α → Option σ) (s : σ) : List α → Option σ
  | [] => some s
  | a :: as => (step s a).bind fun t => exec step t as

@[simp] theorem exec_nil (s : σ) : exec step s [] = some s := rfl

theorem exec_cons (s : σ) (a : α) (as : List α) :
    exec step s (a :: as) = (step s a).bind fun t => exec step t as := rfl

theorem exec_append (s : σ) (as bs : List α) :
    exec step s (as ++ bs) = (exec step s as).bind fun t => exec step t bs := by
  induction as generalizing s with
  | nil => rfl
  | cons a as ih =>
      rw [List.cons_append, exec_cons, exec_cons]
      cases step s a with
      | none => rfl
      | some t => exact ih t

/-- Whether every action of the list is enabled in its turn and meets a
decidable discipline. -/
def complies (step : σ → α → Option σ) (P : σ → α → Prop) [∀ s a, Decidable (P s a)] (s : σ) :
    List α → Bool
  | [] => true
  | a :: as =>
      decide (P s a) && match step s a with
        | none => false
        | some t => complies step P t as

theorem exec_of_complies [∀ s a, Decidable (P s a)] {s : σ} {as : List α}
    (h : complies step P s as = true) : ∃ t, exec step s as = some t := by
  induction as generalizing s with
  | nil => exact ⟨s, rfl⟩
  | cons a as ih =>
      rw [complies, Bool.and_eq_true] at h
      rw [exec_cons]
      cases hstep : step s a with
      | none => simp [hstep] at h
      | some u =>
          rw [hstep] at h
          exact ih h.2

/-- A reachable state is extended by actions that comply with a stricter
discipline. -/
theorem Reachable.of_exec [∀ s a, Decidable (P s a)] (hPQ : ∀ s a, P s a → Q s a) {s t : σ}
    {as : List α} (hs : Reachable init (Steps step Q) s) (hc : complies step P s as = true)
    (ht : exec step s as = some t) : Reachable init (Steps step Q) t := by
  induction as generalizing s with
  | nil => cases ht; exact hs
  | cons a as ih =>
      rw [complies, Bool.and_eq_true, decide_eq_true_eq] at hc
      obtain ⟨hp, hc⟩ := hc
      rw [exec_cons] at ht
      cases hstep : step s a with
      | none => rw [hstep] at hc; cases hc
      | some u =>
          rw [hstep] at hc ht
          exact ih (hs.step ⟨a, hPQ s a hp, hstep⟩) hc ht

/-! ## Runs from one state -/

/-- The state after a list of actions that are enabled in their turns. -/
def ran (step : σ → α → Option σ) (s : σ) (as : List α) : σ := (exec step s as).getD s

/-- A run that ends in a reachable state is continued by actions that comply with a
stricter discipline. -/
theorem Reachable.ran_append [∀ s a, Decidable (P s a)] (hPQ : ∀ s a, P s a → Q s a) {s : σ}
    {as bs : List α} (henabled : (exec step s as).isSome)
    (h : Reachable init (Steps step Q) (ran step s as))
    (hmore : complies step P (ran step s as) bs = true) :
    Reachable init (Steps step Q) (ran step s (as ++ bs)) := by
  obtain ⟨t, ht⟩ := Option.isSome_iff_exists.mp henabled
  have hran : ran step s as = t := by rw [ran, ht]; rfl
  rw [hran] at h hmore
  obtain ⟨u, hu⟩ := exec_of_complies hmore
  rw [ran, exec_append, ht, Option.bind_some, hu]
  exact h.of_exec hPQ hmore hu

/-- A run of actions that comply with a stricter discipline. -/
theorem Reachable.ran_of_complies [∀ s a, Decidable (P s a)] (hPQ : ∀ s a, P s a → Q s a) {s : σ}
    {as : List α} (hs : init s) (h : complies step P s as = true) :
    Reachable init (Steps step Q) (ran step s as) := by
  have hstart : Reachable init (Steps step Q) (ran step s []) := .start hs
  exact hstart.ran_append hPQ rfl h

/-- A run that is continued by one action. -/
theorem Reachable.ran_step {s : σ} {as : List α} {a : α} (henabled : (exec step s as).isSome)
    (h : Reachable init (Steps step Q) (ran step s as)) (hq : Q (ran step s as) a)
    (hstep : (step (ran step s as) a).isSome) :
    Reachable init (Steps step Q) (ran step s (as ++ [a])) := by
  obtain ⟨t, ht⟩ := Option.isSome_iff_exists.mp henabled
  have hran : ran step s as = t := by rw [ran, ht]; rfl
  rw [hran] at h hq hstep
  obtain ⟨u, hu⟩ := Option.isSome_iff_exists.mp hstep
  have hexec : exec step s (as ++ [a]) = some u := by
    rw [exec_append, ht, Option.bind_some, exec_cons, hu]
    rfl
  rw [ran, hexec]
  exact h.step ⟨a, hq, hu⟩

/-! ## What a run keeps track of -/

section Tracking

variable {γ : Type*} {g₀ : γ} {track : σ → α → γ → γ}

/-- A step, and what becomes of what is kept track of. -/
def tracking (step : σ → α → Option σ) (track : σ → α → γ → γ) (p : σ × γ) (a : α) :
    Option (σ × γ) :=
  (step p.1 a).map fun t => (t, track p.1 a p.2)

/-- The states of all runs that meet a discipline, with what the run keeps track of. -/
abbrev Tracked (init : σ → Prop) (g₀ : γ) (step : σ → α → Option σ) (track : σ → α → γ → γ)
    (P : σ × γ → α → Prop) : σ × γ → Prop :=
  Reachable (fun p => init p.1 ∧ p.2 = g₀) (Steps (tracking step track) P)

theorem tracking_eq_some {p q : σ × γ} {a : α} (h : tracking step track p a = some q) :
    step p.1 a = some q.1 ∧ q.2 = track p.1 a p.2 := by
  obtain ⟨t, ht, rfl⟩ := Option.map_eq_some_iff.mp h
  exact ⟨ht, rfl⟩

/-- Keeping track does not change what a system can do. -/
theorem Tracked.state {P : σ × γ → α → Prop} {Q : σ → α → Prop} (hPQ : ∀ p a, P p a → Q p.1 a)
    {p : σ × γ} (h : Tracked init g₀ step track P p) : Reachable init (Steps step Q) p.1 :=
  h.simulate (fun _ hp => hp.1) fun p _ _ ⟨a, hp, hstep⟩ =>
    .inr ⟨a, hPQ p a hp, (tracking_eq_some hstep).1⟩

/-- The state after a list of actions, with what was kept track of. -/
def tracked (step : σ → α → Option σ) (track : σ → α → γ → γ) (s : σ) (g₀ : γ) (as : List α) :
    σ × γ :=
  ran (tracking step track) (s, g₀) as

theorem Tracked.of_complies {P Q : σ × γ → α → Prop} [∀ p a, Decidable (P p a)]
    (hPQ : ∀ p a, P p a → Q p a) {s : σ} {as : List α} (hs : init s)
    (h : complies (tracking step track) P (s, g₀) as = true) :
    Tracked init g₀ step track Q (tracked step track s g₀ as) :=
  Reachable.ran_of_complies hPQ (s := (s, g₀)) ⟨hs, rfl⟩ h

end Tracking

/-! ## Notes -/

variable {ν : Type*} {note : σ → α → List ν}

/-- A step, and what is noted of it. -/
def noting (step : σ → α → Option σ) (note : σ → α → List ν) (p : σ × List ν) (a : α) :
    Option (σ × List ν) :=
  (step p.1 a).map fun t => (t, p.2 ++ note p.1 a)

/-- The states of all runs that meet a discipline, with the notes of the run. -/
abbrev Noted (init : σ → Prop) (step : σ → α → Option σ) (note : σ → α → List ν)
    (P : σ × List ν → α → Prop) : σ × List ν → Prop :=
  Reachable (fun p => init p.1 ∧ p.2 = []) (Steps (noting step note) P)

theorem noting_eq_some {p q : σ × List ν} {a : α} (h : noting step note p a = some q) :
    step p.1 a = some q.1 ∧ q.2 = p.2 ++ note p.1 a :=
  @tracking_eq_some _ _ step _ (fun s a l => l ++ note s a) p q a h

/-- The notes do not change what a system can do. -/
theorem Noted.state {P : σ × List ν → α → Prop} {Q : σ → α → Prop} (hPQ : ∀ p a, P p a → Q p.1 a)
    {p : σ × List ν} (h : Noted init step note P p) : Reachable init (Steps step Q) p.1 :=
  @Tracked.state _ _ init step _ [] (fun s a l => l ++ note s a) P Q hPQ p h

/-- The run in front of a step that it has noted. -/
theorem Noted.before {P : σ × List (σ × α) → α → Prop} {p : σ × List (σ × α)}
    (h : Noted init step (fun s a => [(s, a)]) P p) {earlier later : List (σ × α)} {x : σ × α}
    (hsplit : p.2 = earlier ++ x :: later) :
    Noted init step (fun s a => [(s, a)]) P (x.1, earlier) := by
  revert hsplit
  refine h.invariant (I := fun p => ∀ earlier later x, p.2 = earlier ++ x :: later →
    Noted init step (fun s a => [(s, a)]) P (x.1, earlier)) ?_ ?_ earlier later x
  · rintro ⟨s, notes⟩ ⟨-, rfl⟩ earlier later x hsplit
    simp at hsplit
  · rintro p q hp ih ⟨a, -, hstep⟩ earlier later x hsplit
    rw [(noting_eq_some hstep).2] at hsplit
    rcases List.eq_nil_or_concat later with rfl | ⟨between, last, rfl⟩
    · obtain ⟨rfl, hx⟩ := List.append_inj' hsplit rfl
      cases hx
      exact hp
    · rw [List.concat_eq_append, ← List.cons_append, ← List.append_assoc] at hsplit
      exact ih earlier between x (List.append_inj' hsplit rfl).1

/-- The steps of a part of the system, each with the state that the part was in. -/
def partOf {β : Type*} (view : σ → τ) (moves : σ → α → Option β) (notes : List (σ × α)) :
    List (τ × β) :=
  notes.filterMap fun x => (moves x.1 x.2).map fun b => (view x.1, b)

section Part

variable {β : Type*} {view : σ → τ} {moves : σ → α → Option β}

/-- A step of the part is a step of the whole. -/
theorem partOf_split {notes : List (σ × α)} {before later : List (τ × β)} {x : τ × β}
    (hsplit : partOf view moves notes = before ++ x :: later) :
    ∃ earlier y after, notes = earlier ++ y :: after ∧ partOf view moves earlier = before ∧
      view y.1 = x.1 ∧ moves y.1 y.2 = some x.2 := by
  obtain ⟨earlier, rest, rfl, rfl, hrest⟩ := List.filterMap_eq_append_iff.mp hsplit
  obtain ⟨skipped, y, after, rfl, hskipped, hy, -⟩ := List.filterMap_eq_cons_iff.mp hrest
  obtain ⟨b, hmoves, rfl⟩ := Option.map_eq_some_iff.mp hy
  refine ⟨earlier ++ skipped, y, after, by simp, ?_, rfl, hmoves⟩
  rw [partOf, List.filterMap_append, List.filterMap_eq_nil_iff.mpr hskipped, List.append_nil]

/-- A run of the system is a run of the part, if every step is a step of the part or leaves
it alone. -/
theorem Noted.part {init' : τ → Prop} {step' : τ → β → Option τ}
    {P : σ × List (σ × α) → α → Prop} (base : ∀ s, init s → init' (view s))
    (match_step : ∀ s t a, step s a = some t → (moves s a = none ∧ view t = view s) ∨
      ∃ b, moves s a = some b ∧ step' (view s) b = some (view t))
    {p : σ × List (σ × α)} (h : Noted init step (fun s a => [(s, a)]) P p) :
    Noted init' step' (fun s b => [(s, b)]) (fun _ _ => True)
      (view p.1, partOf view moves p.2) := by
  refine h.simulate (f := fun p => (view p.1, partOf view moves p.2)) ?_
    fun q q' _ ⟨a, _, hnoted⟩ => ?_
  · rintro ⟨s, notes⟩ ⟨hinit, rfl⟩
    exact ⟨base s hinit, rfl⟩
  · obtain ⟨hstep, hnotes⟩ := noting_eq_some hnoted
    rw [hnotes, partOf, List.filterMap_append]
    rcases match_step _ _ _ hstep with ⟨hnone, hsame⟩ | ⟨b, hb, hpart⟩
    · left
      simp [hnone, hsame, partOf]
    · right
      refine ⟨b, trivial, ?_⟩
      rw [noting, hpart]
      simp [hb, partOf]

end Part

/-- The state and the notes after a list of actions. -/
def noted (step : σ → α → Option σ) (note : σ → α → List ν) (s : σ) (as : List α) : σ × List ν :=
  (exec (noting step note) (s, []) as).getD (s, [])

theorem Noted.of_complies {P : σ × List ν → α → Prop} [∀ p a, Decidable (P p a)] {s : σ}
    {as : List α} (hs : init s) (h : complies (noting step note) P (s, []) as = true) :
    Noted init step note P (noted step note s as) :=
  @Tracked.of_complies _ _ init step _ [] (fun s a l => l ++ note s a) P P _ (fun _ _ => id)
    s as hs h

/-! ## Endless runs -/

/-- The states along a list of actions, and from its end on the state that it ends in. -/
def course (step : σ → α → Option σ) (s : σ) : List α → Nat → σ
  | a :: as, n + 1 =>
      match step s a with
      | some t => course step t as n
      | none => s
  | _, _ => s

@[simp] theorem course_zero (s : σ) (as : List α) : course step s as 0 = s := by
  cases as <;> rfl

theorem course_cons {s t : σ} {a : α} (h : step s a = some t) (as : List α) (n : Nat) :
    course step s (a :: as) (n + 1) = course step t as n := by
  rw [course, h]

theorem course_of_length_le {s t : σ} {as : List α} (ht : exec step s as = some t) {n : Nat}
    (hn : as.length ≤ n) : course step s as n = t := by
  induction as generalizing s n with
  | nil => cases ht; rfl
  | cons a as ih =>
      obtain ⟨u, hu, hrest⟩ := Option.bind_eq_some_iff.mp ht
      cases n with
      | zero => cases hn
      | succ n =>
          rw [course_cons hu]
          exact ih hrest (Nat.le_of_succ_le_succ hn)

/-- A run without an end: its states, and the actions between them. -/
structure Endless (init : σ → Prop) (step : σ → α → Option σ) (P : σ → α → Prop) (run : Nat → σ)
    (acts : Nat → α) : Prop where
  start : init (run 0)
  step : ∀ n, step (run n) (acts n) = some (run (n + 1))
  discipline : ∀ n, P (run n) (acts n)

namespace Endless

variable {run : Nat → σ} {acts : Nat → α}

theorem reachable (h : Endless init step P run acts) (n : Nat) :
    Transition.Reachable init (Steps step P) (run n) := by
  induction n with
  | zero => exact .start h.start
  | succ n ih => exact ih.step ⟨acts n, h.discipline n, h.step n⟩

/-- A measure that no step brings up and that every `fair` step brings down is zero
in the end, if a fair step comes as long as it is not. -/
theorem drains (run : Nat → σ) (acts : Nat → α) (μ : σ → Nat) (fair : α → Prop)
    (hfair : ∀ n, μ (run n) ≠ 0 → ∃ m, n ≤ m ∧ fair (acts m))
    (hmono : ∀ n, μ (run (n + 1)) ≤ μ (run n))
    (hdown : ∀ n, fair (acts n) → μ (run n) ≠ 0 → μ (run (n + 1)) < μ (run n)) (n : Nat) :
    ∃ m, n ≤ m ∧ μ (run m) = 0 := by
  have hle (n k : Nat) : μ (run (n + k)) ≤ μ (run n) := by
    induction k with
    | zero => exact Nat.le_refl _
    | succ k ih => exact Nat.le_trans (hmono (n + k)) ih
  induction hμ : μ (run n) using Nat.strongRecOn generalizing n with
  | ind d ih =>
      by_cases hzero : d = 0
      · exact ⟨n, Nat.le_refl n, hμ.trans hzero⟩
      · obtain ⟨m, hnm, hm⟩ := hfair n (hμ ▸ hzero)
        obtain ⟨k, rfl⟩ := Nat.exists_eq_add_of_le hnm
        have hbefore := hle n k
        by_cases hdone : μ (run (n + k)) = 0
        · exact ⟨n + k, hnm, hdone⟩
        · have hafter := hdown (n + k) hm hdone
          obtain ⟨j, hj, hzero'⟩ := ih (μ (run (n + k + 1))) (by omega) (n + k + 1) rfl
          exact ⟨j, by omega, hzero'⟩

/-- A list of actions that ends where an action changes nothing goes on with it for ever. -/
theorem of_loop [∀ s a, Decidable (P s a)] (hPQ : ∀ s a, P s a → Q s a) {s t : σ} {as : List α}
    {a : α} (hs : init s) (hc : complies step P s as = true) (ht : exec step s as = some t)
    (hloop : step t a = some t) (hq : Q t a) :
    Endless init step Q (course step s as) fun n => as.getD n a := by
  have hnext (n : Nat) : Q (course step s as n) (as.getD n a) ∧
      step (course step s as n) (as.getD n a) = some (course step s as (n + 1)) := by
    clear hs
    induction as generalizing s n with
    | nil =>
        cases ht
        exact ⟨hq, hloop⟩
    | cons b bs ih =>
        rw [complies, Bool.and_eq_true, decide_eq_true_eq] at hc
        obtain ⟨hp, hc⟩ := hc
        rw [exec_cons] at ht
        cases hstep : step s b with
        | none => rw [hstep] at hc; cases hc
        | some u =>
            rw [hstep] at hc ht
            cases n with
            | zero =>
                refine ⟨hPQ s b hp, ?_⟩
                rw [course_cons hstep, course_zero, course_zero]
                exact hstep
            | succ n =>
                rw [course_cons hstep, course_cons hstep, List.getD_cons_succ]
                exact ih hc ht n
  refine ⟨?_, fun n => (hnext n).2, fun n => (hnext n).1⟩
  rw [course_zero]
  exact hs

end Endless

end Transition
