import Iso8583Switch.Flow.Paths
import Iso8583Switch.Flow.Responders
import Iso8583Switch.Flow.Runs

/-!
# A sweep of the reaper

One iteration of the loop of the reaper, with nobody else running: pass 1 times
out what it has selected, pass 2 prunes what it has selected.  The iterators may
meet the entries in any order.  A sweep that finds every entry old enough leaves
exactly the entries that neither pass selects.
-/

namespace Iso8583Switch

open Text Function Relation

/-- What pass 2 selects, up to the age. -/
def ActiveTransaction.Prunable (entry : ActiveTransaction) : Prop :=
  entry.state = .completed ∨ entry.state = .reversed

namespace Engine

/-- A step of the reaper inside an iteration of its loop. -/
def Sweeping (s t : Engine) : Prop := s.reaper ≠ .asleep ∧ ∃ input, s.reaperStep input = some t

/-- One iteration of the loop, from the end of one sleep to the next. -/
def Sweeps (s t : Engine) : Prop :=
  s.reaper = .asleep ∧ t.reaper = .asleep ∧
    ∃ u, s.reaperStep .run = some u ∧ ReflTransGen Sweeping u t

/-- Every entry is older than the timeout and than the grace period. -/
def AllOld (s : Engine) : Prop :=
  ∀ key entry, s.guard.get key = some entry →
    s.olderThan entry s.timeoutMs = true ∧ s.olderThan entry pruneAfter = true

/-- The client of the entry, if there is one, has an answer. -/
def Answered (s : Engine) (entry : ActiveTransaction) : Prop :=
  ∀ r, entry.responder = some r → s.flow.Sent r

/-! ## What the sections of the reaper leave alone -/

section Frame

variable {s t : Engine}

theorem local_now : Local Engine.now := ⟨fun _ _ => rfl, fun _ _ _ => rfl, fun _ _ => rfl⟩

theorem local_timeoutMs : Local Engine.timeoutMs :=
  ⟨fun _ _ => rfl, fun _ _ _ => rfl, fun _ _ => rfl⟩

/-- The clock and the timeout. -/
def SameClock (s t : Engine) : Prop := t.now = s.now ∧ t.timeoutMs = s.timeoutMs

theorem timeOut_clock (s : Engine) (key : String) (entry : ActiveTransaction) (ok : Bool) :
    SameClock s (s.timeOut key entry ok) :=
  ⟨local_now.timeOut s key entry ok, local_timeoutMs.timeOut s key entry ok⟩

theorem evict_clock (s : Engine) (key : String) : SameClock s (s.evict key) :=
  ⟨local_now.evict s key, local_timeoutMs.evict s key⟩

theorem evict_get (s : Engine) (key k : String) :
    (s.evict key).guard.get k = if k = key then none else s.guard.get k := by
  unfold evict
  split
  · exact DashMap.get_remove _ _ _
  next h =>
    split
    next heq => rw [heq]; exact h
    next => rfl

theorem evict_unanswered (s : Engine) (key : String) :
    ∃ l, (s.evict key).trace = s.trace ++ l ∧ ∀ {r source reply}, .responded r source reply ∉ l := by
  obtain ⟨l, hl, hmem⟩ := evict_trace s key
  refine ⟨l, hl, fun he => ?_⟩
  obtain ⟨i, hi⟩ := hmem _ he
  cases hi

end Frame

/-! ## The state of a sweep -/

/-- What has happened since the sweep began in `s₀`: the clock has stood still,
and only clients of entries that were `UpstreamSent` have been answered. -/
structure Since (s₀ s : Engine) : Prop where
  now : s.now = s₀.now
  timeoutMs : s.timeoutMs = s₀.timeoutMs
  trace : ∃ l, s.trace = s₀.trace ++ l ∧ ∀ {r source reply}, .responded r source reply ∈ l →
    ∃ key entry, s₀.guard.get key = some entry ∧ entry.state = .upstreamSent ∧
      entry.responder = some r

/-- What has become of the entry under a key: `reaping` while pass 1 still has to
come to it, `pruning` while pass 2 still has to. -/
structure Swept (s₀ s : Engine) (reaping pruning : Prop) (key : String) : Prop where
  absent : s₀.guard.get key = none → s.guard.get key = none
  reaped : ∀ {entry}, s₀.guard.get key = some entry → entry.state = .upstreamSent →
    (s.guard.get key = none ∧ s.Answered entry) ∨ (reaping ∧ s.guard.get key = some entry)
  pruned : ∀ {entry}, s₀.guard.get key = some entry → entry.Prunable →
    s.guard.get key = none ∨ (pruning ∧ s.guard.get key = some entry)
  spared : ∀ {entry}, s₀.guard.get key = some entry → entry.state ≠ .upstreamSent →
    ¬ entry.Prunable → s.guard.get key = some entry

theorem Answered.grow {s t : Engine} {l : List Event} (hl : t.trace = s.trace ++ l)
    {entry : ActiveTransaction} (h : s.Answered entry) : t.Answered entry := by
  intro r hr
  obtain ⟨source, reply, hmem⟩ := h r hr
  refine ⟨source, reply, ?_⟩
  rw [flow_trace, hl]
  exact List.mem_append_left l hmem

namespace Swept

variable {s₀ s t : Engine} {p q p' q' : Prop} {key : String}

theorem start (hp : p) (hq : q) : Swept s₀ s₀ p q key where
  absent := id
  reaped hget _ := .inr ⟨hp, hget⟩
  pruned hget _ := .inr ⟨hq, hget⟩
  spared hget _ _ := hget

/-- A step that does not touch the key. -/
theorem mono {l : List Event} (h : Swept s₀ s p q key) (hl : t.trace = s.trace ++ l)
    (hget : t.guard.get key = s.guard.get key)
    (hp : ∀ entry, s.guard.get key = some entry → entry.state = .upstreamSent → p → p')
    (hq : ∀ entry, s.guard.get key = some entry → entry.Prunable → q → q') :
    Swept s₀ t p' q' key where
  absent h₀ := hget.trans (h.absent h₀)
  reaped h₀ hstate := by
    rcases h.reaped h₀ hstate with ⟨hnone, hanswered⟩ | ⟨hpend, hsome⟩
    · exact .inl ⟨hget.trans hnone, hanswered.grow hl⟩
    · exact .inr ⟨hp _ hsome hstate hpend, hget.trans hsome⟩
  pruned h₀ hprunable := by
    rcases h.pruned h₀ hprunable with hnone | ⟨hpend, hsome⟩
    · exact .inl (hget.trans hnone)
    · exact .inr ⟨hq _ hsome hprunable hpend, hget.trans hsome⟩
  spared h₀ hstate hprunable := hget.trans (h.spared h₀ hstate hprunable)

/-- What is still there is as it was. -/
theorem original (h : Swept s₀ s p q key) {entry : ActiveTransaction}
    (hget : s.guard.get key = some entry) : s₀.guard.get key = some entry := by
  cases h₀ : s₀.guard.get key with
  | none =>
      rw [h.absent h₀] at hget
      cases hget
  | some entry₀ =>
      suffices hsome : s.guard.get key = some entry₀ by rw [← hget, hsome]
      by_cases hstate : entry₀.state = .upstreamSent
      · rcases h.reaped h₀ hstate with ⟨hnone, -⟩ | ⟨-, hsome⟩
        · rw [hnone] at hget
          cases hget
        · exact hsome
      · by_cases hprunable : entry₀.Prunable
        · rcases h.pruned h₀ hprunable with hnone | ⟨-, hsome⟩
          · rw [hnone] at hget
            cases hget
          · exact hsome
        · exact h.spared h₀ hstate hprunable

end Swept

/-- The invariant of a sweep, phase by phase. -/
def SweepInv (s₀ s : Engine) : Prop :=
  Since s₀ s ∧
    match s.reaper with
    | .expiring scan toReverse =>
        ∀ k, Swept s₀ s (k ∈ toReverse ∨ k ∈ scan.todo) True k
    | .reversing toReverse => ∀ k, Swept s₀ s (k ∈ toReverse) True k
    | .reclaiming key _ didReverse rest | .evicting key didReverse rest =>
        (∀ k, k ≠ key → Swept s₀ s (k ∈ rest) True k) ∧
          if didReverse then ∃ entry, s₀.guard.get key = some entry ∧
            entry.state = .upstreamSent ∧ s.Answered entry
          else Swept s₀ s False True key
    | .pruning scan staleKeys =>
        ∀ k, Swept s₀ s False (k ∈ staleKeys ∨ k ∈ scan.todo) k ∧
          (k ∈ staleKeys → ∃ entry, s₀.guard.get k = some entry ∧ entry.Prunable)
    | .removing staleKeys =>
        ∀ k, Swept s₀ s False (k ∈ staleKeys) k ∧
          (k ∈ staleKeys → ∃ entry, s₀.guard.get k = some entry ∧ entry.Prunable)
    | .asleep => ∀ k, Swept s₀ s False False k

/-! ## One step of a sweep -/

section Step

variable {s₀ s t : Engine}

theorem Since.grow (h : Since s₀ s) (hclock : SameClock s t) {l : List Event}
    (hl : t.trace = s.trace ++ l) (hno : ∀ {r source reply}, .responded r source reply ∉ l) :
    Since s₀ t := by
  obtain ⟨l₀, hl₀, hanswers⟩ := h.trace
  refine ⟨hclock.1.trans h.now, hclock.2.trans h.timeoutMs, l₀ ++ l, ?_, fun hmem => ?_⟩
  · rw [hl, hl₀, List.append_assoc]
  · rw [List.mem_append, or_iff_left hno] at hmem
    exact hanswers hmem

/-- The reaper moves on and touches nothing. -/
theorem Since.setReaper (h : Since s₀ s) (pc : ReaperPc) : Since s₀ (s.setReaper pc) :=
  h.grow ⟨rfl, rfl⟩ (List.append_nil _).symm (by simp)

theorem Swept.setReaper {p q p' q' : Prop} {key : String} (h : Swept s₀ s p q key) (pc : ReaperPc)
    (hp : ∀ entry, s.guard.get key = some entry → entry.state = .upstreamSent → p → p')
    (hq : ∀ entry, s.guard.get key = some entry → entry.Prunable → q → q') :
    Swept s₀ (s.setReaper pc) p' q' key :=
  h.mono (List.append_nil _).symm rfl hp hq

theorem Since.allOld (h : Since s₀ s) (hold : s₀.AllOld) {key : String}
    {entry : ActiveTransaction} (hget : s₀.guard.get key = some entry) :
    s.olderThan entry s.timeoutMs = true ∧ s.olderThan entry pruneAfter = true := by
  unfold olderThan
  rw [h.now, h.timeoutMs]
  exact hold key entry hget

/-- Pass 1 selects an old entry that is `UpstreamSent`. -/
theorem Since.expired (h : Since s₀ s) (hold : s₀.AllOld) {key : String}
    {entry : ActiveTransaction} (hget : s₀.guard.get key = some entry)
    (hstate : entry.state = .upstreamSent) : s.expired entry = true := by
  simp [Engine.expired, hstate, (h.allOld hold hget).1]

/-- Pass 2 selects an old entry that is prunable. -/
theorem Since.stale (h : Since s₀ s) (hold : s₀.AllOld) {key : String}
    {entry : ActiveTransaction} (hget : s₀.guard.get key = some entry)
    (hprunable : entry.Prunable) : s.stale entry = true := by
  rcases hprunable with hstate | hstate <;>
    simp [Engine.stale, hstate, (h.allOld hold hget).2]

theorem stale_prunable {entry : ActiveTransaction} (h : s.stale entry = true) : entry.Prunable := by
  simp [Engine.stale] at h
  exact h.1

/-- Pass 1 has met the key. -/
theorem SweepInv.expiring_visit {scan : Scan} {toReverse : List String} {key : String}
    {entry : ActiveTransaction} (hold : s₀.AllOld) (hsince : Since s₀ s)
    (h : ∀ k, Swept s₀ s (k ∈ toReverse ∨ k ∈ scan.todo) True k)
    (hget : s.guard.get key = some entry) :
    SweepInv s₀ (s.setReaper (.expiring (scan.meet key)
      (if s.expired entry then toReverse ++ [key] else toReverse))) := by
  refine ⟨hsince.setReaper _, fun k => (h k).setReaper _ (fun x hx hstate hpend => ?_)
    fun _ _ _ => id⟩
  by_cases hk : k = key
  · subst hk
    rw [if_pos (by
      rw [hget, Option.some.injEq] at hx
      rw [hx]
      exact hsince.expired hold ((h k).original (hx ▸ hget)) hstate)]
    exact .inl (List.mem_append_right _ (List.mem_singleton_self k))
  · rcases hpend with hmem | hmem
    · left
      split
      · exact List.mem_append_left _ hmem
      · exact hmem
    · exact .inr ((List.mem_erase_of_ne hk).mpr hmem)

/-- The entry of the key is gone. -/
theorem mem_erase_of_present {scan : Scan} {key k : String} {entry : ActiveTransaction}
    (hnone : (s.guard.get key).isNone = true) (hget : s.guard.get k = some entry)
    (hmem : k ∈ scan.todo) : k ∈ (scan.drop key).todo := by
  refine (List.mem_erase_of_ne ?_).mpr hmem
  rintro rfl
  rw [hget] at hnone
  cases hnone

/-- The `get_mut` section of pass 1 on the next key. -/
theorem SweepInv.reverse {key : String} {rest : List String} (ok : Bool) (hsince : Since s₀ s)
    (h : ∀ k, Swept s₀ s (k ∈ key :: rest) True k) :
    SweepInv s₀ ((s.reverseSection key ok).1.setReaper
      (.reclaiming key (s.reverseSection key ok).2.1 (s.reverseSection key ok).2.2 rest)) := by
  -- Nothing is done to a key that has no entry or one in another state.
  have hnothing (hother : ∀ entry, s.guard.get key = some entry → entry.state ≠ .upstreamSent) :
      SweepInv s₀ (s.setReaper (.reclaiming key none false rest)) := by
    refine ⟨hsince.setReaper _, fun k hk => (h k).setReaper _ (fun _ _ _ hmem => ?_)
      (fun _ _ _ => id), (h key).setReaper _ (fun x hx hstate _ => ?_) fun _ _ _ => id⟩
    · exact (List.mem_cons.mp hmem).resolve_left hk
    · exact absurd hstate (hother x hx)
  unfold reverseSection
  split
  next entry hget =>
    split
    next hstate =>
      obtain ⟨sent, hflow⟩ := timeOut_flow s key entry ok
      have hguard := congrArg Flow.guard hflow
      have htrace := congrArg Flow.trace hflow
      simp only [flow_guard, flow_trace] at hguard htrace
      have h₀ := (h key).original hget
      have hclock := timeOut_clock s key entry ok
      obtain ⟨l₀, hl₀, hanswers⟩ := hsince.trace
      refine ⟨⟨hclock.1.trans hsince.now, hclock.2.trans hsince.timeoutMs, _,
        (htrace.trans (by rw [hl₀])).trans (List.append_assoc _ _ _), fun hmem => ?_⟩,
        fun k hk => (h k).mono htrace ?_ (fun _ _ _ hmem => ?_) (fun _ _ _ => id),
        entry, h₀, hstate, fun r hr => ?_⟩
      · rcases List.mem_append.mp hmem with hmem | hmem
        · exact hanswers hmem
        · simp [mem_answers, mem_reversals] at hmem
          exact ⟨key, entry, h₀, hstate, hmem.1⟩
      · exact (congrArg (DashMap.get · k) hguard).trans (DashMap.get_put_ne _ _ hk)
      · exact (List.mem_cons.mp hmem).resolve_left hk
      · refine ⟨.reaper entry.serial, timeoutReply entry, ?_⟩
        simp [setReaper, htrace, hr, answers]
    next hstate =>
      refine hnothing fun x hx => ?_
      rw [hget, Option.some.injEq] at hx
      exact hx ▸ hstate
  next hget =>
    refine hnothing fun x hx => ?_
    rw [hget] at hx
    cases hx

/-- The NAT entry is dropped between the `get_mut` section and the eviction. -/
theorem SweepInv.collect {key : String} {egressStan : Option String} {didReverse : Bool}
    {rest : List String} (hsince : Since s₀ s)
    (h : (∀ k, k ≠ key → Swept s₀ s (k ∈ rest) True k) ∧
      if didReverse then ∃ entry, s₀.guard.get key = some entry ∧
        entry.state = .upstreamSent ∧ s.Answered entry
      else Swept s₀ s False True key) :
    SweepInv s₀ ((s.collectNat egressStan).setReaper (.evicting key didReverse rest)) := by
  have hl : (s.collectNat egressStan).trace = s.trace ++ [] := by
    cases egressStan <;> simp [collectNat]
  have hget (k : String) : (s.collectNat egressStan).guard.get k = s.guard.get k := by
    cases egressStan <;> rfl
  have hclock : SameClock s (s.collectNat egressStan) := by
    cases egressStan <;> exact ⟨rfl, rfl⟩
  refine ⟨hsince.grow hclock hl (by simp), fun k hk => (h.1 k hk).mono hl (hget k)
    (fun _ _ _ => id) (fun _ _ _ => id), ?_⟩
  cases didReverse with
  | true =>
      obtain ⟨entry, h₀, hstate, hanswered⟩ := h.2
      exact ⟨entry, h₀, hstate, hanswered.grow hl⟩
  | false =>
      exact (h.2 : Swept s₀ s False True key).mono hl (hget key) (fun _ _ _ => id)
        fun _ _ _ => id

theorem Swept.evict_other {p q : Prop} {key k : String} (h : Swept s₀ s p q k) (hk : k ≠ key)
    (pc : ReaperPc) : Swept s₀ ((s.evict key).setReaper pc) p q k := by
  obtain ⟨l, hl, -⟩ := evict_unanswered s key
  exact h.mono hl ((evict_get s key k).trans (if_neg hk)) (fun _ _ _ => id) (fun _ _ _ => id)

theorem Since.evict (h : Since s₀ s) (key : String) (pc : ReaperPc) :
    Since s₀ ((s.evict key).setReaper pc) := by
  obtain ⟨l, hl, hno⟩ := evict_unanswered s key
  exact h.grow (evict_clock s key) hl hno

/-- The eviction of pass 1. -/
theorem SweepInv.evictReversed {key : String} {didReverse : Bool} {rest : List String}
    (hsince : Since s₀ s)
    (h : (∀ k, k ≠ key → Swept s₀ s (k ∈ rest) True k) ∧
      if didReverse then ∃ entry, s₀.guard.get key = some entry ∧
        entry.state = .upstreamSent ∧ s.Answered entry
      else Swept s₀ s False True key) :
    SweepInv s₀ ((if didReverse then s.evict key else s).setReaper (.reversing rest)) := by
  cases didReverse with
  | false =>
      refine ⟨hsince.setReaper _, fun k => ?_⟩
      by_cases hk : k = key
      · subst hk
        exact (h.2 : Swept s₀ s False True k).setReaper _ (fun _ _ _ => False.elim)
          fun _ _ _ => id
      · exact (h.1 k hk).setReaper _ (fun _ _ _ => id) fun _ _ _ => id
  | true =>
      refine ⟨hsince.evict key _, fun k => ?_⟩
      by_cases hk : k = key
      · subst hk
        obtain ⟨entry, h₀, hstate, hanswered⟩ := h.2
        obtain ⟨l, hl, -⟩ := evict_unanswered s k
        have hnone : (s.evict k).guard.get k = none := (evict_get s k k).trans (if_pos rfl)
        have heq {entry' : ActiveTransaction} (h₀' : s₀.guard.get k = some entry') :
            entry' = entry := by
          rw [h₀, Option.some.injEq] at h₀'
          exact h₀'.symm
        exact {
          absent := fun _ => hnone
          reaped := fun h₀' _ => .inl ⟨hnone, heq h₀' ▸ hanswered.grow hl⟩
          pruned := fun _ _ => .inl hnone
          spared := fun h₀' hne _ => absurd (heq h₀' ▸ hstate) hne }
      · exact (h.1 k hk).evict_other hk _

/-- Pass 2 has met the key. -/
theorem SweepInv.pruning_visit {scan : Scan} {staleKeys : List String} {key : String}
    {entry : ActiveTransaction} (hold : s₀.AllOld) (hsince : Since s₀ s)
    (h : ∀ k, Swept s₀ s False (k ∈ staleKeys ∨ k ∈ scan.todo) k ∧
      (k ∈ staleKeys → ∃ entry, s₀.guard.get k = some entry ∧ entry.Prunable))
    (hget : s.guard.get key = some entry) :
    SweepInv s₀ (s.setReaper (.pruning (scan.meet key)
      (if s.stale entry then staleKeys ++ [key] else staleKeys))) := by
  refine ⟨hsince.setReaper _, fun k => ⟨(h k).1.setReaper _ (fun _ _ _ => id)
    fun x hx hprunable hpend => ?_, fun hmem => ?_⟩⟩
  · by_cases hk : k = key
    · subst hk
      rw [if_pos (by
        rw [hget, Option.some.injEq] at hx
        rw [hx]
        exact hsince.stale hold ((h k).1.original (hx ▸ hget)) hprunable)]
      exact .inl (List.mem_append_right _ (List.mem_singleton_self k))
    · rcases hpend with hmem | hmem
      · left
        split
        · exact List.mem_append_left _ hmem
        · exact hmem
      · exact .inr ((List.mem_erase_of_ne hk).mpr hmem)
  · split at hmem
    next hstale =>
      rcases List.mem_append.mp hmem with hmem | hmem
      · exact (h k).2 hmem
      · rw [List.mem_singleton] at hmem
        subst hmem
        exact ⟨entry, (h k).1.original hget, stale_prunable hstale⟩
    next => exact (h k).2 hmem

/-- The eviction of pass 2. -/
theorem SweepInv.evictStale {key : String} {rest : List String} (hsince : Since s₀ s)
    (h : ∀ k, Swept s₀ s False (k ∈ key :: rest) k ∧
      (k ∈ key :: rest → ∃ entry, s₀.guard.get k = some entry ∧ entry.Prunable)) :
    SweepInv s₀ ((s.evict key).setReaper (.removing rest)) := by
  refine ⟨hsince.evict key _, fun k => ⟨?_, fun hmem => (h k).2 (List.mem_cons_of_mem _ hmem)⟩⟩
  by_cases hk : k = key
  · subst hk
    obtain ⟨entry, h₀, hprunable⟩ := (h k).2 List.mem_cons_self
    obtain ⟨l, hl, -⟩ := evict_unanswered s k
    have hnone : (s.evict k).guard.get k = none := (evict_get s k k).trans (if_pos rfl)
    exact {
      absent := fun _ => hnone
      reaped := fun h₀' hstate => by
        rcases (h k).1.reaped h₀' hstate with ⟨-, hanswered⟩ | ⟨hfalse, -⟩
        · exact .inl ⟨hnone, hanswered.grow hl⟩
        · exact hfalse.elim
      pruned := fun _ _ => .inl hnone
      spared := fun {entry'} h₀' _ hne => by
        rw [h₀, Option.some.injEq] at h₀'
        exact absurd (h₀' ▸ hprunable) hne }
  · obtain ⟨l, hl, -⟩ := evict_unanswered s key
    exact (h k).1.mono hl ((evict_get s key k).trans (if_neg hk)) (fun _ _ _ => id)
      fun _ _ _ hmem => (List.mem_cons.mp hmem).resolve_left hk

/-- Every step of a sweep keeps the invariant. -/
theorem SweepInv.step (hold : s₀.AllOld) (h : SweepInv s₀ s) (hstep : Sweeping s t) :
    SweepInv s₀ t := by
  obtain ⟨hawake, input, hstep⟩ := hstep
  obtain ⟨hsince, h⟩ := h
  unfold reaperStep at hstep
  split at hstep
  case h_1 hpc => exact absurd hpc hawake
  case h_2 hpc =>
    rw [hpc] at h
    split at hstep
    next hget =>
      split at hstep <;> cases hstep
      exact expiring_visit hold hsince h hget
    next => cases hstep
  case h_3 hpc =>
    rw [hpc] at h
    split at hstep <;> cases hstep
    next hskip =>
      exact ⟨hsince.setReaper _, fun k => (h k).setReaper _
        (fun _ hget _ => Or.imp_right (mem_erase_of_present hskip.2 hget)) fun _ _ _ => id⟩
  case h_4 hpc =>
    rw [hpc] at h
    split at hstep <;> cases hstep
    next hdone =>
      refine ⟨hsince.setReaper _, fun k => (h k).setReaper _ (fun _ _ _ hpend => ?_) fun _ _ _ => id⟩
      rw [hdone] at hpend
      exact hpend.resolve_right List.not_mem_nil
  case h_5 ok hpc => rw [hpc] at h; cases hstep; exact reverse ok hsince h
  case h_6 hpc =>
    rw [hpc] at h
    cases hstep
    refine ⟨hsince.setReaper _, fun k => ⟨(h k).setReaper _ (fun _ _ _ => List.not_mem_nil)
      (fun x hget _ _ => .inr ?_), fun hmem => absurd hmem List.not_mem_nil⟩⟩
    exact DashMap.mem_keys_iff.mpr ⟨x, hget⟩
  case h_7 hpc => rw [hpc] at h; cases hstep; exact collect hsince h
  case h_8 hpc => rw [hpc] at h; cases hstep; exact evictReversed hsince h
  case h_9 hpc =>
    rw [hpc] at h
    split at hstep
    next hget =>
      split at hstep <;> cases hstep
      exact pruning_visit hold hsince h hget
    next => cases hstep
  case h_10 hpc =>
    rw [hpc] at h
    split at hstep <;> cases hstep
    next hskip =>
      exact ⟨hsince.setReaper _, fun k => ⟨(h k).1.setReaper _ (fun _ _ _ => id)
        (fun _ hget _ => Or.imp_right (mem_erase_of_present hskip.2 hget)), (h k).2⟩⟩
  case h_11 hpc =>
    rw [hpc] at h
    split at hstep <;> cases hstep
    next hdone =>
      refine ⟨hsince.setReaper _, fun k => ⟨(h k).1.setReaper _ (fun _ _ _ => id)
        (fun _ _ _ hpend => ?_), (h k).2⟩⟩
      rw [hdone] at hpend
      exact hpend.resolve_right List.not_mem_nil
  case h_12 hpc => rw [hpc] at h; cases hstep; exact evictStale hsince h
  case h_13 hpc =>
    rw [hpc] at h
    cases hstep
    exact ⟨hsince.setReaper _, fun k => (h k).1.setReaper _ (fun _ _ _ => id)
      fun _ _ _ => List.not_mem_nil⟩
  case h_14 => cases hstep

/-- What a whole sweep leaves behind. -/
theorem Sweeps.swept (hold : s.AllOld) (h : Sweeps s t) :
    Since s t ∧ ∀ k, Swept s t False False k := by
  obtain ⟨hasleep, hdone, u, hstart, hrun⟩ := h
  have hinv : SweepInv s u := by
    unfold reaperStep at hstart
    rw [hasleep] at hstart
    cases hstart
    refine ⟨⟨rfl, rfl, [], (List.append_nil _).symm, by simp⟩, fun k => ?_⟩
    exact (Swept.start (p := True) (q := True) trivial trivial).setReaper _
      (fun x hget _ _ => .inr (DashMap.mem_keys_iff.mpr ⟨x, hget⟩)) fun _ _ _ => id
  have hkeep {v : Engine} (hrun : ReflTransGen Sweeping u v) : SweepInv s v := by
    induction hrun with
    | refl => exact hinv
    | tail _ hstep ih => exact ih.step hold hstep
  obtain ⟨hsince, h⟩ := hkeep hrun
  rw [hdone] at h
  exact ⟨hsince, h⟩

end Step

/-! ## A sweep comes to its end -/

section Progress

variable {s : Engine}

/-- A pass over the map that meets every entry in turn. -/
theorem scan_ends (pass : Scan → List String → ReaperPc) (next : List String → ReaperPc)
    (selects : Engine → ActiveTransaction → Bool) (hawake : ∀ scan l, pass scan l ≠ .asleep)
    (hvisit : ∀ {s : Engine} {scan l key entry}, s.reaper = pass scan l →
      s.guard.get key = some entry → key ∉ scan.seen → s.reaperStep (.visit key) =
        some (s.setReaper (pass (scan.meet key) (if selects s entry then l ++ [key] else l))))
    (hrun : ∀ {s : Engine} {scan l}, s.reaper = pass scan l → scan.todo = [] →
      s.reaperStep .run = some (s.setReaper (next l))) (todo : List String) :
    ∀ (s : Engine) (seen l : List String), s.reaper = pass ⟨todo, seen⟩ l → todo.Nodup →
      (∀ k ∈ todo, k ∉ seen ∧ ∃ entry, s.guard.get k = some entry) →
        ∃ l', ReflTransGen Sweeping s (s.setReaper (next l')) := by
  induction todo with
  | nil =>
      intro s seen l hpc _ _
      exact ⟨l, .single ⟨hpc ▸ hawake _ _, .run, hrun hpc rfl⟩⟩
  | cons key todo ih =>
      intro s seen l hpc hnodup hmem
      obtain ⟨hseen, entry, hget⟩ := hmem key List.mem_cons_self
      have hstep := hvisit hpc hget hseen
      have htodo : (Scan.meet ⟨key :: todo, seen⟩ key) = ⟨todo, key :: seen⟩ := by
        simp [Scan.meet]
      rw [htodo] at hstep
      obtain ⟨hnot, hnodup⟩ := List.nodup_cons.mp hnodup
      obtain ⟨l', hrest⟩ := ih (s.setReaper (pass ⟨todo, key :: seen⟩
          (if selects s entry then l ++ [key] else l))) (key :: seen) _ rfl hnodup fun k hk => by
        obtain ⟨hkseen, hkget⟩ := hmem k (List.mem_cons_of_mem _ hk)
        refine ⟨fun hin => ?_, hkget⟩
        rcases List.mem_cons.mp hin with rfl | hin
        · exact hnot hk
        · exact hkseen hin
      exact ⟨l', .head ⟨hpc ▸ hawake _ _, .visit key, hstep⟩ hrest⟩

theorem reversing_ends (toReverse : List String) :
    ∀ s : Engine, s.reaper = .reversing toReverse →
      ∃ t, ReflTransGen Sweeping s t ∧ t.reaper = .pruning (.start t.guard.keys) [] := by
  induction toReverse with
  | nil =>
      intro s hpc
      exact ⟨s.setReaper (.pruning (.start s.guard.keys) []),
        .single ⟨by simp [hpc], .run, by simp only [reaperStep, hpc]⟩, rfl⟩
  | cons key rest ih =>
      intro s hpc
      have hreverse : Sweeping s ((s.reverseSection key true).1.setReaper (.reclaiming key
          (s.reverseSection key true).2.1 (s.reverseSection key true).2.2 rest)) :=
        ⟨by simp [hpc], .outcome true, by simp only [reaperStep, hpc]⟩
      generalize s.reverseSection key true = result at hreverse
      obtain ⟨u, egressStan, didReverse⟩ := result
      have hcollect : Sweeping (u.setReaper (.reclaiming key egressStan didReverse rest))
          (((u.setReaper (.reclaiming key egressStan didReverse rest)).collectNat
            egressStan).setReaper (.evicting key didReverse rest)) :=
        ⟨by simp [setReaper], .run, rfl⟩
      generalize (u.setReaper (.reclaiming key egressStan didReverse rest)).collectNat
        egressStan = x at hcollect
      have hevict : Sweeping (x.setReaper (.evicting key didReverse rest))
          ((if didReverse then (x.setReaper (.evicting key didReverse rest)).evict key
            else x.setReaper (.evicting key didReverse rest)).setReaper (.reversing rest)) :=
        ⟨by simp [setReaper], .run, rfl⟩
      obtain ⟨t, hrun, hend⟩ := ih ((if didReverse then
        (x.setReaper (.evicting key didReverse rest)).evict key
          else x.setReaper (.evicting key didReverse rest)).setReaper (.reversing rest)) rfl
      exact ⟨t, .head hreverse (.head hcollect (.head hevict hrun)), hend⟩

theorem removing_ends (staleKeys : List String) :
    ∀ s : Engine, s.reaper = .removing staleKeys →
      ∃ t, ReflTransGen Sweeping s t ∧ t.reaper = .asleep := by
  induction staleKeys with
  | nil =>
      intro s hpc
      exact ⟨s.setReaper .asleep, .single ⟨by simp [hpc], .run, by simp only [reaperStep, hpc]⟩, rfl⟩
  | cons key rest ih =>
      intro s hpc
      obtain ⟨t, hrun, hend⟩ := ih ((s.evict key).setReaper (.removing rest)) rfl
      exact ⟨t, .head ⟨by simp [hpc], .run, by simp only [reaperStep, hpc]⟩ hrun, hend⟩

theorem mem_start_keys {s : Engine} :
    ∀ k ∈ s.guard.keys, k ∉ (Scan.start s.guard.keys).seen ∧ ∃ entry, s.guard.get k = some entry :=
  fun _ hk => ⟨List.not_mem_nil, DashMap.mem_keys_iff.mp hk⟩

/-- Nothing stops a sweep. -/
theorem exists_sweeps (h : s.reaper = .asleep) : ∃ t, Sweeps s t := by
  obtain ⟨toReverse, hfirst⟩ := scan_ends .expiring .reversing expired (by simp)
    (fun {s scan l key entry} hpc hget hseen => by simp [reaperStep, hpc, hget, hseen])
    (fun {s scan l} hpc htodo => by simp [reaperStep, hpc, htodo]) s.guard.keys
    (s.setReaper (.expiring (.start s.guard.keys) [])) [] [] rfl s.guard.nodupKeys
    (mem_start_keys (s := s))
  obtain ⟨u, hreverse, hpruning⟩ := reversing_ends toReverse
    ((s.setReaper (.expiring (.start s.guard.keys) [])).setReaper (.reversing toReverse)) rfl
  obtain ⟨staleKeys, hsecond⟩ := scan_ends .pruning .removing stale (by simp)
    (fun {s scan l key entry} hpc hget hseen => by simp [reaperStep, hpc, hget, hseen])
    (fun {s scan l} hpc htodo => by simp [reaperStep, hpc, htodo]) u.guard.keys u [] [] hpruning
    u.guard.nodupKeys (mem_start_keys (s := u))
  obtain ⟨t, hremove, hend⟩ := removing_ends staleKeys (u.setReaper (.removing staleKeys)) rfl
  refine ⟨t, h, hend, s.setReaper (.expiring (.start s.guard.keys) []),
    by simp only [reaperStep, h], ?_⟩
  exact hfirst.trans (hreverse.trans (hsecond.trans hremove))

end Progress

end Engine

/-! ## The states that the engine can put an entry in -/

/-- No code sets `HSMPending`, and a `Reversed` entry has lost its responder. -/
structure ActiveTransaction.Settled (entry : ActiveTransaction) : Prop where
  not_hsmPending : entry.state ≠ .hsmPending
  reversed : entry.state = .reversed → entry.responder = none

theorem Touch.settled {v : Flow} {key : String} {entry entry' : ActiveTransaction} {l : List Event}
    {reclaim : Option String} {handling : Nat → Option (Packet × String)}
    (h : Touch v key entry entry' l reclaim handling) (hs : entry.Settled) : entry'.Settled := by
  cases h with
  | record => exact ⟨hs.not_hsmPending, hs.reversed⟩
  | timeOut => exact ⟨nofun, fun _ => rfl⟩
  | mark | close | complete | completeUnjournaled => exact ⟨nofun, nofun⟩

theorem Flow.Reachable.settled {Q : Flow.Discipline} {v : Flow} (h : Flow.Reachable Q v)
    {key : String} {entry : ActiveTransaction} (hget : v.guard.get key = some entry) :
    entry.Settled := by
  refine h.invariant (I := fun v => ∀ key entry, v.guard.get key = some entry → entry.Settled)
    ?_ ?_ key entry hget
  · intro v hv key entry hget
    rw [hv.guard, DashMap.get_empty] at hget
    cases hget
  · intro v v' _ hv hmove key entry hget
    cases hmove.1 with
    | traffic h => rw [h.guard] at hget; exact hv key entry hget
    | custody h =>
        cases h with
        | receive | answerFront | dropFront => exact hv key entry hget
        | insert =>
            rcases DashMap.get_put_eq_some.mp hget with ⟨rfl, rfl⟩ | ⟨-, hget⟩
            · exact ⟨nofun, nofun⟩
            · exact hv key entry hget
        | touch hget' htouch =>
            rcases DashMap.get_put_eq_some.mp hget with ⟨rfl, rfl⟩ | ⟨-, hget⟩
            · exact htouch.settled (hv key _ hget')
            · exact hv key entry hget
        | evict => exact hv key entry (DashMap.get_remove_eq_some.mp hget).2

/-! ## What a sweep strands -/

/-- The guard is empty, and whoever waited on an entry that is gone has an answer. -/
def Cleared (s t : Engine) : Prop :=
  t.guard = ∅ ∧ ∀ key entry r, s.guard.get key = some entry → t.guard.get key = none →
    entry.responder = some r → t.flow.Sent r

/-- No entry is `ReversedPending`, and no `Completed` entry holds a responder. -/
def Sweepable (s : Engine) : Prop :=
  ∀ key entry, s.guard.get key = some entry →
    entry.state ≠ .reversedPending ∧ (entry.state = .completed → entry.responder = none)

section Cleared

variable {s t : Engine}

/-- A client that waits on an entry that pass 1 does not select gets nothing in a
sweep. -/
theorem Engine.Since.unsent (h : Engine.Reachable Transition.Free s) (hsince : Engine.Since s t)
    {key : String} {entry : ActiveTransaction} {r : Responder}
    (hget : s.guard.get key = some entry) (hstate : entry.state ≠ .upstreamSent)
    (hr : entry.responder = some r) : ¬ t.flow.Sent r := by
  have hflow := Engine.Reachable.flow_free h
  rintro ⟨source, reply, hmem⟩
  obtain ⟨l, hl, hanswers⟩ := hsince.trace
  rw [Engine.flow_trace, hl, List.mem_append] at hmem
  rcases hmem with hold | hnew
  · exact hflow.owned.entry_unsent hget hr ⟨source, reply, hold⟩
  · obtain ⟨key', entry', hget', hstate', hr'⟩ := hanswers hnew
    obtain ⟨tx, hi⟩ := hflow.inserted_responder hget hr
    obtain ⟨tx', hi'⟩ := hflow.inserted_responder hget' hr'
    obtain rfl := hflow.key_unique hget hget' (hflow.owned.inserted_inj hi hi')
    rw [hget, Option.some.injEq] at hget'
    exact hstate (hget' ▸ hstate')

theorem cleared_of_sweepable (h : Engine.Reachable Transition.Free s) (hold : s.AllOld)
    (hsweep : Engine.Sweeps s t) (hok : Sweepable s) : Cleared s t := by
  obtain ⟨hsince, hswept⟩ := hsweep.swept hold
  have hgone {key : String} {entry : ActiveTransaction} (hget : s.guard.get key = some entry) :
      t.guard.get key = none ∧ t.Answered entry := by
    have hsettled := (Engine.Reachable.flow_free h).settled hget
    have hk := hswept key
    have hanswered (hnone : entry.responder = none) : t.Answered entry := by
      intro r hr
      rw [hnone] at hr
      cases hr
    cases hstate : entry.state with
    | upstreamSent =>
        rcases hk.reaped hget hstate with hgone | ⟨hfalse, -⟩
        · exact hgone
        · exact hfalse.elim
    | reversed =>
        refine ⟨?_, hanswered (hsettled.reversed hstate)⟩
        exact (hk.pruned hget (.inr hstate)).resolve_right fun hpend => hpend.1
    | completed =>
        refine ⟨?_, hanswered ((hok key entry hget).2 hstate)⟩
        exact (hk.pruned hget (.inl hstate)).resolve_right fun hpend => hpend.1
    | reversedPending => exact absurd hstate (hok key entry hget).1
    | hsmPending => exact absurd hstate hsettled.not_hsmPending
  refine ⟨DashMap.eq_empty_of_get fun key => ?_, fun key entry r hget _ hr => (hgone hget).2 r hr⟩
  cases hget : s.guard.get key with
  | none => exact (hswept key).absent hget
  | some entry => exact (hgone hget).1

theorem sweepable_of_cleared (h : Engine.Reachable Transition.Free s) (hold : s.AllOld)
    (hsweep : Engine.Sweeps s t) (hcleared : Cleared s t) : Sweepable s := by
  obtain ⟨hsince, hswept⟩ := hsweep.swept hold
  obtain ⟨hempty, hsent⟩ := hcleared
  have hgone (key : String) : t.guard.get key = none := by rw [hempty, DashMap.get_empty]
  intro key entry hget
  constructor
  · intro hstate
    have hkept := (hswept key).spared hget (by rw [hstate]; simp)
      (by simp [ActiveTransaction.Prunable, hstate])
    rw [hgone] at hkept
    cases hkept
  · intro hstate
    cases hr : entry.responder with
    | none => rfl
    | some r =>
        refine absurd (hsent key entry r hget (hgone key) hr) (hsince.unsent h hget ?_ hr)
        rw [hstate]
        simp

end Cleared

/-- In every reachable state in which the reaper sleeps and all entries are old:
a sweep can be made, and every sweep clears the guard exactly when no entry is
`ReversedPending` and no `Completed` entry holds a responder. -/
theorem sweep_clears_iff {s : Engine} (h : Engine.Reachable Transition.Free s)
    (hasleep : s.reaper = .asleep) (hold : s.AllOld) :
    (∃ t, Engine.Sweeps s t) ∧ ∀ t, Engine.Sweeps s t → (Cleared s t ↔ Sweepable s) :=
  ⟨Engine.exists_sweeps hasleep, fun _ hsweep =>
    ⟨sweepable_of_cleared h hold hsweep, cleared_of_sweepable h hold hsweep⟩⟩

/-! ## Both sides occur -/

theorem Engine.AllOld.of_entries {s : Engine} (h : ∀ x ∈ s.guard.entries,
    s.olderThan x.2 s.timeoutMs = true ∧ s.olderThan x.2 pruneAfter = true) : s.AllOld :=
  fun _ _ hget => h _ (DashMap.mem_entries_of_get hget)

/-- A purchase that the bank leaves unanswered. -/
def unanswered : List Action :=
  .storeRouter visaRouter :: accept 0 (purchase "000100" "RRN000000001") ++ forward 0 true ++
    [.tick 30001]

set_option maxRecDepth 8000 in
theorem sweep_clears_iff_unanswered :
    ∃ t, Engine.Sweeps (Engine.after unanswered) t ∧ Cleared (Engine.after unanswered) t := by
  have hrun : Engine.Reachable Transition.Free (Engine.after unanswered) :=
    Engine.reachable_after_free (by decide)
  obtain ⟨⟨t, hsweep⟩, hiff⟩ := sweep_clears_iff hrun rfl (.of_entries (by decide))
  refine ⟨t, hsweep, (hiff t hsweep).mpr fun key entry hget => ?_⟩
  have hall : ∀ x ∈ (Engine.after unanswered).guard.entries, x.2.state ≠ .reversedPending ∧
      (x.2.state = .completed → x.2.responder = none) := by decide
  exact hall _ (DashMap.mem_entries_of_get hget)

/-- A purchase that its terminal reverses and the bank leaves unanswered. -/
def reversedUnanswered : List Action :=
  .storeRouter visaRouter :: accept 0 (purchase "000100" "RRN000000001") ++ forward 0 true ++
    acknowledge 1 ++ [.tick 30001]

set_option maxRecDepth 8000 in
theorem reversedUnanswered_stranded :
    ¬ ∀ s t : Engine, Engine.Reachable Transition.Free s → s.AllOld → Engine.Sweeps s t →
      Cleared s t := by
  intro hevery
  have hrun : Engine.Reachable Transition.Free (Engine.after reversedUnanswered) :=
    Engine.reachable_after_free (by decide)
  have hold : (Engine.after reversedUnanswered).AllOld := .of_entries (by decide)
  obtain ⟨t, hsweep⟩ := Engine.exists_sweeps (s := Engine.after reversedUnanswered) rfl
  have hsweepable := sweepable_of_cleared hrun hold hsweep (hevery _ t hrun hold hsweep)
  have hmarked : ∃ entry, (Engine.after reversedUnanswered).guard.get "RRN000000001-000100-ACQ1" =
      some entry ∧ entry.state = .reversedPending := by
    refine ⟨_, rfl, ?_⟩
    decide
  obtain ⟨entry, hget, hstate⟩ := hmarked
  exact (hsweepable _ entry hget).1 hstate

end Iso8583Switch
