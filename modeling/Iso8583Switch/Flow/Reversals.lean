import Iso8583Switch.Flow.Contexts
import Iso8583Switch.Flow.Responders

/-!
# The frames of the reaper

The reaper places a frame for an instance only as it times the instance out, and
it times an instance out once.
-/

namespace Iso8583Switch

open Text Function

namespace Flow

variable {Q : Discipline} {v v' : Flow}

/-- A frame of the reaper comes with the timeout of its instance. -/
theorem reversal_new (h : Move v v') {l : List Event} (hl : v'.trace = v.trace ++ l) {g : Frame}
    {i : Serial} (hmem : .placed g ∈ l) (horigin : g.origin = .reaper i) :
    ∃ reversal, .timedOut i reversal ∈ l := by
  cases h with
  | custody h =>
      obtain ⟨_, _, _, _, _, -, -, -, htouch⟩ := h.touch_of_new hl hmem rfl
      have hi : i = _ := Origin.reaper.inj (horigin.symm.trans (htouch.placed hmem).1)
      subst hi
      cases htouch with
      | mark | record | completeUnjournaled => simp at hmem
      | close | complete => simp [mem_answers] at hmem
      | timeOut => exact ⟨_, List.mem_append_right _ List.mem_cons_self⟩
  | traffic h =>
      rcases h.placed_new hl hmem with hprobe | ⟨_, hingress, -⟩ | ⟨_, hhsm, -⟩
      · cases horigin.symm.trans hprobe
      · cases horigin.symm.trans hingress
      · cases horigin.symm.trans hhsm

/-- What has been timed out is not timed out again. -/
theorem Reachable.timedOut_done (h : Reachable Q v) {key : String} {entry : ActiveTransaction}
    {reversal : UniversalPaymentEvent} (hget : v.guard.get key = some entry)
    (hmem : .timedOut entry.serial reversal ∈ v.trace) : entry.state ≠ .upstreamSent := by
  refine h.invariant (I := fun v => ∀ key entry reversal, v.guard.get key = some entry →
    .timedOut entry.serial reversal ∈ v.trace → entry.state ≠ .upstreamSent) ?_ ?_ key entry
    reversal hget hmem
  · intro v hv key entry reversal _ hmem
    rw [hv.trace] at hmem
    cases hmem
  · intro v v' hreach hv ⟨hmove, _⟩ key entry reversal hget hmem hstate
    cases hmove with
    | traffic h =>
        obtain ⟨l, hl, hquiet⟩ := h.quiet
        rw [h.guard] at hget
        rw [hl, List.mem_append] at hmem
        rcases hmem with hold | hnew
        · exact hv key entry reversal hget hold hstate
        · have := hquiet _ hnew
          simp [Event.quiet] at this
    | custody h =>
        cases h with
        | receive | dropFront => exact hv key entry reversal hget (by simpa using hmem) hstate
        | answerFront =>
            exact hv key entry reversal hget (by simpa [mem_answers] using hmem) hstate
        | evict =>
            exact hv key entry reversal (DashMap.get_remove_eq_some.mp hget).2
              (by simpa using hmem) hstate
        | insert tx now =>
            have hold : .timedOut entry.serial reversal ∈ v.trace := by simpa using hmem
            rcases DashMap.get_put_eq_some.mp hget with ⟨rfl, rfl⟩ | ⟨-, hget⟩
            · exact absurd ((Reachable.exclusive hreach).timedOut_lt hold) (Nat.lt_irrefl _)
            · exact hv key entry reversal hget hold hstate
        | touch hget' htouch =>
            rcases DashMap.get_put_eq_some.mp hget with ⟨rfl, rfl⟩ | ⟨hne, hget⟩
            · obtain ⟨hstate', hnone⟩ := htouch.of_upstreamSent hstate
              rw [htouch.serial] at hmem
              exact hv key _ reversal hget' (by simpa [hnone] using hmem) hstate'
            · rcases List.mem_append.mp hmem with hold | hnew
              · exact hv key entry reversal hget hold hstate
              · -- The section was on another instance.
                exact hne (Reachable.key_unique hreach hget hget' (htouch.timedOut hnew).1)

/-- What has not been timed out has no reversal. -/
theorem Reachable.reversal_timedOut (h : Reachable Q v) {g : Frame} {i : Serial}
    (hmem : .placed g ∈ v.trace) (horigin : g.origin = .reaper i) :
    ∃ reversal, .timedOut i reversal ∈ v.trace := by
  refine h.invariant (I := fun v => ∀ g i, .placed g ∈ v.trace → g.origin = .reaper i →
    ∃ reversal, .timedOut i reversal ∈ v.trace) ?_ ?_ g i hmem horigin
  · intro v hv g i hmem
    rw [hv.trace] at hmem
    cases hmem
  · intro v v' _ hv ⟨hmove, _⟩ g i hmem horigin
    obtain ⟨l, hl⟩ := hmove.trace_append
    rw [hl, List.mem_append] at hmem
    rw [hl]
    rcases hmem with hold | hnew
    · obtain ⟨reversal, hmem⟩ := hv g i hold horigin
      exact ⟨reversal, List.mem_append_left _ hmem⟩
    · obtain ⟨reversal, hmem⟩ := reversal_new hmove hl hnew horigin
      exact ⟨reversal, List.mem_append_right _ hmem⟩

end Flow

end Iso8583Switch
