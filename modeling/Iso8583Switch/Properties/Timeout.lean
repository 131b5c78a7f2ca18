import Iso8583Switch.Engine.Timeouts
import Iso8583Switch.Flow.Contexts
import Iso8583Switch.Flow.Responders
import Iso8583Switch.Flow.Runs

/-!
# Forwarding after a timeout

An entry can be timed out from the moment of its insert, and nothing between the
insert and the egress send looks at the entry again.  So a request is forwarded
after its timeout exactly when the reaper gets ahead of whoever carries it.
-/

namespace Iso8583Switch

open Text Function

/-- The context of the instance is with a worker or a task that may still send it. -/
def Flow.Carries (v : Flow) (i : Serial) : Prop :=
  (∃ w c, v.carried w = some c ∧ c.serial = i) ∨ v.tasks i ≠ none

/-- The reaper times out only what nobody carries any more. -/
def ReapsSettled : Flow.Discipline := fun v e =>
  match e with
  | .timedOut i _ => ¬ v.Carries i
  | _ => True

/-- An instance that the reaper has timed out and evicted is not forwarded
afterwards. -/
def NoForwardAfterTimeout (s : Engine) : Prop :=
  ∀ (m k n : Nat) (i : Serial) (reversal : UniversalPaymentEvent) (key : String) (f : Frame),
    s.trace[m]? = some (.timedOut i reversal) → s.trace[k]? = some (.evicted key i) → m < k →
      s.trace[n]? = some (.placed f) → f.origin.request = some i → n < k

namespace Flow

variable {Q : Discipline} {v v' : Flow}

/-- Whoever places a request carried it. -/
theorem carries_of_request_new (hmove : Move v v') {l : List Event}
    (hl : v'.trace = v.trace ++ l) {f : Frame} {i : Serial} (hmem : .placed f ∈ l)
    (hreq : f.origin.request = some i) : v.Carries i := by
  rcases hmove.request_new hl hmem hreq with ⟨-, -, w, c, _, hc, hi, -⟩ | ⟨-, -, ht, -⟩
  · exact .inl ⟨w, c, hc, hi⟩
  · right
    rw [ht]
    simp

/-- Only the insert gives the context of an instance to somebody. -/
theorem carries_of_move (hmove : Move v v') {i : Serial} (hi : i < v.trace.length)
    (h : v'.Carries i) : v.Carries i := by
  rcases h with ⟨w, c, hc, rfl⟩ | ht
  · rcases hmove.carried_cases hc with hold | ⟨tx, r, rfl, -⟩ | ⟨c₀, e, hold, -, rfl, -⟩
    · exact .inl ⟨w, c, hold, rfl⟩
    · exact absurd hi (Nat.lt_irrefl _)
    · exact .inl ⟨w, c₀, hold, rfl⟩
  · obtain ⟨tx, ht⟩ := Option.ne_none_iff_exists'.mp ht
    rcases hmove.tasks_cases ht with hold | ⟨w, c, hc, -, hi, -⟩ | ⟨tx₀, _, hold, -⟩
    · right; simp [hold]
    · exact .inl ⟨w, c, hc, hi⟩
    · right; simp [hold]

theorem newEvents_of_append {l : List Event} (hl : v'.trace = v.trace ++ l) {e : Event}
    (hall : ∀ e ∈ newEvents v v', Q v e) (he : e ∈ l) : Q v e :=
  hall e (by rwa [newEvents_eq hl])

/-- Nobody carries what was timed out. -/
theorem Reachable.not_carries (h : Reachable ReapsSettled v) {i : Serial}
    {reversal : UniversalPaymentEvent} (hmem : .timedOut i reversal ∈ v.trace) :
    ¬ v.Carries i := by
  refine h.invariant (I := fun v => ∀ i reversal, .timedOut i reversal ∈ v.trace → ¬ v.Carries i)
    ?_ ?_ i reversal hmem
  · intro v hv i reversal hmem
    rw [hv.trace] at hmem
    cases hmem
  · intro v v' hreach hv ⟨hmove, hall⟩ i reversal hmem hcarries
    obtain ⟨l, hl⟩ := hmove.trace_append
    have hlt : i < v.trace.length := Reachable.timedOut_lt_of_move hreach hmove hmem
    rw [hl, List.mem_append] at hmem
    rcases hmem with hold | hnew
    · exact hv i reversal hold (carries_of_move hmove hlt hcarries)
    · exact newEvents_of_append hl hall hnew (carries_of_move hmove hlt hcarries)

/-- What is placed is placed before its timeout. -/
theorem Reachable.placed_before_timedOut (h : Reachable ReapsSettled v) {m n : Nat} {i : Serial}
    {reversal : UniversalPaymentEvent} {f : Frame} (hm : v.trace[m]? = some (.timedOut i reversal))
    (hn : v.trace[n]? = some (.placed f)) (hreq : f.origin.request = some i) : n < m := by
  refine h.invariant (I := fun v => ∀ (m n : Nat) i reversal f,
    v.trace[m]? = some (.timedOut i reversal) → v.trace[n]? = some (.placed f) →
      f.origin.request = some i → n < m) ?_ ?_ m n i reversal f hm hn hreq
  · intro v hv m n i reversal f hm
    rw [hv.trace] at hm
    cases hm
  · intro v v' hreach hv ⟨hmove, hall⟩ m n i reversal f hm hn hreq
    obtain ⟨l, hl⟩ := hmove.trace_append
    rw [hl] at hm hn
    rcases History.getElem?_append_eq_some.mp hn with hnold | ⟨hnle, hnnew⟩
    · rcases History.getElem?_append_eq_some.mp hm with hmold | ⟨hmle, -⟩
      · exact hv m n i reversal f hmold hnold hreq
      · exact Nat.lt_of_lt_of_le (History.lt_length hnold) hmle
    · -- Somebody carried the context until now, so it is not timed out.
      have hcarries : v.Carries i :=
        carries_of_request_new hmove hl (List.mem_of_getElem? hnnew) hreq
      rcases History.getElem?_append_eq_some.mp hm with hmold | ⟨-, hmnew⟩
      · exact absurd hcarries (not_carries hreach (History.mem hmold))
      · exact absurd hcarries (newEvents_of_append hl hall (List.mem_of_getElem? hmnew))

end Flow

/-- In every run in which the reaper times out only what nobody carries, no
request is placed after its timeout. -/
theorem no_forward_after_timeout {s : Engine}
    (h : Engine.Reachable (Engine.Upholds ReapsSettled) s) : NoForwardAfterTimeout s := by
  have hflow : Flow.Reachable ReapsSettled s.flow := Engine.Reachable.flow (fun _ _ => id) h
  intro m k n i reversal key f hm _ hmk hn hreq
  exact Nat.lt_trans (hflow.placed_before_timedOut hm hn hreq) hmk

/-! ## The condition is met, and it is needed -/

/-- A purchase that the reaper has selected after it was forwarded. -/
def selected : List Action :=
  .storeRouter visaRouter :: accept 0 (purchase "000100" "RRN000000001") ++ forward 0 true ++
    [.tick 101, .reaper .run, .reaper (.visit "RRN000000001-000100-ACQ1"), .reaper .run]

theorem ReapsSettled.of_not_timedOut (v : Flow) (e : Event) (h : (!e.isTimedOut) = true) :
    ReapsSettled v e := by
  cases e <;> trivial

theorem ReapsSettled.of_idle {v : Flow} (h : ∀ i, ¬ v.Carries i) (e : Event) :
    ReapsSettled v e := by
  cases e <;> first | trivial | exact h _

set_option maxRecDepth 8000 in
theorem selected_idle (i : Serial) : ¬ (Engine.after selected).flow.Carries i := by
  rintro (⟨w, c, hc, -⟩ | ht)
  · have hnone : (Engine.after selected).flow.carried w = none := by cases w <;> rfl
    rw [hnone] at hc
    cases hc
  · exact ht rfl

set_option maxRecDepth 8000 in
theorem selected_reaped :
    Engine.Reachable (Engine.Upholds ReapsSettled)
      (Engine.after (selected ++ [.reaper (.outcome true)] ++ [.reaper .run, .reaper .run])) :=
  Engine.reachable_after_append (Engine.Adds.upholds ReapsSettled.of_not_timedOut) (by decide)
    (Engine.reachable_after_step (by decide)
      (Engine.reachable_after (Engine.Adds.upholds ReapsSettled.of_not_timedOut) (by decide))
      (fun _ _ e _ => ReapsSettled.of_idle selected_idle e) (by decide))
    (by decide)

set_option maxRecDepth 8000 in
theorem no_forward_after_timeout_selected :
    5 < 9 ∧ (Engine.after (selected ++ [.reaper (.outcome true)] ++
      [.reaper .run, .reaper .run])).trace[9]? = some (.evicted "RRN000000001-000100-ACQ1" 1) :=
  have hevicted : (Engine.after (selected ++ [.reaper (.outcome true)] ++
      [.reaper .run, .reaper .run])).trace[9]? = some (.evicted "RRN000000001-000100-ACQ1" 1) := by
    decide
  ⟨no_forward_after_timeout selected_reaped 7 9 5 1
    purchaseReversal _ (purchaseFrame 1 "000000") (by decide) hevicted (by decide) (by decide) rfl,
    hevicted⟩

/-- The reaper gets ahead of the worker that is about to journal the request. -/
def overtaken : List Action :=
  .storeRouter visaRouter :: accept 0 (purchase "000100" "RRN000000001") ++
    reap "RRN000000001-000100-ACQ1" ++ forward 0 true

set_option maxRecDepth 8000 in
/-- The client has its RC 68, and the request goes out all the same. -/
theorem overtaken_forwarded :
    Engine.Reachable Transition.Free (Engine.after overtaken) ∧
      (Engine.after overtaken).trace[2]? = some (.responded 0 (.reaper 1)
        (fromPb { toPb (purchase "000100" "RRN000000001") with
          mti := "0110", responseCode := "68" })) ∧
      ¬ NoForwardAfterTimeout (Engine.after overtaken) := by
  refine ⟨Engine.reachable_after_free (by decide), by decide, fun hevery => ?_⟩
  have hlt := hevery 3 5 9 1 purchaseReversal "RRN000000001-000100-ACQ1"
    (purchaseFrame 1 "000000") (by decide) (by decide) (by decide) (by decide) rfl
  exact absurd hlt (by decide)

end Iso8583Switch
