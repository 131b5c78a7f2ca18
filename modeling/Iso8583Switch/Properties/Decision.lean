import Iso8583Switch.Flow.Responders
import Iso8583Switch.Flow.Runs

/-!
# The decisions of the switch

RC 55 and the results of the STIP fallback are decided on a context behind the
guard.  The answer goes to the responder of that context, and the insert has
taken it.  So no decision ever reaches a client, and the entry stays as it is,
for the reaper to time out.
-/

namespace Iso8583Switch

open Text Function

/-- The client got the decision, and neither RC 68 nor a 0420 followed. -/
structure DecisionReaches (s : Engine) (i : Serial) (r : Responder) (rc : String) : Prop where
  answered : ∃ reply, .responded r (.decision i) reply ∈ s.trace ∧ reply.responseCode = rc
  no_timeout : ∀ reply, .responded r (.reaper i) reply ∉ s.trace
  no_reversal : ∀ reversal, .timedOut i reversal ∉ s.trace

theorem Touch.not_decision {v : Flow} {key : String} {entry entry' : ActiveTransaction}
    {l : List Event} {reclaim : Option String} {handling : Nat → Option (Packet × String)}
    (h : Touch v key entry entry' l reclaim handling) {r : Responder} {i : Serial}
    {reply : UniversalPaymentEvent} : .responded r (.decision i) reply ∉ l := by
  cases h <;> simp [mem_answers, mem_reversals]

namespace Flow

/-- Nobody is ever answered with a decision. -/
theorem Reachable.not_decision {Q : Discipline} {v : Flow} (h : Reachable Q v) {r : Responder}
    {i : Serial} {reply : UniversalPaymentEvent} :
    .responded r (.decision i) reply ∉ v.trace := by
  refine h.invariant (I := fun v => ∀ r i reply, .responded r (.decision i) reply ∉ v.trace)
    ?_ ?_ r i reply
  · intro v hv r i reply
    rw [hv.trace]
    exact List.not_mem_nil
  · intro v v' _ hv hmove r i reply hmem
    rcases hmove.1.responded_cases hmem with hold | ⟨hfront, -⟩ | ⟨_, _, _, _, ht, hl⟩
    · exact hv r i reply hold
    · cases hfront
    · obtain ⟨_, _, htouch⟩ := ht.touch
      exact htouch.not_decision hl

end Flow

/-- The move in which a decision is taken leaves the guard alone and answers nobody. -/
theorem Move.decided_new {v v' : Flow} (h : Move v v') {l : List Event}
    (hl : v'.trace = v.trace ++ l) {i : Serial} {rc : String} (hmem : .decided i rc ∈ l) :
    v'.guard = v.guard ∧ ∀ e ∈ l, e.neutral = true := by
  cases h with
  | custody h =>
      obtain ⟨_, _, _, _, _, -, -, -, htouch⟩ := h.touch_of_new hl hmem rfl
      cases htouch <;> simp [mem_answers, mem_reversals] at hmem
  | traffic h =>
      refine ⟨h.guard, ?_⟩
      cases h with
      | note _ neutral | dismiss _ _ neutral | dropTask _ _ neutral =>
          obtain rfl := List.append_cancel_left hl
          exact neutral
      | dispatch | translatePin | collect | translate =>
          obtain rfl := List.append_cancel_left ((List.append_nil _).trans hl)
          cases hmem
      | number | place | placeTask | reply | discard | probe =>
          obtain rfl := List.append_cancel_left hl
          simp at hmem

/-- In every run, no decision ever reaches the client.  The step that takes the
decision leaves every entry of the guard as it was and answers nobody. -/
theorem decision_never_reaches {s : Engine} (h : Engine.Reachable Transition.Free s) :
    (∀ i r rc, .decided i rc ∈ s.trace → ¬ DecisionReaches s i r rc) ∧
    (∀ a t i rc, s.step a = some t → .decided i rc ∈ Engine.newEvents s t →
      t.guard = s.guard ∧ ∀ r source reply, .responded r source reply ∉ Engine.newEvents s t) := by
  refine ⟨fun i r rc _ hreaches => ?_, fun a t i rc hstep hmem => ?_⟩
  · obtain ⟨reply, hanswered, -⟩ := hreaches.answered
    exact (Engine.Reachable.flow_free h).not_decision hanswered
  · rcases Engine.step_flow (Engine.Reachable.disowned h) hstep with heq | hmove
    · have htrace : t.trace = s.trace := congrArg Flow.trace heq
      rw [Engine.newEvents, htrace, List.drop_length] at hmem
      cases hmem
    · obtain ⟨l, hl⟩ := hmove.trace_append
      have hnew : Engine.newEvents s t = l := Flow.newEvents_eq hl
      rw [hnew] at hmem ⊢
      obtain ⟨hguard, hneutral⟩ := hmove.decided_new hl hmem
      exact ⟨hguard, fun r source reply hr => by simpa [Event.neutral] using hneutral _ hr⟩

/-- The egress queue is full, no card profile is known, and the STIP fallback
decides RC 05. -/
def queueFull : List Action :=
  .storeRouter visaRouter :: accept 0 (purchase "000100" "RRN000000001") ++ forward 0 false ++
    [.ingress 0 (.outcome true), .ingress 0 (.outcome true)]

set_option maxRecDepth 8000 in
theorem decision_never_reaches_queueFull :
    .decided 1 "05" ∈ (Engine.after queueFull).trace ∧
      ¬ DecisionReaches (Engine.after queueFull) 1 0 "05" := by
  have hrun : Engine.Reachable Transition.Free (Engine.after queueFull) :=
    Engine.reachable_after_free (by decide)
  have hdecided : .decided 1 "05" ∈ (Engine.after queueFull).trace := by decide
  exact ⟨hdecided, (decision_never_reaches hrun).1 1 0 "05" hdecided⟩

set_option maxRecDepth 8000 in
/-- The client of the declined request gets RC 68 instead, and a 0420 goes out. -/
theorem queueFull_timed_out :
    let s := Engine.after (queueFull ++ reap "RRN000000001-000100-ACQ1")
    Engine.Reachable Transition.Free s ∧
      s.flow.Inserted 1 "RRN000000001-000100-ACQ1" (purchase "000100" "RRN000000001") (some 0) ∧
      s.trace[5]? = some (.decided 1 "05") ∧
      s.trace[7]? = some (.responded 0 (.reaper 1)
        (fromPb { toPb (purchase "000100" "RRN000000001") with
          mti := "0110", responseCode := "68" })) ∧
      s.trace[8]? = some (.timedOut 1 purchaseReversal) ∧
      s.trace[9]? = some (.placed ⟨.reaper 1, .externalNode "MockVisaNode", 0, purchaseReversal⟩) ∧
      ¬ DecisionReaches s 1 0 "05" := by
  refine ⟨Engine.reachable_after_free (by decide), by decide, by decide, by decide, by decide,
    by decide, fun hreaches => ?_⟩
  exact hreaches.no_reversal purchaseReversal (by decide)

end Iso8583Switch
