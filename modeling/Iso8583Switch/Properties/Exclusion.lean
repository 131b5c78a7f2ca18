import Iso8583Switch.Flow.Runs
import Iso8583Switch.Flow.Responders

/-!
# Approval and auto-reversal exclude each other

For every run: the responder of a guard instance gets one message at most, and
that message is the timeout of the reaper exactly when the reaper has generated
a 0420 for the instance.
-/

namespace Iso8583Switch

open Text

/-! ## What the reaper says -/

/-- The reaper answers with RC 68. -/
theorem Touch.reaper_answer {v : Flow} {key : String} {entry entry' : ActiveTransaction}
    {l : List Event} {reclaim : Option String} {handling : Nat → Option (Packet × String)}
    (h : Touch v key entry entry' l reclaim handling) {r : Responder} {i : Serial}
    {reply : UniversalPaymentEvent} (hmem : .responded r (.reaper i) reply ∈ l) :
    reply.responseCode = "68" := by
  cases h with
  | mark | record | completeUnjournaled => simp at hmem
  | close | complete => simp [mem_answers] at hmem
  | timeOut =>
      simp [mem_answers, mem_reversals] at hmem
      rw [hmem.2.2]
      rfl

theorem Flow.Reachable.reaper_answer {Q : Flow.Discipline} {v : Flow} (h : Flow.Reachable Q v)
    {r : Responder} {i : Serial} {reply : UniversalPaymentEvent}
    (hmem : .responded r (.reaper i) reply ∈ v.trace) : reply.responseCode = "68" := by
  refine h.invariant (I := fun v => ∀ r i reply, .responded r (.reaper i) reply ∈ v.trace →
    reply.responseCode = "68") ?_ ?_ r i reply hmem
  · intro v hv r i reply hmem
    rw [hv.trace] at hmem
    cases hmem
  · intro v v' _ hv hmove r i reply hmem
    rcases hmove.1.responded_cases hmem with hold | ⟨hfront, -⟩ | ⟨_, _, _, _, ht, hl⟩
    · exact hv r i reply hold
    · cases hfront
    · obtain ⟨_, _, htouch⟩ := ht.touch
      exact htouch.reaper_answer hl

/-! ## The exclusion -/

/-- In every run and for every instance that was inserted with a responder: the
responder gets at most one message.  If that message is not the timeout of the
reaper, no 0420 is ever generated for the instance, and if a 0420 was generated,
no reply worker ever answers the responder. -/
theorem approval_excludes_reversal {s : Engine} (h : Engine.Reachable Transition.Free s)
    {i : Serial} {key : String} {tx : UniversalPaymentEvent} {r : Responder}
    (hi : s.flow.Inserted i key tx (some r)) :
    s.trace.countP (Event.respondsTo r) ≤ 1 ∧
      (∀ source reply, .responded r source reply ∈ s.trace →
        ¬ (source = .reaper i ∧ reply.responseCode = "68") →
          ∀ reversal, .timedOut i reversal ∉ s.trace) ∧
      ((∃ reversal, .timedOut i reversal ∈ s.trace) →
        ∀ j packet reply, .responded r (.bank j packet) reply ∉ s.trace) := by
  have hflow := Engine.Reachable.flow_free h
  have howned := hflow.owned
  -- Whoever answered `r` did it for the instance.
  have hserial {source : Source} {reply : UniversalPaymentEvent}
      (hmem : .responded r source reply ∈ s.trace) : source.serial = some i := by
    cases hsource : source.serial with
    | none =>
        have hfront : source.front = true := by cases source <;> first | rfl | cases hsource
        exact absurd hi (howned.sent_front hmem hfront)
    | some j =>
        obtain ⟨key', tx', hj⟩ := howned.sent_serial hmem hsource
        rw [howned.inserted_inj hi hj]
  refine ⟨howned.sent_once r, fun source reply hmem hnot reversal htimedOut => ?_, ?_⟩
  · have hreaper : source = .reaper i :=
      hflow.exclusive.exclusive hmem (hserial hmem) htimedOut
    exact hnot ⟨hreaper, hflow.reaper_answer (hreaper ▸ hmem)⟩
  · rintro ⟨reversal, htimedOut⟩ j packet reply hmem
    have hreaper := hflow.exclusive.exclusive hmem (hserial hmem) htimedOut
    cases hreaper

/-- A request that is forwarded, timed out, and answered by the bank afterwards. -/
def lateReply : List Action :=
  .storeRouter visaRouter :: accept 0 (purchase "000100" "RRN000000001") ++ forward 0 true ++
    reap "RRN000000001-000100-ACQ1" ++
    [.bank (mirror 5 { purchase "000100" "RRN000000001" with stan := "000000" }), .reply 0 .run,
      .reply 0 (.outcome true)]

set_option maxRecDepth 8000 in
theorem approval_excludes_reversal_lateReply :
    (Engine.after lateReply).trace.countP (Event.respondsTo 0) ≤ 1 ∧
      (∃ reversal, .timedOut 1 reversal ∈ (Engine.after lateReply).trace) ∧
      ∀ j packet reply, .responded 0 (.bank j packet) reply ∉ (Engine.after lateReply).trace := by
  have hrun : Engine.Reachable Transition.Free (Engine.after lateReply) :=
    Engine.reachable_after_free (by decide)
  have hinserted : (Engine.after lateReply).flow.Inserted 1 "RRN000000001-000100-ACQ1"
      (purchase "000100" "RRN000000001") (some 0) := by decide
  obtain ⟨honce, -, hbank⟩ := approval_excludes_reversal hrun hinserted
  have htimedOut : ∃ reversal, .timedOut 1 reversal ∈ (Engine.after lateReply).trace :=
    ⟨purchaseReversal, by decide⟩
  exact ⟨honce, htimedOut, hbank htimedOut⟩

end Iso8583Switch
