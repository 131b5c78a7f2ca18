import Iso8583Switch.Flow.Runs
import Iso8583Switch.Flow.Contexts

/-!
# How often a request is forwarded

The guard keeps a request from being forwarded twice for as long as its entry
lives.  Four pieces of code evict entries, and after that a retransmission is a
new request.
-/

namespace Iso8583Switch

open Text

/-- Two events hold the original requests of instances with one RRN, STAN and
acquirer id. -/
structure SameTriple (s : Engine) (m n : Nat) (f g : Frame) (i j : Serial)
    (tx tx' : UniversalPaymentEvent) : Prop where
  placed : s.trace[m]? = some (.placed f)
  placed' : s.trace[n]? = some (.placed g)
  request : f.origin.request = some i
  request' : g.origin.request = some j
  inserted : ∃ r, s.flow.Inserted i tx.guardKey tx r
  inserted' : ∃ r, s.flow.Inserted j tx'.guardKey tx' r
  rrn : tx.rrn = tx'.rrn
  stan : tx.stan = tx'.stan
  acquirerId : tx.acquirerId = tx'.acquirerId

theorem SameTriple.guardKey {s : Engine} {m n : Nat} {f g : Frame} {i j : Serial}
    {tx tx' : UniversalPaymentEvent} (h : SameTriple s m n f g i j tx tx') :
    tx.guardKey = tx'.guardKey := by
  rw [UniversalPaymentEvent.guardKey, UniversalPaymentEvent.guardKey, h.rrn, h.stan, h.acquirerId]

/-- An occupied key answers RC 94 and goes no further. -/
theorem Engine.guardEntry_occupied {s : Engine} {w : Nat} {ctx : TransactionContext}
    {entry : ActiveTransaction} (hget : s.guard.get ctx.transaction.guardKey = some entry) :
    s.guardEntry w ctx =
      s.declineFront w ctx .duplicate (ctx.transaction.answer "0110" "94") := by
  rw [guardEntry]
  simp only [hget]

/-- In every run: every placed request was accepted by an insert of its own, under
the key that is made of its triple, and is placed once at most.  Of two placed
requests with one triple, the entry of the first was evicted before the second
was inserted.  While the entry is there, a retransmission is answered RC 94 and
the guard and the channels stay as they are. -/
theorem forwarded_once_per_entry {s : Engine} (h : Engine.Reachable Transition.Free s) :
    (∀ f i, .placed f ∈ s.trace → f.origin.request = some i →
      ∃ tx r, s.flow.Inserted i tx.guardKey tx r ∧ Frame.Requests i tx f) ∧
    (∀ i, s.trace.countP (Event.requests i) ≤ 1) ∧
    (∀ m n f g i j tx tx', SameTriple s m n f g i j tx tx' → m ≠ n →
      (i < j ∧ ∃ k, i < k ∧ k < j ∧ s.trace[k]? = some (.evicted tx.guardKey i)) ∨
      (j < i ∧ ∃ k, j < k ∧ k < i ∧ s.trace[k]? = some (.evicted tx.guardKey j))) ∧
    (∀ w ctx entry, s.guard.get ctx.transaction.guardKey = some entry →
      (s.guardEntry w ctx).guard = s.guard ∧ (s.guardEntry w ctx).ingress w = .idle ∧
      (s.guardEntry w ctx).trace =
        s.trace ++ answers ctx.responder .duplicate (ctx.transaction.answer "0110" "94")) := by
  have hflow := Engine.Reachable.flow_free h
  refine ⟨fun f i hmem hreq => ?_, hflow.held.placed_once, fun m n f g i j tx tx' hsame hne => ?_,
    fun w ctx entry hget => ?_⟩
  · obtain ⟨key, tx, r, hi, hf⟩ := hflow.held.placed_inserted hmem hreq
    obtain rfl := hflow.inserted_key hi
    exact ⟨tx, r, hi, hf⟩
  · obtain ⟨r, hi⟩ := hsame.inserted
    obtain ⟨r', hj⟩ := hsame.inserted'
    rw [← hsame.guardKey] at hj
    rcases Nat.lt_trichotomy i j with hlt | rfl | hlt
    · exact .inl ⟨hlt, hflow.evicted_between hi hj hlt⟩
    · -- One instance would have been placed at two positions.
      refine absurd (History.position_unique (hflow.held.placed_once i) hsame.placed hsame.placed'
        ?_ ?_) hne
      · simpa [Event.requests] using hsame.request
      · simpa [Event.requests] using hsame.request'
    · exact .inr ⟨hlt, hflow.evicted_between hj hi hlt⟩
  · rw [Engine.guardEntry_occupied hget]
    cases hr : ctx.responder with
    | none => simp [Engine.declineFront, Engine.respond, Engine.setIngress, answers, hr]
    | some r => simp [Engine.declineFront, Engine.respond, Engine.setIngress, Engine.log, answers, hr]

/-- A request is forwarded, answered by the bank and evicted, and then comes again. -/
def retransmission : List Action :=
  .storeRouter visaRouter :: accept 0 (purchase "000100" "RRN000000001") ++ forward 0 true ++
    bankAnswer 0 (mirror 5 { purchase "000100" "RRN000000001" with stan := "000000" }) ++
    accept 1 (purchase "000100" "RRN000000001") ++ forward 1 true

set_option maxRecDepth 8000 in
theorem retransmission_sameTriple :
    SameTriple (Engine.after retransmission) 5 16 (purchaseFrame 1 "000000")
      (purchaseFrame 12 "000001") 1 12 (purchase "000100" "RRN000000001")
      (purchase "000100" "RRN000000001") where
  placed := by decide
  placed' := by decide
  request := rfl
  request' := rfl
  inserted := ⟨some 0, by decide⟩
  inserted' := ⟨some 11, by decide⟩
  rrn := rfl
  stan := rfl
  acquirerId := rfl

set_option maxRecDepth 8000 in
theorem forwarded_once_per_entry_retransmission :
    ∃ k, 1 < k ∧ k < 12 ∧ (Engine.after retransmission).trace[k]? =
      some (.evicted (purchase "000100" "RRN000000001").guardKey 1) := by
  have hrun : Engine.Reachable Transition.Free (Engine.after retransmission) :=
    Engine.reachable_after_free (by decide)
  obtain ⟨-, -, hevicted, -⟩ := forwarded_once_per_entry hrun
  rcases hevicted _ _ _ _ _ _ _ _ retransmission_sameTriple (by decide) with ⟨-, h⟩ | ⟨hlt, -⟩
  · exact h
  · exact absurd hlt (by decide)

set_option maxRecDepth 8000 in
theorem retransmission_forwarded :
    ¬ ∀ s : Engine, Engine.Reachable Transition.Free s → ∀ m n f g i j tx tx',
      SameTriple s m n f g i j tx tx' → m = n := by
  intro hevery
  have hrun : Engine.Reachable Transition.Free (Engine.after retransmission) :=
    Engine.reachable_after_free (by decide)
  have := hevery _ hrun _ _ _ _ _ _ _ _ retransmission_sameTriple
  contradiction

end Iso8583Switch
