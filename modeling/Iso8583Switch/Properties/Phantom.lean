import Iso8583Switch.Flow.Responders
import Iso8583Switch.Flow.Runs

/-!
# Phantom approvals

A terminal reversal marks the entries it is about as `ReversedPending`.  The
reply workers drop a reply only for an entry that is `Reversed`, so a late reply
turns an acknowledged reversal into an approval, unless no reply comes to an
entry that is marked.
-/

namespace Iso8583Switch

open Text Function

/-- A reply worker does not process a reply on an entry that is `ReversedPending`. -/
def SkipsMarked : Flow.Discipline := fun v e =>
  match e with
  | .handled _ (some i) => ∀ key entry, v.guard.get key = some entry → entry.serial = i →
      entry.state ≠ .reversedPending
  | _ => True

/-- An instance that a reversal has marked, and whose reversal has been answered,
is not approved afterwards. -/
def NoPhantomApproval (s : Engine) : Prop :=
  ∀ (m k n : Nat) (i : Serial) (r r' : Responder) (marked : List Serial) (packet : Packet)
    (ack approval : UniversalPaymentEvent), s.trace[m]? = some (.marked i) →
      s.trace[k]? = some (.responded r' (.reversal marked) ack) → i ∈ marked → m < k →
        s.trace[n]? = some (.responded r (.bank i packet) approval) → n < k

namespace Touch

variable {v : Flow} {key : String} {entry entry' : ActiveTransaction} {l : List Event}
  {reclaim : Option String} {handling : Nat → Option (Packet × String)}

theorem marked (h : Touch v key entry entry' l reclaim handling) {i : Serial}
    (hmem : .marked i ∈ l) : i = entry.serial ∧ entry'.state = .reversedPending := by
  cases h with
  | mark => simp at hmem; exact ⟨hmem, rfl⟩
  | record | completeUnjournaled => simp at hmem
  | close | complete => simp [mem_answers] at hmem
  | timeOut => simp [mem_answers, mem_reversals] at hmem

/-- An approval comes from the section in which the reply is processed. -/
theorem approved (h : Touch v key entry entry' l reclaim handling) {r : Responder} {i : Serial}
    {packet : Packet} {reply : UniversalPaymentEvent}
    (hmem : .responded r (.bank i packet) reply ∈ l) :
    i = entry.serial ∧ .handled packet (some entry.serial) ∈ l ∧ ∀ j, .marked j ∉ l := by
  cases h with
  | mark | record | completeUnjournaled => simp at hmem
  | close => simp [mem_answers] at hmem
  | timeOut => simp [mem_answers, mem_reversals] at hmem
  | complete =>
      simp [mem_answers] at hmem
      obtain ⟨-, ⟨rfl, rfl⟩, -⟩ := hmem
      exact ⟨rfl, List.mem_cons_self, by simp [mem_answers]⟩

end Touch

/-- The reply workers have nothing to give to the client of the entry. -/
def ActiveTransaction.Spent (entry : ActiveTransaction) : Prop :=
  entry.state = .reversedPending ∨ (entry.state = .completed ∧ entry.responder = none)

/-- A section on a spent entry leaves it spent. -/
theorem Touch.spent {v : Flow} {key : String} {entry entry' : ActiveTransaction} {l : List Event}
    {reclaim : Option String} {handling : Nat → Option (Packet × String)}
    (h : Touch v key entry entry' l reclaim handling) (hspent : entry.Spent)
    (hskip : ∀ p, .handled p (some entry.serial) ∈ l → entry.state ≠ .reversedPending) :
    entry'.Spent := by
  cases h with
  | mark => exact .inl rfl
  | record => exact hspent
  | close => exact .inr ⟨rfl, rfl⟩
  | timeOut _ hstate _ =>
      rcases hspent with hspent | ⟨hspent, -⟩
      all_goals
        rw [hstate] at hspent
        cases hspent
  | complete => exact .inr ⟨rfl, rfl⟩
  | completeUnjournaled =>
      rcases hspent with hspent | ⟨-, hnone⟩
      · exact absurd hspent (hskip _ List.mem_cons_self)
      · exact .inr ⟨rfl, hnone⟩

namespace Flow

variable {v v' : Flow}

structure Marked (v : Flow) : Prop where
  marked_lt : ∀ {i}, .marked i ∈ v.trace → i < v.trace.length
  marked_spent : ∀ {key entry}, v.guard.get key = some entry → .marked entry.serial ∈ v.trace →
    entry.Spent
  approved_before : ∀ {m n : Nat} {i r packet reply}, v.trace[m]? = some (.marked i) →
    v.trace[n]? = some (.responded r (.bank i packet) reply) → n < m

theorem Initial.marked {v : Flow} (h : v.Initial) : v.Marked := by
  constructor <;> simp [h.trace]

namespace Marked

/-- Moves that mark nothing and approve nothing. -/
theorem frame (hv : v.Marked) {l : List Event} (hl : v'.trace = v.trace ++ l)
    (hguard : ∀ key entry, v'.guard.get key = some entry →
      v.guard.get key = some entry ∨ entry.serial = v.trace.length)
    (hmarked : ∀ {i}, .marked i ∉ l) (hbank : ∀ {r i packet reply},
      .responded r (.bank i packet) reply ∉ l) : v'.Marked where
  marked_lt hmem := by
    rw [hl, List.mem_append, or_iff_left hmarked] at hmem
    rw [hl, List.length_append]
    exact Nat.lt_add_right _ (hv.marked_lt hmem)
  marked_spent hget hmem := by
    rw [hl, List.mem_append, or_iff_left hmarked] at hmem
    rcases hguard _ _ hget with hget | hserial
    · exact hv.marked_spent hget hmem
    · exact absurd (hv.marked_lt hmem) (hserial ▸ Nat.lt_irrefl _)
  approved_before hm hn := by
    rw [hl] at hm hn
    exact hv.approved_before (History.old hm hmarked) (History.old hn hbank)

theorem keep_touch (hv : v.Marked) (h : Reachable SkipsMarked v) {key : String}
    {entry entry' : ActiveTransaction} {l : List Event} (ht : Touching v v' key entry entry' l)
    (hall : ∀ e ∈ newEvents v v', SkipsMarked v e) : v'.Marked := by
  obtain ⟨_, _, htouch⟩ := ht.touch
  have hskip (p : Packet) (hp : .handled p (some entry.serial) ∈ l) :
      entry.state ≠ .reversedPending :=
    hall (.handled p (some entry.serial)) (by rwa [newEvents_eq ht.trace]) key entry ht.get rfl
  refine ⟨fun hmem => ?_, fun {key₁ x} hget hmem => ?_, fun {m n i r packet reply} hm hn => ?_⟩
  · rw [ht.trace, List.length_append]
    rw [ht.trace, List.mem_append] at hmem
    refine Nat.lt_add_right _ ?_
    rcases hmem with hold | hnew
    · exact hv.marked_lt hold
    · obtain ⟨tx, r, hacc⟩ := h.accounted ht.get
      rw [(htouch.marked hnew).1]
      exact hacc.inserted.lt
  · rw [ht.guard] at hget
    rw [ht.trace, List.mem_append] at hmem
    rcases DashMap.get_put_eq_some.mp hget with ⟨rfl, rfl⟩ | ⟨hne, hget⟩
    · rcases hmem with hold | hnew
      · rw [htouch.serial] at hold
        exact htouch.spent (hv.marked_spent ht.get hold) hskip
      · exact .inl (htouch.marked hnew).2
    · rcases hmem with hold | hnew
      · exact hv.marked_spent hget hold
      · exact absurd (h.key_unique hget ht.get (htouch.marked hnew).1) hne
  · rw [ht.trace] at hm hn
    rcases History.getElem?_append_eq_some.mp hn with hnold | ⟨-, hnnew⟩
    · rcases History.getElem?_append_eq_some.mp hm with hmold | ⟨hmle, -⟩
      · exact hv.approved_before hmold hnold
      · exact Nat.lt_of_lt_of_le (History.lt_length hnold) hmle
    · exfalso
      obtain ⟨rfl, hhandled, hnone⟩ := htouch.approved (List.mem_of_getElem? hnnew)
      have hr := (htouch.responded (List.mem_of_getElem? hnnew)).1
      rcases History.getElem?_append_eq_some.mp hm with hmold | ⟨-, hmnew⟩
      · -- A marked entry is skipped or has no responder left.
        rcases hv.marked_spent ht.get (History.mem hmold) with hstate | ⟨-, hresponder⟩
        · exact hskip packet hhandled hstate
        · rw [hr] at hresponder
          cases hresponder
      · exact hnone _ (List.mem_of_getElem? hmnew)

theorem keep (hv : v.Marked) (h : Reachable SkipsMarked v) (hmove : Move v v')
    (hall : ∀ e ∈ newEvents v v', SkipsMarked v e) : v'.Marked := by
  cases hmove with
  | traffic hmove =>
      obtain ⟨l, hl, hquiet⟩ := hmove.quiet
      refine hv.frame hl (fun _ _ hget => .inl (hmove.guard ▸ hget)) (fun hmem => ?_) fun hmem => ?_
      all_goals
        have := hquiet _ hmem
        simp [Event.quiet] at this
  | custody hmove =>
      cases hmove with
      | receive => exact hv.frame rfl (fun _ _ hget => .inl hget) (by simp) (by simp)
      | answerFront reply hsource =>
          refine hv.frame rfl (fun _ _ hget => .inl hget) (by simp [mem_answers]) fun hmem => ?_
          obtain ⟨_, _, heq⟩ := mem_answers.mp hmem
          cases heq
          cases hsource
      | dropFront =>
          exact hv.frame (List.append_nil _).symm (fun _ _ hget => .inl hget) (by simp) (by simp)
      | insert tx now =>
          refine hv.frame rfl (fun _ _ hget => ?_) (by simp) (by simp)
          rcases DashMap.get_put_eq_some.mp hget with ⟨-, rfl⟩ | ⟨-, hget⟩
          · exact .inr rfl
          · exact .inl hget
      | touch hget htouch => exact hv.keep_touch h ⟨hget, rfl, rfl, rfl, _, _, htouch⟩ hall
      | evict =>
          exact hv.frame rfl (fun _ _ hget => .inl (DashMap.get_remove_eq_some.mp hget).2) (by simp)
            (by simp)

end Marked

theorem Reachable.marked (h : Reachable SkipsMarked v) : v.Marked :=
  h.invariant (fun _ => Initial.marked) fun _ _ hreach hv ⟨hmove, hall⟩ => hv.keep hreach hmove hall

end Flow

/-- In every run in which no reply is processed on a marked entry, no approval
follows an acknowledged reversal. -/
theorem no_phantom_approval {s : Engine} (h : Engine.Reachable (Engine.Upholds SkipsMarked) s) :
    NoPhantomApproval s := by
  have hflow : Flow.Reachable SkipsMarked s.flow := Engine.Reachable.flow (fun _ _ => id) h
  intro m k n i r r' marked packet ack approval hm _ _ hmk hn
  exact Nat.lt_trans (hflow.marked.approved_before hm hn) hmk

/-! ## The condition is met, and it is needed -/

def Event.isHandled : Event → Bool
  | .handled _ _ => true
  | _ => false

/-- The step processes no reply, or no entry is marked. -/
def Unmarked (s : Engine) (a : Action) : Prop :=
  Engine.Adds (fun e => !e.isHandled) s a ∨ ∀ x ∈ s.guard.entries, x.2.state ≠ .reversedPending

instance (s : Engine) (a : Action) : Decidable (Unmarked s a) :=
  inferInstanceAs (Decidable (_ ∨ _))

theorem Unmarked.upholds (s : Engine) (a : Action) (h : Unmarked s a) :
    Engine.Upholds SkipsMarked s a := by
  rcases h with h | h
  · refine Engine.Adds.upholds (fun v e he => ?_) s a h
    cases e <;> trivial
  · intro t _ e _
    cases e with
    | handled packet completed =>
        cases completed with
        | none => trivial
        | some i =>
            intro key entry hget _
            exact h _ (DashMap.mem_entries_of_get hget)
    | _ => trivial

/-- The reversal comes between the approval and the eviction. -/
def approvedThenReversed : List Action :=
  .storeRouter visaRouter :: accept 0 (purchase "000100" "RRN000000001") ++ forward 0 true ++
    [.bank (mirror 5 (purchaseFrame 1 "000000").transaction), .reply 0 .run,
      .reply 0 (.outcome true)] ++ acknowledge 1

set_option maxRecDepth 8000 in
theorem no_phantom_approval_approvedThenReversed : 9 < 13 ∧
    (Engine.after approvedThenReversed).trace[11]? = some (.marked 1) := by
  have hrun : Engine.Reachable (Engine.Upholds SkipsMarked) (Engine.after approvedThenReversed) :=
    Engine.reachable_after Unmarked.upholds (by decide)
  have hmarked : (Engine.after approvedThenReversed).trace[11]? = some (.marked 1) := by decide
  refine ⟨no_phantom_approval hrun 11 13 9 1 0 10 [1]
    (mirror 5 (purchaseFrame 1 "000000").transaction) (terminalReversal.answer "0430" "00")
    (Engine.approval (mirror 5 (purchaseFrame 1 "000000").transaction)) hmarked ?_ ?_ ?_ ?_, hmarked⟩
  all_goals decide

/-- The bank answers after the reversal. -/
def reversedThenApproved : List Action :=
  .storeRouter visaRouter :: accept 0 (purchase "000100" "RRN000000001") ++ forward 0 true ++
    acknowledge 1 ++ bankAnswer 0 (mirror 5 (purchaseFrame 1 "000000").transaction)

set_option maxRecDepth 8000 in
theorem reversedThenApproved_phantom :
    ¬ ∀ s : Engine, Engine.Reachable Transition.Free s → NoPhantomApproval s := by
  intro hevery
  have hrun : Engine.Reachable Transition.Free (Engine.after reversedThenApproved) :=
    Engine.reachable_after_free (by decide)
  have hlt := hevery _ hrun 7 9 13 1 0 6 [1]
    (mirror 5 (purchaseFrame 1 "000000").transaction) (terminalReversal.answer "0430" "00")
    (Engine.approval (mirror 5 (purchaseFrame 1 "000000").transaction)) (by decide) (by decide)
    (by decide) (by decide) (by decide)
  exact absurd hlt (by decide)

end Iso8583Switch
