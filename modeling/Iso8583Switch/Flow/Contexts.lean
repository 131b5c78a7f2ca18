import Iso8583Switch.Flow.Instances

/-!
# The contexts behind the guard

The context of an instance is with one ingress worker, or with its HSM task, or
on an egress channel.  So the request of an instance is placed once at most, and
what is placed is the request that was inserted, up to the STAN on one path and
the PIN block on the other.
-/

namespace Iso8583Switch

open Text Function

/-- The frame is the original request of instance `i`. -/
def Event.requests (i : Serial) : Event → Bool
  | .placed f => f.origin.request = some i
  | _ => false

/-! ## Where a context comes from -/

namespace Touch

variable {v : Flow} {key : String} {entry entry' : ActiveTransaction} {l : List Event}
  {reclaim : Option String} {handling : Nat → Option (Packet × String)}

/-- The only frame that a section on an entry places is the 0420. -/
theorem placed (h : Touch v key entry entry' l reclaim handling) {f : Frame}
    (hmem : .placed f ∈ l) :
    f.origin = .reaper entry.serial ∧ f.transaction = Engine.autoReversal entry := by
  cases h with
  | mark | record | completeUnjournaled => simp at hmem
  | close | complete => simp [mem_answers] at hmem
  | timeOut =>
      simp [mem_answers, mem_reversals] at hmem
      obtain ⟨d, ch, -, rfl⟩ := hmem
      exact ⟨rfl, rfl⟩

end Touch

/-- A frame that the traffic places is a probe, or the context of a worker, or that of a task. -/
theorem Traffic.placed_new {v v' : Flow} (h : Traffic v v') {l : List Event}
    (hl : v'.trace = v.trace ++ l) {f : Frame} (hmem : .placed f ∈ l) :
    f.origin = .probe ∨
      (∃ i, f.origin = .ingress i ∧ v'.tasks = v.tasks ∧ ∃ w c e, v.carried w = some c ∧
        c.serial = i ∧ c.egress = some e ∧ f.transaction = c.tx ∧
        v'.carried = update v.carried w none) ∨
      ∃ i, f.origin = .hsm i ∧ v'.carried = v.carried ∧ v.tasks i = some f.transaction ∧
        v'.tasks = update v.tasks i none := by
  have hneutral {l : List Event} (neutral : ∀ e ∈ l, e.neutral = true) : .placed f ∉ l :=
    fun hmem => by simpa [Event.neutral] using neutral _ hmem
  cases h with
  | note _ neutral | dismiss _ _ neutral | dropTask _ _ neutral =>
      obtain rfl := List.append_cancel_left hl
      exact absurd hmem (hneutral neutral)
  | dispatch | translatePin | collect | translate =>
      obtain rfl := List.append_cancel_left ((List.append_nil _).trans hl)
      cases hmem
  | number | reply | discard => obtain rfl := List.append_cancel_left hl; simp at hmem
  | @place w c e _ _ hc hegress =>
      obtain rfl := List.append_cancel_left hl
      simp at hmem
      subst hmem
      exact .inr (.inl ⟨_, rfl, rfl, w, c, e, hc, rfl, hegress, rfl, rfl⟩)
  | placeTask _ _ ht =>
      obtain rfl := List.append_cancel_left hl
      simp at hmem
      subst hmem
      exact .inr (.inr ⟨_, rfl, rfl, ht, rfl⟩)
  | probe =>
      obtain rfl := List.append_cancel_left hl
      simp at hmem
      subst hmem
      exact .inl rfl

namespace Move

variable {v v' : Flow}

/-- A carried context was carried before, or was inserted, or got its egress STAN. -/
theorem carried_cases (h : Move v v') {w : Nat} {c : Carried} (hc : v'.carried w = some c) :
    v.carried w = some c ∨
      (∃ tx r, c = ⟨v.trace.length, tx.guardKey, tx, none⟩ ∧ Insertion v v' tx.guardKey tx r ∧
        v'.carried = update v.carried w (some c)) ∨
      ∃ c₀ e, v.carried w = some c₀ ∧ c₀.egress = none ∧
        c = { c₀ with tx := { c₀.tx with stan := e }, egress := some e } ∧
        v'.trace = v.trace ++ [.numbered c₀.serial e] := by
  have hcleared {w' : Nat} (hc : update v.carried w' none w = some c) : v.carried w = some c := by
    rw [update_apply] at hc
    split at hc
    · cases hc
    · exact hc
  cases h with
  | custody h =>
      cases h with
      | receive | answerFront | dropFront | touch | evict => exact .inl hc
      | @insert w' tx now hvacant _ =>
          by_cases hw : w = w'
          · subst hw
            dsimp only at hc
            rw [update_self, Option.some.injEq] at hc
            subst hc
            exact .inr (.inl ⟨tx, v.fronted w, rfl,
              ⟨rfl, hvacant, ⟨_, DashMap.get_put_self _ _ _, rfl⟩, ⟨w, rfl, rfl⟩, rfl⟩, rfl⟩)
          · dsimp only at hc
            rw [update_of_ne hw] at hc
            exact .inl hc
  | traffic h =>
      cases h with
      | @number w' c₀ e hc₀ hegress =>
          by_cases hw : w = w'
          · subst hw
            dsimp only at hc
            rw [update_self, Option.some.injEq] at hc
            exact .inr (.inr ⟨c₀, e, hc₀, hegress, hc.symm, rfl⟩)
          · dsimp only at hc
            rw [update_of_ne hw] at hc
            exact .inl hc
      | dispatch | dismiss | place => exact .inl (hcleared hc)
      | note | translatePin | dropTask | placeTask | collect | reply | translate | discard
      | probe => exact .inl hc

/-- The context of a task was there before, or was dispatched, or got another PIN
block. -/
theorem tasks_cases (h : Move v v') {i : Serial} {tx : UniversalPaymentEvent}
    (ht : v'.tasks i = some tx) :
    v.tasks i = some tx ∨
      (∃ w c, v.carried w = some c ∧ c.egress = none ∧ c.serial = i ∧ c.tx = tx ∧
        v'.carried = update v.carried w none ∧ v'.trace = v.trace) ∨
      ∃ tx₀ pin, v.tasks i = some tx₀ ∧ tx = { tx₀ with pinBlock := pin } ∧
        v'.carried = v.carried ∧ v'.trace = v.trace := by
  have hcleared {i' : Serial} (ht : update v.tasks i' none i = some tx) : v.tasks i = some tx := by
    rw [update_apply] at ht
    split at ht
    · cases ht
    · exact ht
  cases h with
  | custody h => cases h <;> exact .inl ht
  | traffic h =>
      cases h with
      | @dispatch w c hc hegress =>
          by_cases hi : i = c.serial
          · subst hi
            dsimp only at ht
            rw [update_self, Option.some.injEq] at ht
            exact .inr (.inl ⟨w, c, hc, hegress, rfl, ht, rfl, rfl⟩)
          · dsimp only at ht
            rw [update_of_ne hi] at ht
            exact .inl ht
      | @translatePin i' tx₀ pin hi' =>
          by_cases hi : i = i'
          · subst hi
            dsimp only at ht
            rw [update_self, Option.some.injEq] at ht
            exact .inr (.inr ⟨tx₀, pin, hi', ht.symm, rfl, rfl⟩)
          · dsimp only at ht
            rw [update_of_ne hi] at ht
            exact .inl ht
      | dropTask | placeTask => exact .inl (hcleared ht)
      | note | dismiss | number | place | collect | reply | translate | discard | probe =>
          exact .inl ht

/-- A new request frame takes its context away from the worker or the task. -/
theorem request_new (h : Move v v') {l : List Event} (hl : v'.trace = v.trace ++ l) {f : Frame}
    {i : Serial} (hmem : .placed f ∈ l) (hreq : f.origin.request = some i) :
    (f.origin = .ingress i ∧ v'.tasks = v.tasks ∧ ∃ w c e, v.carried w = some c ∧ c.serial = i ∧
        c.egress = some e ∧ f.transaction = c.tx ∧ v'.carried = update v.carried w none) ∨
      (f.origin = .hsm i ∧ v'.carried = v.carried ∧ v.tasks i = some f.transaction ∧
        v'.tasks = update v.tasks i none) := by
  cases h with
  | custody h =>
      obtain ⟨_, _, _, _, _, -, -, -, htouch⟩ := h.touch_of_new hl hmem rfl
      rw [(htouch.placed hmem).1] at hreq
      cases hreq
  | traffic h =>
      rcases h.placed_new hl hmem with horigin | ⟨j, horigin, htaken⟩ | ⟨j, horigin, htaken⟩
      · rw [horigin] at hreq
        cases hreq
      · rw [horigin] at hreq
        cases hreq
        exact .inl ⟨horigin, htaken⟩
      · rw [horigin] at hreq
        cases hreq
        exact .inr ⟨horigin, htaken⟩

/-- A move places at most one request. -/
theorem countP_requests (h : Move v v') (i : Serial) :
    ∃ l, v'.trace = v.trace ++ l ∧ l.countP (Event.requests i) ≤ 1 := by
  have hneutral {l : List Event} (neutral : ∀ e ∈ l, e.neutral = true) :
      l.countP (Event.requests i) ≤ 1 := by
    refine le_of_eq_of_le (List.countP_eq_zero.mpr fun e he => ?_) (Nat.zero_le 1)
    have := neutral e he
    cases e <;> simp [Event.neutral, Event.requests] at this ⊢
  have hanswers (r : Option Responder) (source : Source) (reply : UniversalPaymentEvent) :
      (answers r source reply).countP (Event.requests i) = 0 := by
    cases r <;> rfl
  cases h with
  | custody h =>
      cases h with
      | receive | insert | evict => exact ⟨_, rfl, Nat.zero_le 1⟩
      | answerFront => exact ⟨_, rfl, le_of_eq_of_le (hanswers _ _ _) (Nat.zero_le 1)⟩
      | dropFront => exact ⟨[], (List.append_nil _).symm, Nat.zero_le 1⟩
      | touch _ htouch =>
          refine ⟨_, rfl, le_of_eq_of_le (List.countP_eq_zero.mpr fun e he hreq => ?_)
            (Nat.zero_le 1)⟩
          cases e <;> simp [Event.requests] at hreq
          rw [(htouch.placed he).1] at hreq
          cases hreq
  | traffic h =>
      cases h with
      | note _ neutral | dismiss _ _ neutral | dropTask _ _ neutral => exact ⟨_, rfl, hneutral neutral⟩
      | dispatch | translatePin | collect | translate =>
          exact ⟨[], (List.append_nil _).symm, Nat.zero_le 1⟩
      | number | reply | discard | probe => exact ⟨_, rfl, Nat.zero_le 1⟩
      | place =>
          refine ⟨_, rfl, ?_⟩
          rw [List.countP_cons, if_neg (by simp [Event.requests])]
          exact List.countP_le_length
      | placeTask => exact ⟨_, rfl, List.countP_le_length⟩

end Move

/-! ## One place at a time -/

/-- The context is the inserted request, renumbered once it has an egress STAN. -/
def Carried.Of (c : Carried) (tx : UniversalPaymentEvent) : Prop :=
  (c.egress = none ∧ c.tx = tx) ∨ ∃ e, c.egress = some e ∧ c.tx = { tx with stan := e }

/-- The frame is the inserted request, renumbered on the plain path and with
another PIN block on the path through the HSM. -/
inductive Frame.Requests (i : Serial) (tx : UniversalPaymentEvent) (f : Frame) : Prop where
  | ingress (e : String) : f.origin = .ingress i → f.transaction = { tx with stan := e } →
      Frame.Requests i tx f
  | hsm (pin : Bytes) : f.origin = .hsm i → f.transaction = { tx with pinBlock := pin } →
      Frame.Requests i tx f

namespace Flow

structure Held (v : Flow) : Prop where
  carried_inserted : ∀ {w c}, v.carried w = some c →
    ∃ tx r, v.Inserted c.serial c.key tx r ∧ Carried.Of c tx
  task_inserted : ∀ {i tx'}, v.tasks i = some tx' →
    ∃ key tx r pin, v.Inserted i key tx r ∧ tx' = { tx with pinBlock := pin }
  placed_inserted : ∀ {f i}, .placed f ∈ v.trace → f.origin.request = some i →
    ∃ key tx r, v.Inserted i key tx r ∧ Frame.Requests i tx f
  carried_inj : ∀ {w w' c c'}, v.carried w = some c → v.carried w' = some c' →
    c.serial = c'.serial → w = w'
  carried_task : ∀ {w c}, v.carried w = some c → v.tasks c.serial = none
  carried_unplaced : ∀ {w c f}, v.carried w = some c → .placed f ∈ v.trace →
    f.origin.request ≠ some c.serial
  task_unplaced : ∀ {i tx f}, v.tasks i = some tx → .placed f ∈ v.trace →
    f.origin.request ≠ some i
  placed_once : ∀ i, v.trace.countP (Event.requests i) ≤ 1

theorem Initial.held {v : Flow} (h : v.Initial) : v.Held := by
  constructor <;> simp [h.trace, h.carried, h.tasks]

namespace Held

variable {v v' : Flow}

theorem carried_lt (hv : v.Held) {w : Nat} {c : Carried} (hc : v.carried w = some c) :
    c.serial < v.trace.length := by
  obtain ⟨tx, r, hi, -⟩ := hv.carried_inserted hc
  exact hi.lt

theorem keep_carried_inserted (hv : v.Held) (hmove : Move v v') {w : Nat} {c : Carried}
    (hc : v'.carried w = some c) :
    ∃ tx r, v'.Inserted c.serial c.key tx r ∧ Carried.Of c tx := by
  obtain ⟨l, hl⟩ := hmove.trace_append
  rcases hmove.carried_cases hc with hold | ⟨tx, r, rfl, hins, -⟩ | ⟨c₀, e, hold, hnone, rfl, -⟩
  · obtain ⟨tx, r, hi, hof⟩ := hv.carried_inserted hold
    exact ⟨tx, r, hi.grow hl, hof⟩
  · refine ⟨tx, r, ?_, .inl ⟨rfl, rfl⟩⟩
    rw [Inserted, hins.trace]
    exact History.logged_at_length
  · obtain ⟨tx, r, hi, ⟨-, htx⟩ | ⟨e', he', -⟩⟩ := hv.carried_inserted hold
    · exact ⟨tx, r, hi.grow hl, .inr ⟨e, rfl, by rw [htx]⟩⟩
    · rw [hnone] at he'
      cases he'

theorem keep_task_inserted (hv : v.Held) (hmove : Move v v') {i : Serial}
    {tx' : UniversalPaymentEvent} (ht : v'.tasks i = some tx') :
    ∃ key tx r pin, v'.Inserted i key tx r ∧ tx' = { tx with pinBlock := pin } := by
  obtain ⟨l, hl⟩ := hmove.trace_append
  rcases hmove.tasks_cases ht with hold | ⟨w, c, hc, hnone, rfl, rfl, -⟩ | ⟨tx₀, pin, hold, rfl, -⟩
  · obtain ⟨key, tx, r, pin, hi, htx⟩ := hv.task_inserted hold
    exact ⟨key, tx, r, pin, hi.grow hl, htx⟩
  · obtain ⟨tx, r, hi, ⟨-, htx⟩ | ⟨e', he', -⟩⟩ := hv.carried_inserted hc
    · exact ⟨c.key, tx, r, tx.pinBlock, hi.grow hl, htx⟩
    · rw [hnone] at he'
      cases he'
  · obtain ⟨key, tx, r, pin', hi, rfl⟩ := hv.task_inserted hold
    exact ⟨key, tx, r, pin, hi.grow hl, rfl⟩

theorem keep_placed_inserted (hv : v.Held) (hmove : Move v v') {f : Frame} {i : Serial}
    (hmem : .placed f ∈ v'.trace) (hreq : f.origin.request = some i) :
    ∃ key tx r, v'.Inserted i key tx r ∧ Frame.Requests i tx f := by
  obtain ⟨l, hl⟩ := hmove.trace_append
  rw [hl, List.mem_append] at hmem
  rcases hmem with hold | hnew
  · obtain ⟨key, tx, r, hi, hf⟩ := hv.placed_inserted hold hreq
    exact ⟨key, tx, r, hi.grow hl, hf⟩
  · rcases hmove.request_new hl hnew hreq with
      ⟨horigin, -, w, c, e, hc, rfl, he, hf, -⟩ | ⟨horigin, -, ht, -⟩
    · obtain ⟨tx, r, hi, ⟨hnone, -⟩ | ⟨e', -, htx⟩⟩ := hv.carried_inserted hc
      · rw [hnone] at he
        cases he
      · exact ⟨c.key, tx, r, hi.grow hl, .ingress e' horigin (hf.trans htx)⟩
    · obtain ⟨key, tx, r, pin, hi, htx⟩ := hv.task_inserted ht
      exact ⟨key, tx, r, hi.grow hl, .hsm pin horigin htx⟩

theorem keep_carried_inj (hv : v.Held) (hmove : Move v v') {w w' : Nat} {c c' : Carried}
    (hc : v'.carried w = some c) (hc' : v'.carried w' = some c') (hserial : c.serial = c'.serial) :
    w = w' := by
  rcases hmove.carried_cases hc with hold | ⟨tx, r, rfl, hins, hcarried⟩ | ⟨c₀, e, hold, -, rfl, hl⟩
  · rcases hmove.carried_cases hc' with hold' | ⟨tx, r, rfl, -, -⟩ | ⟨c₀', e', hold', -, rfl, -⟩
    · exact hv.carried_inj hold hold' hserial
    · exact absurd (hv.carried_lt hold) (hserial ▸ Nat.lt_irrefl _)
    · exact hv.carried_inj hold hold' hserial
  · by_cases hw : w' = w
    · exact hw.symm
    · rw [hcarried, update_of_ne hw] at hc'
      exact absurd (hv.carried_lt hc') (hserial ▸ Nat.lt_irrefl _)
  · rcases hmove.carried_cases hc' with hold' | ⟨tx, r, rfl, -, -⟩ | ⟨c₀', e', hold', -, rfl, -⟩
    · exact hv.carried_inj hold hold' hserial
    · exact absurd (hv.carried_lt hold) (hserial ▸ Nat.lt_irrefl _)
    · exact hv.carried_inj hold hold' hserial

theorem keep_carried_task (hv : v.Held) (hmove : Move v v') {w : Nat} {c : Carried}
    (hc : v'.carried w = some c) : v'.tasks c.serial = none := by
  cases ht : v'.tasks c.serial with
  | none => rfl
  | some tx' =>
      exfalso
      -- Only a dispatch creates a task, and it takes the context from the worker.
      rcases hmove.carried_cases hc with hold | ⟨tx, r, rfl, hins, -⟩ | ⟨c₀, e, hold, -, rfl, hl⟩
      · rcases hmove.tasks_cases ht with
          ht | ⟨w', c', hc', -, hserial, -, hcarried, -⟩ | ⟨tx₀, _, ht, -⟩
        · rw [hv.carried_task hold] at ht
          cases ht
        · rw [hcarried, hv.carried_inj hold hc' hserial.symm, update_self] at hc
          cases hc
        · rw [hv.carried_task hold] at ht
          cases ht
      · rcases hmove.tasks_cases ht with ht | ⟨_, c', hc', -, hserial, -⟩ | ⟨tx₀, _, ht, -⟩
        · obtain ⟨_, _, _, _, hi, -⟩ := hv.task_inserted ht
          exact absurd hi.lt (Nat.lt_irrefl _)
        · exact absurd (hv.carried_lt hc') (hserial ▸ Nat.lt_irrefl _)
        · obtain ⟨_, _, _, _, hi, -⟩ := hv.task_inserted ht
          exact absurd hi.lt (Nat.lt_irrefl _)
      · rcases hmove.tasks_cases ht with ht | ⟨_, _, _, -, -, -, -, hsame⟩ | ⟨tx₀, _, ht, -⟩
        · rw [hv.carried_task hold] at ht
          cases ht
        · rw [hl] at hsame
          simp at hsame
        · rw [hv.carried_task hold] at ht
          cases ht

theorem keep_carried_unplaced (hv : v.Held) (hmove : Move v v') {w : Nat} {c : Carried} {f : Frame}
    (hc : v'.carried w = some c) (hmem : .placed f ∈ v'.trace) :
    f.origin.request ≠ some c.serial := by
  intro hreq
  obtain ⟨l, hl⟩ := hmove.trace_append
  rw [hl, List.mem_append] at hmem
  rcases hmove.carried_cases hc with hold | ⟨tx, r, rfl, hins, -⟩ | ⟨c₀, e, hold, -, rfl, hl'⟩
  · rcases hmem with hmem | hmem
    · exact hv.carried_unplaced hold hmem hreq
    · rcases hmove.request_new hl hmem hreq with
        ⟨-, -, w', c', _, hc', hserial, -, -, hcarried⟩ | ⟨-, -, ht, -⟩
      · rw [hcarried, hv.carried_inj hold hc' hserial.symm, update_self] at hc
        cases hc
      · rw [hv.carried_task hold] at ht
        cases ht
  · obtain rfl := List.append_cancel_left (hl.symm.trans hins.trace)
    rcases hmem with hmem | hmem
    · obtain ⟨_, _, _, hi, -⟩ := hv.placed_inserted hmem hreq
      exact absurd hi.lt (Nat.lt_irrefl _)
    · simp at hmem
  · obtain rfl := List.append_cancel_left (hl.symm.trans hl')
    rcases hmem with hmem | hmem
    · exact hv.carried_unplaced hold hmem hreq
    · simp at hmem

theorem keep_task_unplaced (hv : v.Held) (hmove : Move v v') {i : Serial}
    {tx : UniversalPaymentEvent} {f : Frame} (ht : v'.tasks i = some tx)
    (hmem : .placed f ∈ v'.trace) : f.origin.request ≠ some i := by
  intro hreq
  obtain ⟨l, hl⟩ := hmove.trace_append
  rcases hmove.tasks_cases ht with hold | ⟨w, c, hc, -, rfl, -, -, hsame⟩ | ⟨tx₀, _, hold, -, -, hsame⟩
  · rw [hl, List.mem_append] at hmem
    rcases hmem with hmem | hmem
    · exact hv.task_unplaced hold hmem hreq
    · rcases hmove.request_new hl hmem hreq with
        ⟨-, -, w, c, _, hc, rfl, -⟩ | ⟨-, -, -, htasks⟩
      · rw [hv.carried_task hc] at hold
        cases hold
      · rw [htasks, update_self] at ht
        cases ht
  · exact hv.carried_unplaced hc (hsame ▸ hmem) hreq
  · exact hv.task_unplaced hold (hsame ▸ hmem) hreq

theorem keep_placed_once (hv : v.Held) (hmove : Move v v') (i : Serial) :
    v'.trace.countP (Event.requests i) ≤ 1 := by
  obtain ⟨l, hl, hcount⟩ := hmove.countP_requests i
  rw [hl, List.countP_append]
  rcases Nat.eq_zero_or_pos (l.countP (Event.requests i)) with hzero | hpos
  · rw [hzero]
    exact hv.placed_once i
  · obtain ⟨e, he, hreq⟩ := List.countP_pos_iff.mp hpos
    cases e <;> simp [Event.requests] at hreq
    have hunplaced : v.trace.countP (Event.requests i) = 0 := by
      rw [List.countP_eq_zero]
      intro e' he' hreq'
      cases e' <;> simp [Event.requests] at hreq'
      rcases hmove.request_new hl he hreq with ⟨-, -, w, c, _, hc, rfl, -⟩ | ⟨-, -, ht, -⟩
      · exact hv.carried_unplaced hc he' hreq'
      · exact hv.task_unplaced ht he' hreq'
    rw [hunplaced, Nat.zero_add]
    exact hcount

theorem keep (hv : v.Held) (hmove : Move v v') : v'.Held where
  carried_inserted := hv.keep_carried_inserted hmove
  task_inserted := hv.keep_task_inserted hmove
  placed_inserted := hv.keep_placed_inserted hmove
  carried_inj := hv.keep_carried_inj hmove
  carried_task := hv.keep_carried_task hmove
  carried_unplaced := hv.keep_carried_unplaced hmove
  task_unplaced := hv.keep_task_unplaced hmove
  placed_once := hv.keep_placed_once hmove

end Held

theorem Reachable.held {Q : Discipline} {v : Flow} (h : Reachable Q v) : v.Held :=
  h.invariant (fun _ => Initial.held) fun _ _ _ hv hmove => hv.keep hmove.1

end Flow

end Iso8583Switch
