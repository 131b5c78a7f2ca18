import Iso8583Switch.Library.History
import Iso8583Switch.Flow.Machine

/-!
# Guard instances

A guard instance is named after the insert that created it.  An entry of the
guard keeps agreeing with its insert, and an instance stays in the guard until an
eviction of its own.
-/

namespace Iso8583Switch

open Text Function

/-! ## Events of a section -/

theorem mem_answers {e : Event} {responder : Option Responder} {source : Source}
    {reply : UniversalPaymentEvent} :
    e ∈ answers responder source reply ↔ ∃ r, responder = some r ∧ e = .responded r source reply := by
  cases responder <;> simp [answers]

theorem mem_reversals {e : Event} {i : Serial} {sent : Option (RouteDestination × ChannelId)}
    {reversal : UniversalPaymentEvent} :
    e ∈ reversals i sent reversal ↔
      ∃ target, sent = some target ∧ e = .placed ⟨.reaper i, target.1, target.2, reversal⟩ := by
  cases sent <;> simp [reversals]

def Event.isInserted : Event → Bool
  | .inserted _ _ _ => true
  | _ => false

namespace Touch

variable {v : Flow} {key : String} {entry entry' : ActiveTransaction} {l : List Event}
  {reclaim : Option String} {handling : Nat → Option (Packet × String)}

theorem serial (h : Touch v key entry entry' l reclaim handling) :
    entry'.serial = entry.serial := by
  cases h <;> rfl

theorem transactionData (h : Touch v key entry entry' l reclaim handling) :
    entry'.transactionData = entry.transactionData := by
  cases h <;> rfl

/-- A section takes the responder of an entry or leaves it. -/
theorem responder (h : Touch v key entry entry' l reclaim handling) :
    entry'.responder = entry.responder ∨ entry'.responder = none := by
  cases h <;> first | exact .inl rfl | exact .inr rfl

theorem not_inserted (h : Touch v key entry entry' l reclaim handling) {key' : String}
    {tx : UniversalPaymentEvent} {responder : Option Responder} :
    .inserted key' tx responder ∉ l := by
  cases h <;> simp [mem_answers, mem_reversals]

end Touch

/-- What is logged of an instance outside the sections on its entry. -/
def Event.entrusts : Event → Bool
  | .received _ _ | .inserted _ _ _ | .responded _ _ _ | .evicted _ _ => true
  | _ => false

/-- Any other event of the custody is from a section on an entry. -/
theorem Custody.touch_of_new {v v' : Flow} (h : Custody v v') {l : List Event}
    (hl : v'.trace = v.trace ++ l) {e : Event} (hmem : e ∈ l) (hother : e.entrusts = false) :
    ∃ key entry entry' reclaim handling, v.guard.get key = some entry ∧
      v'.guard = v.guard.put key entry' ∧ v'.fronted = v.fronted ∧
      Touch v key entry entry' l reclaim handling := by
  cases h with
  | receive | insert | evict =>
      obtain rfl := List.append_cancel_left hl
      cases List.mem_singleton.mp hmem
      cases hother
  | answerFront =>
      obtain rfl := List.append_cancel_left hl
      obtain ⟨_, -, rfl⟩ := mem_answers.mp hmem
      cases hother
  | dropFront =>
      obtain rfl := List.append_cancel_left ((List.append_nil _).trans hl)
      cases hmem
  | touch hget htouch =>
      obtain rfl := List.append_cancel_left hl
      exact ⟨_, _, _, _, _, hget, rfl, rfl, htouch⟩

namespace Flow

variable {v v' : Flow}

/-! ## Instances -/

/-- The insert at position `i`. -/
def Inserted (v : Flow) (i : Serial) (key : String) (tx : UniversalPaymentEvent)
    (responder : Option Responder) : Prop :=
  v.trace[i]? = some (.inserted key tx responder)

instance (i : Serial) (key : String) (tx : UniversalPaymentEvent) (responder : Option Responder) :
    Decidable (v.Inserted i key tx responder) :=
  inferInstanceAs (Decidable (_ = _))

namespace Inserted

variable {i : Serial} {key key' : String} {tx tx' : UniversalPaymentEvent}
  {responder responder' : Option Responder} {l : List Event}

theorem unique (h : v.Inserted i key tx responder) (h' : v.Inserted i key' tx' responder') :
    key = key' ∧ tx = tx' ∧ responder = responder' := by
  have heq := h.symm.trans h'
  simpa using heq

theorem lt (h : v.Inserted i key tx responder) : i < v.trace.length := History.lt_length h

theorem grow (hl : v'.trace = v.trace ++ l) (h : v.Inserted i key tx responder) :
    v'.Inserted i key tx responder := by
  unfold Inserted
  rw [hl]
  exact History.kept h

theorem old (hl : v'.trace = v.trace ++ l) (hnew : .inserted key tx responder ∉ l)
    (h : v'.Inserted i key tx responder) : v.Inserted i key tx responder := by
  unfold Inserted at h
  rw [hl] at h
  exact History.old h hnew

end Inserted

end Flow

open Iso8583Switch.Flow

/-- What the guard insert does. -/
structure Insertion (v v' : Flow) (key : String) (tx : UniversalPaymentEvent)
    (responder : Option Responder) : Prop where
  keyed : key = tx.guardKey
  vacant : v.guard.get key = none
  entry : ∃ entry, v'.guard.get key = some entry ∧ entry.serial = v.trace.length
  fronted : ∃ w, responder = v.fronted w ∧ v'.fronted = update v.fronted w none
  trace : v'.trace = v.trace ++ [.inserted key tx responder]

/-- An insert after a move is an older one, or it is what the move does. -/
theorem Move.inserted_cases {v v' : Flow} (h : Move v v') {i : Serial} {key : String}
    {tx : UniversalPaymentEvent} {responder : Option Responder}
    (hi : v'.Inserted i key tx responder) :
    v.Inserted i key tx responder ∨ (i = v.trace.length ∧ Insertion v v' key tx responder) := by
  have hold {l : List Event} (hl : v'.trace = v.trace ++ l)
      (hnew : .inserted key tx responder ∉ l) : v.Inserted i key tx responder :=
    hi.old hl hnew
  cases h with
  | traffic h =>
      obtain ⟨l, hl, hquiet⟩ := h.quiet
      refine .inl (hold hl fun hmem => ?_)
      have := hquiet _ hmem
      simp [Event.quiet] at this
  | custody h =>
      cases h with
      | receive => exact .inl (hold rfl (by simp))
      | answerFront => exact .inl (hold rfl (by simp [mem_answers]))
      | dropFront => exact .inl hi
      | touch _ htouch => exact .inl (hold rfl htouch.not_inserted)
      | evict => exact .inl (hold rfl (by simp))
      | @insert w tx' now hnone _ =>
          rcases History.getElem?_append_eq_some.mp hi with hi | ⟨hle, hi⟩
          · exact .inl hi
          · obtain ⟨hlt, heq⟩ := List.getElem?_eq_some_iff.mp hi
            have hlen : i = v.trace.length :=
              Nat.le_antisymm (Nat.sub_eq_zero_iff_le.mp (Nat.lt_one_iff.mp hlt)) hle
            simp only [List.getElem_singleton, Event.inserted.injEq] at heq
            obtain ⟨rfl, rfl, rfl⟩ := heq
            exact .inr ⟨hlen, rfl, hnone, ⟨_, DashMap.get_put_self _ _ _, rfl⟩, ⟨w, rfl, rfl⟩, rfl⟩

namespace Flow

variable {v v' : Flow}

/-! ## The guard agrees with the inserts -/

/-- An entry is under the key it was inserted under, with the request it was
inserted with. -/
structure Accounted (v : Flow) (key : String) (entry : ActiveTransaction)
    (tx : UniversalPaymentEvent) (responder : Option Responder) : Prop where
  inserted : v.Inserted entry.serial key tx responder
  transactionData : entry.transactionData = toPb tx
  responder : entry.responder = responder ∨ entry.responder = none

theorem Accounted.grow {l : List Event} (hl : v'.trace = v.trace ++ l) {key : String}
    {entry : ActiveTransaction} {tx : UniversalPaymentEvent} {responder : Option Responder}
    (h : v.Accounted key entry tx responder) : v'.Accounted key entry tx responder :=
  ⟨h.inserted.grow hl, h.transactionData, h.responder⟩

end Flow

open Iso8583Switch.Flow

theorem Move.accounted {v v' : Flow} (h : Move v v')
    (hv : ∀ key entry, v.guard.get key = some entry → ∃ tx r, v.Accounted key entry tx r) :
    ∀ key entry, v'.guard.get key = some entry → ∃ tx r, v'.Accounted key entry tx r := by
  obtain ⟨l, hl⟩ := h.trace_append
  have hold {key : String} {entry : ActiveTransaction} (hget : v.guard.get key = some entry) :
      ∃ tx r, v'.Accounted key entry tx r := by
    obtain ⟨tx, r, hacc⟩ := hv key entry hget
    exact ⟨tx, r, hacc.grow hl⟩
  intro key entry hget
  cases h with
  | traffic h => rw [h.guard] at hget; exact hold hget
  | custody h =>
      cases h with
      | receive | answerFront | dropFront => exact hold hget
      | insert tx now hnone _ =>
          rcases DashMap.get_put_eq_some.mp hget with ⟨rfl, rfl⟩ | ⟨-, hget⟩
          · exact ⟨tx, _, History.logged_at_length, rfl, .inl rfl⟩
          · exact hold hget
      | touch hget' htouch =>
          rcases DashMap.get_put_eq_some.mp hget with ⟨rfl, rfl⟩ | ⟨-, hget⟩
          · obtain ⟨tx, r, hacc⟩ := hold hget'
            refine ⟨tx, r, by rw [htouch.serial]; exact hacc.inserted,
              by rw [htouch.transactionData]; exact hacc.transactionData, ?_⟩
            rcases htouch.responder with heq | heq
            · rw [heq]; exact hacc.responder
            · exact .inr heq
          · exact hold hget
      | evict => exact hold (DashMap.get_remove_eq_some.mp hget).2

namespace Flow.Reachable

variable {Q : Discipline} {v : Flow}

theorem accounted (h : Reachable Q v) {key : String} {entry : ActiveTransaction}
    (hget : v.guard.get key = some entry) : ∃ tx r, v.Accounted key entry tx r := by
  refine h.invariant (I := fun v => ∀ key entry, v.guard.get key = some entry →
    ∃ tx r, v.Accounted key entry tx r) ?_ ?_ key entry hget
  · intro v hv key entry hget
    rw [hv.guard, DashMap.get_empty] at hget
    cases hget
  · intro v v' _ hv hmove
    exact hmove.1.accounted hv

/-- The key of an insert is made of the request. -/
theorem inserted_key (h : Reachable Q v) {i : Serial} {key : String} {tx : UniversalPaymentEvent}
    {responder : Option Responder} (hi : v.Inserted i key tx responder) : key = tx.guardKey := by
  refine h.invariant (I := fun v => ∀ i key tx responder, v.Inserted i key tx responder →
    key = tx.guardKey) ?_ ?_ i key tx responder hi
  · intro v hv i key tx responder hi
    rw [Inserted, hv.trace] at hi
    cases hi
  · intro v v' _ hv hmove i key tx responder hi
    rcases hmove.1.inserted_cases hi with hi | ⟨-, hins⟩
    · exact hv i key tx responder hi
    · exact hins.keyed

/-- An instance is under one key. -/
theorem key_unique (h : Reachable Q v) {key key' : String} {entry entry' : ActiveTransaction}
    (hget : v.guard.get key = some entry) (hget' : v.guard.get key' = some entry')
    (hserial : entry.serial = entry'.serial) : key = key' := by
  obtain ⟨tx, r, hacc⟩ := h.accounted hget
  obtain ⟨tx', r', hacc'⟩ := h.accounted hget'
  exact (hacc.inserted.unique (hserial ▸ hacc'.inserted)).1

end Flow.Reachable

/-! ## Evictions -/

/-- An entry stays under its key until it is evicted. -/
theorem Move.stays_or_evicted {v v' : Flow} (h : Move v v') {key : String}
    {entry : ActiveTransaction} (hget : v.guard.get key = some entry) :
    (∃ entry', v'.guard.get key = some entry' ∧ entry'.serial = entry.serial) ∨
      v'.trace = v.trace ++ [.evicted key entry.serial] := by
  cases h with
  | traffic h => rw [h.guard]; exact .inl ⟨entry, hget, rfl⟩
  | custody h =>
      cases h with
      | receive | answerFront | dropFront => exact .inl ⟨entry, hget, rfl⟩
      | insert tx now hnone _ =>
          have hne : key ≠ tx.guardKey := by
            rintro rfl
            rw [hnone] at hget
            cases hget
          exact .inl ⟨entry, (DashMap.get_put_ne _ _ hne).trans hget, rfl⟩
      | @touch key' old new _ _ _ hget' htouch =>
          by_cases hkey : key = key'
          · subst hkey
            rw [hget] at hget'
            cases hget'
            exact .inl ⟨new, DashMap.get_put_self _ _ _, htouch.serial⟩
          · exact .inl ⟨entry, (DashMap.get_put_ne _ _ hkey).trans hget, rfl⟩
      | @evict key' old hget' =>
          by_cases hkey : key = key'
          · subst hkey
            rw [hget] at hget'
            cases hget'
            exact .inr rfl
          · exact .inl ⟨entry, (DashMap.get_remove_ne _ hkey).trans hget, rfl⟩

/-- An entry was there before with its request, or it is what the move inserts. -/
theorem Move.entry_cases {v v' : Flow} (h : Move v v') {key : String} {entry : ActiveTransaction}
    (hget : v'.guard.get key = some entry) :
    (∃ entry₀, v.guard.get key = some entry₀ ∧ entry₀.serial = entry.serial) ∨
      ∃ tx r, Insertion v v' key tx r := by
  cases h with
  | traffic h => rw [h.guard] at hget; exact .inl ⟨entry, hget, rfl⟩
  | custody h =>
      cases h with
      | receive | answerFront | dropFront => exact .inl ⟨entry, hget, rfl⟩
      | @insert w tx now hvacant _ =>
          rcases DashMap.get_put_eq_some.mp hget with ⟨rfl, rfl⟩ | ⟨-, hget⟩
          · exact .inr ⟨tx, v.fronted w, rfl, hvacant, ⟨_, DashMap.get_put_self _ _ _, rfl⟩,
              ⟨w, rfl, rfl⟩, rfl⟩
          · exact .inl ⟨entry, hget, rfl⟩
      | touch hget' htouch =>
          rcases DashMap.get_put_eq_some.mp hget with ⟨rfl, rfl⟩ | ⟨-, hget⟩
          · exact .inl ⟨_, hget', htouch.serial.symm⟩
          · exact .inl ⟨entry, hget, rfl⟩
      | evict => exact .inl ⟨entry, (DashMap.get_remove_eq_some.mp hget).2, rfl⟩

namespace Flow

/-- The instance is in the guard, or it was evicted after its insert. -/
def Kept (v : Flow) (i : Serial) (key : String) : Prop :=
  (∃ entry, v.guard.get key = some entry ∧ entry.serial = i) ∨
    ∃ m, i < m ∧ v.trace[m]? = some (.evicted key i)

namespace Reachable

variable {Q : Discipline} {v : Flow} {i j : Serial} {key : String} {tx tx' : UniversalPaymentEvent}
  {responder responder' : Option Responder}

theorem kept (h : Reachable Q v) (hi : v.Inserted i key tx responder) : v.Kept i key := by
  refine h.invariant (I := fun v => ∀ i key tx responder, v.Inserted i key tx responder →
    v.Kept i key) ?_ ?_ i key tx responder hi
  · intro v hv i key tx responder hi
    rw [Inserted, hv.trace] at hi
    cases hi
  · intro v v' _ hv hmove i key tx responder hi
    obtain ⟨l, hl⟩ := hmove.1.trace_append
    rcases hmove.1.inserted_cases hi with hold | ⟨rfl, hins⟩
    · rcases hv i key tx responder hold with ⟨entry, hget, rfl⟩ | ⟨m, hm, hevicted⟩
      · rcases hmove.1.stays_or_evicted hget with hstay | hevicted
        · exact .inl hstay
        · refine .inr ⟨v.trace.length, hold.lt, ?_⟩
          rw [hevicted]
          exact History.logged_at_length
      · refine .inr ⟨m, hm, ?_⟩
        rw [hl]
        exact History.kept hevicted
    · exact .inl hins.entry

/-- Of two instances with one key, the first was evicted before the second was
inserted. -/
theorem evicted_between (h : Reachable Q v) (hi : v.Inserted i key tx responder)
    (hj : v.Inserted j key tx' responder') (hlt : i < j) :
    ∃ m, i < m ∧ m < j ∧ v.trace[m]? = some (.evicted key i) := by
  refine h.invariant (I := fun v => ∀ i j key tx tx' responder responder',
    v.Inserted i key tx responder → v.Inserted j key tx' responder' → i < j →
      ∃ m, i < m ∧ m < j ∧ v.trace[m]? = some (.evicted key i)) ?_ ?_ i j key tx tx' responder
    responder' hi hj hlt
  · intro v hv i j key tx tx' responder responder' hi
    rw [Inserted, hv.trace] at hi
    cases hi
  · intro v v' hreach hv hmove i j key tx tx' responder responder' hi hj hlt
    obtain ⟨l, hl⟩ := hmove.1.trace_append
    rcases hmove.1.inserted_cases hj with hjold | ⟨rfl, hins⟩
    · have hiold : v.Inserted i key tx responder := by
        rcases hmove.1.inserted_cases hi with hiold | ⟨rfl, -⟩
        · exact hiold
        · exact absurd hlt (Nat.lt_asymm hjold.lt)
      obtain ⟨m, him, hmj, hevicted⟩ := hv i j key tx tx' responder responder' hiold hjold hlt
      refine ⟨m, him, hmj, ?_⟩
      rw [hl]
      exact History.kept hevicted
    · rcases hmove.1.inserted_cases hi with hiold | ⟨rfl, -⟩
      · -- The key is vacant, so the first instance is gone.
        rcases kept hreach hiold with ⟨entry, hget, -⟩ | ⟨m, him, hevicted⟩
        · rw [hins.vacant] at hget
          cases hget
        · refine ⟨m, him, History.lt_length hevicted, ?_⟩
          rw [hl]
          exact History.kept hevicted
      · exact absurd hlt (Nat.lt_irrefl _)

end Reachable

end Flow

end Iso8583Switch
