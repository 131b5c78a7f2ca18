import Iso8583Switch.Flow.Instances

/-!
# The custody of responders

A responder is with an ingress worker, then in a guard entry, then used.  It is
in one of these places at a time.  An entry that the reaper may still time out
has its responder untouched, and an entry that was timed out has none, so the
answer of the reaper excludes every other answer.
-/

namespace Iso8583Switch

open Text Function

/-- The instance that an answer is for. -/
def Source.serial : Source → Option Serial
  | .unrouted i | .decision i | .reaper i | .bank i _ => some i
  | .compliance | .detokenizer | .riskScreen | .echo | .duplicate | .reversal _ => none

theorem Source.serial_of_front {source : Source} (h : source.front = true) :
    source.serial = none := by
  cases source <;> first | rfl | cases h

def Event.respondsTo (r : Responder) : Event → Bool
  | .responded r' _ _ => r' = r
  | _ => false

theorem countP_answers_le (r : Responder) (responder : Option Responder) (source : Source)
    (reply : UniversalPaymentEvent) :
    (answers responder source reply).countP (Event.respondsTo r) ≤ 1 :=
  Nat.le_trans List.countP_le_length (by cases responder <;> simp [answers])

theorem countP_reversals (r : Responder) (i : Serial)
    (sent : Option (RouteDestination × ChannelId)) (reversal : UniversalPaymentEvent) :
    (reversals i sent reversal).countP (Event.respondsTo r) = 0 := by
  cases sent <;> rfl

namespace Touch

variable {v : Flow} {key : String} {entry entry' : ActiveTransaction} {l : List Event}
  {reclaim : Option String} {handling : Nat → Option (Packet × String)}

/-- A section answers with the responder of its entry, which it takes. -/
theorem responded (h : Touch v key entry entry' l reclaim handling) {r : Responder}
    {source : Source} {reply : UniversalPaymentEvent} (hmem : .responded r source reply ∈ l) :
    entry.responder = some r ∧ entry'.responder = none ∧ source.serial = some entry.serial := by
  cases h <;> simp [mem_answers, mem_reversals] at hmem
  all_goals
    obtain ⟨hr, rfl, rfl⟩ := hmem
    exact ⟨hr, rfl, rfl⟩

theorem countP_responded (h : Touch v key entry entry' l reclaim handling) (r : Responder) :
    l.countP (Event.respondsTo r) ≤ 1 := by
  cases h with
  | mark => exact Nat.zero_le 1
  | record => exact Nat.zero_le 1
  | close => exact countP_answers_le r _ _ _
  | timeOut =>
      rw [List.countP_append, List.countP_cons, countP_reversals]
      exact countP_answers_le r _ _ _
  | complete =>
      rw [List.countP_cons, List.countP_cons]
      exact countP_answers_le r _ _ _
  | completeUnjournaled => exact Nat.zero_le 1

end Touch

/-! ## Where a responder comes from -/

/-- What a section on an entry does to the custody. -/
structure Touching (v v' : Flow) (key : String) (entry entry' : ActiveTransaction)
    (l : List Event) : Prop where
  get : v.guard.get key = some entry
  guard : v'.guard = v.guard.put key entry'
  fronted : v'.fronted = v.fronted
  trace : v'.trace = v.trace ++ l
  touch : ∃ reclaim handling, Touch v key entry entry' l reclaim handling

namespace Move

variable {v v' : Flow}

/-- A responder in front of the guard was there before, or is new. -/
theorem fronted_cases (h : Move v v') {w : Nat} {r : Responder} (hf : v'.fronted w = some r) :
    v.fronted w = some r ∨
      (r = v.trace.length ∧ v'.fronted = update v.fronted w (some r) ∧ v'.guard = v.guard ∧
        ∃ tx, v'.trace = v.trace ++ [.received tx true]) := by
  have hcleared {w' : Nat} (hf : update v.fronted w' none w = some r) : v.fronted w = some r := by
    rw [update_apply] at hf
    split at hf
    · cases hf
    · exact hf
  cases h with
  | traffic h => rw [h.fronted] at hf; exact .inl hf
  | custody h =>
      cases h with
      | @receive w' tx answerable _ =>
          by_cases hw : w = w'
          · subst hw
            dsimp only at hf ⊢
            rw [update_self] at hf
            cases answerable with
            | false => cases hf
            | true => cases hf; exact .inr ⟨rfl, rfl, rfl, tx, rfl⟩
          · dsimp only at hf
            rw [update_of_ne hw] at hf
            exact .inl hf
      | answerFront | dropFront | insert => exact .inl (hcleared hf)
      | touch | evict => exact .inl hf

/-- A new answer is given by the worker in front of the guard or by a section on
an entry. -/
theorem responded_new (h : Move v v') {l : List Event} (hl : v'.trace = v.trace ++ l)
    {r : Responder} {source : Source} {reply : UniversalPaymentEvent}
    (hmem : .responded r source reply ∈ l) :
    (source.front = true ∧ l = [.responded r source reply] ∧
        ∃ w, v.fronted w = some r ∧ v'.fronted = update v.fronted w none) ∨
      ∃ key entry entry', Touching v v' key entry entry' l := by
  cases h with
  | traffic h =>
      obtain ⟨l', hl', hquiet⟩ := h.quiet
      obtain rfl := List.append_cancel_left (hl.symm.trans hl')
      have := hquiet _ hmem
      simp [Event.quiet] at this
  | custody h =>
      cases h with
      | receive => obtain rfl := List.append_cancel_left hl; simp at hmem
      | dropFront =>
          obtain rfl := List.append_cancel_left ((List.append_nil _).trans hl)
          cases hmem
      | insert => obtain rfl := List.append_cancel_left hl; simp at hmem
      | evict => obtain rfl := List.append_cancel_left hl; simp at hmem
      | @answerFront w source' reply' hsource =>
          obtain rfl := List.append_cancel_left hl
          obtain ⟨r', hr', heq⟩ := mem_answers.mp hmem
          cases heq
          exact .inl ⟨hsource, by rw [hr']; rfl, w, hr', rfl⟩
      | touch hget htouch =>
          obtain rfl := List.append_cancel_left hl
          exact .inr ⟨_, _, _, hget, rfl, rfl, rfl, _, _, htouch⟩

theorem responded_cases (h : Move v v') {r : Responder} {source : Source}
    {reply : UniversalPaymentEvent} (hmem : .responded r source reply ∈ v'.trace) :
    .responded r source reply ∈ v.trace ∨
      (source.front = true ∧ v'.trace = v.trace ++ [.responded r source reply] ∧
        ∃ w, v.fronted w = some r ∧ v'.fronted = update v.fronted w none) ∨
      ∃ key entry entry' l, Touching v v' key entry entry' l ∧ .responded r source reply ∈ l := by
  obtain ⟨l, hl⟩ := h.trace_append
  rw [hl, List.mem_append] at hmem
  rcases hmem with hold | hnew
  · exact .inl hold
  · rcases h.responded_new hl hnew with ⟨hsource, rfl, hw⟩ | ⟨key, entry, entry', ht⟩
    · exact .inr (.inl ⟨hsource, hl, hw⟩)
    · exact .inr (.inr ⟨key, entry, entry', l, ht, hnew⟩)

/-- A responder in an entry was in that instance before, or came with the insert. -/
theorem holder_cases (h : Move v v') {key : String} {entry : ActiveTransaction} {r : Responder}
    (hget : v'.guard.get key = some entry) (hr : entry.responder = some r) :
    (∃ entry₀, v.guard.get key = some entry₀ ∧ entry₀.serial = entry.serial ∧
        entry₀.responder = some r) ∨
      ∃ tx, Insertion v v' key tx (some r) := by
  cases h with
  | traffic h => rw [h.guard] at hget; exact .inl ⟨entry, hget, rfl, hr⟩
  | custody h =>
      cases h with
      | receive | answerFront | dropFront => exact .inl ⟨entry, hget, rfl, hr⟩
      | @insert w tx now hnone _ =>
          rcases DashMap.get_put_eq_some.mp hget with ⟨rfl, rfl⟩ | ⟨-, hget⟩
          · rw [← show v.fronted w = some r from hr]
            exact .inr ⟨tx, rfl, hnone, ⟨_, DashMap.get_put_self _ _ _, rfl⟩, ⟨w, rfl, rfl⟩, rfl⟩
          · exact .inl ⟨entry, hget, rfl, hr⟩
      | touch hget' htouch =>
          rcases DashMap.get_put_eq_some.mp hget with ⟨rfl, rfl⟩ | ⟨-, hget⟩
          · refine .inl ⟨_, hget', htouch.serial.symm, ?_⟩
            rcases htouch.responder with heq | heq
            · exact heq ▸ hr
            · rw [heq] at hr
              cases hr
          · exact .inl ⟨entry, hget, rfl, hr⟩
      | evict => exact .inl ⟨entry, (DashMap.get_remove_eq_some.mp hget).2, rfl, hr⟩

/-- A move answers a responder at most once. -/
theorem countP_responded (h : Move v v') (r : Responder) :
    ∃ l, v'.trace = v.trace ++ l ∧ l.countP (Event.respondsTo r) ≤ 1 := by
  cases h with
  | traffic h =>
      obtain ⟨l, hl, hquiet⟩ := h.quiet
      refine ⟨l, hl, le_of_eq_of_le (List.countP_eq_zero.mpr fun e he => ?_) (Nat.zero_le 1)⟩
      have := hquiet e he
      cases e <;> simp [Event.quiet, Event.respondsTo] at this ⊢
  | custody h =>
      cases h with
      | receive => exact ⟨_, rfl, Nat.zero_le 1⟩
      | answerFront => exact ⟨_, rfl, countP_answers_le r _ _ _⟩
      | dropFront => exact ⟨[], (List.append_nil _).symm, Nat.zero_le 1⟩
      | insert => exact ⟨_, rfl, Nat.zero_le 1⟩
      | touch _ htouch => exact ⟨_, rfl, htouch.countP_responded r⟩
      | evict => exact ⟨_, rfl, Nat.zero_le 1⟩

end Move

/-! ## One place at a time -/

namespace Flow

/-- The responder has been used. -/
def Sent (v : Flow) (r : Responder) : Prop := ∃ source reply, .responded r source reply ∈ v.trace

structure Owned (v : Flow) : Prop where
  fronted_inj : ∀ {w w' r}, v.fronted w = some r → v.fronted w' = some r → w = w'
  fronted_lt : ∀ {w r}, v.fronted w = some r → r < v.trace.length
  fronted_fresh : ∀ {w r i key tx}, v.fronted w = some r → ¬ v.Inserted i key tx (some r)
  fronted_unsent : ∀ {w r}, v.fronted w = some r → ¬ v.Sent r
  inserted_lt : ∀ {i key tx r}, v.Inserted i key tx (some r) → r < i
  inserted_inj : ∀ {i j key key' tx tx' r}, v.Inserted i key tx (some r) →
    v.Inserted j key' tx' (some r) → i = j
  sent_lt : ∀ {r}, v.Sent r → r < v.trace.length
  entry_unsent : ∀ {key entry r}, v.guard.get key = some entry → entry.responder = some r →
    ¬ v.Sent r
  sent_front : ∀ {r source reply i key tx}, .responded r source reply ∈ v.trace →
    source.front = true → ¬ v.Inserted i key tx (some r)
  sent_serial : ∀ {r source reply i}, .responded r source reply ∈ v.trace →
    source.serial = some i → ∃ key tx, v.Inserted i key tx (some r)
  sent_once : ∀ r, v.trace.countP (Event.respondsTo r) ≤ 1

theorem Initial.owned {v : Flow} (h : v.Initial) : v.Owned := by
  constructor <;> simp [Inserted, Sent, h.trace, h.fronted, h.guard]

section Step

variable {Q : Discipline} {v v' : Flow}

/-- A responder in an entry came with the insert. -/
theorem Reachable.inserted_responder (h : Reachable Q v) {key : String}
    {entry : ActiveTransaction} {r : Responder} (hget : v.guard.get key = some entry)
    (hr : entry.responder = some r) : ∃ tx, v.Inserted entry.serial key tx (some r) := by
  obtain ⟨tx, r', hacc⟩ := h.accounted hget
  rcases hacc.responder with heq | heq
  · rw [hr] at heq
    exact ⟨tx, heq ▸ hacc.inserted⟩
  · rw [hr] at heq
    cases heq

namespace Owned

theorem keep_fronted_inj (hv : v.Owned) (hmove : Move v v') {w w' : Nat} {r : Responder}
    (hw : v'.fronted w = some r) (hw' : v'.fronted w' = some r) : w = w' := by
  rcases hmove.fronted_cases hw with hold | ⟨rfl, hnew, -⟩
  · rcases hmove.fronted_cases hw' with hold' | ⟨rfl, -⟩
    · exact hv.fronted_inj hold hold'
    · exact absurd (hv.fronted_lt hold) (Nat.lt_irrefl _)
  · rw [hnew, update_apply] at hw'
    split at hw'
    next heq => exact heq.symm
    next => exact absurd (hv.fronted_lt hw') (Nat.lt_irrefl _)

theorem keep_fronted_lt (hv : v.Owned) (hmove : Move v v') {w : Nat} {r : Responder}
    (hw : v'.fronted w = some r) : r < v'.trace.length := by
  rcases hmove.fronted_cases hw with hold | ⟨rfl, -, -, tx, htrace⟩
  · obtain ⟨l, hl⟩ := hmove.trace_append
    rw [hl, List.length_append]
    exact Nat.lt_add_right _ (hv.fronted_lt hold)
  · simp [htrace]

/-- The insert takes the responder from the worker in front of the guard. -/
theorem keep_fronted_fresh (hv : v.Owned) (hmove : Move v v') {w : Nat} {r : Responder}
    {i : Serial} {key : String} {tx : UniversalPaymentEvent} (hw : v'.fronted w = some r) :
    ¬ v'.Inserted i key tx (some r) := by
  intro hi
  rcases hmove.fronted_cases hw with hold | ⟨rfl, -, -, tx', htrace⟩
  · rcases hmove.inserted_cases hi with hiold | ⟨rfl, hins⟩
    · exact hv.fronted_fresh hold hiold
    · obtain ⟨w', hw', hfronted⟩ := hins.fronted
      rw [hv.fronted_inj hold hw'.symm, hfronted, update_self] at hw
      cases hw
  · have hiold : v.Inserted i key tx (some v.trace.length) := hi.old htrace (by simp)
    exact absurd (hv.inserted_lt hiold) (Nat.lt_asymm hiold.lt)

/-- A responder in front of the guard that is used leaves the front. -/
theorem keep_fronted_unsent (hv : v.Owned) (h : Reachable Q v) (hmove : Move v v') {w : Nat}
    {r : Responder} (hw : v'.fronted w = some r) : ¬ v'.Sent r := by
  rintro ⟨source, reply, hmem⟩
  rcases hmove.fronted_cases hw with hold | ⟨rfl, -, -, tx', htrace⟩
  · rcases hmove.responded_cases hmem with
      hsent | ⟨-, -, w', hw', hfronted⟩ | ⟨_, _, _, _, ht, hl⟩
    · exact hv.fronted_unsent hold ⟨source, reply, hsent⟩
    · rw [hv.fronted_inj hold hw', hfronted, update_self] at hw
      cases hw
    · obtain ⟨_, _, htouch⟩ := ht.touch
      obtain ⟨tx, hi⟩ := h.inserted_responder ht.get (htouch.responded hl).1
      exact hv.fronted_fresh hold hi
  · have hsent : v.Sent v.trace.length := ⟨source, reply, by simpa [htrace] using hmem⟩
    exact absurd (hv.sent_lt hsent) (Nat.lt_irrefl _)

theorem keep_inserted_lt (hv : v.Owned) (hmove : Move v v') {i : Serial} {key : String}
    {tx : UniversalPaymentEvent} {r : Responder} (hi : v'.Inserted i key tx (some r)) : r < i := by
  rcases hmove.inserted_cases hi with hold | ⟨rfl, hins⟩
  · exact hv.inserted_lt hold
  · obtain ⟨w, hw, -⟩ := hins.fronted
    exact hv.fronted_lt hw.symm

theorem keep_inserted_inj (hv : v.Owned) (hmove : Move v v') {i j : Serial} {key key' : String}
    {tx tx' : UniversalPaymentEvent} {r : Responder} (hi : v'.Inserted i key tx (some r))
    (hj : v'.Inserted j key' tx' (some r)) : i = j := by
  rcases hmove.inserted_cases hi with hiold | ⟨rfl, hins⟩
  · rcases hmove.inserted_cases hj with hjold | ⟨-, hins⟩
    · exact hv.inserted_inj hiold hjold
    · obtain ⟨w, hw, -⟩ := hins.fronted
      exact absurd hiold (hv.fronted_fresh hw.symm)
  · rcases hmove.inserted_cases hj with hjold | ⟨rfl, -⟩
    · obtain ⟨w, hw, -⟩ := hins.fronted
      exact absurd hjold (hv.fronted_fresh hw.symm)
    · rfl

theorem keep_sent_lt (hv : v.Owned) (h : Reachable Q v) (hmove : Move v v') {r : Responder}
    (hr : v'.Sent r) : r < v'.trace.length := by
  obtain ⟨l, hl⟩ := hmove.trace_append
  rw [hl, List.length_append]
  refine Nat.lt_add_right _ ?_
  obtain ⟨source, reply, hmem⟩ := hr
  rcases hmove.responded_cases hmem with hold | ⟨-, -, w, hw, -⟩ | ⟨_, _, _, _, ht, hmem⟩
  · exact hv.sent_lt ⟨source, reply, hold⟩
  · exact hv.fronted_lt hw
  · obtain ⟨_, _, htouch⟩ := ht.touch
    obtain ⟨tx, hi⟩ := h.inserted_responder ht.get (htouch.responded hmem).1
    exact Nat.lt_trans (hv.inserted_lt hi) hi.lt

/-- A responder in an entry that is used leaves the entry. -/
theorem keep_entry_unsent (hv : v.Owned) (h : Reachable Q v) (hmove : Move v v') {key : String}
    {entry : ActiveTransaction} {r : Responder} (hget : v'.guard.get key = some entry)
    (hr : entry.responder = some r) : ¬ v'.Sent r := by
  rintro ⟨source, reply, hmem⟩
  rcases hmove.holder_cases hget hr with ⟨entry₀, hget₀, -, hr₀⟩ | ⟨tx, hins⟩
  · obtain ⟨tx, hi⟩ := h.inserted_responder hget₀ hr₀
    rcases hmove.responded_cases hmem with hold | ⟨-, -, w, hw, -⟩ | ⟨key₁, _, _, _, ht, hl⟩
    · exact hv.entry_unsent hget₀ hr₀ ⟨source, reply, hold⟩
    · exact hv.fronted_fresh hw hi
    · -- Both entries hold `r`, so they are one entry, and it has lost `r`.
      obtain ⟨_, _, htouch⟩ := ht.touch
      obtain ⟨hr₁, hnone, -⟩ := htouch.responded hl
      obtain ⟨tx₁, hi₁⟩ := h.inserted_responder ht.get hr₁
      have hkey : key = key₁ := h.key_unique hget₀ ht.get (hv.inserted_inj hi hi₁)
      rw [ht.guard, hkey, DashMap.get_put_self, Option.some.injEq] at hget
      rw [← hget, hnone] at hr
      cases hr
  · obtain ⟨w, hw, -⟩ := hins.fronted
    refine hv.fronted_unsent hw.symm ⟨source, reply, ?_⟩
    simpa [hins.trace] using hmem

theorem keep_sent_front (hv : v.Owned) (hmove : Move v v') {r : Responder} {source : Source}
    {reply : UniversalPaymentEvent} {i : Serial} {key : String} {tx : UniversalPaymentEvent}
    (hmem : .responded r source reply ∈ v'.trace) (hsource : source.front = true) :
    ¬ v'.Inserted i key tx (some r) := by
  intro hi
  rcases hmove.responded_cases hmem with hold | ⟨-, htrace, w, hw, -⟩ | ⟨_, _, _, _, ht, hl⟩
  · rcases hmove.inserted_cases hi with hiold | ⟨-, hins⟩
    · exact hv.sent_front hold hsource hiold
    · obtain ⟨w, hw, -⟩ := hins.fronted
      exact hv.fronted_unsent hw.symm ⟨source, reply, hold⟩
  · exact hv.fronted_fresh hw (hi.old htrace (by simp))
  · obtain ⟨_, _, htouch⟩ := ht.touch
    have hserial := (htouch.responded hl).2.2
    rw [Source.serial_of_front hsource] at hserial
    cases hserial

theorem keep_sent_serial (hv : v.Owned) (h : Reachable Q v) (hmove : Move v v') {r : Responder}
    {source : Source} {reply : UniversalPaymentEvent} {i : Serial}
    (hmem : .responded r source reply ∈ v'.trace) (hserial : source.serial = some i) :
    ∃ key tx, v'.Inserted i key tx (some r) := by
  obtain ⟨l, hl⟩ := hmove.trace_append
  rcases hmove.responded_cases hmem with hold | ⟨hfront, -⟩ | ⟨key, _, _, _, ht, hmem⟩
  · obtain ⟨key, tx, hi⟩ := hv.sent_serial hold hserial
    exact ⟨key, tx, hi.grow hl⟩
  · rw [Source.serial_of_front hfront] at hserial
    cases hserial
  · obtain ⟨_, _, htouch⟩ := ht.touch
    obtain ⟨hr, -, hserial'⟩ := htouch.responded hmem
    obtain ⟨tx, hi⟩ := h.inserted_responder ht.get hr
    rw [hserial, Option.some.injEq] at hserial'
    exact ⟨key, tx, hserial' ▸ hi.grow hl⟩

/-- Whoever answers `r` had it, so `r` was unused. -/
theorem unsent_of_new (hv : v.Owned) (hmove : Move v v') {l : List Event}
    (hl : v'.trace = v.trace ++ l) {r : Responder} {source : Source}
    {reply : UniversalPaymentEvent} (hmem : .responded r source reply ∈ l) : ¬ v.Sent r := by
  rcases hmove.responded_new hl hmem with ⟨-, -, w, hw, -⟩ | ⟨_, _, _, ht⟩
  · exact hv.fronted_unsent hw
  · obtain ⟨_, _, htouch⟩ := ht.touch
    exact hv.entry_unsent ht.get (htouch.responded hmem).1

theorem keep_sent_once (hv : v.Owned) (hmove : Move v v') (r : Responder) :
    v'.trace.countP (Event.respondsTo r) ≤ 1 := by
  obtain ⟨l, hl, hcount⟩ := hmove.countP_responded r
  rw [hl, List.countP_append]
  rcases Nat.eq_zero_or_pos (l.countP (Event.respondsTo r)) with hzero | hpos
  · rw [hzero]
    exact hv.sent_once r
  · obtain ⟨e, he, hre⟩ := List.countP_pos_iff.mp hpos
    have hunsent : v.trace.countP (Event.respondsTo r) = 0 := by
      rw [List.countP_eq_zero]
      intro e' he' hre'
      cases e <;> simp [Event.respondsTo] at hre
      cases e' <;> simp [Event.respondsTo] at hre'
      subst hre hre'
      exact hv.unsent_of_new hmove hl he ⟨_, _, he'⟩
    rw [hunsent, Nat.zero_add]
    exact hcount

theorem keep (hv : v.Owned) (h : Reachable Q v) (hmove : Move v v') : v'.Owned where
  fronted_inj := hv.keep_fronted_inj hmove
  fronted_lt := hv.keep_fronted_lt hmove
  fronted_fresh := hv.keep_fronted_fresh hmove
  fronted_unsent := hv.keep_fronted_unsent h hmove
  inserted_lt := hv.keep_inserted_lt hmove
  inserted_inj := hv.keep_inserted_inj hmove
  sent_lt := hv.keep_sent_lt h hmove
  entry_unsent := hv.keep_entry_unsent h hmove
  sent_front := hv.keep_sent_front hmove
  sent_serial := hv.keep_sent_serial h hmove
  sent_once := hv.keep_sent_once hmove

end Owned

theorem Reachable.owned (h : Reachable Q v) : v.Owned :=
  h.invariant (fun _ => Initial.owned) fun _ _ hreach hv hmove => hv.keep hreach hmove.1

end Step

end Flow

/-! ## The reaper excludes everybody else -/

namespace Touch

variable {v : Flow} {key : String} {entry entry' : ActiveTransaction} {l : List Event}
  {reclaim : Option String} {handling : Nat → Option (Packet × String)}

/-- Nothing makes an entry `UpstreamSent` again. -/
theorem of_upstreamSent (h : Touch v key entry entry' l reclaim handling)
    (hstate : entry'.state = .upstreamSent) : entry.state = .upstreamSent ∧ l = [] := by
  cases h with
  | record => exact ⟨hstate, rfl⟩
  | mark | close | timeOut | complete | completeUnjournaled => cases hstate

/-- A timeout is about an entry that is `UpstreamSent`, and only the reaper
answers in it. -/
theorem timedOut (h : Touch v key entry entry' l reclaim handling) {i : Serial}
    {reversal : UniversalPaymentEvent} (hmem : .timedOut i reversal ∈ l) :
    i = entry.serial ∧ entry.state = .upstreamSent ∧ entry'.responder = none ∧
      ∀ {r source reply}, .responded r source reply ∈ l → source = .reaper i := by
  cases h with
  | mark | record | completeUnjournaled => simp at hmem
  | close => simp [mem_answers] at hmem
  | complete => simp [mem_answers] at hmem
  | timeOut sent hstate _ =>
      have hi : i = entry.serial := by
        simp [mem_answers, mem_reversals] at hmem
        exact hmem.1
      refine ⟨hi, hstate, rfl, fun {r source reply} hr => ?_⟩
      simp [mem_answers, mem_reversals] at hr
      rw [hi]
      exact hr.2.1

end Touch

/-- A new timeout is a section on an entry. -/
theorem Move.timedOut_new {v v' : Flow} (h : Move v v') {l : List Event}
    (hl : v'.trace = v.trace ++ l) {i : Serial} {reversal : UniversalPaymentEvent}
    (hmem : .timedOut i reversal ∈ l) : ∃ key entry entry', Touching v v' key entry entry' l := by
  cases h with
  | traffic h =>
      obtain ⟨l', hl', hquiet⟩ := h.quiet
      obtain rfl := List.append_cancel_left (hl.symm.trans hl')
      have := hquiet _ hmem
      simp [Event.quiet] at this
  | custody h =>
      obtain ⟨_, _, _, _, _, hget, hguard, hfronted, htouch⟩ := h.touch_of_new hl hmem rfl
      exact ⟨_, _, _, hget, hguard, hfronted, hl, _, _, htouch⟩

namespace Flow

variable {Q : Discipline} {v v' : Flow}

structure Exclusive (v : Flow) : Prop where
  timedOut_lt : ∀ {i reversal}, .timedOut i reversal ∈ v.trace → i < v.trace.length
  /-- The reaper may still time out what nobody has answered. -/
  open_unanswered : ∀ {key entry r source reply}, v.guard.get key = some entry →
    entry.state = .upstreamSent → .responded r source reply ∈ v.trace →
    source.serial ≠ some entry.serial
  /-- What the reaper has timed out nobody can answer. -/
  timedOut_closed : ∀ {key entry reversal}, v.guard.get key = some entry →
    .timedOut entry.serial reversal ∈ v.trace → entry.responder = none
  exclusive : ∀ {r source reply i reversal}, .responded r source reply ∈ v.trace →
    source.serial = some i → .timedOut i reversal ∈ v.trace → source = .reaper i

theorem Initial.exclusive {v : Flow} (h : v.Initial) : v.Exclusive := by
  constructor <;> simp [h.trace]

namespace Exclusive

/-- Moves that leave every entry as it is or remove it, and whose events are about
no instance. -/
theorem frame (hv : v.Exclusive) {l : List Event} (hl : v'.trace = v.trace ++ l)
    (hguard : ∀ key entry, v'.guard.get key = some entry → v.guard.get key = some entry)
    (hresponded : ∀ {r source reply}, .responded r source reply ∈ l → source.serial = none)
    (htimedOut : ∀ {i reversal}, .timedOut i reversal ∉ l) : v'.Exclusive where
  timedOut_lt hmem := by
    rw [hl, List.mem_append, or_iff_left htimedOut] at hmem
    rw [hl, List.length_append]
    exact Nat.lt_add_right _ (hv.timedOut_lt hmem)
  open_unanswered hget hstate hmem := by
    rw [hl, List.mem_append] at hmem
    rcases hmem with hold | hnew
    · exact hv.open_unanswered (hguard _ _ hget) hstate hold
    · simp [hresponded hnew]
  timedOut_closed hget hmem := by
    rw [hl, List.mem_append, or_iff_left htimedOut] at hmem
    exact hv.timedOut_closed (hguard _ _ hget) hmem
  exclusive hr hserial hmem := by
    rw [hl, List.mem_append] at hr
    rw [hl, List.mem_append, or_iff_left htimedOut] at hmem
    rcases hr with hold | hnew
    · exact hv.exclusive hold hserial hmem
    · rw [hresponded hnew] at hserial
      cases hserial

theorem keep_insert (hv : v.Exclusive) (h : Reachable Q v) {w : Nat} (tx : UniversalPaymentEvent)
    (now : Nat) (hget' : v'.guard = v.guard.put tx.guardKey
      { createdAt := now, state := .upstreamSent, responder := v.fronted w,
        transactionData := toPb tx, egressStan := none, serial := v.trace.length })
    (hl : v'.trace = v.trace ++ [.inserted tx.guardKey tx (v.fronted w)]) : v'.Exclusive where
  timedOut_lt hmem := by
    rw [hl, List.length_append]
    exact Nat.lt_add_right _ (hv.timedOut_lt (by simpa [hl] using hmem))
  open_unanswered hget hstate hmem := by
    rw [hl, List.mem_append, or_iff_left (by simp)] at hmem
    rw [hget'] at hget
    rcases DashMap.get_put_eq_some.mp hget with ⟨rfl, rfl⟩ | ⟨-, hget⟩
    · intro hserial
      obtain ⟨_, _, hi⟩ := h.owned.sent_serial hmem hserial
      exact absurd hi.lt (Nat.lt_irrefl _)
    · exact hv.open_unanswered hget hstate hmem
  timedOut_closed hget hmem := by
    rw [hl, List.mem_append, or_iff_left (by simp)] at hmem
    rw [hget'] at hget
    rcases DashMap.get_put_eq_some.mp hget with ⟨rfl, rfl⟩ | ⟨-, hget⟩
    · exact absurd (hv.timedOut_lt hmem) (Nat.lt_irrefl _)
    · exact hv.timedOut_closed hget hmem
  exclusive hr hserial hmem := by
    exact hv.exclusive (by simpa [hl] using hr) hserial (by simpa [hl] using hmem)

theorem keep_touch (hv : v.Exclusive) (h : Reachable Q v) {key : String}
    {entry entry' : ActiveTransaction} {l : List Event} (ht : Touching v v' key entry entry' l) :
    v'.Exclusive where
  timedOut_lt hmem := by
    obtain ⟨_, _, htouch⟩ := ht.touch
    rw [ht.trace, List.mem_append] at hmem
    rw [ht.trace, List.length_append]
    refine Nat.lt_add_right _ ?_
    rcases hmem with hold | hnew
    · exact hv.timedOut_lt hold
    · obtain ⟨tx, r, hacc⟩ := h.accounted ht.get
      rw [(htouch.timedOut hnew).1]
      exact hacc.inserted.lt
  open_unanswered {key₁ x r source reply} hget hstate hmem := by
    obtain ⟨_, _, htouch⟩ := ht.touch
    rw [ht.trace, List.mem_append] at hmem
    rw [ht.guard] at hget
    rcases DashMap.get_put_eq_some.mp hget with ⟨rfl, rfl⟩ | ⟨hne, hget⟩
    · obtain ⟨hstate₀, hl⟩ := htouch.of_upstreamSent hstate
      rw [hl] at hmem
      rw [htouch.serial]
      exact hv.open_unanswered ht.get hstate₀ (by simpa using hmem)
    · rcases hmem with hold | hnew
      · exact hv.open_unanswered hget hstate hold
      · -- The answer is about the entry under `key`.
        rw [(htouch.responded hnew).2.2]
        intro hserial
        exact hne (h.key_unique hget ht.get (Option.some.inj hserial).symm)
  timedOut_closed {key₁ x reversal} hget hmem := by
    obtain ⟨_, _, htouch⟩ := ht.touch
    rw [ht.trace, List.mem_append] at hmem
    rw [ht.guard] at hget
    rcases DashMap.get_put_eq_some.mp hget with ⟨rfl, rfl⟩ | ⟨hne, hget⟩
    · rcases hmem with hold | hnew
      · rw [htouch.serial] at hold
        rcases htouch.responder with heq | heq
        · rw [heq]
          exact hv.timedOut_closed ht.get hold
        · exact heq
      · exact (htouch.timedOut hnew).2.2.1
    · rcases hmem with hold | hnew
      · exact hv.timedOut_closed hget hold
      · exact absurd (h.key_unique hget ht.get (htouch.timedOut hnew).1) hne
  exclusive {r source reply i reversal} hr hserial hmem := by
    obtain ⟨_, _, htouch⟩ := ht.touch
    rw [ht.trace, List.mem_append] at hr hmem
    rcases hr with hr | hr
    · rcases hmem with hmem | hmem
      · exact hv.exclusive hr hserial hmem
      · -- The entry was open, so nobody had answered for it.
        obtain ⟨rfl, hstate, -⟩ := htouch.timedOut hmem
        exact absurd hserial (hv.open_unanswered ht.get hstate hr)
    · rcases hmem with hmem | hmem
      · -- The entry was timed out, so it had no responder.
        obtain ⟨hsome, -, hserial'⟩ := htouch.responded hr
        rw [hserial, Option.some.injEq] at hserial'
        rw [hv.timedOut_closed ht.get (hserial' ▸ hmem)] at hsome
        cases hsome
      · exact (htouch.timedOut hmem).2.2.2 hr

theorem keep (hv : v.Exclusive) (h : Reachable Q v) (hmove : Move v v') : v'.Exclusive := by
  cases hmove with
  | traffic hmove =>
      obtain ⟨l, hl, hquiet⟩ := hmove.quiet
      refine hv.frame hl (fun _ _ hget => hmove.guard ▸ hget) (fun hmem => ?_) fun hmem => ?_
      all_goals
        have := hquiet _ hmem
        simp [Event.quiet] at this
  | custody hmove =>
      cases hmove with
      | receive => exact hv.frame rfl (fun _ _ hget => hget) (by simp) (by simp)
      | answerFront reply hsource =>
          refine hv.frame rfl (fun _ _ hget => hget) (fun hmem => ?_) (by simp [mem_answers])
          obtain ⟨_, _, heq⟩ := mem_answers.mp hmem
          cases heq
          exact Source.serial_of_front hsource
      | dropFront =>
          exact hv.frame (List.append_nil _).symm (fun _ _ hget => hget) (by simp) (by simp)
      | insert tx now => exact hv.keep_insert h tx now rfl rfl
      | touch hget htouch => exact hv.keep_touch h ⟨hget, rfl, rfl, rfl, _, _, htouch⟩
      | evict =>
          exact hv.frame rfl (fun _ _ hget => (DashMap.get_remove_eq_some.mp hget).2) (by simp)
            (by simp)

end Exclusive

theorem Reachable.exclusive (h : Reachable Q v) : v.Exclusive :=
  h.invariant (fun _ => Initial.exclusive) fun _ _ hreach hv hmove => hv.keep hreach hmove.1

/-- What is timed out was inserted before. -/
theorem Reachable.timedOut_lt_of_move (h : Reachable Q v) (hmove : Move v v') {i : Serial}
    {reversal : UniversalPaymentEvent} (hmem : .timedOut i reversal ∈ v'.trace) :
    i < v.trace.length := by
  obtain ⟨l, hl⟩ := hmove.trace_append
  rw [hl, List.mem_append] at hmem
  rcases hmem with hold | hnew
  · exact h.exclusive.timedOut_lt hold
  · obtain ⟨key, entry, entry', ht⟩ := hmove.timedOut_new hl hnew
    obtain ⟨_, _, htouch⟩ := ht.touch
    obtain ⟨tx, r, hacc⟩ := h.accounted ht.get
    rw [(htouch.timedOut hnew).1]
    exact hacc.inserted.lt

end Flow

end Iso8583Switch
