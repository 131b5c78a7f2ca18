import Iso8583Switch.Flow.Responders
import Iso8583Switch.Flow.Wire
import Iso8583Switch.Flow.Runs

/-!
# What becomes of a bank reply

A reply worker removes the NAT entry of a STAN before it knows whose reply it
has.  So the reply to a request is lost when something else with its STAN came
first: a reply to a frame that was sent under its own STAN, a reply to nothing,
or the reaper collecting what it takes for a dead entry.
-/

namespace Iso8583Switch

open Text Function

namespace Flow

/-- An egress STAN is drawn when no guard entry has it on record, the reaper is
not about to collect it and no reply with it is queued.  What the bank sends
unasked has a STAN that the NAT does not know. -/
def RecordsApart : Discipline := fun v e =>
  match e with
  | .numbered _ stan =>
      (∀ key entry, v.guard.get key = some entry → entry.egressStan ≠ some stan) ∧
        v.reclaim ≠ some stan ∧ ∀ p ∈ v.inbox, p.transaction.stan ≠ stan
  | .replied p => p.answers = none → v.nat.get p.transaction.stan = none
  | _ => True

/-- What delivery needs. -/
structure RepliesApart (v : Flow) (e : Event) : Prop where
  bank : BankMirrors v e
  stans : StansApart v e
  records : RecordsApart v e

/-- The instance is asked under the STAN, and no worker has taken an answer yet. -/
structure Waiting (v : Flow) (i : Serial) (e : String) : Prop where
  asked : v.Asked i e
  untaken : ∀ {w p key n f}, v.handling w = some (p, key) → p.answers = some n →
    v.trace[n]? = some (.placed f) → ¬ f.Renumbered i

variable {v v' : Flow} {l : List Event}

/-! ## Entries that the reaper may still time out -/

/-- An entry that is `UpstreamSent` was so before, or is inserted by the move. -/
theorem upstreamSent_cases (h : Move v v') {key : String} {entry : ActiveTransaction}
    (hget : v'.guard.get key = some entry) (hstate : entry.state = .upstreamSent) :
    (∃ entry₀, v.guard.get key = some entry₀ ∧ entry₀.state = .upstreamSent ∧
        entry₀.serial = entry.serial ∧ entry₀.transactionData = entry.transactionData) ∨
      (entry.serial = v.trace.length ∧ ∃ tx r, v'.trace = v.trace ++ [.inserted key tx r]) := by
  cases h with
  | traffic h => rw [h.guard] at hget; exact .inl ⟨entry, hget, hstate, rfl, rfl⟩
  | custody h =>
      cases h with
      | receive | answerFront | dropFront => exact .inl ⟨entry, hget, hstate, rfl, rfl⟩
      | @insert w tx now _ _ =>
          rcases DashMap.get_put_eq_some.mp hget with ⟨rfl, rfl⟩ | ⟨-, hget⟩
          · exact .inr ⟨rfl, tx, v.fronted w, rfl⟩
          · exact .inl ⟨entry, hget, hstate, rfl, rfl⟩
      | touch hget' htouch =>
          rcases DashMap.get_put_eq_some.mp hget with ⟨rfl, rfl⟩ | ⟨-, hget⟩
          · exact .inl ⟨_, hget', (htouch.of_upstreamSent hstate).1, htouch.serial.symm,
              htouch.transactionData.symm⟩
          · exact .inl ⟨entry, hget, hstate, rfl, rfl⟩
      | evict => exact .inl ⟨entry, (DashMap.get_remove_eq_some.mp hget).2, hstate, rfl, rfl⟩

/-- An egress STAN is on record as before, or a context puts it on record. -/
theorem record_cases (h : Move v v') {key e : String} {entry : ActiveTransaction}
    (hget : v'.guard.get key = some entry) (he : entry.egressStan = some e) :
    (∃ entry₀, v.guard.get key = some entry₀ ∧ entry₀.egressStan = some e ∧
        entry₀.serial = entry.serial) ∨
      ∃ entry₀ w c, v.guard.get key = some entry₀ ∧ entry₀.serial = entry.serial ∧
        v.carried w = some c ∧ c.key = key ∧ c.egress = some e := by
  cases h with
  | traffic h => rw [h.guard] at hget; exact .inl ⟨entry, hget, he, rfl⟩
  | custody h =>
      cases h with
      | receive | answerFront | dropFront => exact .inl ⟨entry, hget, he, rfl⟩
      | insert =>
          rcases DashMap.get_put_eq_some.mp hget with ⟨rfl, rfl⟩ | ⟨-, hget⟩
          · cases he
          · exact .inl ⟨entry, hget, he, rfl⟩
      | touch hget' htouch =>
          rcases DashMap.get_put_eq_some.mp hget with ⟨rfl, rfl⟩ | ⟨-, hget⟩
          · cases htouch with
            | record hc hkey hegress =>
                exact .inr ⟨_, _, _, hget', rfl, hc, hkey, hegress.trans he⟩
            | mark | close | complete | completeUnjournaled => exact .inl ⟨_, hget', he, rfl⟩
            | timeOut => cases he
          · exact .inl ⟨entry, hget, he, rfl⟩
      | evict => exact .inl ⟨entry, (DashMap.get_remove_eq_some.mp hget).2, he, rfl⟩

/-- The reaper was about to collect the STAN before, or it times out an entry that
has it on record. -/
theorem reclaim_cases (h : Move v v') {e : String} (he : v'.reclaim = some e) :
    v.reclaim = some e ∨ ∃ key entry entry', v.guard.get key = some entry ∧
      entry.egressStan = some e ∧ v'.guard.get key = some entry' ∧ entry'.state = .reversed := by
  cases h with
  | custody h =>
      cases h with
      | touch hget htouch =>
          cases htouch with
          | timeOut => exact .inr ⟨_, _, _, hget, he, DashMap.get_put_self _ _ _, rfl⟩
          | mark | record | close | complete | completeUnjournaled => exact .inl he
      | receive | answerFront | dropFront | insert | evict => exact .inl he
  | traffic h =>
      cases h with
      | collect => cases he
      | _ => exact .inl he

/-- The answer that is being matched when the move begins is not to the request
of an instance that waits after it. -/
theorem Waiting.old (hheld : v.Held) (hmove : Move v v') (hl : v'.trace = v.trace ++ l) {i : Serial}
    {e : String} (h : v'.Waiting i e) (hold : v.Asked i e) : v.Waiting i e := by
  have hheld' : v'.Held := hheld.keep hmove
  refine ⟨hold, fun {w p key n f} hp hn hf hi => ?_⟩
  have hkept : v'.handling w = some (p, key) → False := fun hp' =>
    h.untaken hp' hn (hl ▸ History.kept hf) hi
  have hreq : f.origin.request = some i := by
    rw [show f.origin = .ingress i from hi]
    rfl
  cases hmove.wiring hl with
  | quiet _ _ mail _ | number _ _ _ _ _ mail _ | place _ _ _ _ _ mail _ | collect _ _ _ mail _ =>
      exact hkept (mail.handling ▸ hp)
  | reply _ _ _ _ handling _ => exact hkept (handling ▸ hp)
  | @translate w' _ _ _ hidle _ _ _ handling _ =>
      refine hkept ?_
      rw [handling, update_of_ne]
      · exact hp
      · rintro rfl
        rw [hidle] at hp
        cases hp
  | @handle w' p' key' completed hget _ mem _ _ handling _ =>
      by_cases hw : w = w'
      · -- The answer is handled, so its frame is not on the wire any more.
        subst hw
        cases hget.symm.trans hp
        have hf' : v'.trace[n]? = some (.placed f) := hl ▸ History.kept hf
        have hmem : .handled p completed ∈ v'.trace := hl ▸ List.mem_append_right _ mem
        rcases h.asked with ⟨w₁, c, hc, hserial, -⟩ | ⟨m, g, hg, hgi, -⟩
        · exact hheld'.carried_unplaced hc (History.mem hf') (hserial ▸ hreq)
        · have heq : m = n := History.position_unique (hheld'.placed_once i) hg.placed hf'
            (by simp [Event.requests, show g.origin = .ingress i from hgi, Origin.request])
            (by simpa [Event.requests] using hreq)
          subst heq
          exact hg.unanswered hmem hn
      · refine hkept ?_
        rw [handling, update_of_ne hw]
        exact hp

/-! ## The invariant -/

/-- Whoever is asked under an egress STAN has it alone, and as long as its entry is
`UpstreamSent` nothing but its own answer can take the NAT entry. -/
structure Delivering (v : Flow) : Prop where
  distinct : ∀ {i j e}, v.Asked i e → v.Asked j e → i = j
  recorded : ∀ {key entry e}, v.guard.get key = some entry → entry.state = .upstreamSent →
    v.Asked entry.serial e → v.reclaim ≠ some e ∧ ∀ {key' entry'},
      v.guard.get key' = some entry' → entry'.egressStan = some e → entry'.serial = entry.serial
  mapped : ∀ {key entry e}, v.guard.get key = some entry → entry.state = .upstreamSent →
    v.Waiting entry.serial e → v.nat.get e = some entry.transactionData.stan
  stray : ∀ {p}, p ∈ v.inbox → p.answers = none → v.nat.get p.transaction.stan = none

theorem Initial.delivering (h : v.Initial) : v.Delivering := by
  constructor
  · rintro i j e (⟨w, c, hc, -⟩ | ⟨n, f, hf, -⟩) _
    · rw [h.carried] at hc
      cases hc
    · have := hf.placed
      rw [h.trace] at this
      cases this
  · intro key entry e hget
    rw [h.guard, DashMap.get_empty] at hget
    cases hget
  · intro key entry e hget
    rw [h.guard, DashMap.get_empty] at hget
    cases hget
  · intro p hp
    rw [h.inbox] at hp
    cases hp

namespace Delivering

/-- A move of a disciplined run, with its events. -/
structure Next (v v' : Flow) (l : List Event) : Prop where
  reach : Reachable RepliesApart v
  move : Move v v'
  trace : v'.trace = v.trace ++ l
  apart : ∀ e ∈ l, RepliesApart v e

theorem keep_distinct (hv : v.Delivering) (h : Next v v' l) {i j : Serial} {e : String}
    (hi : v'.Asked i e) (hj : v'.Asked j e) :
    i = j := by
  have hunused {k : Serial} (hnew : l = [.numbered k e]) : v.Unused e :=
    (h.apart (.numbered k e) (hnew ▸ List.mem_cons_self)).stans
  rcases hi.cases h.reach.held h.trace (h.move.wiring h.trace) with hi | ⟨_, _, _, _, _, hnew, _⟩
  · rcases hj.cases h.reach.held h.trace (h.move.wiring h.trace) with hj | ⟨_, _, _, _, _, hnew, _⟩
    · exact hv.distinct hi hj
    · exact absurd hi ((hunused hnew).asked i)
  · rcases hj.cases h.reach.held h.trace (h.move.wiring h.trace) with hj | ⟨_, _, _, _, _, hnew', _⟩
    · exact absurd hj ((hunused hnew).asked j)
    · rw [hnew] at hnew'
      simpa using hnew'

theorem keep_recorded (hv : v.Delivering) (h : Next v v' l) {key e : String} {entry : ActiveTransaction}
    (hget : v'.guard.get key = some entry) (hstate : entry.state = .upstreamSent)
    (hasked : v'.Asked entry.serial e) : v'.reclaim ≠ some e ∧ ∀ {key' entry'},
      v'.guard.get key' = some entry' → entry'.egressStan = some e →
        entry'.serial = entry.serial := by
  rcases hasked.cases h.reach.held h.trace (h.move.wiring h.trace) with hold | ⟨w, c, hc, _, _, hnew, _⟩
  · obtain ⟨key₀, tx₀, r₀, hi⟩ := hold.inserted h.reach.held
    rcases upstreamSent_cases h.move hget hstate with
      ⟨entry₀, hget₀, hstate₀, hserial, -⟩ | ⟨hserial, -⟩
    · obtain ⟨hreclaim, hrecords⟩ := hv.recorded hget₀ hstate₀ (hserial ▸ hold)
      constructor
      · intro hreclaim'
        rcases reclaim_cases h.move hreclaim' with hold' | ⟨key', x, x', hx, hxe, hx', hreversed⟩
        · exact hreclaim hold'
        · -- The reaper has just timed the entry itself out.
          have hsame := h.reach.key_unique hx hget₀ (hrecords hx hxe)
          subst hsame
          cases hx'.symm.trans hget
          rw [hstate] at hreversed
          cases hreversed
      · intro key' entry' hget' he'
        rcases record_cases h.move hget' he' with ⟨x, hx, hxe, hxs⟩ | ⟨x, w, c, hx, hxs, hc, rfl, hce⟩
        · rw [← hxs, hrecords hx hxe, hserial]
        · -- The context of the entry itself records its STAN.
          have hci : c.serial = entry.serial :=
            hv.distinct (.inl ⟨w, c, hc, rfl, hce⟩) (hserial ▸ hold)
          obtain ⟨tx, r, hins, -⟩ := h.reach.held.carried_inserted hc
          obtain ⟨tx', r', hacc⟩ := h.reach.accounted hget₀
          obtain ⟨rfl, -⟩ := hins.unique (hci ▸ hserial ▸ hacc.inserted)
          cases hx.symm.trans hget₀
          rw [← hxs, hserial]
    · exact absurd hi.lt (hserial ▸ Nat.lt_irrefl _)
  · -- Nobody has a STAN on record that is just drawn.
    have hapart : RecordsApart v (.numbered entry.serial e) :=
      (h.apart (.numbered entry.serial e) (hnew ▸ List.mem_cons_self)).records
    obtain ⟨hrecords, hreclaim, -⟩ := hapart
    constructor
    · intro hreclaim'
      rcases reclaim_cases h.move hreclaim' with hold' | ⟨key', x, x', hx, hxe, -⟩
      · exact hreclaim hold'
      · exact hrecords key' x hx hxe
    · intro key' entry' hget' he'
      rcases record_cases h.move hget' he' with ⟨x, hx, hxe, -⟩ | ⟨x, w', c', hx, hxs, hc', -, hce⟩
      · exact absurd hxe (hrecords key' x hx)
      · have hunused : v.Unused e :=
          (h.apart (.numbered entry.serial e) (hnew ▸ List.mem_cons_self)).stans
        exact absurd (.inl ⟨w', c', hc', rfl, hce⟩) (hunused.asked c'.serial)

/-- What a worker takes is the answer of somebody else only if it has another STAN. -/
theorem taken_ne (hv : v.Delivering) (h : Next v v' l) {w : Nat} {p : Packet}
    {rest : List Packet} {e : String}
    {entry : ActiveTransaction} (hinbox : v.inbox = p :: rest)
    (hhandling : v'.handling = update v.handling w (some (p, replyKey v.nat p.transaction)))
    (hmapped : v.nat.get e = some entry.transactionData.stan)
    (hold : v.Asked entry.serial e) (hwait : v'.Waiting entry.serial e) :
    e ≠ p.transaction.stan := by
  rintro rfl
  have hmail : v.Mail := h.reach.mail fun _ _ happ => happ.bank
  have hin : p ∈ v.inbox := hinbox ▸ List.mem_cons_self
  cases hn : p.answers with
  | none =>
      rw [hv.stray hin hn] at hmapped
      cases hmapped
  | some n =>
      obtain ⟨f, hf, hmirrors⟩ := hmail.onWire (.inl hin) hn
      rcases f.renumbered_or_raw with ⟨j, hj⟩ | hraw
      · have hsame : j = entry.serial := hv.distinct (.inr ⟨n, f, hf, hj, hmirrors.stan.symm⟩) hold
        subst hsame
        have htaken : v'.handling w = some (p, replyKey v.nat p.transaction) := by
          rw [hhandling, update_self]
        exact hwait.untaken htaken hn (h.trace ▸ History.kept hf.placed) hj
      · rw [hmirrors.stan, (h.reach.translates fun _ _ happ => happ.stans).raw hf hraw] at hmapped
        cases hmapped

theorem keep_mapped (hv : v.Delivering) (h : Next v v' l) {key e : String} {entry : ActiveTransaction}
    (hget : v'.guard.get key = some entry) (hstate : entry.state = .upstreamSent)
    (hwait : v'.Waiting entry.serial e) : v'.nat.get e = some entry.transactionData.stan := by
  rcases hwait.asked.cases h.reach.held h.trace (h.move.wiring h.trace) with
    hold | ⟨w, c, hc, hnone, hserial, hnew, hnat⟩
  · obtain ⟨_, _, _, hi⟩ := hold.inserted h.reach.held
    rcases upstreamSent_cases h.move hget hstate with
      ⟨entry₀, hget₀, hstate₀, hserial, hdata⟩ | ⟨hserial, -⟩
    · rw [← hserial] at hold hwait
      have hmapped := hv.mapped hget₀ hstate₀ (hwait.old h.reach.held h.move h.trace hold)
      rw [← hdata]
      cases h.move.wiring h.trace with
      | quiet _ nat | place _ _ _ _ nat | reply _ _ nat | handle _ _ _ _ nat =>
          rw [nat]
          exact hmapped
      | number e' _ _ new nat =>
          have hunused : v.Unused e' :=
            (h.apart (.numbered _ e') (new ▸ List.mem_cons_self)).stans
          rw [nat, DashMap.get_put_ne]
          · exact hmapped
          · rintro rfl
            exact hunused.asked _ hold
      | translate hinbox _ _ nat _ handling _ =>
          rw [nat, DashMap.get_remove_ne _ (taken_ne hv h hinbox handling hmapped
            hold hwait)]
          exact hmapped
      | collect hreclaim _ nat =>
          rw [nat, DashMap.get_remove_ne]
          · exact hmapped
          · rintro rfl
            exact (hv.recorded hget₀ hstate₀ hold).1 hreclaim
    · exact absurd hi.lt (hserial ▸ Nat.lt_irrefl _)
  · rcases upstreamSent_cases h.move hget hstate with
      ⟨entry₀, hget₀, -, hserial₀, hdata⟩ | ⟨-, tx, r, hins⟩
    · obtain ⟨tx, r, hacc⟩ := h.reach.accounted hget₀
      obtain ⟨tx', r', hi, ⟨-, htx⟩ | ⟨e', he', -⟩⟩ := h.reach.held.carried_inserted hc
      · have hsame : c.serial = entry₀.serial := hserial.trans hserial₀.symm
        obtain ⟨-, rfl, -⟩ := hacc.inserted.unique (hsame ▸ hi)
        rw [hnat, DashMap.get_put_self, htx, ← hdata, hacc.transactionData]
        rfl
      · rw [hnone] at he'
        cases he'
    · have heq := List.append_cancel_left (h.trace.symm.trans hins)
      rw [hnew] at heq
      simp at heq

theorem keep_stray (hv : v.Delivering) (h : Next v v' l) {p : Packet} (hp : p ∈ v'.inbox)
    (hn : p.answers = none) :
    v'.nat.get p.transaction.stan = none := by
  have hold (hp : p ∈ v.inbox) : v'.nat.get p.transaction.stan = none := by
    rcases nat_cases (h.move.wiring h.trace) p.transaction.stan with hsame | hgone | ⟨j, hnew⟩
    · rw [hsame]
      exact hv.stray hp hn
    · exact hgone
    · have hapart : RecordsApart v (.numbered j p.transaction.stan) :=
        (h.apart _ (hnew ▸ List.mem_cons_self)).records
      exact absurd rfl (hapart.2.2 p hp)
  cases h.move.wiring h.trace with
  | quiet _ _ mail _ | number _ _ _ _ _ mail _ | place _ _ _ _ _ mail _ | collect _ _ _ mail _ =>
      exact hold (mail.inbox ▸ hp)
  | handle _ _ _ _ _ inbox _ _ => exact hold (inbox ▸ hp)
  | translate hcons _ _ _ inbox _ _ => exact hold (hcons ▸ List.mem_cons_of_mem _ (inbox ▸ hp))
  | reply q new nat inbox _ _ =>
      rw [inbox, List.mem_append, List.mem_singleton] at hp
      rcases hp with hp | rfl
      · exact hold hp
      · have hapart : RecordsApart v (.replied p) := (h.apart _ (new ▸ List.mem_cons_self)).records
        rw [nat]
        exact hapart hn

theorem keep (hv : v.Delivering) (hreach : Reachable RepliesApart v) (hmove : Move v v')
    (hall : ∀ e ∈ newEvents v v', RepliesApart v e) : v'.Delivering := by
  obtain ⟨l, hl⟩ := hmove.trace_append
  rw [newEvents_eq hl] at hall
  have h : Next v v' l := ⟨hreach, hmove, hl, hall⟩
  exact ⟨hv.keep_distinct h, hv.keep_recorded h, hv.keep_mapped h, hv.keep_stray h⟩

end Delivering

theorem Reachable.delivering (h : Reachable RepliesApart v) : v.Delivering :=
  h.invariant (fun _ => Initial.delivering) fun _ _ hreach hv ⟨hmove, hall⟩ =>
    hv.keep hreach hmove hall

/-! ## The key of an answer -/

/-- The frame is the request of an entry that is still `UpstreamSent`. -/
structure RequestOf (v : Flow) (n : Nat) (f : Frame) (key : String) (entry : ActiveTransaction) :
    Prop where
  placed : v.trace[n]? = some (.placed f)
  request : f.origin.request = some entry.serial
  get : v.guard.get key = some entry
  upstreamSent : entry.state = .upstreamSent

namespace RequestOf

variable {n : Nat} {f : Frame} {key : String} {entry : ActiveTransaction} {p : Packet}

/-- While the answer is in the inbox the instance waits for it. -/
theorem waiting (h : v.RequestOf n f key entry) (hreach : Reachable RepliesApart v)
    (hf : v.OnWire n f) (hrenumbered : f.Renumbered entry.serial)
    (huntaken : ∀ {w q key}, v.handling w = some (q, key) → q.answers ≠ some n) :
    v.Waiting entry.serial f.transaction.stan := by
  refine ⟨.inr ⟨n, f, hf, hrenumbered, rfl⟩, fun {w q key' m g} hq hm hg hgi => ?_⟩
  have heq : m = n := History.position_unique (hreach.held.placed_once entry.serial) hg h.placed
    (by simp [Event.requests, show g.origin = .ingress _ from hgi, Origin.request])
    (by simpa [Event.requests] using h.request)
  subst heq
  exact huntaken hq hm

/-- A worker that takes the answer translates it to the key of the entry. -/
theorem replyKey_eq (h : v.RequestOf n f key entry) (hreach : Reachable RepliesApart v)
    (hp : p ∈ v.inbox) (hn : p.answers = some n) : replyKey v.nat p.transaction = key := by
  have hmail : v.Mail := hreach.mail fun _ _ happ => happ.bank
  obtain ⟨f₀, hf, hmirrors⟩ := hmail.onWire (.inl hp) hn
  cases hf.placed.symm.trans h.placed
  obtain ⟨tx, r, hacc⟩ := hreach.accounted h.get
  obtain ⟨_, tx', r', hi, hrequests⟩ := hreach.held.placed_inserted (History.mem h.placed) h.request
  obtain ⟨rfl, rfl, -⟩ := hacc.inserted.unique hi
  have hkey : key = formatKey tx.rrn tx.stan (fromUtf8Lossy tx.acquirerId) :=
    hreach.inserted_key hacc.inserted
  rw [replyKey, hmirrors.rrn, hmirrors.stan, hmirrors.acquirerId, hkey]
  cases hrequests with
  | ingress e horigin htx =>
      have hwait := h.waiting hreach hf horigin fun hq hm =>
        hmail.inbox_handling hp hq hn hm
      rw [hreach.delivering.mapped h.get h.upstreamSent hwait, hacc.transactionData, htx]
      rfl
  | hsm pin horigin htx =>
      have hraw : f.Raw := fun i hi => by cases horigin.symm.trans hi
      rw [(hreach.translates fun _ _ happ => happ.stans).raw hf hraw, htx]
      rfl

end RequestOf

/-- What a worker has translated is under the key of the entry, in every
interleaving. -/
theorem Reachable.handling_key (h : Reachable RepliesApart v) {w : Nat} {p : Packet}
    {n : Nat} {f : Frame} {key key' : String} {entry : ActiveTransaction}
    (hp : v.handling w = some (p, key')) (hn : p.answers = some n)
    (hreq : v.RequestOf n f key entry) : key' = key := by
  refine h.invariant (I := fun v => ∀ w p n f key key' entry, v.handling w = some (p, key') →
    p.answers = some n → v.RequestOf n f key entry → key' = key) ?_ ?_ w p n f key key' entry hp hn
    hreq
  · intro v hv w p n f key key' entry hp
    rw [hv.handling] at hp
    cases hp
  · intro v v' hreach hv ⟨hmove, _⟩ w p n f key key' entry hp hn hreq
    obtain ⟨l, hl⟩ := hmove.trace_append
    have hmail : v.Mail := Reachable.mail (fun _ _ happ => happ.bank) hreach
    -- The frame was there before, and so was the entry.
    have hbefore (hin : v.InHand p) : ∃ entry₀, v.RequestOf n f key entry₀ := by
      obtain ⟨f₀, hf₀, -⟩ := hmail.onWire hin hn
      have hkept : v'.trace[n]? = some (.placed f₀) := hl ▸ History.kept hf₀.placed
      cases hkept.symm.trans hreq.placed
      rcases upstreamSent_cases hmove hreq.get hreq.upstreamSent with
        ⟨entry₀, hget₀, hstate₀, hserial, -⟩ | ⟨hserial, -⟩
      · exact ⟨entry₀, hf₀.placed, hserial ▸ hreq.request, hget₀, hstate₀⟩
      · obtain ⟨_, _, _, hi, -⟩ := (Reachable.held hreach).placed_inserted (History.mem hf₀.placed)
          hreq.request
        exact absurd hi.lt (hserial ▸ Nat.lt_irrefl _)
    have hold (hp : v.handling w = some (p, key')) : key' = key := by
      obtain ⟨entry₀, hreq₀⟩ := hbefore (.inr ⟨w, key', hp⟩)
      exact hv w p n f key key' entry₀ hp hn hreq₀
    cases hmove.wiring hl with
    | quiet _ _ mail _ | number _ _ _ _ _ mail _ | place _ _ _ _ _ mail _ | collect _ _ _ mail _ =>
        exact hold (mail.handling ▸ hp)
    | reply _ _ _ _ handling _ => exact hold (handling ▸ hp)
    | translate hcons _ _ _ _ handling _ =>
        rw [handling, update_apply] at hp
        split at hp
        · cases hp
          have hin : p ∈ v.inbox := hcons ▸ List.mem_cons_self
          obtain ⟨entry₀, hreq₀⟩ := hbefore (.inl hin)
          exact hreq₀.replyKey_eq hreach hin hn
        · exact hold hp
    | handle _ _ _ _ _ _ handling _ =>
        rw [handling, update_apply] at hp
        split at hp
        · cases hp
        · exact hold hp

end Flow

/-! ## One iteration of a reply worker -/

namespace Engine

/-- The section of the worker has completed the entry and answered its client. -/
structure Completes (s u : Engine) (w : Nat) (p : Packet) (key : String)
    (entry : ActiveTransaction) : Prop where
  guard : u.guard.get key = some { entry with state := .completed, responder := none }
  trace : u.trace = s.trace ++ (.handled p (some entry.serial) :: .appended p.transaction ::
    answers entry.responder (.bank entry.serial p) (approval p))
  evicting : u.repliers w = .evicting key

/-- The worker has removed the entry and is at the next reply. -/
structure Removes (u t : Engine) (w : Nat) (key : String) (entry : ActiveTransaction) : Prop where
  guard : t.guard = u.guard.remove key
  trace : t.trace = u.trace ++ [.evicted key entry.serial]
  idle : t.repliers w = .idle

theorem setReply_self (s : Engine) (w : Nat) (pc : ReplyPc) : (s.setReply w pc).repliers w = pc :=
  update_self _ _ _

theorem step_translated {s : Engine} {w : Nat} {p : Packet} {key : String}
    {entry : ActiveTransaction} (hpc : s.repliers w = .translated p key)
    (hget : s.guard.get key = some entry) (hstate : entry.state = .upstreamSent) :
    ∃ u, s.step (.reply w (.outcome true)) = some u ∧ Completes s u w p key entry := by
  refine ⟨s.complete w p key entry true, ?_, ?_, ?_, ?_⟩
  · have hne : entry.state ≠ .reversed := by
      rw [hstate]
      simp
    simp only [step, replyStep, hpc, replySection, hget, if_neg hne]
  · have hguard : (s.complete w p key entry true).guard =
        s.guard.put key { entry with state := .completed, responder := none } :=
      respond_guard _ _ _ _
    rw [hguard, DashMap.get_put_self]
  · have htrace : (s.complete w p key entry true).trace =
        ((s.trace ++ [.handled p (some entry.serial)]) ++ [.appended p.transaction]) ++
          answers entry.responder (.bank entry.serial p) (approval p) := by
      cases hr : entry.responder <;> simp [complete, respond, setReply, log, setGuard, answers, hr]
    rw [htrace]
    simp
  · exact setReply_self _ w _

theorem step_evicting {u : Engine} {w : Nat} {key : String} {entry : ActiveTransaction}
    (hpc : u.repliers w = .evicting key) (hget : u.guard.get key = some entry) :
    ∃ t, u.step (.reply w .run) = some t ∧ Removes u t w key entry := by
  refine ⟨(u.evict key).setReply w .idle, ?_, ?_, ?_, setReply_self _ w _⟩
  · simp only [step, replyStep, hpc]
  · simp only [evict, hget]
    rfl
  · simp only [evict, hget]
    rfl

end Engine

/-- The NAT entry of a forwarded request is there until a worker takes the answer. -/
def MappingKept (s : Engine) : Prop :=
  ∀ n f key entry, s.flow.RequestOf n f key entry → s.flow.OnWire n f →
    f.Renumbered entry.serial →
    (∀ {w q key}, s.flow.handling w = some (q, key) → q.answers ≠ some n) →
      s.mem.stanNat.get f.transaction.stan = some entry.transactionData.stan

/-- A worker that takes the answer to the request of an entry that is `UpstreamSent`
completes that entry, answers its client and removes it. -/
def RepliesDelivered (s : Engine) : Prop :=
  ∀ w p rest n f key entry, s.repliers w = .idle → s.bankReply = p :: rest →
    p.answers = some n → s.flow.RequestOf n f key entry →
      ∃ v u t, s.step (.reply w .run) = some v ∧ v.step (.reply w (.outcome true)) = some u ∧
        u.step (.reply w .run) = some t ∧ Engine.Completes s u w p key entry ∧
        Engine.Removes u t w key entry

/-- Also if others run in between, the section finds the entry. -/
def RepliesMatched (s : Engine) : Prop :=
  ∀ w p key' n f key entry, s.repliers w = .translated p key' → p.answers = some n →
    s.flow.RequestOf n f key entry →
      ∃ u, s.step (.reply w (.outcome true)) = some u ∧ Engine.Completes s u w p key entry

/-- In every run in which the STANs in use are kept apart and the journal takes the
reply, no reply is lost. -/
theorem no_reply_lost {s : Engine}
    (h : Engine.Reachable (Engine.Upholds Flow.RepliesApart) s) :
    MappingKept s ∧ RepliesDelivered s ∧ RepliesMatched s := by
  have hflow : Flow.Reachable Flow.RepliesApart s.flow := Engine.Reachable.flow (fun _ _ => id) h
  have hmail : s.flow.Mail := hflow.mail fun _ _ happ => happ.bank
  refine ⟨fun n f key entry hreq hf hrenumbered huntaken => ?_,
    fun w p rest n f key entry hidle hinbox hn hreq => ?_,
    fun w p key' n f key entry hpc hn hreq => ?_⟩
  · exact hflow.delivering.mapped hreq.get hreq.upstreamSent
      (hreq.waiting hflow hf hrenumbered huntaken)
  · have hin : p ∈ s.flow.inbox := by
      rw [Engine.flow_inbox, hinbox]
      exact List.mem_cons_self
    have hkey : replyKey s.mem.stanNat p.transaction = key := hreq.replyKey_eq hflow hin hn
    have htake : s.step (.reply w .run) = some (s.natInbound w p rest) := by
      simp only [Engine.step, Engine.replyStep, hidle, hinbox]
    have hpc : (s.natInbound w p rest).repliers w = .translated p key := by
      rw [← hkey]
      exact Engine.setReply_self _ w _
    obtain ⟨u, hsection, hcompletes⟩ := Engine.step_translated hpc hreq.get hreq.upstreamSent
    obtain ⟨t, hevict, hremoves⟩ := Engine.step_evicting hcompletes.evicting hcompletes.guard
    exact ⟨_, u, t, htake, hsection, hevict, ⟨hcompletes.guard, hcompletes.trace, hcompletes.evicting⟩,
      hremoves.guard, hremoves.trace, hremoves.idle⟩
  · have hhandling : s.flow.handling w = some (p, key') := by
      rw [Engine.flow_handling, hpc]
      rfl
    obtain rfl := hflow.handling_key hhandling hn hreq
    exact Engine.step_translated hpc hreq.get hreq.upstreamSent

/-! ## A purchase that is answered in time -/

theorem Flow.RepliesApart.of_silent (v : Flow) (e : Event) (h : e.silent = true) :
    Flow.RepliesApart v e := by
  cases e <;> first | exact ⟨trivial, trivial, trivial⟩ | cases h

set_option maxRecDepth 8000 in
theorem beforeNumber_repliesApart :
    Flow.RepliesApart (Engine.after beforeNumber).flow (.numbered 1 "000000") := by
  have hnone : ∀ x ∈ (Engine.after beforeNumber).guard.entries, x.2.egressStan = none := by decide
  refine ⟨trivial, Engine.beforeNumber_unused, fun key entry hget he => ?_, by decide, fun p hp => ?_⟩
  · cases (hnone _ (DashMap.mem_entries_of_get hget)).symm.trans he
  · cases hp

theorem asked_repliesApart :
    Flow.RepliesApart (Engine.after asked).flow (.replied purchaseApproval) := by
  refine ⟨fun n hn => ?_, trivial, nofun⟩
  cases hn
  exact Engine.asked_firstAnswer

set_option maxRecDepth 8000 in
theorem no_reply_lost_asked : ∃ entry v u t,
    (Engine.after (asked ++ [.bank purchaseApproval])).step (.reply 0 .run) = some v ∧
      v.step (.reply 0 (.outcome true)) = some u ∧ u.step (.reply 0 .run) = some t ∧
      Engine.Completes (Engine.after (asked ++ [.bank purchaseApproval])) u 0 purchaseApproval
        "RRN000000001-000100-ACQ1" entry ∧
      Engine.Removes u t 0 "RRN000000001-000100-ACQ1" entry := by
  have hrun := Engine.reachable_asked Flow.RepliesApart.of_silent ⟨trivial, trivial, trivial⟩
    beforeNumber_repliesApart ⟨trivial, fun hraw => absurd rfl (hraw 1), trivial⟩ asked_repliesApart
  have hreq : ∃ entry, (Engine.after (asked ++ [.bank purchaseApproval])).flow.RequestOf 5
      (purchaseFrame 1 "000000") "RRN000000001-000100-ACQ1" entry := ⟨_, by decide, rfl, rfl, rfl⟩
  obtain ⟨entry, hreq⟩ := hreq
  exact ⟨entry, (no_reply_lost hrun).2.1 0 purchaseApproval [] 5 _ _ entry rfl rfl rfl hreq⟩

/-! ## A PIN transaction with the STAN of another's frame -/

/-- A PIN purchase goes out under its own STAN.  This one has the egress STAN of
the purchase that is with the bank. -/
def pinTwin : UniversalPaymentEvent :=
  { purchase "000000" "RRN000000003" with pinBlock := asBytes "PINBLOCK" }

/-- The frame that the bank gets of it. -/
def twinFrame : Frame :=
  ⟨.hsm 7, .externalNode "MockVisaNode", 0, { pinTwin with pinBlock := asBytes "TRANSLATED" }⟩

/-- Both are with the bank. -/
def twins : List Action := asked ++ accept 1 pinTwin ++ forwardPin 1 7

/-- The twin is answered first, and the NAT entry of the purchase is gone. -/
def twinAnswered : List Action :=
  twins ++ [.bank (mirror 9 twinFrame.transaction)] ++ [.reply 0 .run, .reply 0 (.outcome true)]

set_option maxRecDepth 8000 in
theorem twins_mirrors :
    Flow.BankMirrors (Engine.after twins).flow (.replied (mirror 9 twinFrame.transaction)) := by
  intro n hn
  cases hn
  exact Engine.firstAnswer_of (f := twinFrame) (by decide) ⟨rfl, rfl, rfl⟩ (by decide)

set_option maxRecDepth 8000 in
theorem twinAnswered_mirrors :
    Flow.BankMirrors (Engine.after twinAnswered).flow (.replied purchaseApproval) := by
  intro n hn
  cases hn
  exact Engine.firstAnswer_of (f := purchaseFrame 1 "000000") (by decide) ⟨rfl, rfl, rfl⟩ (by decide)

set_option maxRecDepth 8000 in
/-- The approval of the purchase finds no entry, though the entry waits for it. -/
theorem twinAnswered_lost :
    ¬ ∀ s : Engine, Engine.Reachable (Engine.Upholds Flow.BankMirrors) s → RepliesDelivered s := by
  intro hevery
  have hfirst : Engine.Reachable (Engine.Upholds Flow.BankMirrors)
      (Engine.after (twins ++ [.bank (mirror 9 twinFrame.transaction)])) :=
    Engine.reachable_after_step (by decide)
      (Engine.reachable_after (Engine.Adds.upholds Flow.BankMirrors.of_not_replied) (by decide))
      (Engine.upholds_of_newEvents (l := [.replied (mirror 9 twinFrame.transaction)]) (by decide)
        (by simpa using twins_mirrors)) (by decide)
  have hrun : Engine.Reachable (Engine.Upholds Flow.BankMirrors)
      (Engine.after (twinAnswered ++ [.bank purchaseApproval])) :=
    Engine.reachable_after_step (by decide)
      (Engine.reachable_after_append (Engine.Adds.upholds Flow.BankMirrors.of_not_replied)
        (by decide) hfirst (by decide))
      (Engine.upholds_of_newEvents (l := [.replied purchaseApproval]) (by decide)
        (by simpa using twinAnswered_mirrors)) (by decide)
  have hreq : ∃ entry, (Engine.after (twinAnswered ++ [.bank purchaseApproval])).flow.RequestOf 5
      (purchaseFrame 1 "000000") "RRN000000001-000100-ACQ1" entry := ⟨_, by decide, rfl, rfl, rfl⟩
  obtain ⟨entry, hreq⟩ := hreq
  obtain ⟨v, u, t, hv, hu, -, hcompletes, -⟩ :=
    hevery _ hrun 0 purchaseApproval [] 5 _ _ entry rfl rfl rfl hreq
  -- After the section of the worker the entry is as it was.
  have hexec : Transition.exec Engine.step (Engine.after (twinAnswered ++ [.bank purchaseApproval]))
      [.reply 0 .run, .reply 0 (.outcome true)] = some u := by
    rw [Transition.exec_cons, hv, Option.bind_some, Transition.exec_cons, hu]
    rfl
  have hwaits : ((Transition.exec Engine.step (Engine.after (twinAnswered ++ [.bank purchaseApproval]))
      [.reply 0 .run, .reply 0 (.outcome true)]).bind fun u =>
        u.guard.get "RRN000000001-000100-ACQ1").map (·.state) = some .upstreamSent := by
    decide
  rw [hexec, Option.bind_some, hcompletes.guard] at hwaits
  cases hwaits

end Iso8583Switch
