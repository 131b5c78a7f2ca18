import Iso8583Switch.Flow.Reversals
import Iso8583Switch.Flow.Wire
import Iso8583Switch.Flow.Runs

/-!
# Whom a bank reply completes

A reply is matched under the key that is made of its RRN, its acquirer id and
what the NAT table has for its STAN, or the STAN itself where the table has
nothing.  So the reply to one transaction can complete another when the first
has lost its NAT entry and the second has the first's egress STAN as its own.
-/

namespace Iso8583Switch

open Text Function

/-- The keys that an answer to the frame can be matched under: the triple of the
frame, and as long as the NAT table knows its STAN, the triple of the request that
was renumbered. -/
inductive Flow.Matches (v : Flow) (f : Frame) (key : String) : Prop where
  | wire : key = f.transaction.guardKey → Flow.Matches v f key
  | original {i : Serial} {tx : UniversalPaymentEvent} {r : Option Responder} :
      f.Renumbered i → v.Inserted i key tx r → v.nat.get f.transaction.stan ≠ none →
      Flow.Matches v f key

/-- The bank answers each frame at most once, mirrors it, and sends nothing else. -/
def BankAnswers : Flow.Discipline := fun v e =>
  match e with
  | .replied p => ∃ n, p.answers = some n ∧ v.FirstAnswer p n
  | _ => True

/-- A transaction is in the guard under no key of a frame of somebody else that is
on the wire, nor under the key of an answer that is being matched. -/
def KeysApart : Flow.Discipline := fun v e =>
  match e with
  | .inserted key _ _ =>
      (∀ n f, v.OnWire n f → ¬ v.Matches f key) ∧ ∀ w p, v.handling w ≠ some (p, key)
  | .placed f => ∀ key entry, v.Matches f key → v.guard.get key = some entry →
      f.origin.serial = some entry.serial
  | _ => True

/-- What correlation needs. -/
structure TriplesApart (v : Flow) (e : Event) : Prop where
  bank : BankAnswers v e
  stans : Flow.StansApart v e
  keys : KeysApart v e

/-- Whoever is sent an approval, the reply was to the request that was forwarded
for that entry. -/
def CorrelationSound (s : Engine) : Prop :=
  ∀ r i packet reply, .responded r (.bank i packet) reply ∈ s.trace →
    ∃ n f, packet.answers = some n ∧ s.trace[n]? = some (.placed f) ∧ f.origin.request = some i

/-- Only the section of a reply worker gives an answer of the bank. -/
theorem Touch.bank {v : Flow} {key : String} {entry entry' : ActiveTransaction} {l : List Event}
    {reclaim : Option String} {handling : Nat → Option (Packet × String)}
    (h : Touch v key entry entry' l reclaim handling) {r : Responder} {i : Serial} {p : Packet}
    {reply : UniversalPaymentEvent} (hmem : .responded r (.bank i p) reply ∈ l) :
    i = entry.serial ∧ entry.responder = some r ∧ ∃ w, v.handling w = some (p, key) := by
  cases h with
  | complete hget _ =>
      simp [mem_answers] at hmem
      obtain ⟨hr, ⟨rfl, rfl⟩, -⟩ := hmem
      exact ⟨rfl, hr, _, hget⟩
  | mark | record | close | timeOut | completeUnjournaled =>
      simp [mem_answers, mem_reversals] at hmem

namespace Flow

variable {Q : Discipline} {v v' : Flow} {l : List Event}

theorem bankMirrors_of_answers {v : Flow} {e : Event} (h : BankAnswers v e) : BankMirrors v e := by
  cases e with
  | replied p =>
      obtain ⟨n, hn, hfirst⟩ := h
      intro m hm
      cases hn.symm.trans hm
      exact hfirst
  | _ => trivial

/-- Every reply answers a frame. -/
theorem Reachable.answers_some (hQ : ∀ v e, Q v e → BankAnswers v e) (h : Reachable Q v) {p : Packet}
    (hmem : .replied p ∈ v.trace) : ∃ n, p.answers = some n := by
  refine h.invariant (I := fun v => ∀ p, .replied p ∈ v.trace → ∃ n, p.answers = some n) ?_ ?_ p hmem
  · intro v hv p hmem
    rw [hv.trace] at hmem
    cases hmem
  · intro v v' _ hv ⟨hmove, hall⟩ p hmem
    obtain ⟨l, hl⟩ := hmove.trace_append
    rw [newEvents_eq hl] at hall
    rw [hl, List.mem_append] at hmem
    rcases hmem with hold | hnew
    · exact hv p hold
    · obtain ⟨n, hn, -⟩ := hQ _ _ (hall _ hnew)
      exact ⟨n, hn⟩

/-- A frame gets no new keys. -/
theorem Matches.old (hl : v'.trace = v.trace ++ l) (hw : Wiring v v' l) {f : Frame} {key : String}
    (hins : ∀ {i}, f.Renumbered i → ∃ key tx r, v.Inserted i key tx r)
    (hnew : ∀ {i}, l ≠ [.numbered i f.transaction.stan]) (h : v'.Matches f key) :
    v.Matches f key := by
  cases h with
  | wire h => exact .wire h
  | original hi hins' hnat =>
      obtain ⟨key₀, tx₀, r₀, hi₀⟩ := hins hi
      obtain ⟨rfl, -⟩ := (hi₀.grow hl).unique hins'
      refine .original hi hi₀ ?_
      rcases nat_cases hw f.transaction.stan with hsame | hgone | ⟨i, hl'⟩
      · exact hsame ▸ hnat
      · exact absurd hgone hnat
      · exact absurd hl' hnew

/-- A worker translates an answer to a key of the frame. -/
theorem replyKey_matches (hheld : v.Held) (hnat : v.Translates) (hreach : Reachable Q v) {p : Packet}
    {n : Nat} {f : Frame} (hf : v.OnWire n f) (hp : p.Mirrors f) :
    v.Matches f (replyKey v.nat p.transaction) := by
  rw [replyKey, hp.rrn, hp.stan, hp.acquirerId]
  rcases f.renumbered_or_raw with ⟨i, hi⟩ | hraw
  · have hreq : f.origin.request = some i := by
      rw [show f.origin = .ingress i from hi]
      rfl
    obtain ⟨key, tx, r, hins, hrequests⟩ := hheld.placed_inserted (History.mem hf.placed) hreq
    rcases hnat.asked (.inr ⟨n, f, hf, hi, rfl⟩) hins with hnone | hsome
    · rw [hnone]
      exact .wire rfl
    · cases hrequests with
      | ingress e _ htx =>
          have hkey := hreach.inserted_key hins
          rw [UniversalPaymentEvent.guardKey] at hkey
          rw [hkey] at hins
          rw [hsome, htx, Option.getD_some]
          exact .original hi hins (by rw [htx] at hsome; rw [htx, hsome]; simp)
      | hsm pin horigin _ => cases hi.symm.trans horigin
  · rw [hnat.raw hf hraw]
    exact .wire rfl

/-- Nobody else's entry is under a key of a frame on the wire, nor under the key
that an answer to it has been translated to. -/
structure Correlated (v : Flow) : Prop where
  keyed : ∀ {n f key entry}, v.OnWire n f → v.Matches f key → v.guard.get key = some entry →
    f.origin.serial = some entry.serial
  handling : ∀ {w p key n f entry}, v.handling w = some (p, key) → p.answers = some n →
    v.OnWire n f → v.guard.get key = some entry → f.origin.serial = some entry.serial
  sound : ∀ {r i p reply}, .responded r (.bank i p) reply ∈ v.trace →
    ∃ n f, p.answers = some n ∧ v.trace[n]? = some (.placed f) ∧ f.origin.request = some i

theorem Initial.correlated (h : v.Initial) : v.Correlated := by
  constructor
  · intro n f key entry hf
    have := hf.placed
    rw [h.trace] at this
    cases this
  · intro w p key n f entry hp
    rw [h.handling] at hp
    cases hp
  · intro r i p reply hmem
    rw [h.trace] at hmem
    cases hmem

namespace Correlated

theorem keep_keyed (hv : v.Correlated) (hheld : v.Held) (hmove : Move v v')
    (hl : v'.trace = v.trace ++ l) (hall : ∀ e ∈ l, TriplesApart v e) {n : Nat} {f : Frame}
    {key : String} {entry : ActiveTransaction} (hf : v'.OnWire n f) (hk : v'.Matches f key)
    (hget : v'.guard.get key = some entry) : f.origin.serial = some entry.serial := by
  have hinserted {tx : UniversalPaymentEvent} {r : Option Responder}
      (hins : Insertion v v' key tx r) : l = [.inserted key tx r] :=
    List.append_cancel_left (hl.symm.trans hins.trace)
  have hreq {i : Serial} (hi : f.Renumbered i) : f.origin.request = some i := by
    rw [show f.origin = .ingress i from hi]
    rfl
  rcases hf.cases hl with hold | ⟨-, hnew⟩
  · have hk' : v.Matches f key := by
      refine hk.old hl (hmove.wiring hl) (fun hi => ?_) fun {i} hnumbered => ?_
      · obtain ⟨key, tx, r, hins, -⟩ := hheld.placed_inserted (History.mem hold.placed) (hreq hi)
        exact ⟨key, tx, r, hins⟩
      · have hunused : v.Unused f.transaction.stan :=
          (hall (.numbered i f.transaction.stan) (hnumbered ▸ List.mem_cons_self)).stans
        exact hunused.onWire hold rfl
    rcases hmove.entry_cases hget with ⟨entry₀, hget₀, hserial⟩ | ⟨tx, r, hins⟩
    · rw [← hserial]
      exact hv.keyed hold hk' hget₀
    · have hapart : KeysApart v (.inserted key tx r) :=
        (hall _ (hinserted hins ▸ List.mem_cons_self)).keys
      exact absurd hk' (hapart.1 n f hold)
  · have hk' : v.Matches f key := by
      refine hk.old hl (hmove.wiring hl) (fun hi => ?_) fun hnumbered => ?_
      · rcases hmove.request_new hl hnew (hreq hi) with
          ⟨-, -, w, c, _, hc, rfl, -⟩ | ⟨horigin, -⟩
        · obtain ⟨tx, r, hins, -⟩ := hheld.carried_inserted hc
          exact ⟨c.key, tx, r, hins⟩
        · cases hi.symm.trans horigin
      · rw [hnumbered] at hnew
        simp at hnew
    rcases hmove.entry_cases hget with ⟨entry₀, hget₀, hserial⟩ | ⟨tx, r, hins⟩
    · rw [← hserial]
      exact (hall _ hnew).keys key entry₀ hk' hget₀
    · rw [hinserted hins] at hnew
      simp at hnew

theorem keep_handling (hv : v.Correlated) (hreach : Reachable TriplesApart v) (hmove : Move v v')
    (hl : v'.trace = v.trace ++ l) (hall : ∀ e ∈ l, TriplesApart v e) {w : Nat} {p : Packet}
    {key : String} {n : Nat} {f : Frame} {entry : ActiveTransaction}
    (hp : v'.handling w = some (p, key)) (hn : p.answers = some n) (hf : v'.OnWire n f)
    (hget : v'.guard.get key = some entry) : f.origin.serial = some entry.serial := by
  have hmail : v.Mail := hreach.mail fun _ _ h => bankMirrors_of_answers h.bank
  have hwire (hp : v.InHand p) : v.OnWire n f := by
    obtain ⟨f₀, hf₀, -⟩ := hmail.onWire hp hn
    refine (hf.cases hl).resolve_right fun ⟨hle, _⟩ => ?_
    exact absurd (History.lt_length hf₀.placed) (Nat.not_lt.mpr hle)
  have hold (hp : v.handling w = some (p, key)) : f.origin.serial = some entry.serial := by
    rcases hmove.entry_cases hget with ⟨entry₀, hget₀, hserial⟩ | ⟨tx, r, hins⟩
    · rw [← hserial]
      exact hv.handling hp hn (hwire (.inr ⟨w, key, hp⟩)) hget₀
    · have hl' : l = [.inserted key tx r] := List.append_cancel_left (hl.symm.trans hins.trace)
      have hapart : KeysApart v (.inserted key tx r) := (hall _ (hl' ▸ List.mem_cons_self)).keys
      exact absurd hp (hapart.2 w p)
  cases hmove.wiring hl with
  | quiet _ _ mail _ | number _ _ _ _ _ mail _ | place _ _ _ _ _ mail _ | collect _ _ _ mail _ =>
      exact hold (mail.handling ▸ hp)
  | reply _ _ _ _ handling _ => exact hold (handling ▸ hp)
  | translate hcons _ new _ _ handling _ =>
      rw [handling, update_apply] at hp
      split at hp
      · cases hp
        have hin : v.InHand p := .inl (hcons ▸ List.mem_cons_self)
        obtain ⟨f₀, hf₀, hmirrors⟩ := hmail.onWire hin hn
        cases hf₀.placed.symm.trans (hwire hin).placed
        have hk := replyKey_matches hreach.held (hreach.translates fun _ _ h => h.stans) hreach hf₀
          hmirrors
        rcases hmove.entry_cases hget with ⟨entry₀, hget₀, hserial⟩ | ⟨tx, r, hins⟩
        · rw [← hserial]
          exact hv.keyed hf₀ hk hget₀
        · -- Taking a reply inserts nothing.
          have hl' := hl.symm.trans hins.trace
          rw [new] at hl'
          simp at hl'
      · exact hold hp
  | handle _ _ _ _ _ _ handling _ =>
      rw [handling, update_apply] at hp
      split at hp
      · cases hp
      · exact hold hp

theorem keep_sound (hv : v.Correlated) (hreach : Reachable TriplesApart v) (hmove : Move v v')
    (hl : v'.trace = v.trace ++ l) {r : Responder} {i : Serial} {p : Packet}
    {reply : UniversalPaymentEvent} (hmem : .responded r (.bank i p) reply ∈ v'.trace) :
    ∃ n f, p.answers = some n ∧ v'.trace[n]? = some (.placed f) ∧ f.origin.request = some i := by
  rw [hl, List.mem_append] at hmem
  rcases hmem with hold | hnew
  · obtain ⟨n, f, hn, hf, hreq⟩ := hv.sound hold
    exact ⟨n, f, hn, hl ▸ History.kept hf, hreq⟩
  · rcases hmove.responded_new hl hnew with ⟨hfront, -⟩ | ⟨key, entry, entry', ht⟩
    · cases hfront
    · obtain ⟨_, _, htouch⟩ := ht.touch
      obtain ⟨rfl, hr, w, hp⟩ := htouch.bank hnew
      have hmail : v.Mail := hreach.mail fun _ _ h => bankMirrors_of_answers h.bank
      have hin : v.InHand p := .inr ⟨w, key, hp⟩
      obtain ⟨n, hn⟩ := hreach.answers_some (fun _ _ h => h.bank) (hmail.replied hin)
      obtain ⟨f, hf, -⟩ := hmail.onWire hin hn
      refine ⟨n, f, hn, hl ▸ History.kept hf.placed, ?_⟩
      have hserial := hv.handling hp hn hf ht.get
      cases horigin : f.origin with
      | ingress j | hsm j => rw [horigin] at hserial; exact hserial
      | probe => rw [horigin] at hserial; cases hserial
      | reaper j =>
          -- The entry was timed out, and nobody waits for it any more.
          rw [horigin] at hserial
          cases hserial
          obtain ⟨reversal, hmem⟩ := hreach.reversal_timedOut (History.mem hf.placed) horigin
          rw [hreach.exclusive.timedOut_closed ht.get hmem] at hr
          cases hr

theorem keep (hv : v.Correlated) (hreach : Reachable TriplesApart v) (hmove : Move v v')
    (hall : ∀ e ∈ newEvents v v', TriplesApart v e) : v'.Correlated := by
  obtain ⟨l, hl⟩ := hmove.trace_append
  rw [newEvents_eq hl] at hall
  exact ⟨hv.keep_keyed hreach.held hmove hl hall, hv.keep_handling hreach hmove hl hall,
    hv.keep_sound hreach hmove hl⟩

end Correlated

theorem Reachable.correlated (h : Reachable TriplesApart v) : v.Correlated :=
  h.invariant (fun _ => Initial.correlated) fun _ _ hreach hv ⟨hmove, hall⟩ =>
    hv.keep hreach hmove hall

end Flow

/-- In every run in which the triples of live transactions and of frames on the
wire differ and no two uses of a STAN meet, correlation is sound. -/
theorem reply_correlation_sound {s : Engine}
    (h : Engine.Reachable (Engine.Upholds TriplesApart) s) : CorrelationSound s :=
  fun _ _ _ _ hmem => (Engine.Reachable.flow (fun _ _ => id) h).correlated.sound hmem

/-! ## A purchase that is answered in time -/

theorem TriplesApart.of_silent (v : Flow) (e : Event) (h : e.silent = true) : TriplesApart v e := by
  cases e <;> first | exact ⟨trivial, trivial, trivial⟩ | cases h

set_option maxRecDepth 8000 in
theorem beforeInsert_apart : TriplesApart (Engine.after beforeInsert).flow
    (.inserted "RRN000000001-000100-ACQ1" (purchase "000100" "RRN000000001") (some 0)) := by
  refine ⟨trivial, trivial, fun n f hf => ?_, fun w p hp => ?_⟩
  · exact absurd hf (Engine.not_onWire (by decide))
  · cases hp

set_option maxRecDepth 8000 in
theorem beforeSend_apart :
    TriplesApart (Engine.after beforeSend).flow (.placed (purchaseFrame 1 "000000")) := by
  refine ⟨trivial, fun hraw => absurd rfl (hraw 1), fun key entry _ hget => ?_⟩
  have hone : ∀ x ∈ (Engine.after beforeSend).guard.entries, x.2.serial = 1 := by decide
  exact congrArg some (hone _ (DashMap.mem_entries_of_get hget)).symm

theorem asked_answers : BankAnswers (Engine.after asked).flow (.replied purchaseApproval) :=
  ⟨5, rfl, Engine.asked_firstAnswer⟩

set_option maxRecDepth 8000 in
theorem reply_correlation_sound_asked :
    ∃ n f, purchaseApproval.answers = some n ∧
      (Engine.after (asked ++ [.bank purchaseApproval] ++
        [.reply 0 .run, .reply 0 (.outcome true), .reply 0 .run])).trace[n]? = some (.placed f) ∧
      f.origin.request = some 1 := by
  have hrun := Engine.reachable_asked TriplesApart.of_silent beforeInsert_apart
    ⟨trivial, Engine.beforeNumber_unused, trivial⟩ beforeSend_apart
    ⟨asked_answers, trivial, trivial⟩
  exact reply_correlation_sound
    (Engine.reachable_after_append (Engine.Adds.upholds TriplesApart.of_silent) (by decide) hrun
      (by decide)) 0 1 purchaseApproval (Engine.approval purchaseApproval) (by decide)

/-! ## A late reply -/

/-- The key of an insertion. -/
def Event.insertedKey : Event → Option String
  | .inserted key _ _ => some key
  | _ => none

/-- No triple is inserted twice. -/
def TriplesDistinct (s : Engine) : Prop := (s.trace.filterMap Event.insertedKey).Nodup

instance (s : Engine) : Decidable (TriplesDistinct s) := inferInstanceAs (Decidable (List.Nodup _))

theorem BankAnswers.of_not_replied (v : Flow) (e : Event) (h : (!e.isReplied) = true) :
    BankAnswers v e := by
  cases e <;> trivial

/-- A purchase is timed out and its NAT entry collected.  The next one has the same
RRN, and its own STAN is the egress STAN of the first. -/
def revived : List Action :=
  .storeRouter visaRouter :: accept 0 (purchase "000100" "RRN000000001") ++ forward 0 true ++
    reap "RRN000000001-000100-ACQ1" ++ accept 1 (purchase "000000" "RRN000000001")

set_option maxRecDepth 8000 in
theorem revived_answers : BankAnswers (Engine.after revived).flow (.replied purchaseApproval) :=
  ⟨5, rfl, Engine.firstAnswer_of (f := purchaseFrame 1 "000000") (by decide) ⟨rfl, rfl, rfl⟩
    (by decide)⟩

set_option maxRecDepth 8000 in
/-- The approval of the first purchase is sent to the client of the second. -/
theorem revived_miscorrelated :
    ¬ ∀ s : Engine, Engine.Reachable (Engine.Upholds BankAnswers) s → TriplesDistinct s →
      CorrelationSound s := by
  intro hevery
  have hanswered : Engine.Reachable (Engine.Upholds BankAnswers)
      (Engine.after (revived ++ [.bank purchaseApproval])) :=
    Engine.reachable_after_step (by decide)
      (Engine.reachable_after (Engine.Adds.upholds BankAnswers.of_not_replied) (by decide))
      (Engine.upholds_of_newEvents (l := [.replied purchaseApproval]) (by decide)
        (by simpa using revived_answers)) (by decide)
  have hrun : Engine.Reachable (Engine.Upholds BankAnswers)
      (Engine.after (revived ++ [.bank purchaseApproval] ++
        [.reply 0 .run, .reply 0 (.outcome true), .reply 0 .run])) :=
    Engine.reachable_after_append (Engine.Adds.upholds BankAnswers.of_not_replied) (by decide)
      hanswered (by decide)
  obtain ⟨n, f, hn, hf, hrequest⟩ := hevery _ hrun (by decide) 10 11 purchaseApproval
    (Engine.approval purchaseApproval) (by decide)
  cases hn
  cases hf
  cases hrequest

end Iso8583Switch
