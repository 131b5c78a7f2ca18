import Iso8583Switch.Engine.Timeouts
import Iso8583Switch.Flow.Paths
import Iso8583Switch.Flow.Reversals
import Iso8583Switch.Flow.Runs

/-!
# What the reaper reverses

The reaper builds a 0420 from the request that the guard saved and routes it
anew.  It does not know whether the request was forwarded, on which channel and
under which STAN.  So the 0420 matches the forwarded request only where saving
and routing happen to agree with forwarding.
-/

namespace Iso8583Switch

open Text Function

/-! ## Requests and reversals on external channels -/

def Frame.External (f : Frame) : Prop := ∃ node, f.destination = .externalNode node

/-- The request of the instance has been placed on an external channel. -/
structure Forwarded (trace : List Event) (i : Serial) (f : Frame) : Prop where
  placed : .placed f ∈ trace
  request : f.origin.request = some i
  external : f.External

/-- A 0420 for the instance has been placed on an external channel. -/
structure Reversed (trace : List Event) (i : Serial) (g : Frame) : Prop where
  placed : .placed g ∈ trace
  origin : g.origin = .reaper i
  mti : g.transaction.mti = asBytes "0420"
  external : g.External

/-- The reversal undoes the request: the same channel and the same five fields. -/
structure Frame.Undoes (g f : Frame) : Prop where
  channel : g.channel = f.channel
  stan : g.transaction.stan = f.transaction.stan
  rrn : g.transaction.rrn = f.transaction.rrn
  fpan : g.transaction.fpan = f.transaction.fpan
  amount : g.transaction.amount = f.transaction.amount
  acquirerId : g.transaction.acquirerId = f.transaction.acquirerId

/-- The timeout of an instance at position `n`: it is reversed exactly when it
was forwarded before, and then the reversal undoes the request. -/
structure TimeoutMatches (trace : List Event) (n : Nat) (i : Serial) : Prop where
  reversed_iff : (∃ g, Reversed trace i g) ↔ ∃ f, Forwarded (trace.take n) i f
  undoes : ∀ f g, Forwarded (trace.take n) i f → Reversed trace i g → g.Undoes f

/-- Every timeout matches. -/
def ReversalsMatch (s : Engine) : Prop :=
  ∀ (n : Nat) (i : Serial) (reversal : UniversalPaymentEvent),
    s.trace[n]? = some (.timedOut i reversal) → TimeoutMatches s.trace n i

/-- What the reversal of an entry meets where it matches.  `ok` tells whether the
send on the channel succeeds. -/
inductive Fits (s : Engine) (entry : ActiveTransaction) (ok : Bool) : Prop where
  /-- The request is on no external channel, and the reversal gets nowhere. -/
  | unsent :
      (∀ f, ¬ Forwarded s.trace entry.serial f) →
      s.mem.reversalChannel (asBytes entry.transactionData.pan) = none ∨ ok = false →
      Fits s entry ok
  /-- The request is on the channel of its primary, under the STAN of the
  terminal, and its PAN and acquirer id are UTF-8. -/
  | sent (f : Frame) (destination : RouteDestination) :
      Forwarded s.trace entry.serial f →
      s.mem.reversalChannel (asBytes entry.transactionData.pan) = some (destination, f.channel) →
      ok = true →
      f.transaction.stan = entry.transactionData.stan →
      f.transaction.fpan = asBytes entry.transactionData.pan →
      f.transaction.acquirerId = asBytes entry.transactionData.acquirerId →
      Fits s entry ok

/-- The step times nothing out, or what it times out fits. -/
def ReversesFitting (s : Engine) (a : Action) : Prop :=
  ∀ key rest entry ok, s.TimesOut a key rest entry ok → Fits s entry ok

/-! ## The timeout of one entry -/

theorem GlobalState.reversalChannel_external {g : GlobalState} {fpan : Bytes}
    {target : RouteDestination × ChannelId} (h : g.reversalChannel fpan = some target) :
    ∃ node, target.1 = .externalNode node := by
  unfold reversalChannel at h
  split at h
  · split at h
    · obtain ⟨ch, -, rfl⟩ := Option.map_eq_some_iff.mp h
      exact ⟨_, rfl⟩
    · cases h
  · cases h

section Matching

variable {s t : Engine} {key : String} {entry : ActiveTransaction} {ok : Bool}

/-- A timeout that later events say nothing about matches as before. -/
theorem TimeoutMatches.grow {trace l : List Event} {n : Nat} {i : Serial}
    (h : TimeoutMatches trace n i) (hn : n ≤ trace.length)
    (hl : ∀ g, .placed g ∈ l → g.origin ≠ .reaper i) : TimeoutMatches (trace ++ l) n i := by
  have hreversed (g : Frame) : Reversed (trace ++ l) i g ↔ Reversed trace i g := by
    constructor
    · rintro ⟨hplaced, horigin, hmti, hext⟩
      rcases List.mem_append.mp hplaced with hold | hnew
      · exact ⟨hold, horigin, hmti, hext⟩
      · exact absurd horigin (hl g hnew)
    · exact fun h => ⟨List.mem_append_left _ h.placed, h.origin, h.mti, h.external⟩
  constructor
  · rw [List.take_append_of_le_length hn, ← h.reversed_iff]
    exact exists_congr hreversed
  · intro f g hf hg
    rw [List.take_append_of_le_length hn] at hf
    exact h.undoes f g hf ((hreversed g).mp hg)

/-- The requests that count at the timeout are those of the state before. -/
theorem forwarded_answers {trace : List Event} {i : Serial} {f : Frame}
    {responder : Option Responder} {source : Source} {reply : UniversalPaymentEvent} :
    Forwarded (trace ++ answers responder source reply) i f ↔ Forwarded trace i f := by
  constructor
  · rintro ⟨hplaced, hreq, hext⟩
    exact ⟨by simpa [mem_answers] using hplaced, hreq, hext⟩
  · exact fun h => ⟨List.mem_append_left _ h.placed, h.request, h.external⟩

/-- The reversals of the entry are what its timeout sends. -/
theorem reversed_timeOut (h : Engine.Reachable Transition.Free s)
    (hget : s.guard.get key = some entry) (hstate : entry.state = .upstreamSent) {g : Frame} :
    Reversed (s.timeOut key entry ok).trace entry.serial g ↔
      ∃ target, s.reversalSent entry ok = some target ∧
        g = ⟨.reaper entry.serial, target.1, target.2, Engine.autoReversal entry⟩ := by
  have hflow := Engine.Reachable.flow_free h
  rw [Engine.timeOut_trace]
  constructor
  · rintro ⟨hplaced, horigin, -, -⟩
    simp only [List.mem_append, List.mem_cons, mem_answers, mem_reversals] at hplaced
    rcases hplaced with (hold | ⟨_, _, heq⟩) | heq | ⟨target, hsent, heq⟩
    · obtain ⟨reversal, hmem⟩ := hflow.reversal_timedOut hold horigin
      exact absurd hstate (hflow.timedOut_done hget hmem)
    · cases heq
    · cases heq
    · exact ⟨target, hsent, Event.placed.inj heq⟩
  · rintro ⟨target, hsent, rfl⟩
    refine ⟨?_, rfl, rfl, ?_⟩
    · simp only [List.mem_append, List.mem_cons, mem_reversals]
      exact .inr (.inr ⟨target, hsent, rfl⟩)
    · unfold Engine.reversalSent at hsent
      split at hsent
      · exact GlobalState.reversalChannel_external hsent
      · cases hsent

theorem reversalSent_eq_none : s.reversalSent entry ok = none ↔
    s.mem.reversalChannel (asBytes entry.transactionData.pan) = none ∨ ok = false := by
  cases ok <;> simp [Engine.reversalSent]

theorem reversalSent_eq_some {target : RouteDestination × ChannelId} :
    s.reversalSent entry ok = some target ↔
      s.mem.reversalChannel (asBytes entry.transactionData.pan) = some target ∧ ok = true := by
  cases ok <;> simp [Engine.reversalSent]

/-- The frame of a request has the RRN and the amount that the guard saved. -/
theorem Forwarded.saved (h : Engine.Reachable Transition.Free s)
    (hget : s.guard.get key = some entry) {f : Frame} (hf : Forwarded s.trace entry.serial f) :
    (Engine.autoReversal entry).rrn = f.transaction.rrn ∧
      (Engine.autoReversal entry).amount = f.transaction.amount := by
  have hflow := Engine.Reachable.flow_free h
  obtain ⟨tx, r, hacc⟩ := hflow.accounted hget
  obtain ⟨_, tx', r', hi, hrequests⟩ := hflow.held.placed_inserted hf.placed hf.request
  obtain ⟨-, rfl, -⟩ := hacc.inserted.unique hi
  have hrrn : (Engine.autoReversal entry).rrn = tx.rrn := by
    rw [Engine.autoReversal, hacc.transactionData]
    rfl
  have hamount : (Engine.autoReversal entry).amount = tx.amount := by
    rw [Engine.autoReversal, hacc.transactionData]
    exact fromPb_toPb_amount tx
  rw [hrrn, hamount]
  cases hrequests with
  | ingress e _ hf => rw [hf]; exact ⟨rfl, rfl⟩
  | hsm pin _ hf => rw [hf]; exact ⟨rfl, rfl⟩

/-- A request is on one channel. -/
theorem Forwarded.unique (h : Engine.Reachable Transition.Free s) {i : Serial} {f g : Frame}
    (hf : Forwarded s.trace i f) (hg : Forwarded s.trace i g) : f = g := by
  obtain ⟨m, hm⟩ := List.mem_iff_getElem?.mp hf.placed
  obtain ⟨n, hn⟩ := List.mem_iff_getElem?.mp hg.placed
  have heq : m = n :=
    History.position_unique ((Engine.Reachable.flow_free h).held.placed_once i) hm hn
      (by simpa [Event.requests] using hf.request) (by simpa [Event.requests] using hg.request)
  subst heq
  exact Event.placed.inj (Option.some.inj (hm.symm.trans hn))

/-- The timeout of an entry matches exactly when it fits. -/
theorem timeOut_matches_iff (h : Engine.Reachable Transition.Free s)
    (hget : s.guard.get key = some entry) (hstate : entry.state = .upstreamSent) :
    TimeoutMatches (s.timeOut key entry ok).trace
      (s.trace ++ answers entry.responder (.reaper entry.serial) (Engine.timeoutReply entry)).length
      entry.serial ↔ Fits s entry ok := by
  have htake {f : Frame} : Forwarded ((s.timeOut key entry ok).trace.take
      (s.trace ++ answers entry.responder (.reaper entry.serial)
        (Engine.timeoutReply entry)).length) entry.serial f ↔ Forwarded s.trace entry.serial f := by
    rw [Engine.timeOut_trace, List.take_left, forwarded_answers]
  constructor
  · rintro ⟨hiff, hundoes⟩
    by_cases hforwarded : ∃ f, Forwarded s.trace entry.serial f
    · obtain ⟨f, hf⟩ := hforwarded
      obtain ⟨g, hg⟩ := hiff.mpr ⟨f, htake.mpr hf⟩
      have hundo := hundoes f g (htake.mpr hf) hg
      obtain ⟨target, hsent, rfl⟩ := (reversed_timeOut h hget hstate).mp hg
      obtain ⟨hroute, hok⟩ := reversalSent_eq_some.mp hsent
      refine .sent f target.1 hf ?_ hok hundo.stan.symm hundo.fpan.symm hundo.acquirerId.symm
      rw [hroute, ← hundo.channel]
    · refine .unsent (fun f hf => hforwarded ⟨f, hf⟩) ?_
      rw [← reversalSent_eq_none, Option.eq_none_iff_forall_ne_some]
      intro target hsent
      obtain ⟨f, hf⟩ := hiff.mp ⟨_, (reversed_timeOut h hget hstate).mpr ⟨target, hsent, rfl⟩⟩
      exact hforwarded ⟨f, htake.mp hf⟩
  · rintro (⟨hunsent, hnone⟩ | ⟨f, destination, hf, hroute, hok, hstan, hfpan, hacquirer⟩)
    · have hnot (g : Frame) : ¬ Reversed (s.timeOut key entry ok).trace entry.serial g := by
        intro hg
        obtain ⟨target, hsent, -⟩ := (reversed_timeOut h hget hstate).mp hg
        rw [reversalSent_eq_none.mpr hnone] at hsent
        cases hsent
      exact ⟨⟨fun ⟨g, hg⟩ => absurd hg (hnot g), fun ⟨f, hf⟩ => absurd (htake.mp hf) (hunsent f)⟩,
        fun f g _ hg => absurd hg (hnot g)⟩
    · have hsent := reversalSent_eq_some.mpr ⟨hroute, hok⟩
      refine ⟨⟨fun _ => ⟨_, htake.mpr hf⟩,
        fun _ => ⟨_, (reversed_timeOut h hget hstate).mpr ⟨_, hsent, rfl⟩⟩⟩, fun f' g hf' hg => ?_⟩
      obtain rfl := hf.unique h (htake.mp hf')
      obtain ⟨target, hsent', rfl⟩ := (reversed_timeOut h hget hstate).mp hg
      obtain rfl := Option.some.inj (hsent.symm.trans hsent')
      obtain ⟨hrrn, hamount⟩ := hf.saved h hget
      exact ⟨rfl, hstan.symm, hrrn, hfpan.symm, hamount, hacquirer.symm⟩

end Matching

/-! ## Runs -/

section Runs

variable {s t : Engine} {a : Action}

/-- A step that times nothing out changes nothing about the timeouts. -/
theorem ReversalsMatch.keep_untimed (h : Engine.Reachable Transition.Free s)
    (hm : ReversalsMatch s) (hstep : s.step a = some t) (hsame : t.timeouts = s.timeouts) :
    ReversalsMatch t := by
  rcases Engine.step_flow (Engine.Reachable.disowned h) hstep with heq | hmove
  · rw [ReversalsMatch, ← Engine.flow_trace, heq]
    exact hm
  · obtain ⟨l, hl⟩ := hmove.trace_append
    rw [Engine.flow_trace, Engine.flow_trace] at hl
    have hnone {i : Serial} {reversal : UniversalPaymentEvent} : .timedOut i reversal ∉ l := by
      intro hmem
      rw [Engine.timeouts, Engine.timeouts, hl, List.filter_append, List.append_right_eq_self] at hsame
      exact List.not_mem_nil (hsame ▸ List.mem_filter.mpr ⟨hmem, rfl⟩)
    intro n i reversal hn
    rw [hl] at hn ⊢
    have hold := History.old hn hnone
    refine (hm n i reversal hold).grow (Nat.le_of_lt (History.lt_length hold)) fun g hg horigin => ?_
    obtain ⟨_, hmem⟩ := Flow.reversal_new hmove hl hg horigin
    exact hnone hmem

/-- The timeouts before a timeout match afterwards as before. -/
theorem ReversalsMatch.timeOut_iff (h : Engine.Reachable Transition.Free s)
    (hm : ReversalsMatch s) {key : String} {entry : ActiveTransaction} {ok : Bool}
    (hget : s.guard.get key = some entry) (hstate : entry.state = .upstreamSent)
    (ht : t.trace = (s.timeOut key entry ok).trace) : ReversalsMatch t ↔ Fits s entry ok := by
  rw [← timeOut_matches_iff h hget hstate]
  have htrace := Engine.timeOut_trace s key entry ok
  constructor
  · intro ht'
    rw [← ht]
    refine ht' _ entry.serial (Engine.autoReversal entry) ?_
    rw [ht, htrace]
    exact History.logged_at_length
  · intro hnew n i reversal hn
    rw [ht] at hn ⊢
    rw [htrace] at hn
    rcases History.getElem?_append_eq_some.mp hn with hn | ⟨hle, hn⟩
    · -- An older timeout, which is of another instance.
      have hold := History.old hn (by simp [mem_answers])
      have hi : i ≠ entry.serial := by
        rintro rfl
        exact (Engine.Reachable.flow_free h).timedOut_done hget (History.mem hold) hstate
      rw [htrace, List.append_assoc]
      refine (hm n i reversal hold).grow (Nat.le_of_lt (History.lt_length hold)) fun g hg horigin => ?_
      simp only [List.mem_append, List.mem_cons, mem_answers, mem_reversals] at hg
      rcases hg with ⟨_, _, heq⟩ | heq | ⟨_, _, heq⟩
      · cases heq
      · cases heq
      · cases heq
        exact hi (Origin.reaper.inj horigin).symm
    · rcases Nat.eq_zero_or_pos (n - (s.trace ++ answers entry.responder (.reaper entry.serial)
        (Engine.timeoutReply entry)).length) with hzero | hpos
      · rw [hzero] at hn
        cases hn
        rwa [Nat.le_antisymm (Nat.sub_eq_zero_iff_le.mp hzero) hle]
      · -- After the timeout there is at most the frame.
        obtain ⟨k, hk⟩ := Nat.exists_eq_succ_of_ne_zero (Nat.ne_of_gt hpos)
        rw [hk, List.getElem?_cons_succ] at hn
        obtain ⟨_, _, heq⟩ := mem_reversals.mp (History.mem hn)
        cases heq

theorem reversesFitting_iff {key : String} {rest : List String} {entry : ActiveTransaction}
    {ok : Bool} (h : s.TimesOut a key rest entry ok) : ReversesFitting s a ↔ Fits s entry ok := by
  constructor
  · exact fun hfit => hfit key rest entry ok h
  · intro hfit key' rest' entry' ok' h'
    cases h.action.symm.trans h'.action
    cases h.reaper.symm.trans h'.reaper
    cases h.guard.symm.trans h'.guard
    exact hfit

/-- A step keeps the match exactly when what it times out fits. -/
theorem reversalsMatch_step (h : Engine.Reachable Transition.Free s) (hm : ReversalsMatch s)
    (hstep : s.step a = some t) : ReversalsMatch t ↔ ReversesFitting s a := by
  by_cases htimes : ∃ key rest entry ok, s.TimesOut a key rest entry ok
  · obtain ⟨key, rest, entry, ok, htimes⟩ := htimes
    rw [reversesFitting_iff htimes]
    refine hm.timeOut_iff h htimes.guard htimes.upstreamSent ?_
    rw [htimes.step_eq hstep]
    rfl
  · have hsame := (Engine.timeouts_step hstep).resolve_right htimes
    exact ⟨fun _ key rest entry ok h => absurd ⟨key, rest, entry, ok, h⟩ htimes,
      fun _ => hm.keep_untimed h hstep hsame⟩

theorem reversalsMatch_initial (h : s.Initial) : ReversalsMatch s := by
  intro n i reversal hn
  rw [h.trace] at hn
  cases hn

end Runs

/-- In every run whose timeouts fit, every timeout matches, and the first timeout
that does not fit is one that does not match. -/
theorem reversals_match (s : Engine) :
    (Engine.Reachable ReversesFitting s → ReversalsMatch s) ∧
    ∀ (t : Engine) (a : Action), Engine.Reachable Transition.Free s → ReversalsMatch s →
      s.step a = some t → (ReversalsMatch t ↔ ReversesFitting s a) := by
  constructor
  · intro h
    refine h.invariant (fun _ => reversalsMatch_initial) fun s t hs hm ⟨a, hfit, hstep⟩ => ?_
    exact (reversalsMatch_step (Transition.Reachable.free hs) hm hstep).mpr hfit
  · exact fun t a h hm hstep => reversalsMatch_step h hm hstep

/-! ## The condition is met, and it is needed -/

/-- The step is not the first pass of the reaper on an entry. -/
def Action.spares : Action → Bool
  | .reaper (.outcome _) => false
  | _ => true

theorem ReversesFitting.of_spares (s : Engine) (a : Action) (h : a.spares = true) :
    ReversesFitting s a := by
  rintro key rest entry ok ⟨rfl, -⟩
  cases h

/-- The reaper comes to a PIN purchase that the bank leaves unanswered. -/
def pinExpired : List Action :=
  .storeRouter visaRouter :: accept 0 pinPurchase ++ forwardPin 0 1 ++
    [.tick 101, .reaper .run, .reaper (.visit "RRN000000001-000100-ACQ1"), .reaper .run]

set_option maxRecDepth 8000 in
theorem pinExpired_fits :
    ReversesFitting (Engine.after pinExpired) (.reaper (.outcome true)) := by
  have htimes : ∃ rest entry, (Engine.after pinExpired).TimesOut (.reaper (.outcome true))
      "RRN000000001-000100-ACQ1" rest entry true ∧ entry.serial = 1 ∧
        entry.transactionData = toPb pinPurchase :=
    ⟨_, _, ⟨rfl, rfl, rfl, rfl⟩, rfl, rfl⟩
  obtain ⟨rest, entry, htimes, hserial, hdata⟩ := htimes
  refine (reversesFitting_iff htimes).mpr
    (.sent (pinFrame 1) (.externalNode "MockVisaNode") ⟨?_, ?_, _, rfl⟩ ?_ rfl ?_ ?_ ?_)
  · decide
  · rw [hserial]; rfl
  · rw [hdata]; rfl
  · rw [hdata]; rfl
  · rw [hdata]; rfl
  · rw [hdata]; rfl

set_option maxRecDepth 8000 in
theorem reversals_match_pinExpired :
    ∃ g, Reversed (Engine.after (pinExpired ++ [.reaper (.outcome true)])).trace 1 g ∧
      g.Undoes (pinFrame 1) := by
  have hrun : Engine.Reachable ReversesFitting
      (Engine.after (pinExpired ++ [.reaper (.outcome true)])) :=
    Engine.reachable_after_step (by decide)
      (Engine.reachable_after ReversesFitting.of_spares (by decide)) pinExpired_fits (by decide)
  have hm := (reversals_match _).1 hrun 5 1 (fromPb { toPb pinPurchase with mti := "0420" }) (by decide)
  have hf : Forwarded ((Engine.after (pinExpired ++ [.reaper (.outcome true)])).trace.take 5) 1
      (pinFrame 1) := ⟨by decide, rfl, _, rfl⟩
  obtain ⟨g, hg⟩ := hm.reversed_iff.mpr ⟨_, hf⟩
  exact ⟨g, hg, hm.undoes _ g hf hg⟩

/-- The reaper times out a purchase that was forwarded. -/
def forwardedExpired : List Action :=
  .storeRouter visaRouter :: accept 0 (purchase "000100" "RRN000000001") ++ forward 0 true ++
    reap "RRN000000001-000100-ACQ1"

set_option maxRecDepth 8000 in
/-- The bank has seen STAN 000000 and is told to reverse STAN 000100. -/
theorem forwardedExpired_unmatched :
    ¬ ∀ s : Engine, Engine.Reachable Transition.Free s → ReversalsMatch s := by
  intro hevery
  have hrun : Engine.Reachable Transition.Free (Engine.after forwardedExpired) :=
    Engine.reachable_after_free (by decide)
  have hm := hevery _ hrun 7 1 purchaseReversal (by decide)
  have hundo := hm.undoes (purchaseFrame 1 "000000")
    ⟨.reaper 1, .externalNode "MockVisaNode", 0, purchaseReversal⟩ ⟨by decide, rfl, _, rfl⟩
    ⟨by decide, rfl, rfl, _, rfl⟩
  exact absurd hundo.stan (by decide)

end Iso8583Switch
