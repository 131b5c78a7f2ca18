import Iso8583Switch.Engine.Background
import Iso8583Switch.Engine.Timeouts
import Iso8583Switch.Flow.Paths
import Iso8583Switch.Flow.Runs

/-!
# Which instance a thread comes back to

A thread that has dealt with a guard instance comes back to the guard by the key and
not by the instance, after it has let go of the shard.  If the key was inserted again
in the meantime, it meets an instance that it never dealt with.  `Dealings` keeps for
each thread the instance that it dealt with.  `InsertsFree` is the discipline under
which no key is inserted while a thread is still to come back to it.
-/

namespace Iso8583Switch

open Text Function

/-! ## What a thread is still to do -/

/-- The key that the worker comes back to, with the instance that it dealt with.  A
worker that evicts has `noted` it. -/
def IngressPc.owes (noted : Serial) : IngressPc → Option (String × Serial)
  | .carrying i key ctx .inserted => if ctx.needsHsm then none else some (key, i)
  | .carrying i key _ .journaled | .carrying i key _ (.routed _ _) | .carrying i key _ .unrouted
  | .carrying i key _ (.numbered _ _) => some (key, i)
  | .evicting key => some (key, noted)
  | _ => none

/-- The keys of the first pass that the reaper has found expired. -/
def ReaperPc.toReverse : ReaperPc → List String
  | .expiring _ toReverse | .reversing toReverse => toReverse
  | .reclaiming key _ didReverse rest | .evicting key didReverse rest =>
      if didReverse then key :: rest else rest
  | .asleep | .pruning _ _ | .removing _ => []

/-- The keys that the reaper comes back to. -/
def ReaperPc.owes : ReaperPc → List String
  | .pruning _ staleKeys | .removing staleKeys => staleKeys
  | pc => pc.toReverse

def ReplyPc.owes : ReplyPc → Option String
  | .evicting key => some key
  | _ => none

/-- The instances that the threads dealt with: the one that a worker accepted, the one
that the reaper found under a key, the one that a reply worker found.  `expired` has
those that the reaper found expired. -/
structure Dealings where
  ingress : Nat → Serial
  reaper : String → Serial
  reply : Nat → Serial
  expired : List Serial

namespace Dealings

def none : Dealings := ⟨fun _ => 0, fun _ => 0, fun _ => 0, []⟩

/-- The reaper meets an entry. -/
def meet (s : Engine) (key : String) (g : Dealings) : Dealings :=
  match s.reaper, s.guard.get key with
  | .expiring _ _, some entry =>
      if s.expired entry then
        { g with reaper := update g.reaper key entry.serial, expired := entry.serial :: g.expired }
      else g
  | .pruning _ _, some entry =>
      if s.stale entry then { g with reaper := update g.reaper key entry.serial } else g
  | _, _ => g

def track (s : Engine) (a : Action) (g : Dealings) : Dealings :=
  match a with
  | .ingress w _ =>
      match s.ingress w with
      | .carrying i _ _ _ => { g with ingress := update g.ingress w i }
      | _ => g
  | .reaper (.visit key) => g.meet s key
  | .reply w _ =>
      match s.repliers w with
      | .translated _ key =>
          match s.guard.get key with
          | some entry => { g with reply := update g.reply w entry.serial }
          | .none => g
      | _ => g
  | _ => g

end Dealings

namespace Engine

/-- A thread comes back to the key, and dealt with instance `i`. -/
inductive Owes (p : Engine × Dealings) : String → Serial → Prop where
  | ingress {w : Nat} {key : String} {i : Serial} :
      (p.1.ingress w).owes (p.2.ingress w) = some (key, i) → Owes p key i
  | reaper {key : String} : key ∈ p.1.reaper.owes → Owes p key (p.2.reaper key)
  | reply {w : Nat} {key : String} :
      (p.1.repliers w).owes = some key → Owes p key (p.2.reply w)

/-- A key is inserted only when no thread is still to come back to it. -/
def InsertsFree (p : Engine × Dealings) (a : Action) : Prop :=
  ∀ t key tx r, p.1.step a = some t → .inserted key tx r ∈ newEvents p.1 t → ∀ i, ¬ Owes p key i

/-- The step comes back to the key of instance `i`. -/
inductive Returns (p : Engine × Dealings) : Action → String → Serial → Prop where
  | record {w : Nat} {i : Serial} {key : String} {ctx : TransactionContext}
      {destination : RouteDestination} {channel : ChannelId} :
      p.1.ingress w = .carrying i key ctx (.numbered destination channel) →
      Returns p (.ingress w .run) key i
  | decline {w : Nat} {i : Serial} {key : String} {ctx : TransactionContext} :
      p.1.ingress w = .carrying i key ctx .unrouted → Returns p (.ingress w .run) key i
  | evict {w : Nat} {key : String} :
      p.1.ingress w = .evicting key → Returns p (.ingress w .run) key (p.2.ingress w)
  | reverse {key : String} {rest : List String} {ok : Bool} :
      p.1.reaper = .reversing (key :: rest) → Returns p (.reaper (.outcome ok)) key (p.2.reaper key)
  | evictReversed {key : String} {rest : List String} :
      p.1.reaper = .evicting key true rest → Returns p (.reaper .run) key (p.2.reaper key)
  | prune {key : String} {rest : List String} :
      p.1.reaper = .removing (key :: rest) → Returns p (.reaper .run) key (p.2.reaper key)
  | evictReplied {w : Nat} {key : String} :
      p.1.repliers w = .evicting key → Returns p (.reply w .run) key (p.2.reply w)

/-- A thread that comes back leaves every other instance as it is, and the reaper times
out what it found expired. -/
structure InstanceExact (p : Engine × Dealings) (a : Action) : Prop where
  spares : ∀ t key i entry, p.1.step a = some t → Returns p a key i →
    p.1.guard.get key = some entry → entry.serial ≠ i → t.guard.get key = some entry
  expired : ∀ key rest entry ok, p.1.TimesOut a key rest entry ok → entry.serial ∈ p.2.expired

/-- What is under a key that a thread comes back to is what the thread dealt with. -/
structure Dealt (p : Engine × Dealings) : Prop where
  owes : ∀ key i entry, Owes p key i → p.1.guard.get key = some entry → entry.serial = i
  expired : ∀ key ∈ p.1.reaper.toReverse, p.2.reaper key ∈ p.2.expired

theorem Returns.owes {p : Engine × Dealings} {a : Action} {key : String} {i : Serial}
    (h : Returns p a key i) : Owes p key i := by
  cases h with
  | record hpc => exact .ingress (by rw [hpc]; rfl)
  | decline hpc => exact .ingress (by rw [hpc]; rfl)
  | evict hpc => exact .ingress (by rw [hpc]; rfl)
  | reverse hpc => exact .reaper (by rw [hpc]; exact List.mem_cons_self)
  | evictReversed hpc => exact .reaper (by rw [hpc]; exact List.mem_cons_self)
  | prune hpc => exact .reaper (by rw [hpc]; exact List.mem_cons_self)
  | evictReplied hpc => exact .reply (by rw [hpc]; rfl)

theorem Dealt.exact {p : Engine × Dealings} (hv : Dealt p) (a : Action) : InstanceExact p a where
  spares t key i entry _ hreturns hget hne := absurd (hv.owes key i entry hreturns.owes hget) hne
  expired key rest entry ok htimes := by
    have hmem : key ∈ p.1.reaper.toReverse := by
      rw [htimes.reaper]
      exact List.mem_cons_self
    have howes : Owes p key (p.2.reaper key) :=
      .reaper (by rw [htimes.reaper]; exact List.mem_cons_self)
    rw [hv.owes key _ entry howes htimes.guard]
    exact hv.expired key hmem

/-! ## What the guard keeps -/

variable {s t : Engine} {p q : Engine × Dealings} {a : Action} {key : String}

/-- An entry was there before, or the step inserts it where nothing was. -/
theorem entry_kept (hown : s.Disowned) (hstep : s.step a = some t) {entry : ActiveTransaction}
    (hget : t.guard.get key = some entry) :
    (∃ entry₀, s.guard.get key = some entry₀ ∧ entry₀.serial = entry.serial) ∨
      (s.guard.get key = none ∧ entry.serial = s.trace.length ∧
        ∃ tx r, .inserted key tx r ∈ newEvents s t) := by
  rcases step_flow hown hstep with heq | hmove
  · have hguard : t.guard = s.guard := congrArg Flow.guard heq
    exact .inl ⟨entry, hguard ▸ hget, rfl⟩
  · rcases hmove.entry_cases hget with hold | ⟨tx, r, hins⟩
    · exact .inl hold
    · obtain ⟨entry', hget', hserial⟩ := hins.entry
      obtain rfl : entry = entry' := Option.some.inj (hget.symm.trans hget')
      refine .inr ⟨hins.vacant, hserial, tx, r, ?_⟩
      have htrace : t.trace = s.trace ++ [.inserted key tx r] := hins.trace
      rw [newEvents, htrace, List.drop_left]
      exact List.mem_singleton.mpr rfl

/-! ## The reaper's lists -/

/-- The reaper notes an entry for later. -/
structure Notes (s t : Engine) (g g' : Dealings) (key : String) (entry : ActiveTransaction) :
    Prop where
  get : s.guard.get key = some entry
  guard : t.guard = s.guard
  owes : ∀ k ∈ t.reaper.owes, k ∈ s.reaper.owes ∨ k = key
  toReverse : ∀ k ∈ t.reaper.toReverse, k ∈ s.reaper.toReverse ∨ k = key
  reaper : g'.reaper = update g.reaper key entry.serial
  expired : ∀ i ∈ g.expired, i ∈ g'.expired
  found : key ∈ t.reaper.toReverse → entry.serial ∈ g'.expired

/-- The reaper goes on with keys that it has noted before. -/
structure GoesOn (s t : Engine) (g g' : Dealings) : Prop where
  owes : ∀ k ∈ t.reaper.owes, k ∈ s.reaper.owes
  toReverse : ∀ k ∈ t.reaper.toReverse, k ∈ s.reaper.toReverse
  same : g' = g

theorem mem_reversed {key k : String} {rest : List String} {didReverse : Bool}
    (h : k ∈ if didReverse then key :: rest else rest) : k ∈ key :: rest := by
  cases didReverse with
  | true => exact h
  | false => exact List.mem_cons_of_mem _ h

theorem reaperStep_notes {input : Input} (h : s.reaperStep input = some t) (g : Dealings) :
    GoesOn s t g (Dealings.track s (.reaper input) g) ∨
      ∃ key entry, Notes s t g (Dealings.track s (.reaper input) g) key entry := by
  -- The position after the step, where no entry is noted.
  have hgo {u : Engine} {pc pc' : ReaperPc} (hpc : s.reaper = pc)
      (howes : ∀ k ∈ pc'.owes, k ∈ pc.owes) (hreverse : ∀ k ∈ pc'.toReverse, k ∈ pc.toReverse) :
      GoesOn s (u.setReaper pc') g g :=
    ⟨hpc ▸ howes, hpc ▸ hreverse, rfl⟩
  unfold reaperStep at h
  split at h
  case h_1 hpc =>
    cases h
    exact .inl (hgo hpc (List.forall_mem_nil _) (List.forall_mem_nil _))
  case h_2 scan toReverse key hpc =>
    split at h
    next entry hget =>
      split at h
      · cases h
      · cases h
        simp only [Dealings.track, Dealings.meet, hpc, hget]
        by_cases hexpired : s.expired entry
        · simp only [if_pos hexpired]
          refine .inr ⟨key, entry, hget, rfl, ?_, ?_, rfl, ?_, fun _ => List.mem_cons_self⟩
          · intro k hk
            rw [hpc]
            simpa [setReaper, ReaperPc.owes, ReaperPc.toReverse] using hk
          · intro k hk
            rw [hpc]
            simpa [setReaper, ReaperPc.toReverse] using hk
          · exact fun i => List.mem_cons_of_mem _
        · simp only [if_neg hexpired]
          exact .inl (hgo hpc (fun k => id) fun k => id)
    next => cases h
  case h_3 hpc | h_4 hpc | h_10 hpc | h_11 hpc =>
    split at h <;> cases h
    exact .inl (hgo hpc (fun k => id) fun k => id)
  case h_5 key rest ok hpc =>
    cases h
    exact .inl (hgo hpc (fun k => mem_reversed) fun k => mem_reversed)
  case h_6 hpc =>
    cases h
    exact .inl (hgo hpc (List.forall_mem_nil _) (List.forall_mem_nil _))
  case h_7 hpc =>
    cases h
    exact .inl (hgo hpc (fun k => id) fun k => id)
  case h_8 key didReverse rest hpc =>
    cases h
    have hrest (k : String) (hk : k ∈ rest) : k ∈ if didReverse then key :: rest else rest := by
      cases didReverse with
      | true => exact List.mem_cons_of_mem _ hk
      | false => exact hk
    exact .inl (hgo hpc hrest hrest)
  case h_9 scan staleKeys key hpc =>
    split at h
    next entry hget =>
      split at h
      · cases h
      · cases h
        simp only [Dealings.track, Dealings.meet, hpc, hget]
        by_cases hstale : s.stale entry
        · simp only [if_pos hstale]
          refine .inr ⟨key, entry, hget, rfl, ?_, List.forall_mem_nil _, rfl, fun i => id,
            fun hk => absurd hk List.not_mem_nil⟩
          intro k hk
          rw [hpc]
          simpa [setReaper, ReaperPc.owes] using hk
        · simp only [if_neg hstale]
          exact .inl (hgo hpc (fun k => id) fun k => id)
    next => cases h
  case h_12 hpc =>
    cases h
    exact .inl (hgo hpc (fun k => List.mem_cons_of_mem _) (List.forall_mem_nil _))
  case h_13 hpc =>
    cases h
    exact .inl (hgo hpc (List.forall_mem_nil _) (List.forall_mem_nil _))
  case h_14 => cases h

/-! ## The threads that do not move -/

theorem step_reaper (h : s.step a = some t) (ha : ∀ input, a ≠ .reaper input) :
    t.reaper = s.reaper := by
  cases a with
  | reaper input => exact absurd rfl (ha input)
  | ingress w input => exact background_reaper.ingressStep h
  | hsm i input => exact background_reaper.hsmStep h
  | reply w input => exact replyStep_reaper h
  | probe node secs ok =>
      obtain ⟨channel, -, rfl⟩ := Option.map_eq_some_iff.mp h
      exact background_reaper.probe s node channel secs ok
  | bank | tick | storeStip | storeCrdb | storeRouter | pollSanctions => cases h; rfl

theorem step_repliers (h : s.step a = some t) {w : Nat} (ha : ∀ input, a ≠ .reply w input) :
    t.repliers w = s.repliers w := by
  cases a with
  | reaper input => exact congrFun (reaperStep_repliers h) w
  | ingress w' input => exact congrFun (background_repliers.ingressStep h) w
  | hsm i input => exact congrFun (background_repliers.hsmStep h) w
  | reply w' input =>
      have hw : w ≠ w' := fun hw => ha input (hw ▸ rfl)
      obtain ⟨pc, l, -, hrepliers, -⟩ := replyStep_path h
      rw [hrepliers, update_of_ne hw]
  | probe node secs ok =>
      obtain ⟨channel, -, rfl⟩ := Option.map_eq_some_iff.mp h
      exact congrFun (background_repliers.probe s node channel secs ok) w
  | bank | tick | storeStip | storeCrdb | storeRouter | pollSanctions => cases h; rfl

theorem track_ingress {g : Dealings} {w : Nat} (ha : ∀ input, a ≠ .ingress w input) :
    (Dealings.track s a g).ingress w = g.ingress w := by
  unfold Dealings.track
  split
  next w' input =>
    split
    · exact update_of_ne (fun hw => ha input (by rw [hw])) _ _
    · rfl
  next => unfold Dealings.meet; split <;> (try split) <;> rfl
  next => split <;> (try split) <;> rfl
  next => rfl

theorem track_reply {g : Dealings} {w : Nat} (ha : ∀ input, a ≠ .reply w input) :
    (Dealings.track s a g).reply w = g.reply w := by
  unfold Dealings.track
  split
  next => split <;> rfl
  next => unfold Dealings.meet; split <;> (try split) <;> rfl
  next w' input =>
    split
    · split
      · exact update_of_ne (fun hw => ha input (by rw [hw])) _ _
      · rfl
    · rfl
  next => rfl

theorem track_reaper {g : Dealings} (ha : ∀ input, a ≠ .reaper input) :
    (Dealings.track s a g).reaper = g.reaper ∧ (Dealings.track s a g).expired = g.expired := by
  unfold Dealings.track
  split
  next => split <;> exact ⟨rfl, rfl⟩
  next key => exact absurd rfl (ha (.visit key))
  next => split <;> (try split) <;> exact ⟨rfl, rfl⟩
  next => exact ⟨rfl, rfl⟩

/-- A reply worker is to evict the entry that it has just found. -/
theorem replyStep_found {w : Nat} {input : Input} (h : s.replyStep w input = some t)
    (howes : (t.repliers w).owes = some key) :
    ∃ packet ok entry, input = .outcome ok ∧ s.repliers w = .translated packet key ∧
      s.guard.get key = some entry := by
  have hturn := replyStep_turn h
  generalize s.repliers w = pc at hturn ⊢
  cases hturn with
  | translate => simp [natInbound, setReply, ReplyPc.owes] at howes
  | @late packet key' ok entry hget =>
      obtain rfl : key' = key := by simpa [setReply, ReplyPc.owes] using howes
      exact ⟨packet, ok, entry, rfl, rfl, hget⟩
  | @complete packet key' entry hget =>
      obtain rfl : key' = key := by simpa [setReply, ReplyPc.owes] using howes
      exact ⟨packet, true, entry, rfl, rfl, hget⟩
  | unknown | completeUnjournaled | evict => simp [setReply, ReplyPc.owes] at howes

/-! ## What is owed after a step -/

section Keep

variable (hown : p.1.Disowned) (hstep : p.1.step a = some q.1)
  (htrack : q.2 = Dealings.track p.1 a p.2)
include hown hstep htrack

/-- What a worker owes after a step it owed before, or has just inserted. -/
theorem owes_ingress {w : Nat} {key : String} {i : Serial}
    (h : (q.1.ingress w).owes (q.2.ingress w) = some (key, i)) :
    Owes p key i ∨ ∀ entry, q.1.guard.get key = some entry → entry.serial = i := by
  by_cases hown' : ∃ input, a = .ingress w input
  · obtain ⟨input, rfl⟩ := hown'
    obtain ⟨pc, l, hpath, htook⟩ := ingressStep_path hstep
    rw [htook.ingress, update_self] at h
    generalize hpc : p.1.ingress w = pc₀ at hpath
    cases hpath with
    | receive | panic | answer | clear | plain | detokenize | screen | reverse | mark | pass
    | evict =>
        cases h
    | @accept ctx _ hvacant =>
        refine .inr fun entry hget => ?_
        rw [IngressPc.owes] at h
        split at h
        · cases h
        · cases h
          rcases entry_kept hown hstep hget with ⟨entry₀, hold, -⟩ | ⟨-, hserial, -⟩
          · rw [hvacant] at hold
            cases hold
          · exact hserial
    | @carry j k ctx stage _ _ _ hcarry =>
        refine .inl (.ingress (w := w) ?_)
        rw [hpc]
        cases hcarry with
        | task | unjournaled | record | send | fail | undecided | decide | debit => cases h
        | @fallback _ found =>
            rcases stipDecision_cases found ctx with ⟨_, -, heq⟩ | ⟨_, -, heq⟩ <;>
              rw [heq] at h <;> cases h
        | journal hplain =>
            rw [IngressPc.owes, hplain]
            exact h
        | route | noRoute | number => exact h
        | decline =>
            rw [htrack, Dealings.track, hpc] at h
            simpa [IngressPc.owes] using h
  · have hother : ∀ input, a ≠ .ingress w input := fun input ha => hown' ⟨input, ha⟩
    rw [step_ingress hstep hother, htrack, track_ingress hother] at h
    exact .inl (.ingress h)

omit hown in
/-- What the reaper owes after a step it owed before, or has just met. -/
theorem owes_reaper {key : String} (h : key ∈ q.1.reaper.owes) :
    Owes p key (q.2.reaper key) ∨
      ∀ entry, q.1.guard.get key = some entry → entry.serial = q.2.reaper key := by
  by_cases hown' : ∃ input, a = .reaper input
  · obtain ⟨input, rfl⟩ := hown'
    rcases reaperStep_notes hstep p.2 with hgo | ⟨noted, entry, hnotes⟩
    · rw [htrack, hgo.same]
      exact .inl (.reaper (hgo.owes key h))
    · rw [htrack, hnotes.reaper]
      by_cases hkey : key = noted
      · subst hkey
        rw [update_self, hnotes.guard, hnotes.get]
        exact .inr fun entry' hget => by cases hget; rfl
      · rw [update_of_ne hkey]
        exact .inl (.reaper ((hnotes.owes key h).resolve_right hkey))
  · have hother : ∀ input, a ≠ .reaper input := fun input ha => hown' ⟨input, ha⟩
    rw [step_reaper hstep hother] at h
    rw [htrack, (track_reaper hother).1]
    exact .inl (.reaper h)

/-- What a reply worker owes after a step it owed before, or has just found. -/
theorem owes_reply {w : Nat} {key : String} (h : (q.1.repliers w).owes = some key) :
    Owes p key (q.2.reply w) ∨
      ∀ entry, q.1.guard.get key = some entry → entry.serial = q.2.reply w := by
  by_cases hown' : ∃ input, a = .reply w input
  · obtain ⟨input, rfl⟩ := hown'
    obtain ⟨packet, ok, entry, rfl, hpc, hget⟩ := replyStep_found hstep h
    have hreply : q.2.reply w = entry.serial := by
      simp only [htrack, Dealings.track, hpc, hget, update_self]
    refine .inr fun entry' hget' => ?_
    rcases entry_kept hown hstep hget' with ⟨entry₀, hold, hserial⟩ | ⟨hvacant, -⟩
    · rw [hget] at hold
      cases hold
      rw [hreply, hserial]
    · rw [hget] at hvacant
      cases hvacant
  · have hother : ∀ input, a ≠ .reply w input := fun input ha => hown' ⟨input, ha⟩
    rw [step_repliers hstep hother] at h
    rw [htrack, track_reply hother]
    exact .inl (.reply h)

theorem owes_step {key : String} {i : Serial} (h : Owes q key i) :
    Owes p key i ∨ ∀ entry, q.1.guard.get key = some entry → entry.serial = i := by
  cases h with
  | ingress h => exact owes_ingress hown hstep htrack h
  | reaper h => exact owes_reaper hstep htrack h
  | reply h => exact owes_reply hown hstep htrack h

theorem Dealt.keep (hv : Dealt p) (hfree : InsertsFree p a) : Dealt q where
  owes key i entry howes hget := by
    rcases owes_step hown hstep htrack howes with hold | hnew
    · rcases entry_kept hown hstep hget with ⟨entry₀, hget₀, hserial⟩ | ⟨-, -, tx, r, hins⟩
      · rw [← hserial]
        exact hv.owes key i entry₀ hold hget₀
      · exact absurd hold (hfree q.1 key tx r hstep hins i)
    · exact hnew entry hget
  expired key hmem := by
    by_cases hown' : ∃ input, a = .reaper input
    · obtain ⟨input, rfl⟩ := hown'
      rcases reaperStep_notes hstep p.2 with hgo | ⟨noted, entry, hnotes⟩
      · rw [htrack, hgo.same]
        exact hv.expired key (hgo.toReverse key hmem)
      · rw [htrack, hnotes.reaper]
        by_cases hkey : key = noted
        · subst hkey
          rw [update_self]
          exact hnotes.found hmem
        · rw [update_of_ne hkey]
          exact hnotes.expired _ (hv.expired key ((hnotes.toReverse key hmem).resolve_right hkey))
    · have hother : ∀ input, a ≠ .reaper input := fun input ha => hown' ⟨input, ha⟩
      rw [step_reaper hstep hother] at hmem
      rw [htrack, (track_reaper hother).1, (track_reaper hother).2]
      exact hv.expired key hmem

end Keep

theorem Initial.dealt (h : s.Initial) : Dealt (s, Dealings.none) where
  owes key i entry _ hget := by
    rw [h.guard, DashMap.get_empty] at hget
    cases hget
  expired key hmem := by
    rw [h.reaper] at hmem
    cases hmem

/-- The runs with the instances that the threads dealt with. -/
abbrev Dealing (P : Engine × Dealings → Action → Prop) : Engine × Dealings → Prop :=
  Transition.Tracked Initial Dealings.none step Dealings.track P

theorem Dealing.reachable {P : Engine × Dealings → Action → Prop} (hp : Dealing P p) :
    Reachable Transition.Free p.1 :=
  Transition.Tracked.state (fun _ _ _ => trivial) hp

theorem Dealing.dealt (hp : Dealing InsertsFree p) : Dealt p := by
  refine hp.invariant (fun q hq => ?_) fun q q' hq hv ⟨a, hfree, hstep⟩ => ?_
  · obtain ⟨s, g⟩ := q
    obtain ⟨hinit, rfl⟩ := hq
    exact hinit.dealt
  · obtain ⟨hstep, htrack⟩ := Transition.tracking_eq_some hstep
    exact hv.keep (Dealing.reachable hq).disowned hstep htrack hfree

/-- In a run that inserts no key that a thread is still to come back to, every thread
comes back to the instance that it dealt with. -/
theorem evictions_instance_exact (hp : Dealing InsertsFree p) (a : Action) : InstanceExact p a :=
  (Dealing.dealt hp).exact a

/-! ## A purchase that expires -/

/-- The step inserts nothing. -/
def InsertsNothing (p : Engine × Dealings) (a : Action) : Prop :=
  Adds (fun e => !e.isInserted) p.1 a

instance (p : Engine × Dealings) (a : Action) : Decidable (InsertsNothing p a) :=
  inferInstanceAs (Decidable (Adds _ _ _))

theorem InsertsNothing.free (p : Engine × Dealings) (a : Action) (h : InsertsNothing p a) :
    InsertsFree p a := by
  intro t key tx r hstep hmem
  rw [InsertsNothing, Adds, hstep] at h
  have hall : (newEvents p.1 t).all (fun e => !e.isInserted) = true := by simpa using h
  cases List.all_eq_true.mp hall _ hmem

/-- A run with the instances that the threads dealt with. -/
def dealing (actions : List Action) : Engine × Dealings :=
  Transition.tracked step Dealings.track (start 100 ∅) Dealings.none actions

/-- The reaper has found the purchase expired. -/
def foundExpired : List Action :=
  forward 0 true ++
    [.tick 101, .reaper .run, .reaper (.visit "RRN000000001-000100-ACQ1"), .reaper .run]

set_option maxRecDepth 8000 in
theorem foundExpired_free :
    Dealing InsertsFree (dealing (beforeInsert ++ [.ingress 0 .run] ++ foundExpired)) := by
  have hbefore : Dealing InsertsFree (dealing beforeInsert) :=
    Transition.Tracked.of_complies InsertsNothing.free (start_initial 100 ∅) (by decide)
  have hinsert : Dealing InsertsFree (dealing (beforeInsert ++ [.ingress 0 .run])) := by
    have henabled : (Transition.exec (Transition.tracking step Dealings.track)
        (start 100 ∅, Dealings.none) beforeInsert).isSome := by decide
    have hnext : (Transition.tracking step Dealings.track (dealing beforeInsert)
        (.ingress 0 .run)).isSome := by decide
    refine Transition.Reachable.ran_step henabled hbefore ?_ hnext
    intro t key tx r _ _ i howes
    cases howes with
    | @ingress w _ _ h => cases w <;> cases h
    | reaper h => cases h
    | reply h => cases h
  have henabled : (Transition.exec (Transition.tracking step Dealings.track)
      (start 100 ∅, Dealings.none) (beforeInsert ++ [.ingress 0 .run])).isSome := by decide
  have hmore : Transition.complies (Transition.tracking step Dealings.track) InsertsNothing
      (dealing (beforeInsert ++ [.ingress 0 .run])) foundExpired = true := by decide
  exact Transition.Reachable.ran_append InsertsNothing.free henabled hinsert hmore

set_option maxRecDepth 8000 in
theorem evictions_instance_exact_purchase :
    1 ∈ (dealing (beforeInsert ++ [.ingress 0 .run] ++ foundExpired)).2.expired := by
  have htimes : ∃ rest entry, (dealing (beforeInsert ++ [.ingress 0 .run] ++ foundExpired)).1.TimesOut
      (.reaper (.outcome true)) "RRN000000001-000100-ACQ1" rest entry true ∧ entry.serial = 1 :=
    ⟨_, _, ⟨rfl, rfl, rfl, rfl⟩, rfl⟩
  obtain ⟨rest, entry, htimes, hserial⟩ := htimes
  rw [← hserial]
  exact (evictions_instance_exact foundExpired_free (.reaper (.outcome true))).expired _ _ _ _ htimes

/-- The bank answers before the reaper comes back, and the terminal sends again. -/
def insertedAgain : List Action :=
  beforeInsert ++ [.ingress 0 .run] ++ foundExpired ++ bankAnswer 0 purchaseApproval ++
    accept 0 (purchase "000100" "RRN000000001")

set_option maxRecDepth 8000 in
/-- The reaper times out the second instance, which is not a millisecond old. -/
theorem insertedAgain_timed_out :
    ¬ ∀ p a, Dealing (fun _ _ => True) p → InstanceExact p a := by
  intro h
  have hrun : Dealing (fun _ _ => True) (dealing insertedAgain) :=
    Transition.Tracked.of_complies (P := fun _ _ => True) (fun _ _ => id) (start_initial 100 ∅)
      (by decide)
  have htimes : ∃ rest entry, (dealing insertedAgain).1.TimesOut (.reaper (.outcome true))
      "RRN000000001-000100-ACQ1" rest entry true ∧ entry.serial ≠ 1 :=
    ⟨_, _, ⟨rfl, rfl, rfl, rfl⟩, by decide⟩
  obtain ⟨rest, entry, htimes, hserial⟩ := htimes
  have hexpired := (h _ (.reaper (.outcome true)) hrun).expired _ _ _ _ htimes
  have hlist : (dealing insertedAgain).2.expired = [1] := rfl
  rw [hlist] at hexpired
  exact hserial (List.mem_singleton.mp hexpired)

end Engine

end Iso8583Switch
