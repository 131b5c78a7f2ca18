import Iso8583Switch.Daemon.Clearing
import Iso8583Switch.Flow.Paths
import Iso8583Switch.Properties.BankLinks
import Iso8583Switch.Properties.Correlation

/-!
# Payments from the terminal to the bank and back

Correlation rests on what the banks do: they answer a frame that they were sent, mirror it
and answer it once (`BankAnswers`).  Over the connections of `Clearing` this is no
assumption any more, as long as the frames fit their fields (`banks_answer`).  So with the
other two disciplines of correlation a client is approved what its bank has decided for
its own amount and card number (`approvals_decided`).
-/

namespace Iso8583Switch

open Text Function History

theorem IngressPath.not_replied {s : Engine} {input : Input} {pc pc' : IngressPc} {l : List Event}
    (h : IngressPath s input pc pc' l) {p : Packet} : .replied p ∉ l := by
  intro hmem
  cases h with
  | carry h => cases h.ofCarry _ hmem
  | evict hl =>
      obtain ⟨_, hmem⟩ := hl _ hmem
      cases hmem
  | answer => simp [mem_answers] at hmem
  | receive | panic | clear | plain | detokenize | screen | reverse | mark | pass | accept =>
      simp at hmem

/-- The replies come from outside only. -/
theorem Engine.not_replied {s t : Engine} {a : Action} (ha : ∀ p, a ≠ .bank p)
    (h : s.step a = some t) {l : List Event} (hl : t.trace = s.trace ++ l) {p : Packet} :
    .replied p ∉ l := by
  intro hmem
  cases Engine.step_path h hl with
  | ingress hpath => exact hpath.not_replied hmem
  | hsm hpath => cases hpath.ofTask _ hmem
  | reaper hreaper => cases hreaper _ hmem
  | reply hpath => cases hpath.ofReply _ hmem
  | bank packet => exact ha packet rfl
  | probe => simp at hmem
  | silent => cases hmem

def ClearingAction.isFeed : ClearingAction → Bool
  | .feed _ _ => true
  | _ => false

namespace Clearing

variable {z z' : Clearing}

/-- What is fed fits its fields. -/
def Fits (z : Clearing) (a : ClearingAction) : Prop :=
  ∀ c n f, a = .feed c n → z.engine.trace[n]? = some (.placed f) → WireFit f.transaction

/-- And the engine meets a discipline. -/
structure Meets (Q : Flow.Discipline) (z : Clearing) (a : ClearingAction) : Prop where
  fits : Fits z a
  upholds : ∀ z', z.step a = some z' → ∀ e ∈ Engine.newEvents z.engine z'.engine,
    Q z.engine.flow e

/-! ## What a step changes -/

inductive Effect (z : Clearing) (a : ClearingAction) : Clearing → Prop where
  | engine {engine : Engine} (b : Action) (hbank : ∀ p, b ≠ .bank p)
      (hengine : z.engine.step b = some engine) : Effect z a { z with engine }
  | feed {link : BankLink} (c n : Nat) (f : Frame) (hfeed : a = .feed c n)
      (hframe : z.engine.trace[n]? = some (.placed f)) (hfresh : n ∉ z.fed.map Prod.snd)
      (hlink : (z.links c).step (.feed f.transaction) = some link) :
      Effect z a { z with links := update z.links c link, fed := z.fed ++ [(c, n)] }
  | link {link : BankLink} (c : Nat) (b : LinkAction) (hfeed : ∀ tx, b ≠ .feed tx)
      (hlink : (z.links c).step b = some link) (hsame : link.delivered = (z.links c).delivered) :
      Effect z a { z with links := update z.links c link }
  | deliver {link : BankLink} {engine : Engine} (c : Nat) (b : LinkAction) (d : Nat × Transaction)
      (hfeed : ∀ tx, b ≠ .feed tx) (hlink : (z.links c).step b = some link)
      (hnew : link.delivered = (z.links c).delivered ++ [d])
      (hengine : z.engine.step (.bank (z.packet c d)) = some engine) :
      Effect z a { z with links := update z.links c link, engine }

theorem moved_effect {a : ClearingAction} {c : Nat} {b : LinkAction} {link : BankLink}
    (hfeed : ∀ tx, b ≠ .feed tx) (hlink : (z.links c).step b = some link)
    (hmoved : z.moved c link = some z') : Effect z a z' := by
  rw [moved] at hmoved
  rcases BankLink.delivered_of_step hlink with hsame | ⟨d, hnew⟩
  · rw [hsame, List.getElem?_eq_none (Nat.le_refl _)] at hmoved
    cases hmoved
    exact .link c b hfeed hlink hsame
  · rw [hnew, List.getElem?_concat_length] at hmoved
    obtain ⟨engine, hengine, rfl⟩ := Option.map_eq_some_iff.mp hmoved
    exact .deliver c b d hfeed hlink hnew hengine

theorem step_effect {a : ClearingAction} (hstep : z.step a = some z') : Effect z a z' := by
  rw [step.eq_def] at hstep
  split at hstep
  next => cases hstep
  next b hbank =>
    obtain ⟨engine, hengine, rfl⟩ := Option.map_eq_some_iff.mp hstep
    exact .engine b hbank hengine
  next c n =>
    rw [feedStep] at hstep
    split at hstep
    next f hframe =>
      split at hstep
      · cases hstep
      next hfresh =>
        obtain ⟨link, hlink, rfl⟩ := Option.map_eq_some_iff.mp hstep
        exact .feed c n f rfl hframe hfresh hlink
    next => cases hstep
  next => cases hstep
  next c b hfeed =>
    obtain ⟨link, hlink, hmoved⟩ := Option.bind_eq_some_iff.mp hstep
    exact moved_effect (fun tx heq => hfeed tx (heq ▸ rfl)) hlink hmoved

theorem newEvents_of_feed {c n : Nat} (h : z.step (.feed c n) = some z') :
    Engine.newEvents z.engine z'.engine = [] := by
  simp only [step, feedStep] at h
  split at h
  · split at h
    · cases h
    · obtain ⟨link, -, rfl⟩ := Option.map_eq_some_iff.mp h
      exact List.drop_length
  · cases h

/-! ## The books -/

section
variable {P : Clearing → ClearingAction → Prop} {l : List Event} {c n : Nat}

theorem Reachable.engine_free (h : Reachable P z) : Engine.Reachable Transition.Free z.engine := by
  refine h.simulate (f := Clearing.engine) ?_ ?_
  · rintro _ ⟨engine, hinit, rfl⟩
    exact hinit
  · rintro z z' - ⟨a, -, hstep⟩
    cases step_effect hstep with
    | engine b _ hengine => exact .inr ⟨b, trivial, hengine⟩
    | deliver c b d _ _ _ hengine => exact .inr ⟨_, trivial, hengine⟩
    | feed => exact .inl rfl
    | link => exact .inl rfl

theorem update_link {links : Nat → BankLink} {link : BankLink} {b : LinkAction}
    (hlink : (links c).step b = some link) (m : Nat) : update links c link m = links m ∨
      Transition.Steps BankLink.step Transition.Free (links m) (update links c link m) := by
  rcases eq_or_ne m c with rfl | hne
  · rw [update_self]
    exact .inr ⟨b, trivial, hlink⟩
  · exact .inl (update_of_ne hne _ _)

theorem Reachable.link_free (h : Reachable P z) (c : Nat) :
    BankLink.Reachable Transition.Free (z.links c) := by
  refine h.simulate (f := fun z => z.links c) ?_ ?_
  · rintro _ ⟨engine, -, rfl⟩
    rfl
  · rintro z z' - ⟨a, -, hstep⟩
    cases step_effect hstep with
    | engine => exact .inl rfl
    | feed _ _ _ _ _ _ hlink => exact update_link hlink c
    | link _ _ _ hlink => exact update_link hlink c
    | deliver _ _ _ _ hlink => exact update_link hlink c

theorem trace_of_step (h : Reachable P z) {a : ClearingAction} (hstep : z.step a = some z') :
    ∃ l, z'.engine.trace = z.engine.trace ++ l := by
  have hown := Engine.Reachable.disowned (Reachable.engine_free h)
  cases step_effect hstep with
  | engine b _ hengine => exact Engine.step_trace_append hown hengine
  | deliver c b d _ _ _ hengine => exact Engine.step_trace_append hown hengine
  | feed => exact ⟨[], (List.append_nil _).symm⟩
  | link => exact ⟨[], (List.append_nil _).symm⟩

/-- Every frame that was fed is one that the engine has placed, and every reply that the
engine has got was delivered for one. -/
structure Booked (z : Clearing) : Prop where
  once : (z.fed.map Prod.snd).Nodup
  aligned : ∀ c, (under z.fed c).length = (z.links c).sent.length
  sent : ∀ {c k n : Nat}, (under z.fed c)[k]? = some n → ∃ f,
    z.engine.trace[n]? = some (.placed f) ∧ (z.links c).sent[k]? = some f.transaction ∧
      WireFit f.transaction
  replied : ∀ {p}, .replied p ∈ z.engine.trace → ∃ c k n,
    (k, p.transaction) ∈ (z.links c).delivered ∧ (under z.fed c)[k]? = some n ∧
      p.answers = some n

theorem booked_new (engine : Engine) (h : engine.Initial) : Booked (new engine) where
  once := .nil
  aligned _ := rfl
  sent hfed := by cases hfed
  replied hmem := by
    rw [show (new engine).engine.trace = [] from h.trace] at hmem
    cases hmem

/-- Nothing is fed. -/
theorem Booked.grow (hz : z.Booked) (hfed : z'.fed = z.fed)
    (hsent : ∀ c, (z'.links c).sent = (z.links c).sent)
    (hdelivered : ∀ c, (z.links c).delivered ⊆ (z'.links c).delivered)
    (hl : z'.engine.trace = z.engine.trace ++ l)
    (hnew : ∀ p, .replied p ∈ l → ∃ c k n, (k, p.transaction) ∈ (z'.links c).delivered ∧
      (under z.fed c)[k]? = some n ∧ p.answers = some n) : z'.Booked where
  once := hfed ▸ hz.once
  aligned c := by rw [hfed, hsent, hz.aligned]
  sent hk := by
    rw [hfed] at hk
    obtain ⟨f, hf, htx, hfit⟩ := hz.sent hk
    exact ⟨f, hl ▸ kept hf, by rw [hsent, htx], hfit⟩
  replied hmem := by
    rw [hl, List.mem_append] at hmem
    rw [hfed]
    rcases hmem with hold | hnew'
    · obtain ⟨c, k, n, hmem, hk, hn⟩ := hz.replied hold
      exact ⟨c, k, n, hdelivered c hmem, hk, hn⟩
    · exact hnew _ hnew'

theorem sent_update {links : Nat → BankLink} {link : BankLink} {b : LinkAction}
    (hfeed : ∀ tx, b ≠ .feed tx) (hlink : (links c).step b = some link) (m : Nat) :
    (update links c link m).sent = (links m).sent := by
  rcases eq_or_ne m c with rfl | hne
  · rw [update_self, BankLink.sent_of_step hfeed hlink]
  · rw [update_of_ne hne]

theorem delivered_update {links : Nat → BankLink} {link : BankLink} {b : LinkAction}
    (hlink : (links c).step b = some link) (m : Nat) :
    (links m).delivered ⊆ (update links c link m).delivered := by
  rcases eq_or_ne m c with rfl | hne
  · rw [update_self]
    rcases BankLink.delivered_of_step hlink with hsame | ⟨d, hnew⟩
    · rw [hsame]
      exact List.Subset.refl _
    · rw [hnew]
      exact List.subset_append_left _ _
  · rw [update_of_ne hne]
    exact List.Subset.refl _

theorem Booked.feed (hz : z.Booked) {link : BankLink} {f : Frame}
    (hframe : z.engine.trace[n]? = some (.placed f)) (hfresh : n ∉ z.fed.map Prod.snd)
    (hfit : WireFit f.transaction)
    (hlink : (z.links c).step (.feed f.transaction) = some link) :
    Booked { z with links := update z.links c link, fed := z.fed ++ [(c, n)] } where
  once := by
    rw [List.map_append]
    exact hz.once.append (List.nodup_singleton n) (by simpa using hfresh)
  aligned m := by
    dsimp only
    rcases eq_or_ne m c with rfl | hne
    · rw [under_snoc_self, update_self, BankLink.sent_of_feed hlink, List.length_append,
        List.length_append, hz.aligned]
      rfl
    · rw [under_snoc_of_ne _ hne, update_of_ne hne, hz.aligned]
  sent {m k n'} hk := by
    dsimp only at hk ⊢
    rcases eq_or_ne m c with rfl | hne
    · rw [under_snoc_self] at hk
      rw [update_self, BankLink.sent_of_feed hlink]
      rcases History.getElem?_append_eq_some.mp hk with hold | ⟨hle, hnew⟩
      · obtain ⟨f', hf', htx, hfit'⟩ := hz.sent hold
        exact ⟨f', hf', kept htx, hfit'⟩
      · obtain ⟨rfl, rfl⟩ : k = (under z.fed m).length ∧ n' = n := by
          obtain ⟨hlt, heq⟩ := List.getElem?_eq_some_iff.mp hnew
          rw [List.length_singleton] at hlt
          rw [List.getElem_singleton] at heq
          exact ⟨by omega, heq.symm⟩
        refine ⟨f, hframe, ?_, hfit⟩
        rw [hz.aligned, List.getElem?_concat_length]
    · rw [under_snoc_of_ne _ hne] at hk
      rw [update_of_ne hne]
      exact hz.sent hk
  replied hmem := by
    obtain ⟨m, k, n', hdelivered, hk, hn⟩ := hz.replied hmem
    refine ⟨m, k, n', delivered_update hlink m hdelivered, ?_, hn⟩
    dsimp only
    rcases eq_or_ne m c with rfl | hne
    · rw [under_snoc_self]
      exact kept hk
    · rwa [under_snoc_of_ne _ hne]

/-- What is delivered answers a frame, and answers it first. -/
theorem Booked.firstAnswer (hz : z.Booked) (hlinks : ∀ c, BankLink.Reachable Transition.Free (z.links c))
    {link : BankLink} {b : LinkAction} {d : Nat × Transaction} (hfeed : ∀ tx, b ≠ .feed tx)
    (hlink : (z.links c).step b = some link)
    (hnew : link.delivered = (z.links c).delivered ++ [d]) :
    ∃ n, (under z.fed c)[d.1]? = some n ∧ z.engine.flow.FirstAnswer (z.packet c d) n := by
  have hreach : BankLink.Reachable Transition.Free link := (hlinks c).step ⟨b, trivial, hlink⟩
  have hmem : (d.1, d.2) ∈ link.delivered := by simp [hnew]
  obtain ⟨tx, hsent, hback⟩ := BankLink.Reachable.roundTrip_of_mem hreach hmem
  rw [BankLink.sent_of_step hfeed hlink] at hsent
  obtain ⟨n, hn⟩ : ∃ n, (under z.fed c)[d.1]? = some n := by
    have hlt := lt_length hsent
    rw [← hz.aligned] at hlt
    exact ⟨_, List.getElem?_eq_getElem hlt⟩
  obtain ⟨f, hframe, htx, hfit⟩ := hz.sent hn
  cases htx.symm.trans hsent
  obtain ⟨v, -, hpb⟩ := MockBank.verdict_of_roundTrip hfit hback
  refine ⟨n, hn, ⟨f, hframe, ?_⟩, fun {q} hq hanswers => ?_⟩
  · rw [packet, hpb]
    exact ⟨rfl, rfl, rfl⟩
  · obtain ⟨c', k, n', hold, hk, hn'⟩ := hz.replied hq
    cases hn'.symm.trans hanswers
    obtain rfl := under_unique hz.once (List.mem_of_getElem? hk) (List.mem_of_getElem? hn)
    obtain rfl : k = d.1 :=
      (List.getElem?_inj (lt_length hk) (nodup_under hz.once c')).mp (hk.trans hn.symm)
    have hnodup := BankLink.Reachable.delivered_nodup hreach
    rw [hnew, List.map_append, List.nodup_append] at hnodup
    exact hnodup.2.2 _ (List.mem_map_of_mem hold) _ (List.mem_singleton_self _) rfl

theorem Booked.step (hz : z.Booked) (h : Reachable P z) {a : ClearingAction} (hfits : Fits z a)
    (hstep : z.step a = some z') : z'.Booked := by
  obtain ⟨l, hl⟩ := trace_of_step h hstep
  cases step_effect hstep with
  | engine b hbank hengine =>
      refine hz.grow rfl (fun _ => rfl) (fun _ => List.Subset.refl _) hl fun p hp => ?_
      exact absurd hp (Engine.not_replied hbank hengine hl)
  | feed c n f hfeed hframe hfresh hlink =>
      exact hz.feed hframe hfresh (hfits c n f hfeed hframe) hlink
  | link c b hfeed hlink =>
      refine hz.grow rfl (sent_update hfeed hlink) (delivered_update hlink) hl fun p hp => ?_
      rw [List.self_eq_append_right.mp hl] at hp
      cases hp
  | deliver c b d hfeed hlink hnew hengine =>
      refine hz.grow rfl (sent_update hfeed hlink) (delivered_update hlink) hl fun p hp => ?_
      obtain ⟨n, hn, -⟩ := hz.firstAnswer (Reachable.link_free h) hfeed hlink hnew
      cases hengine
      obtain rfl := List.append_cancel_left hl
      cases List.mem_singleton.mp hp
      refine ⟨c, d.1, n, ?_, hn, hn⟩
      dsimp only
      rw [update_self, hnew]
      exact List.mem_append_right _ List.mem_cons_self

theorem Reachable.booked (hP : ∀ z a, P z a → Fits z a) (h : Reachable P z) : z.Booked := by
  refine h.invariant ?_ fun z z' hreach hz ⟨a, hp, hstep⟩ => hz.step hreach (hP z a hp) hstep
  rintro _ ⟨engine, hinit, rfl⟩
  exact booked_new engine hinit

end

/-! ## The engine of a clearing -/

theorem newEvents_eq {s t : Engine} {l : List Event} (h : t.trace = s.trace ++ l) :
    Engine.newEvents s t = l := by
  rw [Engine.newEvents, h, List.drop_left]

/-- The engine takes its steps with banks that answer. -/
theorem Reachable.engine {Q : Flow.Discipline} (h : Reachable (Meets Q) z) :
    Engine.Reachable (Engine.Upholds fun v e => BankAnswers v e ∧ Q v e) z.engine := by
  refine h.simulate (f := Clearing.engine) ?_ fun z z' hz ⟨a, hmeets, hstep⟩ => ?_
  · rintro _ ⟨engine, hinit, rfl⟩
    exact hinit
  have hbooked := Reachable.booked (fun _ _ => Meets.fits) hz
  have hQ := hmeets.upholds z' hstep
  obtain ⟨l, hl⟩ := trace_of_step hz hstep
  cases step_effect hstep with
  | engine b hbank hengine =>
      refine .inr ⟨b, fun t ht e he => ?_, hengine⟩
      cases hengine.symm.trans ht
      refine ⟨BankAnswers.of_not_replied _ e ?_, hQ e he⟩
      rw [newEvents_eq hl] at he
      cases e with
      | replied p => exact absurd he (Engine.not_replied hbank hengine hl)
      | _ => rfl
  | deliver c b d hfeed hlink hnew hengine =>
      refine .inr ⟨_, fun t ht e he => ?_, hengine⟩
      cases hengine.symm.trans ht
      refine ⟨?_, hQ e he⟩
      obtain ⟨n, hn, hfirst⟩ := hbooked.firstAnswer (Reachable.link_free hz) hfeed hlink hnew
      cases hengine
      obtain rfl := List.append_cancel_left hl
      rw [newEvents_eq hl] at he
      cases List.mem_singleton.mp he
      exact ⟨n, hn, hfirst⟩
  | feed => exact .inl rfl
  | link => exact .inl rfl

/-- As long as the frames fit, the banks at the other end of the connections do what
correlation assumes of them. -/
theorem banks_answer (h : Reachable Fits z) :
    Engine.Reachable (Engine.Upholds BankAnswers) z.engine := by
  have hmeets : Reachable (Meets Flow.Free) z :=
    h.relax fun _ _ hfits => ⟨hfits, fun _ _ _ _ => trivial⟩
  exact (Reachable.engine hmeets).relax fun _ _ hupholds t ht e he => (hupholds t ht e he).1

/-! ## What a client is approved -/

/-- The disciplines of correlation that are not about the banks. -/
structure Apart (v : Flow) (e : Event) : Prop where
  stans : Flow.StansApart v e
  keys : KeysApart v e

theorem Reachable.flow (h : Reachable (Meets Apart) z) : Flow.Reachable TriplesApart z.engine.flow :=
  Engine.Reachable.flow (fun _ _ hupholds t ht e he =>
    have h := hupholds t ht e he
    ⟨h.1, h.2.stans, h.2.keys⟩) (Reachable.engine h)

theorem approval_of_touch {v : Flow} {key : String} {entry entry' : ActiveTransaction}
    {l : List Event} {reclaim : Option String} {handling : Nat → Option (Packet × String)}
    (h : Touch v key entry entry' l reclaim handling) {r : Responder} {i : Serial} {p : Packet}
    {reply : UniversalPaymentEvent} (hmem : .responded r (.bank i p) reply ∈ l) :
    reply = Engine.approval p := by
  cases h with
  | complete =>
      simp [mem_answers] at hmem
      obtain ⟨-, ⟨-, rfl⟩, rfl⟩ := hmem
      rfl
  | mark | record | close | timeOut | completeUnjournaled =>
      simp [mem_answers, mem_reversals] at hmem

/-- An approval is made of a reply that has come in. -/
theorem approval_replied {v : Flow} (h : Flow.Reachable TriplesApart v) {r : Responder} {i : Serial}
    {p : Packet} {reply : UniversalPaymentEvent}
    (hmem : .responded r (.bank i p) reply ∈ v.trace) :
    .replied p ∈ v.trace ∧ reply = Engine.approval p := by
  refine h.invariant (I := fun v => ∀ r i p reply, .responded r (.bank i p) reply ∈ v.trace →
    .replied p ∈ v.trace ∧ reply = Engine.approval p) ?_ ?_ r i p reply hmem
  · intro v hv r i p reply hmem
    rw [hv.trace] at hmem
    cases hmem
  · intro v v' hreach hv hmove r i p reply hmem
    obtain ⟨l, hl⟩ := hmove.1.trace_append
    have hgrow (hold : .replied p ∈ v.trace) : .replied p ∈ v'.trace :=
      hl ▸ List.mem_append_left l hold
    rcases hmove.1.responded_cases hmem with hold | ⟨hfront, -⟩ | ⟨_, _, _, _, ht, hnew⟩
    · obtain ⟨hreplied, hreply⟩ := hv r i p reply hold
      exact ⟨hgrow hreplied, hreply⟩
    · cases hfront
    · obtain ⟨_, _, htouch⟩ := ht.touch
      obtain ⟨-, -, w, hhandling⟩ := htouch.bank hnew
      have hmail : v.Mail :=
        Flow.Reachable.mail (fun _ _ h => Flow.bankMirrors_of_answers h.bank) hreach
      exact ⟨hgrow (hmail.replied (.inr ⟨w, _, hhandling⟩)), approval_of_touch htouch hnew⟩

/-- A frame gets the verdict of its request. -/
theorem approval_of_requests {tx : UniversalPaymentEvent} {f : Frame} {i : Serial}
    {p : Packet} {v : String × String} (h : f.Requests i tx)
    (hverdict : MockBank.verdict f.transaction.amount f.transaction.fpan
      (decodedClass f.transaction.mti) = some v)
    (hpb : p.transaction = { toPb f.transaction with mti := v.1, responseCode := v.2 }) :
    MockBank.verdict tx.amount tx.fpan (decodedClass tx.mti) = some v ∧ ∃ stan pinBlock,
      Engine.approval p = fromPb { toPb { tx with stan := stan, pinBlock := pinBlock } with
        mti := "0110", responseCode := v.2 } := by
  rw [Engine.approval, hpb]
  cases h with
  | ingress e _ htx =>
      rw [htx] at hverdict ⊢
      exact ⟨hverdict, e, tx.pinBlock, rfl⟩
  | hsm pin _ htx =>
      rw [htx] at hverdict ⊢
      exact ⟨hverdict, tx.stan, pin, rfl⟩

/-- An approval, with the request and the frame that it goes back to. -/
structure Approved (z : Clearing) (r : Responder) (i : Serial) (p : Packet)
    (reply : UniversalPaymentEvent) (tx : UniversalPaymentEvent) (v : String × String) : Prop where
  inserted : ∃ key, z.engine.flow.Inserted i key tx (some r)
  verdict : MockBank.verdict tx.amount tx.fpan (decodedClass tx.mti) = some v
  reply : ∃ stan pinBlock, reply = fromPb { toPb { tx with stan := stan, pinBlock := pinBlock } with
    mti := "0110", responseCode := v.2 }

theorem Reachable.approved (h : Reachable (Meets Apart) z) {r : Responder} {i : Serial} {p : Packet}
    {reply : UniversalPaymentEvent} (hmem : .responded r (.bank i p) reply ∈ z.engine.trace) :
    ∃ tx v, z.Approved r i p reply tx v := by
  have hflow := Reachable.flow h
  have hbooked := Reachable.booked (fun _ _ => Meets.fits) h
  obtain ⟨hreplied, rfl⟩ := approval_replied hflow hmem
  obtain ⟨n, f, hn, hf, hrequest⟩ := hflow.correlated.sound hmem
  obtain ⟨c, k, n', hdelivered, hk, hn'⟩ := hbooked.replied hreplied
  cases hn.symm.trans hn'
  obtain ⟨f', hf', hsent, hfit⟩ := hbooked.sent hk
  cases hf.symm.trans hf'
  obtain ⟨tx', htx', hback⟩ :=
    BankLink.Reachable.roundTrip_of_mem (Reachable.link_free h c) hdelivered
  cases hsent.symm.trans htx'
  obtain ⟨v, hverdict, hpb⟩ := MockBank.verdict_of_roundTrip hfit hback
  obtain ⟨key, tx, r', hinserted, hrequests⟩ :=
    hflow.held.placed_inserted (History.mem hf) hrequest
  obtain ⟨key', tx', hinserted'⟩ := hflow.owned.sent_serial hmem rfl
  obtain ⟨rfl, rfl, rfl⟩ := hinserted.unique hinserted'
  obtain ⟨hverdict', hreply⟩ := approval_of_requests hrequests hverdict hpb
  exact ⟨tx, v, ⟨key, hinserted⟩, hverdict', hreply⟩

/-- Whoever is approved a payment has asked for it, and is sent the request itself with the
code that the bank's rules give for its amount and its card; only the STAN and the PIN block
may be those of the frame. -/
theorem approvals_decided (h : Reachable (Meets Apart) z) {r : Responder} {i : Serial} {p : Packet}
    {reply : UniversalPaymentEvent}
    (hmem : .responded r (.bank i p) reply ∈ z.engine.trace) :
    ∃ key tx v stan pinBlock, z.engine.flow.Inserted i key tx (some r) ∧
      MockBank.verdict tx.amount tx.fpan (decodedClass tx.mti) = some v ∧
      reply = fromPb { toPb { tx with stan := stan, pinBlock := pinBlock } with
        mti := "0110", responseCode := v.2 } := by
  obtain ⟨tx, v, ⟨key, hinserted⟩, hverdict, stan, pinBlock, hreply⟩ := Reachable.approved h hmem
  exact ⟨key, tx, v, stan, pinBlock, hinserted, hverdict, hreply⟩

/-! ## A purchase over a connection -/

/-- A run of the engine without its banks. -/
theorem Reachable.lift {Q : Flow.Discipline} {s : Engine}
    (h : Engine.Reachable (Engine.Upholds fun v e => Q v e ∧ e.isReplied = false) s) :
    Reachable (Meets Q) (new s) := by
  refine h.simulate (f := new) (fun s hs => ⟨s, hs, rfl⟩) fun s t _ ⟨a, hupholds, hstep⟩ => .inr ?_
  have hmove : (new s).step (.engine a) = some (new t) := by
    cases a with
    | bank p =>
        have hreplied := hupholds t hstep (.replied p) (by
          cases hstep
          rw [newEvents_eq rfl]
          exact List.mem_singleton_self _)
        cases hreplied.2
    | _ => exact congrArg (Option.map fun engine => ({ new s with engine } : Clearing)) hstep
  refine ⟨.engine a, ⟨fun _ _ _ heq => (by cases heq), fun z' hz' e he => ?_⟩, hmove⟩
  cases hmove.symm.trans hz'
  exact (hupholds t hstep e he).1

/-- Nothing is fed, and the engine notes nothing that the disciplines are about. -/
def Plain (z : Clearing) (a : ClearingAction) : Prop :=
  a.isFeed = false ∧ ((z.step a).map fun z' =>
    (Engine.newEvents z.engine z'.engine).all fun e => e.silent || e.isReplied) ≠ some false

instance (z : Clearing) (a : ClearingAction) : Decidable (Plain z a) :=
  inferInstanceAs (Decidable (_ ∧ _))

theorem Plain.meets (z : Clearing) (a : ClearingAction) (h : Plain z a) : Meets Apart z a := by
  refine ⟨fun c n f heq => ?_, fun z' hz' e he => ?_⟩
  · cases heq
    cases h.1
  · have hall := h.2
    rw [hz'] at hall
    rw [Option.map_some, ne_eq, Option.some_inj, Bool.not_eq_false] at hall
    have hevent := List.all_eq_true.mp hall e he
    cases e with
    | inserted | numbered | placed => cases hevent
    | _ => exact ⟨trivial, trivial⟩

theorem purchaseFrame_fit : WireFit (purchaseFrame 1 "000000").transaction where
  mti := by decide
  fpan := by decide
  amount := by decide
  acquirerId := by decide
  pinBlock := .inl rfl
  processingCode := .inr (.inl (by decide))
  stan := .inr (.inl (by decide))
  localTime := .inr (.inl (by decide))
  localDate := .inr (.inl (by decide))
  rrn := .inr (.inl (by decide))
  responseCode := .inr (.inl (by decide))
  cryptogram := fun _ hsent => by cases hsent

/-- The frame goes to the bank and its answer comes back to the client. -/
def clearRun : List ClearingAction :=
  [.link 0 (.uplink (.transmit 500)), .link 0 (.uplink (.arrive 500)), .link 0 .accept,
    .link 0 (.reply 0), .link 0 (.queue 0), .link 0 (.writer .recv), .link 0 (.writer (.feed true)),
    .link 0 (.writer .tryRecv), .link 0 (.writer (.transmit 500)), .link 0 (.writer .flush),
    .link 0 (.downlink (.arrive 500)), .link 0 .deliver, .engine (.reply 0 .run),
    .engine (.reply 0 (.outcome true)), .engine (.reply 0 .run)]

/-- The purchase is with the bank's connection. -/
def fedPurchase : Clearing := Transition.ran step (new (Engine.after asked)) [.feed 0 5]

def clearedPurchase : Clearing := Transition.ran step fedPurchase clearRun

set_option maxRecDepth 8000 in
theorem reachable_fedPurchase : Reachable (Meets Apart) fedPurchase := by
  have hinserted := beforeInsert_apart
  have hplaced := beforeSend_apart
  have hasked : Reachable (Meets Apart) (new (Engine.after asked)) := by
    refine Reachable.lift (Engine.reachable_sent (fun v e he => ?_)
      ⟨⟨hinserted.stans, hinserted.keys⟩, rfl⟩ ⟨⟨Engine.beforeNumber_unused, trivial⟩, rfl⟩
      ⟨⟨hplaced.stans, hplaced.keys⟩, rfl⟩)
    have hapart := TriplesApart.of_silent v e he
    refine ⟨⟨hapart.stans, hapart.keys⟩, ?_⟩
    cases e with
    | replied => cases he
    | _ => rfl
  have hframe : (new (Engine.after asked)).engine.trace[5]? =
      some (.placed (purchaseFrame 1 "000000")) := by decide
  have hstep : (new (Engine.after asked)).step (.feed 0 5) = some fedPurchase := rfl
  refine hasked.step ⟨.feed 0 5, ⟨fun c n f heq hf => ?_, fun z' hz' e he => ?_⟩, hstep⟩
  · cases heq
    cases hframe.symm.trans hf
    exact purchaseFrame_fit
  · cases hstep.symm.trans hz'
    cases he

set_option maxRecDepth 8000 in
theorem clearRun_plain : Transition.complies step Plain fedPurchase clearRun = true := by
  decide +kernel

theorem reachable_clearedPurchase : Reachable (Meets Apart) clearedPurchase := by
  obtain ⟨z, hz⟩ := Transition.exec_of_complies clearRun_plain
  rw [clearedPurchase, Transition.ran, hz]
  exact reachable_fedPurchase.of_exec Plain.meets clearRun_plain hz

theorem banks_answer_cleared :
    Engine.Reachable (Engine.Upholds BankAnswers) clearedPurchase.engine :=
  banks_answer (reachable_clearedPurchase.relax fun _ _ => Meets.fits)

set_option maxRecDepth 8000 in
theorem approvals_decided_cleared : ∃ key tx v stan pinBlock,
    clearedPurchase.engine.flow.Inserted 1 key tx (some 0) ∧
      MockBank.verdict tx.amount tx.fpan (decodedClass tx.mti) = some v ∧
      Engine.approval purchaseApproval =
        fromPb { toPb { tx with stan := stan, pinBlock := pinBlock } with
          mti := "0110", responseCode := v.2 } :=
  approvals_decided (p := purchaseApproval) reachable_clearedPurchase (by decide +kernel)

end Clearing

end Iso8583Switch
