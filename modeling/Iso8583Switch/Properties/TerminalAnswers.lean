import Iso8583Switch.Daemon.Network
import Iso8583Switch.Properties.EchoedAnswers
import Iso8583Switch.Properties.IngressSessions

/-!
# What the terminals get from the engine

The way of an answer from the engine to the terminal: by the responder to the context that
a worker has taken, from there to the connection and the frame, and over the connection.
`Registered` keeps the first part together and `IngressSessions` has the second.  So what a
terminal takes is an answer to a frame of its own, whatever the other terminals do
(`terminals_read_own`), and with the banks at the other end it is what `answers_echo` and
`approvals_decided` say of such an answer (`terminals_answered`).
-/

namespace Iso8583Switch

open Function History

/-! ## What the core sees of a connection -/

namespace EdgeIngress

variable {dialect : IngressDialect} {s s' : Session} {n : Nat}

theorem Session.contexts_send (s : Session) (n : Nat) (ctx : TransactionContext) :
    ∃ more, (s.send n ctx).contexts = s.contexts ++ more := by
  rw [Session.send]
  split
  · exact ⟨_, rfl⟩
  · exact ⟨[], (List.append_nil _).symm⟩

theorem TaskTurn.contexts (hturn : TaskTurn dialect s n s') :
    ∃ more, s'.contexts = s.contexts ++ more := by
  cases hturn with
  | handOver tx => exact s.contexts_send n (requestOf n tx)
  | reverse tx => exact s.contexts_send n (reversalOf tx)
  | refuse | takeResponse | takeDropped | takeNotice | reply => exact ⟨[], (List.append_nil _).symm⟩

/-- What is on the channel of the core stays there. -/
theorem contexts_of_step {a : SessionAction} (hstep : s.step dialect a = some s') :
    ∃ more, s'.contexts = s.contexts ++ more := by
  cases step_effect hstep with
  | task n hturn => exact hturn.contexts
  | requests | spawned | rejected | close | oneshot | coreEnds | replies =>
      exact ⟨[], (List.append_nil _).symm⟩

/-- Only the core answers. -/
theorem answered_of_step {a : SessionAction} (ha : ∀ n tx, a ≠ .respond n tx)
    (hstep : s.step dialect a = some s') {reply : UniversalPaymentEvent}
    (hanswered : s'.oneshots n = .answered reply) : s.oneshots n = .answered reply := by
  have hsame (heq : s'.oneshots = s.oneshots) : s.oneshots n = .answered reply := heq ▸ hanswered
  have hreplies {r : ReplyWriter.Action} (h : s.replyStep r = some s') :
      s'.oneshots = s.oneshots := by
    obtain ⟨replies, -, rfl⟩ := Option.map_eq_some_iff.mp h
    rfl
  cases a with
  | request payload =>
      simp only [Session.step] at hstep
      split at hstep
      · obtain ⟨requests, -, rfl⟩ := Option.map_eq_some_iff.mp hstep
        exact hanswered
      · cases hstep
  | uplink p =>
      simp only [Session.step] at hstep
      split at hstep
      · cases hstep
      · cases hstep
      · obtain ⟨requests, -, rfl⟩ := Option.map_eq_some_iff.mp hstep
        exact hanswered
  | read =>
      simp only [Session.step, Session.readStep] at hstep
      split at hstep
      · split at hstep <;> cases hstep <;> exact hanswered
      · cases hstep
  | close =>
      simp only [Session.step] at hstep
      split at hstep <;> cases hstep
      exact hanswered
  | task m t =>
      obtain ⟨tasks, contexts, replies, rfl⟩ := (taskStep_turn hstep).frame
      exact hanswered
  | respond m tx => exact absurd rfl (ha m tx)
  | forget m =>
      simp only [Session.step] at hstep
      split at hstep <;> cases hstep
      dsimp only at hanswered
      rcases eq_or_ne n m with rfl | hne
      · rw [update_self] at hanswered
        cases hanswered
      · rwa [update_of_ne hne] at hanswered
  | coreEnds =>
      cases hstep
      exact hanswered
  | writer t => exact hsame (hreplies hstep)
  | downlink p => exact hsame (hreplies hstep)

/-- The answer of the core is in the oneshot channel of its frame. -/
theorem step_respond {reply : UniversalPaymentEvent}
    (hstep : s.step dialect (.respond n reply) = some s') :
    s' = { s with oneshots := update s.oneshots n (.answered reply) } := by
  simp only [Session.step] at hstep
  split at hstep <;> cases hstep
  rfl

/-- A context with a responder is the request of a frame that was accepted. -/
theorem request_of_context {P : Session → SessionAction → Prop} (h : Session.Reachable dialect P s)
    {ctx : TransactionContext} (hmem : (n, ctx) ∈ s.contexts) (hctx : ctx.responder.isSome = true) :
    s.accepted dialect n = some ctx.transaction := by
  have hcourse := on_course h n
  have hmem : ctx ∈ s.contextsOf n := mem_under.mpr hmem
  rw [Session.place] at hcourse
  generalize s.accepted dialect n = accepted, s.tasks n = task, s.oneshots n = oneshot,
    s.contextsOf n = contexts, s.repliesTo n = replies at hcourse hmem ⊢
  cases hcourse with
  | absent | sending | refused => cases hmem
  | selecting | forgotten | replying | replied | reversing | unreversed =>
      cases List.mem_singleton.mp hmem
      rfl
  | reversed tx =>
      rcases List.mem_pair.mp hmem with rfl | rfl
      · rfl
      · cases hctx

end EdgeIngress

/-! ## What a step of the network changes -/

namespace Network

open EdgeIngress

variable {z z' : Network} {c n : Nat} {r : Responder}

inductive Effect (z : Network) (a : NetworkAction) : Network → Prop where
  | session {s : Session} (c : Nat) (b : SessionAction) (ha : z.clears a = none)
      (hrespond : ∀ n tx, b ≠ .respond n tx) (hstep : (z.sessions c).step (z.dialects c) b = some s)
      (haction : a = .session c b) : Effect z a { z with sessions := update z.sessions c s }
  | receive {engine : Engine} (w c k n : Nat) (ctx : TransactionContext)
      (hsent : (z.sessions c).contexts[k]? = some (n, ctx))
      (hfresh : (c, k) ∉ z.taken.map Prod.fst)
      (ha : z.clears a = some (.engine (.ingress w
        (.receive ctx.transaction ctx.responder.isSome))))
      (hstep : z.engine.step (.ingress w (.receive ctx.transaction ctx.responder.isSome)) =
        some engine) :
      Effect z a { z with
        clearing := { z.clearing with engine }
        taken := z.taken ++ [((c, k), z.engine.trace.length)] }
  | clearing {clearing : Clearing} (b : ClearingAction) (ha : z.clears a = some b)
      (hstep : z.clearing.step b = some clearing) : Effect z a (z.moved clearing)

theorem step_session {b : SessionAction} (hrespond : ∀ n tx, b ≠ .respond n tx) :
    z.step (.session c b) = ((z.sessions c).step (z.dialects c) b).map fun s =>
      { z with sessions := update z.sessions c s } := by
  cases b with
  | respond n tx => exact absurd rfl (hrespond n tx)
  | _ => rfl

theorem step_effect {a : NetworkAction} (hstep : z.step a = some z') : Effect z a z' := by
  cases a with
  | session c b =>
      have hrespond (n : Nat) (tx : UniversalPaymentEvent) : b ≠ .respond n tx := fun heq => by
        rw [heq] at hstep
        cases hstep
      rw [step_session hrespond] at hstep
      obtain ⟨s, hs, rfl⟩ := Option.map_eq_some_iff.mp hstep
      exact .session c b rfl hrespond hs rfl
  | receive w c k =>
      simp only [step] at hstep
      split at hstep
      · cases hstep
      next hfresh =>
        obtain ⟨clearing, hclearing, rfl⟩ := Option.map_eq_some_iff.mp hstep
        obtain ⟨b, hb, hstep⟩ := Option.bind_eq_some_iff.mp hclearing
        obtain ⟨⟨n, ctx⟩, hsent, rfl⟩ := Option.map_eq_some_iff.mp hb
        obtain ⟨engine, hengine, rfl⟩ := Option.map_eq_some_iff.mp hstep
        exact .receive w c k n ctx hsent hfresh hb hengine
  | clearing b =>
      obtain ⟨clearing, hclearing, rfl⟩ := Option.map_eq_some_iff.mp hstep
      obtain ⟨b', hb, hstep⟩ := Option.bind_eq_some_iff.mp hclearing
      exact .clearing b' hb hstep

/-! ## The answers of the engine on their way -/

/-- `hand` leaves all but the oneshot channels alone. -/
structure SameOutside (z z' : Network) : Prop where
  dialects : z'.dialects = z.dialects
  clearing : z'.clearing = z.clearing
  taken : z'.taken = z.taken

/-- What an event does to the connections. -/
inductive Handed (z : Network) : Event → Network → Prop where
  | skip (e : Event) : Handed z e z
  | answer {s : Session} {r : Responder} {source : Source} {reply : UniversalPaymentEvent}
      {c k n : Nat} {ctx : TransactionContext} (htaken : ((c, k), r) ∈ z.taken)
      (hsent : (z.sessions c).contexts[k]? = some (n, ctx))
      (hstep : (z.sessions c).step (z.dialects c) (.respond n reply) = some s) :
      Handed z (.responded r source reply) { z with sessions := update z.sessions c s }

theorem frameOf_eq_some (h : z.frameOf r = some (c, n)) : ∃ k ctx, ((c, k), r) ∈ z.taken ∧
    (z.sessions c).contexts[k]? = some (n, ctx) := by
  obtain ⟨x, hfind, hframe⟩ := Option.bind_eq_some_iff.mp h
  obtain ⟨sent, hsent, heq⟩ := Option.map_eq_some_iff.mp hframe
  cases heq
  have hr : x.2 = r := by simpa using List.find?_some hfind
  have hmem := List.mem_of_find?_eq_some hfind
  exact ⟨x.1.2, sent.2, hr ▸ hmem, hsent⟩

theorem hand_handed (z : Network) (e : Event) : Handed z e (z.hand e) := by
  rw [hand.eq_def]
  split
  next r source reply =>
    rw [send]
    split
    next c n hframe =>
      obtain ⟨k, ctx, htaken, hsent⟩ := frameOf_eq_some hframe
      split
      next s hstep => exact .answer htaken hsent hstep
      next => exact .skip _
    next => exact .skip _
  next => exact .skip e

theorem Handed.same {e : Event} (h : Handed z e z') : SameOutside z z' := by
  cases h with
  | skip => exact ⟨rfl, rfl, rfl⟩
  | answer => exact ⟨rfl, rfl, rfl⟩

/-- What no answer on its way breaks holds once they are all sent. -/
theorem moved_induction {I : Network → Prop} (clearing : Clearing) (hstart : I { z with clearing })
    (hhanded : ∀ y y' e, y.clearing = clearing → e ∈ Engine.newEvents z.engine clearing.engine →
      Handed y e y' → I y → I y') : I (z.moved clearing) ∧ (z.moved clearing).clearing = clearing := by
  refine List.foldlRecOn (motive := fun y => I y ∧ y.clearing = clearing) _ hand ⟨hstart, rfl⟩ ?_
  rintro y ⟨hy, hclearing⟩ e he
  have hhand := hand_handed y e
  exact ⟨hhanded y _ e hclearing he hhand hy, hhand.same.clearing.trans hclearing⟩

theorem moved_clearing (z : Network) (clearing : Clearing) :
    (z.moved clearing).clearing = clearing :=
  (moved_induction (I := fun _ => True) clearing trivial fun _ _ _ _ _ _ _ => trivial).2

/-! ## All runs -/

section
variable {P : Network → NetworkAction → Prop}

theorem session_handed {y y' : Network} {e : Event} (h : Handed y e y')
    (hy : ∀ c, Session.Reachable (y.dialects c) Transition.Free (y.sessions c)) (c : Nat) :
    Session.Reachable (y'.dialects c) Transition.Free (y'.sessions c) := by
  cases h with
  | skip => exact hy c
  | @answer s r source reply c' k n ctx _ _ hstep =>
      dsimp only
      rcases eq_or_ne c c' with rfl | hne
      · rw [update_self]
        exact (hy c).step ⟨_, trivial, hstep⟩
      · rw [update_of_ne hne]
        exact hy c

/-- The connections run as the listener lets them. -/
theorem Reachable.session_free (h : Reachable P z) (c : Nat) :
    Session.Reachable (z.dialects c) Transition.Free (z.sessions c) := by
  refine h.invariant (I := fun z => ∀ c, Session.Reachable (z.dialects c) Transition.Free
    (z.sessions c)) ?_ ?_ c
  · rintro _ ⟨dialects, engine, -, rfl⟩ c
    exact .start rfl
  · intro z z' _ hz ⟨a, _, hstep⟩
    cases step_effect hstep with
    | @session s c' b _ _ hs =>
        intro c
        dsimp only
        rcases eq_or_ne c c' with rfl | hne
        · rw [update_self]
          exact (hz c).step ⟨_, trivial, hs⟩
        · rw [update_of_ne hne]
          exact hz c
    | receive => exact hz
    | @clearing clearing b _ _ =>
        exact (moved_induction (I := fun y => ∀ c, Session.Reachable (y.dialects c) Transition.Free
          (y.sessions c)) clearing hz fun y y' e _ _ hhanded hy => session_handed hhanded hy).1

/-- What a step of the network is for the clearing. -/
def Meets (P : Clearing → ClearingAction → Prop) (z : Network) (a : NetworkAction) : Prop :=
  ∀ b, z.clears a = some b → P z.clearing b

/-- And so does the clearing. -/
theorem Reachable.clearing {P : Clearing → ClearingAction → Prop} (h : Reachable (Meets P) z) :
    Clearing.Reachable P z.clearing := by
  refine h.simulate (f := Network.clearing) ?_ fun z z' _ ⟨a, hmeets, hstep⟩ => ?_
  · rintro _ ⟨dialects, engine, hinit, rfl⟩
    exact ⟨engine, hinit, rfl⟩
  cases step_effect hstep with
  | session => exact .inl rfl
  | receive w c k n ctx _ _ ha hengine =>
      refine .inr ⟨_, hmeets _ ha, ?_⟩
      exact congrArg (Option.map fun engine => { z.clearing with engine }) hengine
  | clearing b ha hb =>
      rw [moved_clearing]
      exact .inr ⟨b, hmeets b ha, hb⟩

theorem Reachable.clearing_free (h : Reachable P z) :
    Clearing.Reachable Transition.Free z.clearing :=
  Reachable.clearing (h.relax fun _ _ _ _ _ => trivial)

end

/-! ## Whose answer it is -/

/-- The responder of a context that a worker has taken. -/
structure Entrusted (z : Network) (c k n : Nat) (r : Responder) (ctx : TransactionContext) : Prop where
  taken : ((c, k), r) ∈ z.taken
  sent : (z.sessions c).contexts[k]? = some (n, ctx)
  received : z.engine.trace[r]? = some (.received ctx.transaction ctx.responder.isSome)

/-- What is taken is taken once and has a responder of its own, and what is in the oneshot
channel of a frame was sent to the responder of its context. -/
structure Registered (z : Network) : Prop where
  once : (z.taken.map Prod.fst).Nodup
  apart : (z.taken.map Prod.snd).Nodup
  entrusted : ∀ {c k r}, ((c, k), r) ∈ z.taken → ∃ n ctx, z.Entrusted c k n r ctx
  answered : ∀ {c n reply}, (z.sessions c).oneshots n = .answered reply → ∃ k r ctx source,
    z.Entrusted c k n r ctx ∧ .responded r source reply ∈ z.engine.trace

theorem registered_new (dialects : Nat → IngressDialect) (engine : Engine) :
    Registered (new dialects engine) where
  once := .nil
  apart := .nil
  entrusted hmem := by cases hmem
  answered h := by cases h

theorem Entrusted.grow {k : Nat} {ctx : TransactionContext} {more : List Event}
    (h : z.Entrusted c k n r ctx) (htaken : z.taken ⊆ z'.taken)
    (hsent : ∃ more, (z'.sessions c).contexts = (z.sessions c).contexts ++ more)
    (htrace : z'.engine.trace = z.engine.trace ++ more) : z'.Entrusted c k n r ctx where
  taken := htaken h.taken
  sent := by
    obtain ⟨more, heq⟩ := hsent
    rw [heq]
    exact kept h.sent
  received := htrace ▸ kept h.received

/-- Nothing is taken, and whatever is new in a oneshot channel was sent. -/
theorem Registered.grow {more : List Event} (hz : z.Registered) (htaken : z'.taken = z.taken)
    (hsent : ∀ c, ∃ more, (z'.sessions c).contexts = (z.sessions c).contexts ++ more)
    (htrace : z'.engine.trace = z.engine.trace ++ more)
    (hnew : ∀ {c n reply}, (z'.sessions c).oneshots n = .answered reply →
      (z.sessions c).oneshots n = .answered reply ∨ ∃ k r ctx source,
        z.Entrusted c k n r ctx ∧ .responded r source reply ∈ z'.engine.trace) :
    z'.Registered where
  once := htaken ▸ hz.once
  apart := htaken ▸ hz.apart
  entrusted hmem := by
    rw [htaken] at hmem
    obtain ⟨n, ctx, h⟩ := hz.entrusted hmem
    exact ⟨n, ctx, h.grow (htaken ▸ List.Subset.refl _) (hsent _) htrace⟩
  answered h := by
    have hsub : z.taken ⊆ z'.taken := htaken ▸ List.Subset.refl _
    rcases hnew h with hold | ⟨k, r, ctx, source, hentrusted, hmem⟩
    · obtain ⟨k, r, ctx, source, hentrusted, hmem⟩ := hz.answered hold
      refine ⟨k, r, ctx, source, hentrusted.grow hsub (hsent _) htrace, ?_⟩
      rw [htrace]
      exact List.mem_append_left _ hmem
    · exact ⟨k, r, ctx, source, hentrusted.grow hsub (hsent _) htrace, hmem⟩

theorem Registered.session (hz : z.Registered) {s : Session} {b : SessionAction}
    (hrespond : ∀ n tx, b ≠ .respond n tx) (hstep : (z.sessions c).step (z.dialects c) b = some s) :
    Registered { z with sessions := update z.sessions c s } := by
  refine hz.grow rfl (fun m => ?_) (List.append_nil _).symm fun {m n reply} h => .inl ?_
  · dsimp only
    rcases eq_or_ne m c with rfl | hne
    · rw [update_self]
      exact contexts_of_step hstep
    · rw [update_of_ne hne]
      exact ⟨[], (List.append_nil _).symm⟩
  · dsimp only at h
    rcases eq_or_ne m c with rfl | hne
    · rw [update_self] at h
      exact answered_of_step hrespond hstep h
    · rwa [update_of_ne hne] at h

/-- A worker takes a context, and the engine has a new responder for it. -/
theorem Registered.receive (hz : z.Registered) {w k : Nat} {ctx : TransactionContext}
    (hsent : (z.sessions c).contexts[k]? = some (n, ctx))
    (hfresh : (c, k) ∉ z.taken.map Prod.fst) (hsessions : z'.sessions = z.sessions)
    (htaken : z'.taken = z.taken ++ [((c, k), z.engine.trace.length)])
    (hstep : z.engine.step (.ingress w (.receive ctx.transaction ctx.responder.isSome)) =
      some z'.engine) : z'.Registered := by
  obtain ⟨-, hengine⟩ := Engine.step_receive hstep
  have htrace : z'.engine.trace =
      z.engine.trace ++ [.received ctx.transaction ctx.responder.isSome] := by
    rw [hengine]
    rfl
  have hlt {c k : Nat} {r : Responder} (h : ((c, k), r) ∈ z.taken) : r < z.engine.trace.length := by
    obtain ⟨n, ctx, h⟩ := hz.entrusted h
    exact lt_length h.received
  have hgrow {c k n : Nat} {r : Responder} {ctx : TransactionContext}
      (h : z.Entrusted c k n r ctx) : z'.Entrusted c k n r ctx :=
    h.grow (htaken ▸ List.subset_append_left _ _) ⟨[], by rw [hsessions, List.append_nil]⟩ htrace
  constructor
  · rw [htaken, List.map_append]
    exact hz.once.append (List.nodup_singleton _) (by simpa using hfresh)
  · rw [htaken, List.map_append]
    refine hz.apart.append (List.nodup_singleton _) (List.disjoint_singleton.mpr fun hmem => ?_)
    obtain ⟨⟨⟨c', k'⟩, r⟩, hmem, heq⟩ := List.mem_map.mp hmem
    exact absurd (hlt hmem) (by rw [show r = _ from heq]; exact Nat.lt_irrefl _)
  · intro c' k' r hmem
    rw [htaken, List.mem_append] at hmem
    rcases hmem with hold | hnew
    · obtain ⟨n, ctx, h⟩ := hz.entrusted hold
      exact ⟨n, ctx, hgrow h⟩
    · cases List.mem_singleton.mp hnew
      refine ⟨n, ctx, ?_, hsessions ▸ hsent, ?_⟩
      · rw [htaken]
        exact List.mem_append_right _ List.mem_cons_self
      · rw [htrace, List.getElem?_concat_length]
  · intro c' n' reply h
    rw [hsessions] at h
    obtain ⟨k', r, ctx', source, hentrusted, hmem⟩ := hz.answered h
    refine ⟨k', r, ctx', source, hgrow hentrusted, ?_⟩
    rw [htrace]
    exact List.mem_append_left _ hmem

/-- An answer that is sent is one of the engine. -/
theorem Registered.handed (hz : z.Registered) {e : Event} (hmem : e ∈ z.engine.trace)
    (h : Handed z e z') : z'.Registered := by
  cases h with
  | skip => exact hz
  | @answer s r source reply c k n ctx htaken hsent hstep =>
      obtain rfl := step_respond hstep
      refine hz.grow rfl (fun m => ⟨[], ?_⟩) (List.append_nil _).symm fun {m n' reply'} h => ?_
      · dsimp only
        rw [List.append_nil]
        rcases eq_or_ne m c with rfl | hne
        · rw [update_self]
        · rw [update_of_ne hne]
      · dsimp only at h
        rcases eq_or_ne m c with rfl | hne
        · rw [update_self] at h
          dsimp only at h
          rcases eq_or_ne n' n with rfl | hne
          · rw [update_self] at h
            cases h
            obtain ⟨n, ctx', hentrusted⟩ := hz.entrusted htaken
            cases hsent.symm.trans hentrusted.sent
            exact .inr ⟨k, r, ctx, source, hentrusted, hmem⟩
          · rw [update_of_ne hne] at h
            exact .inl h
        · rw [update_of_ne hne] at h
          exact .inl h

theorem Registered.moved (hz : z.Registered) {clearing : Clearing} {more : List Event}
    (hl : clearing.engine.trace = z.engine.trace ++ more) : (z.moved clearing).Registered := by
  have hstart : Registered { z with clearing } :=
    hz.grow rfl (fun _ => ⟨[], (List.append_nil _).symm⟩) hl fun h => .inl h
  refine (moved_induction (I := Registered) clearing hstart fun y y' e hclearing he hhanded hy => ?_).1
  refine hy.handed ?_ hhanded
  rw [Clearing.newEvents_eq hl] at he
  rw [engine, hclearing, hl]
  exact List.mem_append_right _ he

theorem Reachable.registered {P : Network → NetworkAction → Prop} (h : Reachable P z) :
    z.Registered := by
  refine h.invariant ?_ fun z z' hreach hz ⟨a, _, hstep⟩ => ?_
  · rintro _ ⟨dialects, engine, -, rfl⟩
    exact registered_new dialects engine
  cases step_effect hstep with
  | session c b _ hrespond hs => exact hz.session hrespond hs
  | receive w c k n ctx hsent hfresh _ hengine => exact hz.receive hsent hfresh rfl rfl hengine
  | clearing b _ hb =>
      obtain ⟨more, hl⟩ := Clearing.trace_of_step (Reachable.clearing_free hreach) hb
      exact hz.moved hl

/-- The frame of a responder is that of the context that brought it. -/
theorem Entrusted.frameOf {k : Nat} {ctx : TransactionContext} (h : z.Entrusted c k n r ctx)
    (hz : z.Registered) : z.frameOf r = some (c, n) := by
  have hfound : (z.taken.find? fun x => x.2 = r).isSome = true :=
    List.find?_isSome.mpr ⟨_, h.taken, decide_eq_true rfl⟩
  obtain ⟨x, hx⟩ := Option.isSome_iff_exists.mp hfound
  have hr : x.2 = r := by simpa using List.find?_some hx
  obtain rfl := List.inj_on_of_nodup_map hz.apart (List.mem_of_find?_eq_some hx) h.taken hr
  rw [Network.frameOf, hx, Option.bind_some, h.sent, Option.map_some]

/-! ## What a terminal reads -/

/-- Message `m` that the terminal of connection `c` has taken is what the engine has answered
to frame `n` of that terminal, through the responder of the frame. -/
structure Reads (z : Network) (c m n : Nat) (r : Responder) (tx : UniversalPaymentEvent)
    (source : Source) (reply : UniversalPaymentEvent) : Prop where
  read : (z.sessions c).replies.read[m]? = some (n, (z.dialects c).buildResponse reply)
  accepted : (z.sessions c).accepted (z.dialects c) n = some tx
  frame : z.frameOf r = some (c, n)
  received : z.engine.trace[r]? = some (.received tx true)
  responded : .responded r source reply ∈ z.engine.trace

section
variable {P : Network → NetworkAction → Prop} {m : Nat} {msg : Bytes}
  {tx reply : UniversalPaymentEvent} {source : Source}

theorem Reachable.reads (h : Reachable P z)
    (hmsg : (z.sessions c).replies.pipe.taken[m]? = some msg) : ∃ n r tx source reply,
      z.Reads c m n r tx source reply ∧ msg = (z.dialects c).buildResponse reply := by
  have hsession := Reachable.session_free h c
  have hregistered := Reachable.registered h
  have hreplies := replies_short hsession
  rw [ReplyWriter.taken_eq hreplies, List.getElem?_map, Option.map_eq_some_iff] at hmsg
  obtain ⟨⟨n, msg⟩, hread, rfl⟩ := hmsg
  have hqueued := (ReplyWriter.read_sublist hreplies).subset (List.mem_of_getElem? hread)
  obtain ⟨-, -, reply, honeshot, rfl⟩ := reply_is_response hsession hqueued
  obtain ⟨k, r, ctx, source, hentrusted, hmem⟩ := hregistered.answered honeshot
  have hclearing := Reachable.clearing_free h
  obtain ⟨tx, harrives, -⟩ := Engine.Reachable.answered (Clearing.Reachable.engine_free hclearing) hmem
  have hreceived := hentrusted.received
  obtain ⟨rfl, hsome⟩ : ctx.transaction = tx ∧ ctx.responder.isSome = true := by
    have heq := hreceived.symm.trans harrives
    simpa using heq
  have haccepted :=
    request_of_context hsession (List.mem_of_getElem? hentrusted.sent) hsome
  exact ⟨n, r, ctx.transaction, source, reply,
    ⟨hread, haccepted, hentrusted.frameOf hregistered, harrives, hmem⟩, rfl⟩

/-- A frame is answered with one message. -/
theorem Reads.same_frame (h : Reachable P z) {m' : Nat} {r' : Responder}
    {tx' reply' : UniversalPaymentEvent} {source' : Source}
    (hreads : z.Reads c m n r tx source reply) (hreads' : z.Reads c m' n r' tx' source' reply') :
    m = m' := by
  have hsession := Reachable.session_free h c
  have hnodup : ((z.sessions c).replies.read.map Prod.fst).Nodup :=
    (nodup_replied hsession).sublist ((ReplyWriter.read_sublist (replies_short hsession)).map _)
  have hfirst : ((z.sessions c).replies.read.map Prod.fst)[m]? = some n := by
    rw [List.getElem?_map, hreads.read]
    rfl
  have hsecond : ((z.sessions c).replies.read.map Prod.fst)[m']? = some n := by
    rw [List.getElem?_map, hreads'.read]
    rfl
  exact (List.getElem?_inj (lt_length hfirst) hnodup).mp (hfirst.trans hsecond.symm)

/-- A responder is for one message. -/
theorem Reads.unique (h : Reachable P z) {c' m' n' : Nat} {tx' reply' : UniversalPaymentEvent}
    {source' : Source} (hreads : z.Reads c m n r tx source reply)
    (hreads' : z.Reads c' m' n' r tx' source' reply') : c = c' ∧ m = m' := by
  cases hreads.frame.symm.trans hreads'.frame
  exact ⟨rfl, hreads.same_frame h hreads'⟩

end

/-- Terminal `c` sends no request before it has read the response to its last one. -/
def Waits (c : Nat) (z : Network) : NetworkAction → Prop
  | .session c' (.request _) =>
      c' = c → (z.sessions c).requests.put.length = (z.sessions c).replies.pipe.taken.length
  | _ => True

instance (c : Nat) (z : Network) : (a : NetworkAction) → Decidable (Waits c z a)
  | .session _ (.request _) => instDecidableForall
  | .session _ (.uplink _) | .session _ .read | .session _ .close | .session _ (.task _ _)
  | .session _ (.respond _ _) | .session _ (.forget _) | .session _ .coreEnds
  | .session _ (.writer _) | .session _ (.downlink _) | .receive _ _ _ | .clearing _ =>
      inferInstanceAs (Decidable True)

/-- STANs and keys are kept apart, the frames fit, and terminal `c` waits. -/
def Patient (c : Nat) (z : Network) (a : NetworkAction) : Prop :=
  Meets (Clearing.Meets Clearing.Apart) z a ∧ Waits c z a

/-! ## A purchase from the terminal and back -/

/-- The clearing feeds nothing and notes nothing that the disciplines are about, and the
first terminal waits. -/
def Plain (z : Network) (a : NetworkAction) : Prop :=
  (z.clears a).all (fun b => decide (Clearing.Plain z.clearing b)) = true ∧ Waits 0 z a

instance (z : Network) (a : NetworkAction) : Decidable (Plain z a) :=
  inferInstanceAs (Decidable (_ ∧ _))

theorem Plain.patient (z : Network) (a : NetworkAction) (h : Plain z a) : Patient 0 z a := by
  refine ⟨fun b hb => ?_, h.2⟩
  have hplain := h.1
  rw [hb, Option.all_some, decide_eq_true_eq] at hplain
  exact Clearing.Plain.meets _ _ hplain

theorem clears_eq {b b' : ClearingAction} (h : z.clears (.clearing b') = some b) : b = b' := by
  rw [clears.eq_def] at h
  split at h
  next heq => cases heq
  next heq => cases heq
  next => cases h
  next heq =>
    cases heq
    cases h
    rfl

/-- A step of the engine of which the events are known. -/
theorem meets_of_newEvents {a : Action} {l : List Event}
    (hl : (z.clearing.step (.engine a)).map (fun y => Engine.newEvents z.engine y.engine) = some l)
    (h : ∀ e ∈ l, Clearing.Apart z.engine.flow e) :
    Meets (Clearing.Meets Clearing.Apart) z (.clearing (.engine a)) := by
  intro b hb
  obtain rfl := clears_eq hb
  refine ⟨fun _ _ _ heq => (by cases heq), fun y hy e he => h e ?_⟩
  rw [hy] at hl
  cases hl
  exact he

/-- A terminal of the Interac listener, and no routes yet. -/
def start : Network := .new (fun _ => .interac) (Engine.start 100 ∅)

def ofEngine (actions : List Action) : List NetworkAction := actions.map fun a => .clearing (.engine a)

/-- The terminal sends the purchase and a worker takes it up to the guard. -/
def insertRun : List NetworkAction :=
  ofEngine [.storeRouter visaRouter] ++
    [.session 0 (.request (InteracDialect.buildResponse (purchase "000100" "RRN000000001"))),
      .session 0 (.uplink (.transmit 86)), .session 0 (.uplink (.arrive 86)), .session 0 .read,
      .session 0 (.task 0 .handOver), .receive 0 0 0] ++
    ofEngine [.ingress 0 .run, .ingress 0 .run, .ingress 0 .run]

def numberRun : List NetworkAction :=
  insertRun ++ ofEngine [.ingress 0 .run] ++ ofEngine [.ingress 0 (.outcome true), .ingress 0 .run]

def sendRun : List NetworkAction :=
  numberRun ++ ofEngine [.ingress 0 .run] ++ ofEngine [.ingress 0 .run]

/-- The purchase is with the client of the bank. -/
def feedRun : List NetworkAction := sendRun ++ ofEngine [.ingress 0 (.outcome true)]

/-- The bank approves it and the terminal reads the answer. -/
def readRun : List NetworkAction :=
  feedRun ++ [.clearing (.feed 0 5)] ++ (Clearing.clearRun.map .clearing ++
    [.session 0 (.task 0 .takeResponse), .session 0 (.task 0 .reply), .session 0 (.writer .recv),
      .session 0 (.writer (.feed true)), .session 0 (.writer .tryRecv),
      .session 0 (.writer (.transmit 86)), .session 0 (.writer .flush),
      .session 0 (.downlink (.arrive 86)), .session 0 (.downlink .take)])

/-- The network in which the purchase is approved. -/
def answered : Network := Transition.ran step start readRun

set_option maxRecDepth 8000 in
theorem reachable_insertRun :
    Reachable (Patient 0) (Transition.ran step start insertRun) :=
  Transition.Reachable.ran_of_complies Plain.patient
    ⟨fun _ => .interac, Engine.start 100 ∅, Engine.start_initial 100 ∅, rfl⟩ (by decide +kernel)

set_option maxRecDepth 8000 in
theorem reachable_numberRun :
    Reachable (Patient 0) (Transition.ran step start numberRun) := by
  have hengine : (Transition.ran step start insertRun).engine = Engine.after beforeInsert := rfl
  have hinserted : Reachable (Patient 0)
      (Transition.ran step start (insertRun ++ ofEngine [.ingress 0 .run])) := by
    refine Transition.Reachable.ran_step (by decide +kernel) reachable_insertRun
      ⟨meets_of_newEvents (l := [.inserted "RRN000000001-000100-ACQ1"
        (purchase "000100" "RRN000000001") (some 0)]) (by decide +kernel) ?_, trivial⟩ (by decide +kernel)
    rw [hengine]
    exact List.forall_mem_singleton.mpr ⟨beforeInsert_apart.stans, beforeInsert_apart.keys⟩
  exact Transition.Reachable.ran_append Plain.patient (by decide +kernel) hinserted (by decide +kernel)

set_option maxRecDepth 8000 in
theorem reachable_sendRun :
    Reachable (Patient 0) (Transition.ran step start sendRun) := by
  have hengine : (Transition.ran step start numberRun).engine = Engine.after beforeNumber := rfl
  have hnumbered : Reachable (Patient 0)
      (Transition.ran step start (numberRun ++ ofEngine [.ingress 0 .run])) := by
    refine Transition.Reachable.ran_step (by decide +kernel) reachable_numberRun
      ⟨meets_of_newEvents (l := [.numbered 1 "000000"]) (by decide +kernel) ?_, trivial⟩ (by decide +kernel)
    rw [hengine]
    exact List.forall_mem_singleton.mpr ⟨Engine.beforeNumber_unused, trivial⟩
  exact Transition.Reachable.ran_append Plain.patient (by decide +kernel) hnumbered (by decide +kernel)

set_option maxRecDepth 8000 in
theorem reachable_feedRun :
    Reachable (Patient 0) (Transition.ran step start feedRun) := by
  have hengine : (Transition.ran step start sendRun).engine = Engine.after beforeSend := rfl
  refine Transition.Reachable.ran_step (by decide +kernel) reachable_sendRun
    ⟨meets_of_newEvents (l := [.posted (purchaseFrame 1 "000000").transaction,
      .placed (purchaseFrame 1 "000000")]) (by decide +kernel) ?_, trivial⟩ (by decide +kernel)
  rw [hengine]
  exact List.forall_mem_cons.mpr ⟨⟨trivial, trivial⟩,
    List.forall_mem_singleton.mpr ⟨beforeSend_apart.stans, beforeSend_apart.keys⟩⟩

set_option maxRecDepth 8000 in
theorem patient_answered : Reachable (Patient 0) answered := by
  have hframe : (Transition.ran step start feedRun).engine.trace[5]? =
      some (.placed (purchaseFrame 1 "000000")) := by decide +kernel
  have hfed : Reachable (Patient 0)
      (Transition.ran step start (feedRun ++ [.clearing (.feed 0 5)])) := by
    refine Transition.Reachable.ran_step (by decide +kernel) reachable_feedRun ?_ (by decide +kernel)
    refine ⟨fun b hb => ?_, trivial⟩
    obtain rfl := clears_eq hb
    refine ⟨fun c n f heq hf => ?_, fun y hy e he => ?_⟩
    · cases heq
      cases hframe.symm.trans hf
      exact Clearing.purchaseFrame_fit
    · rw [Clearing.newEvents_of_feed hy] at he
      cases he
  exact Transition.Reachable.ran_append Plain.patient (by decide +kernel) hfed (by decide +kernel)

theorem reachable_answered : Reachable (Meets (Clearing.Meets Clearing.Apart)) answered :=
  patient_answered.relax fun _ _ hpatient => hpatient.1

/-- What the terminal has read. -/
def approvedMessage : Bytes := InteracDialect.buildResponse (Engine.approval purchaseApproval)

/-! ## Whose answers the terminals read -/

/-- Whatever the terminals, the workers and the banks do, every message that a terminal takes
is an answer of the engine to a frame that this terminal has sent on its own connection, no
two messages answer the same frame, and no answer comes to two terminals or twice. -/
theorem terminals_read_own (h : Reachable Transition.Free z) :
    ∃ (frame : Nat → Nat → Nat) (asked : Nat → Nat → Responder),
      (∀ c m msg, (z.sessions c).replies.pipe.taken[m]? = some msg → ∃ tx source reply,
        (z.sessions c).accepted (z.dialects c) (frame c m) = some tx ∧
        z.frameOf (asked c m) = some (c, frame c m) ∧
        z.engine.trace[asked c m]? = some (.received tx true) ∧
        .responded (asked c m) source reply ∈ z.engine.trace ∧
        msg = (z.dialects c).buildResponse reply) ∧
      (∀ c m m', m < (z.sessions c).replies.pipe.taken.length →
        m' < (z.sessions c).replies.pipe.taken.length → frame c m = frame c m' → m = m') ∧
      ∀ c m c' m', m < (z.sessions c).replies.pipe.taken.length →
        m' < (z.sessions c').replies.pipe.taken.length → asked c m = asked c' m' →
        c = c' ∧ m = m' := by
  have hall (c m : Nat) : ∃ n r, ∀ msg, (z.sessions c).replies.pipe.taken[m]? = some msg →
      ∃ tx source reply, z.Reads c m n r tx source reply ∧
        msg = (z.dialects c).buildResponse reply := by
    cases hmsg : (z.sessions c).replies.pipe.taken[m]? with
    | none => exact ⟨0, 0, fun _ heq => (by cases heq)⟩
    | some msg =>
        obtain ⟨n, r, tx, source, reply, hreads, hreply⟩ := Reachable.reads h hmsg
        refine ⟨n, r, fun msg' heq => ⟨tx, source, reply, hreads, ?_⟩⟩
        cases heq
        exact hreply
  choose frame asked hasked using hall
  refine ⟨frame, asked, fun c m msg hmsg => ?_, fun c m m' hm hm' heq => ?_,
    fun c m c' m' hm hm' heq => ?_⟩
  · obtain ⟨tx, source, reply, hreads, hreply⟩ := hasked c m msg hmsg
    exact ⟨tx, source, reply, hreads.accepted, hreads.frame, hreads.received, hreads.responded,
      hreply⟩
  · obtain ⟨_, _, _, hreads, -⟩ := hasked c m _ (List.getElem?_eq_getElem hm)
    obtain ⟨_, _, _, hreads', -⟩ := hasked c m' _ (List.getElem?_eq_getElem hm')
    rw [← heq] at hreads'
    exact hreads.same_frame h hreads'
  · obtain ⟨_, _, _, hreads, -⟩ := hasked c m _ (List.getElem?_eq_getElem hm)
    obtain ⟨_, _, _, hreads', -⟩ := hasked c' m' _ (List.getElem?_eq_getElem hm')
    rw [← heq] at hreads'
    exact hreads.unique h hreads'

set_option maxRecDepth 8000 in
theorem terminals_read_own_answered :
    (answered.sessions 0).replies.pipe.taken[0]? = some approvedMessage ∧
    ∃ (frame : Nat → Nat → Nat) (asked : Nat → Nat → Responder),
      (∀ c m msg, (answered.sessions c).replies.pipe.taken[m]? = some msg → ∃ tx source reply,
        (answered.sessions c).accepted (answered.dialects c) (frame c m) = some tx ∧
        answered.frameOf (asked c m) = some (c, frame c m) ∧
        answered.engine.trace[asked c m]? = some (.received tx true) ∧
        .responded (asked c m) source reply ∈ answered.engine.trace ∧
        msg = (answered.dialects c).buildResponse reply) ∧
      (∀ c m m', m < (answered.sessions c).replies.pipe.taken.length →
        m' < (answered.sessions c).replies.pipe.taken.length → frame c m = frame c m' → m = m') ∧
      ∀ c m c' m', m < (answered.sessions c).replies.pipe.taken.length →
        m' < (answered.sessions c').replies.pipe.taken.length → asked c m = asked c' m' →
        c = c' ∧ m = m' :=
  ⟨by decide +kernel, terminals_read_own (reachable_answered.relax fun _ _ _ => trivial)⟩

/-- And with the banks at the other end, the answer has the amount, the RRN and the local
date and time of the frame, or else it is the decline of a request without a route.  An
approval is the request itself with the code that the rules of the bank give for its amount
and its card, behind the detokenizer. -/
theorem terminals_answered (h : Reachable (Meets (Clearing.Meets Clearing.Apart)) z) {m : Nat}
    {msg : Bytes} (hmsg : (z.sessions c).replies.pipe.taken[m]? = some msg) :
    ∃ (n : Nat) (r : Responder) (tx : UniversalPaymentEvent) (source : Source)
      (reply : UniversalPaymentEvent),
      (z.sessions c).accepted (z.dialects c) n = some tx ∧
      z.frameOf r = some (c, n) ∧
      .responded r source reply ∈ z.engine.trace ∧
      msg = (z.dialects c).buildResponse reply ∧
      (Echoes tx reply ∨ (∃ i, source = .unrouted i) ∧ tx.Declined reply) ∧
      ∀ i p, source = .bank i p → ∃ tx' v stan pinBlock,
        z.engine.mem.tspVault.Resolves tx tx' ∧
        MockBank.verdict tx'.amount tx'.fpan (decodedClass tx'.mti) = some v ∧
        reply = fromPb { toPb { tx' with stan := stan, pinBlock := pinBlock } with
          mti := "0110", responseCode := v.2 } := by
  obtain ⟨n, r, tx, source, reply, hreads, hreply⟩ := Reachable.reads h hmsg
  have hclearing := Reachable.clearing h
  obtain ⟨tx₀, harrives, hanswer⟩ :=
    Engine.Reachable.answered (Clearing.Reachable.engine_free hclearing) hreads.responded
  obtain rfl : tx = tx₀ := by
    have heq := hreads.received.symm.trans harrives
    simpa using heq
  refine ⟨n, r, tx, source, reply, hreads.accepted, hreads.frame, hreads.responded, hreply, ?_⟩
  cases hanswer with
  | echo hsource hechoes => exact ⟨.inl hechoes, fun i p heq => absurd heq (hsource i p)⟩
  | decline i hdeclined => exact ⟨.inr ⟨⟨i, rfl⟩, hdeclined⟩, fun _ _ heq => (by cases heq)⟩
  | @approval i key tx' p reply hinserted hresolves =>
      obtain ⟨tx'', v, happroved⟩ := Clearing.Reachable.approved hclearing hreads.responded
      obtain ⟨_, hinserted'⟩ := happroved.inserted
      obtain ⟨-, rfl, -⟩ := hinserted.unique hinserted'
      obtain ⟨stan, pinBlock, hmade⟩ := happroved.reply
      refine ⟨.inl (happroved.echoes hresolves), fun i' p' heq => ?_⟩
      cases heq
      exact ⟨tx', v, stan, pinBlock, hresolves, happroved.verdict, hmade⟩

set_option maxRecDepth 8000 in
theorem terminals_answered_answered :
    ∃ (n : Nat) (r : Responder) (tx : UniversalPaymentEvent) (source : Source)
      (reply : UniversalPaymentEvent),
      (answered.sessions 0).accepted .interac n = some tx ∧
      answered.frameOf r = some (0, n) ∧
      .responded r source reply ∈ answered.engine.trace ∧
      approvedMessage = InteracDialect.buildResponse reply ∧
      (Echoes tx reply ∨ (∃ i, source = .unrouted i) ∧ tx.Declined reply) ∧
      ∀ i p, source = .bank i p → ∃ tx' v stan pinBlock,
        answered.engine.mem.tspVault.Resolves tx tx' ∧
        MockBank.verdict tx'.amount tx'.fpan (decodedClass tx'.mti) = some v ∧
        reply = fromPb { toPb { tx' with stan := stan, pinBlock := pinBlock } with
          mti := "0110", responseCode := v.2 } :=
  terminals_answered (c := 0) (m := 0) reachable_answered (by decide +kernel)

end Network

end Iso8583Switch
