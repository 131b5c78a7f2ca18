import Iso8583Switch.Library.Dialogue
import Iso8583Switch.Properties.TerminalAnswers

/-!
# The switch as its terminals see it

For a terminal the switch is a service that is asked and answers (`Dialogue`).  A frame is
asked for once it has been read and parsed, it is answered once the engine has used the
responder of its context, and what the terminal takes is the response that the dialect
makes of an answer.  Whatever happens between these steps, in the workers, at the HSM, at
the banks and on the connections, leaves the dialogue as it is, and a run of the network
is a run of the dialogue of each of its terminals (`terminals_converse`).
-/

namespace Iso8583Switch

open Function Relation Framing

/-- The answer is about the request, or it is the decline of a request without a route. -/
def UniversalPaymentEvent.Answers (tx reply : UniversalPaymentEvent) : Prop :=
  Echoes tx reply ∨ tx.Declined reply

def IngressDialect.service (dialect : IngressDialect) :
    Service UniversalPaymentEvent UniversalPaymentEvent Bytes :=
  ⟨UniversalPaymentEvent.Answers, dialect.buildResponse⟩

/-! ## The dialogue of a connection -/

namespace EdgeIngress

variable {dialect : IngressDialect} {s s' : Session} {n : Nat}

def Oneshot.answer : Oneshot → Option UniversalPaymentEvent
  | .answered responseTx => some responseTx
  | _ => none

def Session.dialogue (s : Session) (dialect : IngressDialect) :
    Dialogue Nat UniversalPaymentEvent UniversalPaymentEvent Bytes where
  asked := s.accepted dialect
  answered n := (s.oneshots n).answer
  read := s.replies.read

theorem Session.accepted_receive (payload src : Bytes) :
    (s.receive payload src).accepted dialect =
      update (s.accepted dialect) s.requests.taken.length (dialect.parse payload).toOption := by
  funext m
  rcases eq_or_ne m s.requests.taken.length with rfl | hne
  · rw [update_self]
    have hplace : (s.receive payload src).place dialect _ = _ :=
      Session.place_receive_self payload src
    exact congrArg Place.accepted hplace
  · rw [update_of_ne hne]
    have hplace : (s.receive payload src).place dialect m = s.place dialect m :=
      Session.place_receive_of_ne hne payload src
    exact congrArg Place.accepted hplace

/-- A message that is taken is the response to its frame, which has not been read before. -/
theorem dialogue_of_take {P : Session → SessionAction → Prop} {replies : ReplyWriter}
    (h : Session.Reachable dialect P s)
    (h' : Session.Reachable dialect Transition.Free { s with replies })
    (hreply : s.replies.step .edgeIngress (.wire .take) = some replies) :
    Dialogue.Step dialect.service (s.dialogue dialect)
      (({ s with replies } : Session).dialogue dialect) := by
  obtain ⟨payload, src, hdecode⟩ : ∃ payload src,
      decode (ε := Empty) s.replies.pipe.inBuffer = (.ok (some payload), src) := by
    obtain ⟨pipe, hpipe, -⟩ := Option.map_eq_some_iff.mp hreply
    rw [Pipe.step, Pipe.take] at hpipe
    split at hpipe
    next payload src hdecode => exact ⟨payload, src, hdecode⟩
    next => cases hpipe
  obtain ⟨n, -, hread⟩ := ReplyWriter.read_of_take (replies_short h) hdecode hreply
  have hsublist := ReplyWriter.read_sublist (replies_short h')
  dsimp only at hsublist
  rw [hread] at hsublist
  have hqueued := hsublist.subset (List.mem_append_right _ List.mem_cons_self)
  obtain ⟨-, -, reply, honeshot, rfl⟩ := reply_is_response h' hqueued
  have hnodup := (nodup_replied h').sublist (hsublist.map Prod.fst)
  rw [List.map_append, List.nodup_append] at hnodup
  have hfresh : n ∉ (s.dialogue dialect).read.map Prod.fst := fun hmem =>
    hnodup.2.2 n hmem n List.mem_cons_self rfl
  have hanswered : (s.dialogue dialect).answered n = some reply := congrArg Oneshot.answer honeshot
  have hstep := Dialogue.Step.read (v := dialect.service) hanswered hfresh
  have heq : ({ s with replies } : Session).dialogue dialect =
      { s.dialogue dialect with
        read := (s.dialogue dialect).read ++ [(n, dialect.service.form reply)] } :=
    congrArg (Dialogue.mk (s.dialogue dialect).asked (s.dialogue dialect).answered) hread
  rw [heq]
  exact hstep

/-- A step in which the core does not answer takes the dialogue one step further or leaves
it. -/
theorem dialogue_of_step {P : Session → SessionAction → Prop} (h : Session.Reachable dialect P s)
    {a : SessionAction} (ha : ∀ n tx, a ≠ .respond n tx) (hstep : s.step dialect a = some s') :
    s'.dialogue dialect = s.dialogue dialect ∨
      Dialogue.Step dialect.service (s.dialogue dialect) (s'.dialogue dialect) := by
  have hfree' : Session.Reachable dialect Transition.Free s' := h.free.step ⟨a, trivial, hstep⟩
  have hanswered (n : Nat) (reply : UniversalPaymentEvent)
      (h : s'.oneshots n = .answered reply) : s.oneshots n = .answered reply :=
    answered_of_step ha hstep h
  cases step_effect hstep with
  | requests p _ htake hpipe =>
      refine .inl (congrArg (Dialogue.mk · _ _) (funext fun m => ?_))
      rw [Session.accepted, Session.accepted, Pipe.taken_of_step htake hpipe]
  | spawned payload src tx _ hparse =>
      have haccepted : (s.receive payload src).accepted dialect = _ :=
        Session.accepted_receive payload src
      rw [hparse] at haccepted
      have hask := Dialogue.Step.ask (v := dialect.service) (d := s.dialogue dialect) tx
        (s.accepted_next dialect)
      have heq : (((s.receive payload src).setTask s.requests.taken.length (.sending tx)).dialogue
          dialect) = { s.dialogue dialect with
            asked := update (s.dialogue dialect).asked s.requests.taken.length (some tx) } :=
        congrArg (Dialogue.mk · _ _) haccepted
      exact .inr (heq ▸ hask)
  | rejected payload src failure reading _ hparse _ =>
      have haccepted : (s.receive payload src).accepted dialect = _ :=
        Session.accepted_receive payload src
      have hnext : (dialect.parse payload).toOption = s.accepted dialect s.requests.taken.length := by
        rw [hparse, s.accepted_next]
        rfl
      rw [hnext, update_eq_self] at haccepted
      exact .inl (congrArg (Dialogue.mk · _ _) haccepted)
  | close => exact .inl rfl
  | task n hturn =>
      have hread : s'.replies.read = s.replies.read := by
        rcases hturn.replies with hsame | ⟨isoOut, -, hpush⟩
        · rw [hsame]
        · exact ReplyWriter.read_of_step (a := .push n isoOut) (replies_short h)
            (fun heq => by cases heq) (congrArg some hpush.symm)
      obtain ⟨tasks, contexts, replies, rfl⟩ := hturn.frame
      exact .inl (congrArg (Dialogue.mk _ _) hread)
  | oneshot n o _ hheld ho =>
      refine .inl (congrArg (Dialogue.mk _ · _) (funext fun m => ?_))
      dsimp only
      rcases eq_or_ne m n with rfl | hne
      · rw [update_self, hheld]
        cases o with
        | held => exact absurd rfl ho
        | answered reply => cases hheld.symm.trans (hanswered m reply (update_self ..))
        | dropped => rfl
      · rw [update_of_ne hne]
  | coreEnds => exact .inl rfl
  | replies r hpush _ hreply =>
      by_cases hr : r = .wire .take
      · subst hr
        exact .inr (dialogue_of_take h hfree' hreply)
      · exact .inl (congrArg (Dialogue.mk _ _) (ReplyWriter.read_of_step (replies_short h) hr hreply))

/-- And the answer of the core does, if it fits. -/
theorem dialogue_of_respond {tx reply : UniversalPaymentEvent}
    (haccepted : s.accepted dialect n = some tx) (hanswers : tx.Answers reply)
    (hstep : s.step dialect (.respond n reply) = some s') :
    Dialogue.Step dialect.service (s.dialogue dialect) (s'.dialogue dialect) := by
  have hheld : s.oneshots n = .held := by
    simp only [Session.step] at hstep
    split at hstep
    next hheld => exact hheld
    next => cases hstep
  obtain rfl := step_respond hstep
  have hfresh : (s.dialogue dialect).answered n = none := congrArg Oneshot.answer hheld
  have hstep := Dialogue.Step.answer (v := dialect.service) (d := s.dialogue dialect) reply haccepted
    hfresh hanswers
  have heq : ({ s with oneshots := update s.oneshots n (.answered reply) } : Session).dialogue
      dialect = { s.dialogue dialect with
        answered := update (s.dialogue dialect).answered n (some reply) } := by
    refine congrArg (Dialogue.mk _ · _) (funext fun m => ?_)
    exact apply_update (fun _ => Oneshot.answer) s.oneshots n (.answered reply) m
  exact heq ▸ hstep

end EdgeIngress

/-! ## The answers of the engine -/

namespace Clearing

variable {z : Clearing} {r : Responder} {source : Source} {reply : UniversalPaymentEvent}

theorem Reachable.answers (h : Reachable (Meets Apart) z)
    (hmem : .responded r source reply ∈ z.engine.trace) :
    ∃ tx, z.engine.trace[r]? = some (.received tx true) ∧ tx.Answers reply := by
  obtain ⟨tx₀, harrives, hanswer⟩ := Engine.Reachable.answered (Reachable.engine_free h) hmem
  refine ⟨tx₀, harrives, ?_⟩
  cases hanswer with
  | echo _ hechoes => exact .inl hechoes
  | decline i hdeclined => exact .inr hdeclined
  | approval p reply hinserted hresolves =>
      obtain ⟨tx, v, happroved⟩ := Reachable.approved h hmem
      obtain ⟨_, hinserted'⟩ := happroved.inserted
      obtain ⟨-, rfl, -⟩ := hinserted.unique hinserted'
      exact .inl (happroved.echoes hresolves)

end Clearing

/-! ## The dialogues of the network -/

namespace Network

open EdgeIngress

variable {z z' : Network} {c : Nat} {P : Network → NetworkAction → Prop}

def dialogue (z : Network) (c : Nat) :
    Dialogue Nat UniversalPaymentEvent UniversalPaymentEvent Bytes :=
  (z.sessions c).dialogue (z.dialects c)

/-- The dialogues of `z'` go on from those of `z`. -/
structure GoesOn (z z' : Network) : Prop where
  dialects : z'.dialects = z.dialects
  dialogue : ∀ c, Dialogue.Run (z.dialects c).service (z.dialogue c) (z'.dialogue c)

theorem GoesOn.refl (z : Network) : GoesOn z z := ⟨rfl, fun _ => .refl⟩

theorem GoesOn.trans {z'' : Network} (h : GoesOn z z') (h' : GoesOn z' z'') : GoesOn z z'' where
  dialects := h'.dialects.trans h.dialects
  dialogue c := by
    have hnext := h'.dialogue c
    rw [h.dialects] at hnext
    exact (h.dialogue c).trans hnext

/-- One connection takes a step. -/
theorem goesOn_update {s : Session}
    (h : s.dialogue (z.dialects c) = z.dialogue c ∨
      Dialogue.Step (z.dialects c).service (z.dialogue c) (s.dialogue (z.dialects c))) :
    GoesOn z { z with sessions := update z.sessions c s } where
  dialects := rfl
  dialogue m := by
    rw [Network.dialogue.eq_def { z with sessions := update z.sessions c s }]
    dsimp only
    rcases eq_or_ne m c with rfl | hne
    · rw [update_self]
      rcases h with hsame | hstep
      · rw [hsame]
      · exact .single hstep
    · rw [update_of_ne hne]
      exact .refl

/-- What the engine has answered is handed to the terminals. -/
theorem goesOn_handed {e : Event} (hsession : ∀ c, Session.Reachable (z.dialects c)
      Transition.Free (z.sessions c)) (hz : z.Registered)
    (hclearing : Clearing.Reachable (Clearing.Meets Clearing.Apart) z.clearing)
    (hmem : e ∈ z.engine.trace) (h : Handed z e z') : GoesOn z z' := by
  cases h with
  | skip => exact .refl z
  | @answer s r source reply c k n ctx htaken hsent hstep =>
      obtain ⟨n', ctx', hentrusted⟩ := hz.entrusted htaken
      cases hsent.symm.trans hentrusted.sent
      obtain ⟨tx, hreceived, hanswers⟩ := Clearing.Reachable.answers hclearing hmem
      obtain ⟨rfl, hsome⟩ : ctx.transaction = tx ∧ ctx.responder.isSome = true := by
        have heq := hentrusted.received.symm.trans hreceived
        simpa using heq
      have haccepted := request_of_context (hsession c) (List.mem_of_getElem? hsent) hsome
      exact goesOn_update (.inr (dialogue_of_respond haccepted hanswers hstep))

theorem goesOn_step (h : Reachable (Meets (Clearing.Meets Clearing.Apart)) z) {a : NetworkAction}
    (ha : Meets (Clearing.Meets Clearing.Apart) z a) (hstep : z.step a = some z') :
    GoesOn z z' := by
  have hsession := Reachable.session_free h
  cases step_effect hstep with
  | session c b _ hrespond hs =>
      exact goesOn_update (dialogue_of_step (hsession c) hrespond hs)
  | receive => exact ⟨rfl, fun _ => .refl⟩
  | @clearing clearing b hb hclears =>
      have hclearing := (Reachable.clearing h).step ⟨b, ha b hb, hclears⟩
      obtain ⟨more, hl⟩ : ∃ more, clearing.engine.trace = z.engine.trace ++ more :=
        Clearing.trace_of_step (Reachable.clearing_free h) hclears
      have hregistered : Registered { z with clearing } := (Reachable.registered h).grow rfl
        (fun _ => ⟨[], (List.append_nil _).symm⟩) hl fun hsame => .inl hsame
      refine (moved_induction (I := fun y => (∀ c, Session.Reachable (y.dialects c) Transition.Free
        (y.sessions c)) ∧ y.Registered ∧ GoesOn z y) clearing
        ⟨hsession, hregistered, ⟨rfl, fun _ => .refl⟩⟩ ?_).1.2.2
      rintro y y' e hy he hhanded ⟨hsession, hregistered, hgoesOn⟩
      rw [Clearing.newEvents_eq hl] at he
      have hmem : e ∈ y.engine.trace := by
        rw [engine, hy, hl]
        exact List.mem_append_right _ he
      refine ⟨session_handed hhanded hsession, hregistered.handed hmem hhanded, hgoesOn.trans ?_⟩
      exact goesOn_handed hsession hregistered (hy ▸ hclearing) hmem hhanded

theorem goesOn_run (h : Reachable (Meets (Clearing.Meets Clearing.Apart)) z)
    (hrun : ReflTransGen (Transition.Steps step (Meets (Clearing.Meets Clearing.Apart))) z z') :
    GoesOn z z' := by
  obtain ⟨z₀, hinit, hbefore⟩ := h
  induction hrun with
  | refl => exact .refl z
  | tail hrun hstep ih =>
      obtain ⟨a, ha, hstep⟩ := hstep
      exact ih.trans (goesOn_step ⟨z₀, hinit, hbefore.trans hrun⟩ ha hstep)

/-- The dialogues of a network that is reached began with nothing. -/
theorem begins (h : Reachable (Meets (Clearing.Meets Clearing.Apart)) z) (c : Nat) :
    Dialogue.Run (z.dialects c).service .empty (z.dialogue c) := by
  obtain ⟨z₀, ⟨dialects, engine, hinit, rfl⟩, hrun⟩ := h
  have hgoesOn := goesOn_run (.start ⟨dialects, engine, hinit, rfl⟩) hrun
  rw [hgoesOn.dialects]
  exact hgoesOn.dialogue c

/-- As long as STANs and keys are kept apart and the frames fit, a run of the network is a
run of the dialogue of every terminal: it asks under each number once at most, each of its
requests has one answer at most, which is about that request, and it takes responses made of
these answers, each once at most. -/
theorem terminals_converse (h : Reachable (Meets (Clearing.Meets Clearing.Apart)) z)
    (hrun : ReflTransGen (Transition.Steps step (Meets (Clearing.Meets Clearing.Apart))) z z')
    (c : Nat) :
    Dialogue.Run (z.dialects c).service .empty (z.dialogue c) ∧
      Dialogue.Run (z.dialects c).service (z.dialogue c) (z'.dialogue c) ∧
      (z.sessions c).replies.pipe.taken = (z.dialogue c).read.map Prod.snd :=
  ⟨begins h c, (goesOn_run h hrun).dialogue c,
    ReplyWriter.taken_eq (replies_short (Reachable.session_free h c))⟩

/-- The terminal has its answer, and then the socket closes. -/
theorem terminals_converse_answered : ∃ z', answered.step (.session 0 .close) = some z' ∧
    Dialogue.Run IngressDialect.interac.service .empty (answered.dialogue 0) ∧
    Dialogue.Run IngressDialect.interac.service (answered.dialogue 0) (z'.dialogue 0) ∧
    (answered.sessions 0).replies.pipe.taken = (answered.dialogue 0).read.map Prod.snd := by
  have hstep : (answered.step (.session 0 .close)).isSome = true := by decide +kernel
  obtain ⟨z', hz'⟩ := Option.isSome_iff_exists.mp hstep
  have hrun : ReflTransGen (Transition.Steps step (Meets (Clearing.Meets Clearing.Apart)))
      answered z' := .single ⟨_, fun _ hb => (by cases hb), hz'⟩
  exact ⟨z', hz', terminals_converse reachable_answered hrun 0⟩

end Network

end Iso8583Switch
