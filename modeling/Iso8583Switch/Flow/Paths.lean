import Iso8583Switch.Flow.Contexts
import Iso8583Switch.Flow.Refinement

/-!
# The paths of the workers

The events that a step of an ingress worker, of an HSM task or of a reply worker adds, by
where the thread was and where it is afterwards.  A path is a turn of which only the events
are left.  In contrast to `Move` it knows the stages in between, so it says what a context
went through.  `StepPath` is the same for a step of any thread.
-/

namespace Iso8583Switch

open Text Function

/-- A step of a worker with a context that the guard has accepted. -/
inductive CarryPath (s : Engine) (i : Serial) (key : String) (ctx : TransactionContext) :
    Input → Stage → IngressPc → List Event → Prop where
  | task {ok : Bool} : ctx.needsHsm = true → CarryPath s i key ctx (.outcome ok) .inserted .idle []
  | unjournaled : ctx.needsHsm = false →
      CarryPath s i key ctx (.outcome false) .inserted .idle []
  | journal : ctx.needsHsm = false →
      CarryPath s i key ctx (.outcome true) .inserted (.carrying i key ctx .journaled)
        [.appended (toPb ctx.transaction)]
  | route {destination : RouteDestination} {channel : ChannelId} :
      s.mem.targetEgress ctx.transaction = some (destination, channel) →
      CarryPath s i key ctx .run .journaled (.carrying i key ctx (.routed destination channel)) []
  | noRoute : s.mem.targetEgress ctx.transaction = none →
      CarryPath s i key ctx .run .journaled (.carrying i key ctx .unrouted) []
  | number {destination : RouteDestination} {channel : ChannelId} :
      CarryPath s i key ctx .run (.routed destination channel)
        (.carrying i key
          { ctx with transaction := { ctx.transaction with stan := s.mem.nextEgressStan } }
          (.numbered destination channel))
        [.numbered i s.mem.nextEgressStan]
  | decline {l : List Event} :
      (∀ e ∈ l, ∃ entry reply, s.guard.get key = some entry ∧
        e ∈ answers entry.responder (.unrouted entry.serial) reply) →
      CarryPath s i key ctx .run .unrouted (.evicting key) l
  | record {destination : RouteDestination} {channel : ChannelId} :
      CarryPath s i key ctx .run (.numbered destination channel)
        (.carrying i key ctx (.recorded destination channel)) []
  | send {destination : RouteDestination} {channel : ChannelId} :
      CarryPath s i key ctx (.outcome true) (.recorded destination channel) .idle
        [.posted ctx.transaction, .placed ⟨.ingress i, destination, channel, ctx.transaction⟩]
  | fail {destination : RouteDestination} {channel : ChannelId} :
      CarryPath s i key ctx (.outcome false) (.recorded destination channel)
        (.carrying i key ctx .failed) [.posted ctx.transaction]
  | fallback {ok : Bool} {found : Option (Option CardProfile)} :
      found = (if ok then s.stipDb.get ctx.transaction.fpan else none) →
      CarryPath s i key ctx (.outcome ok) .failed
        (.carrying i key (Engine.stipDecision found ctx).2 (Engine.stipDecision found ctx).1) []
  | debit (profile : CardProfile) :
      CarryPath s i key ctx .run (.debiting profile)
        (.carrying i key
          { ctx with
            transaction := { ctx.transaction.answer "0110" "00" with processingCode := "STIP12" } }
          .decided) []
  | undecided :
      CarryPath s i key ctx (.outcome false) .decided .idle
        [.decided i ctx.transaction.responseCode]
  | decide :
      CarryPath s i key ctx (.outcome true) .decided .idle
        (.decided i ctx.transaction.responseCode :: .appended (toPb ctx.transaction) ::
          answers ctx.responder (.decision i) ctx.transaction)

/-- A step of an ingress worker. -/
inductive IngressPath (s : Engine) : Input → IngressPc → IngressPc → List Event → Prop where
  | receive (tx : UniversalPaymentEvent) (answerable : Bool) :
      IngressPath s (.receive tx answerable) .idle
        (.received ⟨tx, if answerable then some s.trace.length else none⟩) [.received tx answerable]
  | panic {pc : IngressPc} : IngressPath s .run pc .panicked []
  | answer {pc : IngressPc} {source : Source} (reply : UniversalPaymentEvent) :
      source.front = true → IngressPath s .run pc .idle (answers pc.fronted source reply)
  | clear {ctx : TransactionContext} : s.compliance.evaluate ctx.transaction = some false →
      IngressPath s .run (.received ctx) (.cleared ctx) []
  | plain {ctx : TransactionContext} : ctx.transaction.isTokenized = false →
      IngressPath s .run (.cleared ctx) (.detokenized ctx) []
  | detokenize {ctx : TransactionContext} {realFpan : String} :
      ctx.transaction.isTokenized = true →
      s.mem.tspVault.detokenize (fromUtf8Lossy ctx.transaction.fpan) = some realFpan →
      IngressPath s .run (.cleared ctx)
        (.detokenized
          { ctx with
            transaction :=
              { ctx.transaction with
                fpan := asBytes realFpan
                dpan := some (fromUtf8Lossy ctx.transaction.fpan) } }) []
  | screen {ctx : TransactionContext} :
      (ctx.transaction.riskScore = 0 ∨
        ctx.transaction.riskScore ≤ s.mem.riskThreshold ctx.transaction.fpan) →
      IngressPath s .run (.detokenized ctx) (.screened ctx) []
  | reverse {ctx : TransactionContext} {origStan : String} : ctx.transaction.isReversal = true →
      IngressPath s .run (.screened ctx) (.scanning ctx origStan (.start s.guard.keys) []) []
  | mark {ctx : TransactionContext} {origStan key : String} {scan scan' : Scan}
      {marked : List Serial} {entry : ActiveTransaction} :
      s.guard.get key = some entry → entry.transactionData.stan = origStan →
      IngressPath s (.visit key) (.scanning ctx origStan scan marked)
        (.scanning ctx origStan scan' (marked ++ [entry.serial]))
        [.marked entry.serial, .posted { ctx.transaction with rrn := entry.transactionData.rrn }]
  | pass {input : Input} {ctx : TransactionContext} {origStan : String} {scan scan' : Scan}
      {marked : List Serial} :
      IngressPath s input (.scanning ctx origStan scan marked) (.scanning ctx origStan scan' marked) []
  | accept {ctx : TransactionContext} : ctx.transaction.isReversal = false →
      s.guard.get ctx.transaction.guardKey = none →
      IngressPath s .run (.screened ctx)
        (.carrying s.trace.length ctx.transaction.guardKey { ctx with responder := none } .inserted)
        [.inserted ctx.transaction.guardKey ctx.transaction ctx.responder]
  | carry {i : Serial} {key : String} {ctx : TransactionContext} {stage : Stage} {input : Input}
      {pc : IngressPc} {l : List Event} : CarryPath s i key ctx input stage pc l →
      IngressPath s input (.carrying i key ctx stage) pc l
  | evict {key : String} {l : List Event} : (∀ e ∈ l, ∃ i, e = .evicted key i) →
      IngressPath s .run (.evicting key) .idle l

/-- A step of the HSM task of an instance. -/
inductive TaskPath (s : Engine) (i : Serial) : Input → HsmPc → HsmPc → List Event → Prop where
  | route {ctx : TransactionContext} :
      TaskPath s i .run (.spawned ctx) (Engine.hsmRoute s.mem ctx) []
  | verifyMac {ctx : TransactionContext} {route : HsmRoute} (result : Option Bool) :
      TaskPath s i (.verifiedMac result) (.awaitingMac ctx route)
        (Engine.afterVerifyMac ctx route result) []
  | verifyPin {ctx : TransactionContext} {pvv : String} {macValid : Bool} (result : Option Bool) :
      TaskPath s i (.verifiedPin result) (.awaitingPin ctx (.internalCrdb pvv) macValid)
        (Engine.afterVerifyPin ctx (.internalCrdb pvv) macValid result) []
  | translatePin {ctx : TransactionContext} {node : String} {failover : Option String}
      {macValid : Bool} (result : Option String) :
      TaskPath s i (.translatedPin result) (.awaitingPin ctx (.externalNode node failover) macValid)
        (Engine.afterTranslatePin ctx (.externalNode node failover) result) []
  | resolve {ctx : TransactionContext} {route : HsmRoute} :
      TaskPath s i .run (.resolving ctx route) (.checked ctx true (Engine.targetCh s.mem route)) []
  | decline {ctx : TransactionContext} {target : Option (RouteDestination × ChannelId)} :
      TaskPath s i .run (.checked ctx false target) .finished
        (.decided i "55" :: answers ctx.responder (.decision i) (ctx.transaction.answer "0110" "55"))
  | unjournaled {ctx : TransactionContext} {target : Option (RouteDestination × ChannelId)} :
      TaskPath s i (.outcome false) (.checked ctx true target) .finished []
  | journal {ctx : TransactionContext} {destination : RouteDestination} {channel : ChannelId} :
      TaskPath s i (.outcome true) (.checked ctx true (some (destination, channel)))
        (.sending ctx destination channel) [.appended (toPb ctx.transaction)]
  | drop {ctx : TransactionContext} :
      TaskPath s i (.outcome true) (.checked ctx true none) .finished
        [.appended (toPb ctx.transaction)]
  | send {ctx : TransactionContext} {destination : RouteDestination} {channel : ChannelId} :
      TaskPath s i (.outcome true) (.sending ctx destination channel) .finished
        [.placed ⟨.hsm i, destination, channel, ctx.transaction⟩]
  | fail {ctx : TransactionContext} {destination : RouteDestination} {channel : ChannelId} :
      TaskPath s i (.outcome false) (.sending ctx destination channel) .finished []

/-- What a worker notes behind the guard. -/
def Event.ofCarry : Event → Bool
  | .appended _ | .numbered _ _ | .posted _ | .placed _ | .decided _ _
  | .responded _ (.unrouted _) _ | .responded _ (.decision _) _ => true
  | _ => false

/-- What a task notes. -/
def Event.ofTask : Event → Bool
  | .appended _ | .placed _ | .decided _ _ | .responded _ (.decision _) _ => true
  | _ => false

/-- What a reply worker notes. -/
def Event.ofReply : Event → Bool
  | .handled _ _ | .appended _ | .evicted _ _ | .responded _ (.bank _ _) _ => true
  | _ => false

/-- What the reaper notes. -/
def Event.ofReaper : Event → Bool
  | .responded _ (.reaper _) _ | .timedOut _ _ | .evicted _ _ | .placed ⟨.reaper _, _, _, _⟩ => true
  | _ => false

theorem Event.origin_of_ofReaper {f : Frame} (h : (Event.placed f).ofReaper = true) :
    ∃ i, f.origin = .reaper i := by
  obtain ⟨origin, destination, channel, tx⟩ := f
  cases origin with
  | reaper i => exact ⟨i, rfl⟩
  | ingress | hsm | probe => cases h

/-- A step of a reply worker. -/
inductive ReplyPath (s : Engine) : Input → ReplyPc → ReplyPc → List Event → Prop where
  | translate {packet : Packet} {rest : List Packet} : s.bankReply = packet :: rest →
      ReplyPath s .run .idle
        (.translated packet (replyKey s.mem.stanNat packet.transaction)) []
  | complete {packet : Packet} {key : String} {entry : ActiveTransaction} :
      s.guard.get key = some entry → entry.state ≠ .reversed →
      ReplyPath s (.outcome true) (.translated packet key) (.evicting key)
        (.handled packet (some entry.serial) :: .appended packet.transaction ::
          answers entry.responder (.bank entry.serial packet) (Engine.approval packet))
  | completeUnjournaled {packet : Packet} {key : String} {entry : ActiveTransaction} :
      s.guard.get key = some entry → entry.state ≠ .reversed →
      ReplyPath s (.outcome false) (.translated packet key) .idle
        [.handled packet (some entry.serial)]
  | discard {packet : Packet} {key : String} {ok : Bool} {pc : ReplyPc} :
      (∀ entry, s.guard.get key = some entry → entry.state = .reversed) →
      ReplyPath s (.outcome ok) (.translated packet key) pc [.handled packet none]
  | evict {key : String} {l : List Event} : (∀ e ∈ l, ∃ i, e = .evicted key i) →
      ReplyPath s .run (.evicting key) .idle l

namespace Engine

/-- The thread goes to `pc` and the events are `l`. -/
structure Took (s t : Engine) (w : Nat) (pc : IngressPc) (l : List Event) : Prop where
  ingress : t.ingress = update s.ingress w pc
  trace : t.trace = s.trace ++ l

/-! ## The events of the updates -/

theorem respond_trace (s : Engine) (responder : Option Responder) (source : Source)
    (reply : UniversalPaymentEvent) :
    (s.respond responder source reply).trace = s.trace ++ answers responder source reply := by
  cases responder with
  | none => exact (List.append_nil _).symm
  | some r => rfl

theorem evict_trace (s : Engine) (key : String) :
    ∃ l, (s.evict key).trace = s.trace ++ l ∧ ∀ e ∈ l, ∃ i, e = .evicted key i := by
  unfold evict
  split
  next entry _ =>
    refine ⟨[.evicted key entry.serial], rfl, fun e he => ?_⟩
    exact ⟨entry.serial, List.mem_singleton.mp he⟩
  next => exact ⟨[], (List.append_nil _).symm, fun e he => absurd he List.not_mem_nil⟩

section Ingress

variable {s t : Engine} {w : Nat} {ctx : TransactionContext}

theorem took_setIngress (s : Engine) (w : Nat) (pc : IngressPc) :
    s.Took (s.setIngress w pc) w pc [] :=
  ⟨rfl, (List.append_nil _).symm⟩

theorem took_declineFront (s : Engine) (w : Nat) (ctx : TransactionContext) (source : Source)
    (reply : UniversalPaymentEvent) :
    s.Took (s.declineFront w ctx source reply) w .idle (answers ctx.responder source reply) := by
  refine ⟨?_, respond_trace s _ _ _⟩
  rw [declineFront, setIngress, respond_ingress]

/-! ## The ingress workers -/

/-- What the worker adds to the trace. -/
theorem CarryTurn.path {i : Serial} {key : String} {stage : Stage} {input : Input}
    {pc : IngressPc} (hturn : s.CarryTurn i key ctx input stage pc t) :
    ∃ l, CarryPath s i key ctx input stage pc l ∧ t.ingress = s.ingress ∧
      t.trace = s.trace ++ l := by
  cases hturn with
  | spawn hneeds => exact ⟨_, .task hneeds, rfl, (List.append_nil _).symm⟩
  | lose hneeds => exact ⟨_, .task hneeds, rfl, (List.append_nil _).symm⟩
  | journal hneeds => exact ⟨_, .journal hneeds, rfl, rfl⟩
  | unjournaled hneeds => exact ⟨_, .unjournaled hneeds, rfl, (List.append_nil _).symm⟩
  | route hroute => exact ⟨_, .route hroute, rfl, (List.append_nil _).symm⟩
  | noRoute hroute => exact ⟨_, .noRoute hroute, rfl, (List.append_nil _).symm⟩
  | number => exact ⟨_, .number, rfl, rfl⟩
  | @decline entry hget =>
      refine ⟨_, .decline fun e he => ⟨entry, _, hget, he⟩, ?_, respond_trace s _ _ _⟩
      exact respond_ingress s _ _ _
  | declineNobody =>
      exact ⟨[], .decline fun _ he => absurd he List.not_mem_nil, rfl, (List.append_nil _).symm⟩
  | record | recordNowhere => exact ⟨_, .record, rfl, (List.append_nil _).symm⟩
  | send => exact ⟨_, .send, rfl, List.append_assoc _ _ _⟩
  | fail => exact ⟨_, .fail, rfl, rfl⟩
  | fallback hfound => exact ⟨_, .fallback hfound, rfl, (List.append_nil _).symm⟩
  | debit profile => exact ⟨_, .debit profile, rfl, (List.append_nil _).symm⟩
  | decide =>
      refine ⟨_, .decide, respond_ingress _ _ _ _, (respond_trace _ _ _ _).trans ?_⟩
      simp only [log, List.append_assoc, List.cons_append, List.nil_append]
  | undecided => exact ⟨_, .undecided, rfl, rfl⟩

theorem IngressTurn.path {input : Input} {pc pc' : IngressPc}
    (hturn : s.IngressTurn input pc pc' t) :
    ∃ l, IngressPath s input pc pc' l ∧ t.ingress = s.ingress ∧ t.trace = s.trace ++ l := by
  cases hturn with
  | receive tx answerable => exact ⟨_, .receive tx answerable, rfl, rfl⟩
  | binPanic | dpanPanic | dataPanic => exact ⟨_, .panic, rfl, (List.append_nil _).symm⟩
  | answer reply hheld hfront =>
      refine ⟨_, .answer reply hfront, respond_ingress s _ _ _, ?_⟩
      rw [IngressPc.fronted_of_held hheld]
      exact respond_trace s _ _ _
  | clear h => exact ⟨_, .clear h, rfl, (List.append_nil _).symm⟩
  | plain h => exact ⟨_, .plain h, rfl, (List.append_nil _).symm⟩
  | detokenize htoken hreal => exact ⟨_, .detokenize htoken hreal, rfl, (List.append_nil _).symm⟩
  | screen h => exact ⟨_, .screen h, rfl, (List.append_nil _).symm⟩
  | reverse _ h => exact ⟨_, .reverse h, rfl, (List.append_nil _).symm⟩
  | mark hget _ hstan => exact ⟨_, .mark hget hstan, rfl, List.append_assoc _ _ _⟩
  | pass | skip => exact ⟨_, .pass, rfl, (List.append_nil _).symm⟩
  | accept _ hreversal hget => exact ⟨_, .accept hreversal hget, rfl, rfl⟩
  | carry hturn =>
      obtain ⟨l, hpath, hingress, htrace⟩ := hturn.path
      exact ⟨l, .carry hpath, hingress, htrace⟩
  | @evict key =>
      obtain ⟨l, hl, hmem⟩ := evict_trace s key
      exact ⟨l, .evict hmem, evict_ingress s key, hl⟩

theorem ingressStep_path {input : Input} (h : s.ingressStep w input = some t) :
    ∃ pc l, IngressPath s input (s.ingress w) pc l ∧ s.Took t w pc l := by
  obtain ⟨pc, u, hturn, rfl⟩ := ingressStep_turn h
  obtain ⟨l, hpath, hingress, htrace⟩ := hturn.path
  exact ⟨pc, l, hpath, by rw [setIngress, hingress], htrace⟩

/-! ## Tasks and cards -/

/-- The HSM tasks and the STIP database are as they were. -/
structure SameAside (s t : Engine) : Prop where
  hsm : t.hsm = s.hsm
  stipDb : t.stipDb = s.stipDb

/-- The worker hands its context to a new task. -/
structure Spawns (s t : Engine) (w : Nat) (i : Serial) (key : String) (ctx : TransactionContext) :
    Prop where
  carrying : s.ingress w = .carrying i key ctx .inserted
  needsHsm : ctx.needsHsm = true
  hsm : t.hsm = update s.hsm i (.spawned ctx)
  stipDb : t.stipDb = s.stipDb

/-- The worker stores the profile that it has computed. -/
structure Debits (s t : Engine) (w : Nat) (i : Serial) (key : String) (ctx : TransactionContext)
    (profile : CardProfile) : Prop where
  carrying : s.ingress w = .carrying i key ctx (.debiting profile)
  hsm : t.hsm = s.hsm
  stipDb : t.stipDb = s.stipDb.put ctx.transaction.fpan (some profile)

theorem CarryTurn.aside {i : Serial} {key : String} {stage : Stage} {input : Input}
    {pc : IngressPc} (hpc : s.ingress w = .carrying i key ctx stage)
    (hturn : s.CarryTurn i key ctx input stage pc t) :
    s.SameAside t ∨ s.Spawns t w i key ctx ∨
      ∃ profile, input = .run ∧ s.Debits t w i key ctx profile := by
  cases hturn with
  | spawn hneeds => exact .inr (.inl ⟨hpc, hneeds, rfl, rfl⟩)
  | debit profile => exact .inr (.inr ⟨profile, rfl, hpc, rfl, rfl⟩)
  | decline => exact .inl ⟨respond_hsm s _ _ _, respond_stipDb s _ _ _⟩
  | decide => exact .inl ⟨respond_hsm _ _ _ _, respond_stipDb _ _ _ _⟩
  | lose | journal | unjournaled | route | noRoute | number | declineNobody | record
  | recordNowhere | send | fail | fallback | undecided => exact .inl ⟨rfl, rfl⟩

/-- What an ingress worker does to the HSM tasks and to the STIP database. -/
theorem ingressStep_aside {input : Input} (h : s.ingressStep w input = some t) :
    s.SameAside t ∨ (∃ i key ctx, s.Spawns t w i key ctx) ∨
      ∃ i key ctx profile, input = .run ∧ s.Debits t w i key ctx profile := by
  obtain ⟨pc, u, hturn, rfl⟩ := ingressStep_turn h
  generalize hat : s.ingress w = pc₀ at hturn
  cases hturn with
  | answer => exact .inl ⟨respond_hsm s _ _ _, respond_stipDb s _ _ _⟩
  | @evict key => exact .inl ⟨evict_hsm s key, evict_stipDb s key⟩
  | @carry i key ctx stage _ _ _ hturn =>
      rcases hturn.aside hat with hsame | hspawn | ⟨profile, hinput, hdebit⟩
      · exact .inl ⟨hsame.hsm, hsame.stipDb⟩
      · obtain ⟨hcarrying, hneeds, hhsm, hstipDb⟩ := hspawn
        exact .inr (.inl ⟨i, key, ctx, hcarrying, hneeds, hhsm, hstipDb⟩)
      · obtain ⟨hcarrying, hhsm, hstipDb⟩ := hdebit
        exact .inr (.inr ⟨i, key, ctx, profile, hinput, hcarrying, hhsm, hstipDb⟩)
  | binPanic | dpanPanic | dataPanic => exact .inl ⟨rfl, rfl⟩
  | receive | clear | plain | detokenize | screen | reverse | mark | pass | skip | accept =>
      exact .inl ⟨rfl, rfl⟩

end Ingress

/-! ## The HSM tasks -/

theorem hsmStep_path {s t : Engine} {i : Serial} {input : Input} (h : s.hsmStep i input = some t) :
    ∃ pc l, TaskPath s i input (s.hsm i) pc l ∧ t.hsm = update s.hsm i pc ∧
      t.ingress = s.ingress ∧ t.stipDb = s.stipDb ∧ t.trace = s.trace ++ l := by
  obtain ⟨pc, u, hturn, rfl⟩ := hsmStep_turn h
  generalize s.hsm i = pc₀ at hturn ⊢
  cases hturn with
  | route => exact ⟨_, _, .route, rfl, rfl, rfl, (List.append_nil _).symm⟩
  | verifyMac result => exact ⟨_, _, .verifyMac result, rfl, rfl, rfl, (List.append_nil _).symm⟩
  | verifyPin result => exact ⟨_, _, .verifyPin result, rfl, rfl, rfl, (List.append_nil _).symm⟩
  | translatePin result =>
      exact ⟨_, _, .translatePin result, rfl, rfl, rfl, (List.append_nil _).symm⟩
  | resolve => exact ⟨_, _, .resolve, rfl, rfl, rfl, (List.append_nil _).symm⟩
  | @decline ctx =>
      refine ⟨_, _, .decline, ?_, respond_ingress _ _ _ _, respond_stipDb _ _ _ _,
        (respond_trace _ _ _ _).trans (List.append_assoc _ _ _)⟩
      rw [setHsm, respond_hsm]
      rfl
  | journal => exact ⟨_, _, .journal, rfl, rfl, rfl, rfl⟩
  | drop => exact ⟨_, _, .drop, rfl, rfl, rfl, rfl⟩
  | unjournaled => exact ⟨_, _, .unjournaled, rfl, rfl, rfl, (List.append_nil _).symm⟩
  | send => exact ⟨_, _, .send, rfl, rfl, rfl, rfl⟩
  | fail => exact ⟨_, _, .fail, rfl, rfl, rfl, (List.append_nil _).symm⟩

/-! ## The reaper -/

/-- The channel that the reversal of an entry is put on, if any. -/
def reversalSent (s : Engine) (entry : ActiveTransaction) (ok : Bool) :
    Option (RouteDestination × ChannelId) :=
  if ok then s.mem.reversalChannel (asBytes entry.transactionData.pan) else none

theorem timeOut_trace (s : Engine) (key : String) (entry : ActiveTransaction) (ok : Bool) :
    (s.timeOut key entry ok).trace =
      (s.trace ++ answers entry.responder (.reaper entry.serial) (timeoutReply entry)) ++
        .timedOut entry.serial (autoReversal entry) ::
          reversals entry.serial (s.reversalSent entry ok) (autoReversal entry) := by
  have hmem : (((s.setGuard key
      { entry with state := .reversed, egressStan := none, responder := none }).respond
        entry.responder (.reaper entry.serial) (timeoutReply entry)).log
          (.timedOut entry.serial (autoReversal entry))).mem = s.mem := respond_mem _ _ _ _
  unfold timeOut sendReversal reversalSent
  dsimp only
  rw [hmem, show (autoReversal entry).fpan = asBytes entry.transactionData.pan from rfl]
  cases s.mem.reversalChannel (asBytes entry.transactionData.pan) with
  | none =>
      cases ok <;> simp [log, respond_trace, reversals, setGuard]
  | some target =>
      cases ok <;> simp [log, respond_trace, reversals, setGuard]

theorem reverseSection_trace (s : Engine) (key : String) (ok : Bool) :
    ∃ l, (s.reverseSection key ok).1.trace = s.trace ++ l ∧ ∀ e ∈ l, e.ofReaper = true := by
  unfold reverseSection
  split
  next entry hget =>
    split
    next =>
      refine ⟨_, (timeOut_trace s key entry ok).trans (List.append_assoc _ _ _), fun e he => ?_⟩
      simp only [List.mem_append, List.mem_cons, mem_answers, mem_reversals] at he
      rcases he with ⟨_, -, rfl⟩ | rfl | ⟨_, -, rfl⟩ <;> rfl
    next => exact ⟨[], (List.append_nil _).symm, by simp⟩
  next => exact ⟨[], (List.append_nil _).symm, by simp⟩

theorem reaperStep_trace {s t : Engine} {input : Input} (h : s.reaperStep input = some t) :
    ∃ l, t.trace = s.trace ++ l ∧ ∀ e ∈ l, e.ofReaper = true := by
  have hsilent {s' : Engine} (hs' : s'.trace = s.trace) :
      ∃ l, s'.trace = s.trace ++ l ∧ ∀ e ∈ l, e.ofReaper = true :=
    ⟨[], hs'.trans (List.append_nil _).symm, by simp⟩
  obtain ⟨pc', u, hturn, rfl⟩ := reaperStep_turn h
  generalize s.reaper = pc at hturn
  cases hturn with
  | walk => exact hsilent rfl
  | @reverse key ok rest => exact reverseSection_trace s key ok
  | collect => unfold collectNat; split <;> exact hsilent rfl
  | @evict key =>
      obtain ⟨l, hl, hmem⟩ := evict_trace s key
      refine ⟨l, hl, fun e he => ?_⟩
      obtain ⟨i, rfl⟩ := hmem e he
      rfl

/-! ## The reply workers -/

theorem replyStep_path {s t : Engine} {w : Nat} {input : Input} (h : s.replyStep w input = some t) :
    ∃ pc l, ReplyPath s input (s.repliers w) pc l ∧ t.repliers = update s.repliers w pc ∧
      t.trace = s.trace ++ l := by
  have hturn := replyStep_turn h
  generalize s.repliers w = pc at hturn ⊢
  cases hturn with
  | translate hreplies => exact ⟨_, _, .translate hreplies, rfl, (List.append_nil _).symm⟩
  | late hget hstate =>
      refine ⟨_, _, .discard fun entry' hget' => ?_, rfl, rfl⟩
      rw [hget] at hget'
      cases hget'
      exact hstate
  | unknown hnone =>
      refine ⟨_, _, .discard fun entry' hget' => ?_, rfl, rfl⟩
      rw [hnone] at hget'
      cases hget'
  | @complete packet key entry hget hstate =>
      refine ⟨_, _, .complete hget hstate, ?_, ?_⟩
      · rw [setReply]
        cases entry.responder <;> rfl
      · exact (respond_trace _ _ _ _).trans (by
          simp only [log, setGuard, List.append_assoc, List.cons_append, List.nil_append])
  | completeUnjournaled hget hstate => exact ⟨_, _, .completeUnjournaled hget hstate, rfl, rfl⟩
  | @evict key =>
      obtain ⟨l, hl, hmem⟩ := evict_trace s key
      refine ⟨_, l, .evict hmem, ?_, hl⟩
      unfold evict
      split <;> rfl

/-! ## The other threads -/

/-- The workers, the tasks and the STIP database are as they were. -/
structure SameThreads (s t : Engine) : Prop extends s.SameAside t where
  ingress : t.ingress = s.ingress

theorem reaperStep_threads {s t : Engine} {input : Input} (h : s.reaperStep input = some t) :
    s.SameThreads t where
  hsm := local_hsm.reaperStep (fun _ _ => rfl) (fun _ _ => rfl) h
  stipDb := local_stipDb.reaperStep (fun _ _ => rfl) (fun _ _ => rfl) h
  ingress := local_ingress.reaperStep (fun _ _ => rfl) (fun _ _ => rfl) h

theorem replyStep_threads {s t : Engine} {w : Nat} {input : Input}
    (h : s.replyStep w input = some t) : s.SameThreads t where
  hsm := local_hsm.replyStep (fun _ _ _ => rfl) (fun _ _ _ => rfl) h
  stipDb := local_stipDb.replyStep (fun _ _ _ => rfl) (fun _ _ _ => rfl) h
  ingress := local_ingress.replyStep (fun _ _ _ => rfl) (fun _ _ _ => rfl) h

/-- The reaper, the reply workers and the world leave the workers where they are. -/
theorem step_threads {s t : Engine} {a : Action} (h : s.step a = some t)
    (hingress : ∀ w input, a ≠ .ingress w input) (hhsm : ∀ i input, a ≠ .hsm i input) :
    s.SameThreads t := by
  cases a with
  | ingress w input => exact absurd rfl (hingress w input)
  | hsm i input => exact absurd rfl (hhsm i input)
  | reaper input => exact reaperStep_threads h
  | reply w input => exact replyStep_threads h
  | probe node secs ok =>
      obtain ⟨channel, -, rfl⟩ := Option.map_eq_some_iff.mp h
      unfold probe
      dsimp only
      split <;> exact ⟨⟨rfl, rfl⟩, rfl⟩
  | bank packet => cases h; exact ⟨⟨rfl, rfl⟩, rfl⟩
  | tick ms => cases h; exact ⟨⟨rfl, rfl⟩, rfl⟩
  | storeStip stip => cases h; exact ⟨⟨rfl, rfl⟩, rfl⟩
  | storeCrdb crdb => cases h; exact ⟨⟨rfl, rfl⟩, rfl⟩
  | storeRouter router => cases h; exact ⟨⟨rfl, rfl⟩, rfl⟩
  | pollSanctions cache => cases h; exact ⟨⟨rfl, rfl⟩, rfl⟩

/-- A worker moves by its own steps only. -/
theorem step_ingress {s t : Engine} {a : Action} (h : s.step a = some t) {w : Nat}
    (ha : ∀ input, a ≠ .ingress w input) : t.ingress w = s.ingress w := by
  cases a with
  | ingress w' input =>
      have hw : w ≠ w' := fun hw => ha input (hw ▸ rfl)
      obtain ⟨pc, l, -, htook⟩ := ingressStep_path h
      rw [htook.ingress, update_of_ne hw]
  | hsm i input =>
      obtain ⟨pc, l, -, -, hingress, -⟩ := hsmStep_path h
      rw [hingress]
  | reaper | reply | probe | bank | tick | storeStip | storeCrdb | storeRouter | pollSanctions =>
      rw [(step_threads h (by simp) (by simp)).ingress]

/-- A task moves by its own steps, and a worker starts it. -/
theorem step_hsm {s t : Engine} {a : Action} (h : s.step a = some t) (i : Serial) :
    (∃ input, a = .hsm i input) ∨ t.hsm i = s.hsm i ∨
      ∃ w key ctx, s.ingress w = .carrying i key ctx .inserted ∧ t.hsm i = .spawned ctx := by
  cases a with
  | ingress w input =>
      rcases ingressStep_aside h with hsame | ⟨j, key, ctx, hspawn⟩ | ⟨_, _, _, _, -, hdebit⟩
      · exact .inr (.inl (congrFun hsame.hsm i))
      · by_cases hi : i = j
        · subst hi
          exact .inr (.inr ⟨w, key, ctx, hspawn.carrying, by rw [hspawn.hsm, update_self]⟩)
        · exact .inr (.inl (by rw [hspawn.hsm, update_of_ne hi]))
      · exact .inr (.inl (congrFun hdebit.hsm i))
  | hsm j input =>
      by_cases hi : i = j
      · exact .inl ⟨input, hi ▸ rfl⟩
      · obtain ⟨pc, l, -, hhsm, -⟩ := hsmStep_path h
        exact .inr (.inl (by rw [hhsm, update_of_ne hi]))
  | reaper | reply | probe | bank | tick | storeStip | storeCrdb | storeRouter | pollSanctions =>
      exact .inr (.inl (by rw [(step_threads h (by simp) (by simp)).hsm]))

end Engine

/-! ## The kinds of events -/

theorem CarryPath.ofCarry {s : Engine} {i : Serial} {key : String} {ctx : TransactionContext}
    {input : Input} {stage : Stage} {pc : IngressPc} {l : List Event}
    (h : CarryPath s i key ctx input stage pc l) : ∀ e ∈ l, e.ofCarry = true := by
  cases h with
  | decline hl =>
      intro e he
      obtain ⟨_, _, -, he⟩ := hl e he
      obtain ⟨_, -, rfl⟩ := mem_answers.mp he
      rfl
  | decide =>
      intro e he
      simp only [List.mem_cons, mem_answers] at he
      rcases he with rfl | rfl | ⟨_, -, rfl⟩ <;> rfl
  | task | unjournaled | journal | route | noRoute | number | record | send | fail | fallback
  | debit | undecided => simp [Event.ofCarry]

theorem TaskPath.ofTask {s : Engine} {i : Serial} {input : Input} {pc pc' : HsmPc}
    {l : List Event} (h : TaskPath s i input pc pc' l) : ∀ e ∈ l, e.ofTask = true := by
  cases h with
  | decline =>
      intro e he
      simp only [List.mem_cons, mem_answers] at he
      rcases he with rfl | ⟨_, -, rfl⟩ <;> rfl
  | route | verifyMac | verifyPin | translatePin | resolve | unjournaled | journal | drop | send
  | fail => simp [Event.ofTask]

theorem ReplyPath.ofReply {s : Engine} {input : Input} {pc pc' : ReplyPc} {l : List Event}
    (h : ReplyPath s input pc pc' l) : ∀ e ∈ l, e.ofReply = true := by
  cases h with
  | evict hl =>
      intro e he
      obtain ⟨_, rfl⟩ := hl e he
      rfl
  | complete =>
      intro e he
      simp only [List.mem_cons, mem_answers] at he
      rcases he with rfl | rfl | ⟨_, -, rfl⟩ <;> rfl
  | translate | completeUnjournaled | discard => simp [Event.ofReply]

/-! ## Who places a request -/

theorem CarryPath.placed {s : Engine} {i : Serial} {key : String} {ctx : TransactionContext}
    {input : Input} {stage : Stage} {pc : IngressPc} {l : List Event}
    (h : CarryPath s i key ctx input stage pc l) {f : Frame} (hmem : .placed f ∈ l) :
    input = .outcome true ∧ stage = .recorded f.destination f.channel ∧ pc = .idle ∧
      f = ⟨.ingress i, f.destination, f.channel, ctx.transaction⟩ := by
  cases h with
  | send =>
      simp only [List.mem_cons, reduceCtorEq, Event.placed.injEq, List.not_mem_nil, or_false,
        false_or] at hmem
      subst hmem
      exact ⟨rfl, rfl, rfl, rfl⟩
  | decline hl =>
      obtain ⟨_, _, -, hmem⟩ := hl _ hmem
      obtain ⟨_, -, hmem⟩ := mem_answers.mp hmem
      cases hmem
  | decide => simp [mem_answers] at hmem
  | task | unjournaled | journal | route | noRoute | number | record | fail | fallback | debit
  | undecided => simp at hmem

theorem IngressPath.placed {s : Engine} {input : Input} {pc pc' : IngressPc} {l : List Event}
    (h : IngressPath s input pc pc' l) {f : Frame} (hmem : .placed f ∈ l) :
    ∃ i key ctx, input = .outcome true ∧
      pc = .carrying i key ctx (.recorded f.destination f.channel) ∧ pc' = .idle ∧
      f = ⟨.ingress i, f.destination, f.channel, ctx.transaction⟩ := by
  cases h with
  | carry h =>
      obtain ⟨hinput, rfl, hpc, hf⟩ := h.placed hmem
      exact ⟨_, _, _, hinput, rfl, hpc, hf⟩
  | evict hl =>
      obtain ⟨_, hmem⟩ := hl _ hmem
      cases hmem
  | answer => simp [mem_answers] at hmem
  | receive | panic | clear | plain | detokenize | screen | reverse | mark | pass | accept =>
      simp at hmem

theorem CarryPath.posted {s : Engine} {i : Serial} {key : String} {ctx : TransactionContext}
    {input : Input} {stage : Stage} {pc : IngressPc} {l : List Event}
    (h : CarryPath s i key ctx input stage pc l) {p : UniversalPaymentEvent}
    (hmem : .posted p ∈ l) :
    ∃ destination channel, stage = .recorded destination channel ∧ p = ctx.transaction := by
  cases h with
  | send =>
      simp only [List.mem_cons, Event.posted.injEq, reduceCtorEq, List.not_mem_nil, or_false] at hmem
      exact ⟨_, _, rfl, hmem⟩
  | fail =>
      simp only [List.mem_singleton, Event.posted.injEq] at hmem
      exact ⟨_, _, rfl, hmem⟩
  | decline hl =>
      obtain ⟨_, _, -, hmem⟩ := hl _ hmem
      obtain ⟨_, -, hmem⟩ := mem_answers.mp hmem
      cases hmem
  | decide => simp [mem_answers] at hmem
  | task | unjournaled | journal | route | noRoute | number | record | fallback | debit
  | undecided => simp at hmem

/-- A worker posts the reversal that it scans for, and the request that it sends. -/
theorem IngressPath.posted {s : Engine} {input : Input} {pc pc' : IngressPc} {l : List Event}
    (h : IngressPath s input pc pc' l) {p : UniversalPaymentEvent} (hmem : .posted p ∈ l) :
    (∃ ctx origStan scan marked rrn, pc = .scanning ctx origStan scan marked ∧
        p = { ctx.transaction with rrn := rrn }) ∨
      ∃ i key ctx destination channel,
        pc = .carrying i key ctx (.recorded destination channel) ∧ p = ctx.transaction := by
  cases h with
  | carry h =>
      obtain ⟨destination, channel, rfl, rfl⟩ := h.posted hmem
      exact .inr ⟨_, _, _, destination, channel, rfl, rfl⟩
  | mark =>
      simp only [List.mem_cons, reduceCtorEq, Event.posted.injEq, List.not_mem_nil, or_false,
        false_or] at hmem
      exact .inl ⟨_, _, _, _, _, rfl, hmem⟩
  | evict hl =>
      obtain ⟨_, hmem⟩ := hl _ hmem
      cases hmem
  | answer => simp [mem_answers] at hmem
  | receive | panic | clear | plain | detokenize | screen | reverse | pass | accept =>
      simp at hmem

theorem TaskPath.placed {s : Engine} {i : Serial} {input : Input} {pc pc' : HsmPc}
    {l : List Event} (h : TaskPath s i input pc pc' l) {f : Frame} (hmem : .placed f ∈ l) :
    ∃ ctx, input = .outcome true ∧ pc = .sending ctx f.destination f.channel ∧ pc' = .finished ∧
      f = ⟨.hsm i, f.destination, f.channel, ctx.transaction⟩ := by
  cases h with
  | send =>
      simp only [List.mem_singleton, Event.placed.injEq] at hmem
      subst hmem
      exact ⟨_, rfl, rfl, rfl, rfl⟩
  | decline => simp [mem_answers] at hmem
  | route | verifyMac | verifyPin | translatePin | resolve | unjournaled | journal | drop | fail =>
      simp at hmem

theorem afterMac_ne_sending (ctx : TransactionContext) (route : HsmRoute) (macValid : Bool)
    {ctx' : TransactionContext} {destination : RouteDestination} {channel : ChannelId} :
    Engine.afterMac ctx route macValid ≠ .sending ctx' destination channel := by
  cases route <;> simp only [Engine.afterMac] <;> split <;> try split
  all_goals exact HsmPc.noConfusion

theorem hsmRoute_ne_sending (g : GlobalState) (ctx : TransactionContext) {ctx' : TransactionContext}
    {destination : RouteDestination} {channel : ChannelId} :
    Engine.hsmRoute g ctx ≠ .sending ctx' destination channel := by
  have hbefore (route : HsmRoute) : Engine.beforeMac ctx route ≠ .sending ctx' destination channel := by
    unfold Engine.beforeMac
    split
    · exact HsmPc.noConfusion
    · exact afterMac_ne_sending ctx route true
  unfold Engine.hsmRoute
  split
  · split
    · split
      · exact hbefore _
      · exact HsmPc.noConfusion
    · exact hbefore _
  · exact HsmPc.noConfusion

/-- A task that is about to send has just appended the record. -/
theorem TaskPath.sending {s : Engine} {i : Serial} {input : Input} {pc pc' : HsmPc}
    {l : List Event} (h : TaskPath s i input pc pc' l) {ctx : TransactionContext}
    {destination : RouteDestination} {channel : ChannelId}
    (hpc : pc' = .sending ctx destination channel) : l = [.appended (toPb ctx.transaction)] := by
  cases h with
  | route => exact absurd hpc (hsmRoute_ne_sending _ _)
  | verifyMac => exact absurd hpc (afterMac_ne_sending _ _ _)
  | verifyPin =>
      unfold Engine.afterVerifyPin at hpc
      split at hpc
      · split at hpc <;> cases hpc
      · cases hpc
  | translatePin =>
      unfold Engine.afterTranslatePin at hpc
      split at hpc <;> cases hpc
  | journal => cases hpc; rfl
  | resolve | decline | unjournaled | drop | send | fail => cases hpc

/-- A worker inserts what has passed the risk screen. -/
theorem IngressPath.inserted {s : Engine} {input : Input} {pc pc' : IngressPc} {l : List Event}
    (h : IngressPath s input pc pc' l) {key : String} {tx : UniversalPaymentEvent}
    {r : Option Responder} (hmem : .inserted key tx r ∈ l) :
    ∃ ctx, input = .run ∧ pc = .screened ctx ∧ ctx.transaction = tx := by
  cases h with
  | @accept ctx =>
      cases List.mem_singleton.mp hmem
      exact ⟨ctx, rfl, rfl, rfl⟩
  | carry h => cases h.ofCarry _ hmem
  | evict hl =>
      obtain ⟨_, hmem⟩ := hl _ hmem
      cases hmem
  | answer => simp [mem_answers] at hmem
  | receive | panic | clear | plain | detokenize | screen | reverse | mark | pass => simp at hmem

/-- The events of a step. -/
inductive StepPath (s : Engine) : Action → List Event → Prop where
  | ingress {w : Nat} {input : Input} {pc : IngressPc} {l : List Event} :
      IngressPath s input (s.ingress w) pc l → StepPath s (.ingress w input) l
  | hsm {i : Serial} {input : Input} {pc : HsmPc} {l : List Event} :
      TaskPath s i input (s.hsm i) pc l → StepPath s (.hsm i input) l
  | reaper {input : Input} {l : List Event} : (∀ e ∈ l, e.ofReaper = true) →
      StepPath s (.reaper input) l
  | reply {w : Nat} {input : Input} {pc : ReplyPc} {l : List Event} :
      ReplyPath s input (s.repliers w) pc l → StepPath s (.reply w input) l
  | bank (packet : Packet) : StepPath s (.bank packet) [.replied packet]
  | probe {node : String} {secs : Nat} (channel : ChannelId) :
      StepPath s (.probe node secs true)
        [.placed ⟨.probe, .externalNode node, channel, Engine.probeEvent secs⟩]
  | silent (a : Action) : StepPath s a []

namespace Engine

theorem step_path {s t : Engine} {a : Action} (h : s.step a = some t) {l : List Event}
    (hl : t.trace = s.trace ++ l) : StepPath s a l := by
  have hsame {l' : List Event} (h : t.trace = s.trace ++ l') : l' = l :=
    List.append_cancel_left (h.symm.trans hl)
  cases a with
  | ingress w input =>
      obtain ⟨pc, l', hpath, -, hl'⟩ := ingressStep_path h
      exact hsame hl' ▸ .ingress hpath
  | hsm i input =>
      obtain ⟨pc, l', hpath, -, -, -, hl'⟩ := hsmStep_path h
      exact hsame hl' ▸ .hsm hpath
  | reaper input =>
      obtain ⟨l', hl', hreaper⟩ := reaperStep_trace h
      exact hsame hl' ▸ .reaper hreaper
  | reply w input =>
      obtain ⟨pc, l', hpath, -, hl'⟩ := replyStep_path h
      exact hsame hl' ▸ .reply hpath
  | bank packet =>
      cases h
      exact hsame rfl ▸ .bank packet
  | probe node secs ok =>
      obtain ⟨channel, -, rfl⟩ := Option.map_eq_some_iff.mp h
      have hnew := hsame (probe_trace s node channel secs ok)
      cases ok with
      | true => exact hnew ▸ .probe channel
      | false => exact hnew ▸ .silent _
  | tick | storeStip | storeCrdb | storeRouter | pollSanctions =>
      cases h
      exact hsame (List.append_nil _).symm ▸ .silent _

/-- The step that inserts a request. -/
theorem step_inserts {s t : Engine} {a : Action} (h : s.step a = some t) {l : List Event}
    (hl : t.trace = s.trace ++ l) {key : String} {tx : UniversalPaymentEvent}
    {r : Option Responder} (hmem : .inserted key tx r ∈ l) :
    ∃ w ctx, a = .ingress w .run ∧ s.ingress w = .screened ctx ∧ ctx.transaction = tx := by
  cases step_path h hl with
  | @ingress w input pc _ hpath =>
      obtain ⟨ctx, rfl, hpc, htx⟩ := hpath.inserted hmem
      exact ⟨w, ctx, rfl, hpc, htx⟩
  | hsm hpath => cases hpath.ofTask _ hmem
  | reaper hreaper => cases hreaper _ hmem
  | reply hpath => cases hpath.ofReply _ hmem
  | bank | probe => simp at hmem
  | silent => cases hmem

/-- The sender of a request, at the point where it sends. -/
inductive Sends (s : Engine) (f : Frame) (i : Serial) : Action → Prop where
  | ingress {w : Nat} {key : String} {ctx : TransactionContext} :
      s.ingress w = .carrying i key ctx (.recorded f.destination f.channel) →
      f = ⟨.ingress i, f.destination, f.channel, ctx.transaction⟩ →
      Sends s f i (.ingress w (.outcome true))
  | hsm {ctx : TransactionContext} :
      s.hsm i = .sending ctx f.destination f.channel →
      f = ⟨.hsm i, f.destination, f.channel, ctx.transaction⟩ →
      Sends s f i (.hsm i (.outcome true))

/-- The request of an instance is placed by the worker or the task that has its
context, and by no other thread. -/
theorem step_sends {s t : Engine} {a : Action} (h : s.step a = some t) {l : List Event}
    (hl : t.trace = s.trace ++ l) {f : Frame} {i : Serial} (hmem : .placed f ∈ l)
    (hreq : f.origin.request = some i) : s.Sends f i a := by
  cases step_path h hl with
  | ingress hpath =>
      obtain ⟨j, key, ctx, rfl, hpc, -, hf⟩ := hpath.placed hmem
      rw [hf] at hreq
      cases hreq
      exact .ingress hpc hf
  | hsm hpath =>
      obtain ⟨ctx, rfl, hpc, -, hf⟩ := hpath.placed hmem
      rw [hf] at hreq
      cases hreq
      exact .hsm hpc hf
  | reaper hreaper =>
      obtain ⟨_, horigin⟩ := Event.origin_of_ofReaper (hreaper _ hmem)
      rw [horigin] at hreq
      cases hreq
  | reply hpath => cases hpath.ofReply _ hmem
  | bank => simp at hmem
  | probe =>
      cases List.mem_singleton.mp hmem
      cases hreq
  | silent => cases hmem

end Engine

end Iso8583Switch
