import Iso8583Switch.Flow.Runs

/-!
# The path through the HSM

A request with a PIN or a MAC is journaled, routed and sent by an HSM task, any
other request by the ingress worker that accepted it.  Both are run here alone,
from the guard insert to their end, on the same state and with the same answers
of the journal and of the egress channel.  The paths choose the same channel, but
the task knows no NAT, no ledger and no decline for a request without a channel.
-/

namespace Iso8583Switch

open Text Function Relation

/-! ## Up to the PIN and the MAC -/

/-- The event without its PIN block and its MAC. -/
def UniversalPaymentEvent.plain (tx : UniversalPaymentEvent) : UniversalPaymentEvent :=
  { tx with pinBlock := [], macData := none }

def Transaction.plain (record : Transaction) : Transaction := { record with pinBlock := "" }

/-- Which of the two paths placed the frame is forgotten as well. -/
def Frame.plain (f : Frame) : Frame :=
  { f with
    origin := match f.origin with
      | .hsm i => .ingress i
      | origin => origin
    transaction := f.transaction.plain }

def Event.plain : Event → Event
  | .appended record => .appended record.plain
  | .posted tx => .posted tx.plain
  | .placed f => .placed f.plain
  | .responded r source reply => .responded r source reply.plain
  | e => e

theorem toPb_plain (tx : UniversalPaymentEvent) : (toPb tx).plain = toPb tx.plain := rfl

theorem toPb_plain_of_eq {tx tx' : UniversalPaymentEvent} (h : tx'.plain = tx.plain) :
    (toPb tx').plain = toPb tx.plain := by
  rw [toPb_plain, h]

/-- Two runs from `s` have the same effects: on the NAT table and its counter, on
the guard, and on the journal, the ledger, the channels and the clients. -/
structure Agree (s t t' : Engine) : Prop where
  stanNat : t.mem.stanNat = t'.mem.stanNat
  stanCounter : t.mem.stanCounter = t'.mem.stanCounter
  guard : ∀ key, t.guard.get key = t'.guard.get key
  events : (Engine.newEvents s t).map Event.plain = (Engine.newEvents s t').map Event.plain

/-! ## Solo runs -/

/-- The answers of the blocking calls that both paths make. -/
structure Calls where
  journal : Bool
  send : Bool

/-- The inputs of the worker that agree with the answers.  A worker that is done
with the request takes none. -/
def IngressPc.Takes (calls : Calls) : IngressPc → Input → Prop
  | .idle, _ => False
  | .carrying _ _ _ .inserted, .outcome ok => ok = calls.journal
  | .carrying _ _ _ (.recorded _ _), .outcome ok => ok = calls.send
  | _, _ => True

/-- The inputs of the task that agree with the answers, where the HSM confirms
the MAC and the PIN.  A task that has failed its checks takes none. -/
def HsmPc.Takes (calls : Calls) : HsmPc → Input → Prop
  | .awaitingMac _ _, .verifiedMac result => result = some true
  | .awaitingPin _ _ _, .verifiedPin result => result = some true
  | .awaitingPin _ _ _, .translatedPin result => result.isSome
  | .checked _ isPinValid _, .outcome ok => isPinValid = true ∧ ok = calls.journal
  | .checked _ isPinValid _, _ => isPinValid = true
  | .sending _ _ _, .outcome ok => ok = calls.send
  | _, _ => True

def WorkerStep (calls : Calls) (w : Nat) (s t : Engine) : Prop :=
  ∃ input, (s.ingress w).Takes calls input ∧ s.ingressStep w input = some t

def TaskStep (calls : Calls) (i : Serial) (s t : Engine) : Prop :=
  ∃ input, (s.hsm i).Takes calls input ∧ s.hsmStep i input = some t

/-- The worker takes the request without its PIN and MAC from the insert to the
end of its loop body. -/
structure PlainPath (calls : Calls) (s : Engine) (w : Nat) (i : Serial) (key : String)
    (ctx : TransactionContext) (t : Engine) : Prop where
  run : ReflTransGen (WorkerStep calls w) (s.setIngress w
    (.carrying i key { ctx with transaction := ctx.transaction.plain } .inserted)) t
  done : t.ingress w = .idle

/-- The task takes the request from its spawn to its end, and all checks succeed. -/
structure HsmPath (calls : Calls) (s : Engine) (i : Serial) (ctx : TransactionContext)
    (t : Engine) : Prop where
  run : ReflTransGen (TaskStep calls i) (s.setHsm i (.spawned ctx)) t
  done : t.hsm i = .finished

/-- The channel of the task. -/
def GlobalState.hsmEgress (g : GlobalState) (fpan : Bytes) : Option (RouteDestination × ChannelId) :=
  match g.router.find fpan with
  | some route => g.channelFor route.destination route.failoverNode
  | none => none

/-- The channel of the worker is that of the task, for the classes it routes. -/
theorem GlobalState.targetEgress_eq (g : GlobalState) (tx : UniversalPaymentEvent) :
    g.targetEgress tx = if routable tx.messageClass then g.hsmEgress tx.fpan else none := rfl

/-! ## What the task does -/

section Task

variable {s₀ s t : Engine} {calls : Calls} {i : Serial} {tx : UniversalPaymentEvent}

/-- The events of the task, up to the PIN and the MAC. -/
def hsmEvents (g : GlobalState) (calls : Calls) (i : Serial) (tx : UniversalPaymentEvent) :
    List Event :=
  if calls.journal then
    .appended (toPb tx.plain) :: match g.hsmEgress tx.fpan with
      | some (destination, channel) =>
          if calls.send then [.placed ⟨.ingress i, destination, channel, tx.plain⟩] else []
      | none => []
  else []

/-- What holds at each position of the task, with the events so far. -/
def TaskAt (g : GlobalState) (calls : Calls) (i : Serial) (tx : UniversalPaymentEvent)
    (l : List Event) : HsmPc → Prop
  | .absent => False
  | .spawned ctx => ctx.transaction = tx ∧ l = []
  | .awaitingMac ctx route | .awaitingPin ctx route _ | .resolving ctx route =>
      ctx.transaction.plain = tx.plain ∧ Engine.targetCh g route = g.hsmEgress tx.fpan ∧ l = []
  | .checked _ false _ => True
  | .checked ctx true target =>
      ctx.transaction.plain = tx.plain ∧ target = g.hsmEgress tx.fpan ∧ l = []
  | .sending ctx destination channel =>
      ctx.transaction.plain = tx.plain ∧ g.hsmEgress tx.fpan = some (destination, channel) ∧
        calls.journal = true ∧ l = [.appended (toPb ctx.transaction)]
  | .finished => l.map Event.plain = hsmEvents g calls i tx

structure TaskInv (s₀ : Engine) (calls : Calls) (i : Serial) (tx : UniversalPaymentEvent)
    (s : Engine) : Prop where
  mem : s.mem = s₀.mem
  guard : s.guard = s₀.guard
  at_pc : ∃ l, s.trace = s₀.trace ++ l ∧ TaskAt s₀.mem calls i tx l (s.hsm i)

theorem taskAt_afterMac {g : GlobalState} {ctx : TransactionContext} {route : HsmRoute}
    {macValid : Bool} (htx : ctx.transaction.plain = tx.plain)
    (hroute : Engine.targetCh g route = g.hsmEgress tx.fpan) :
    TaskAt g calls i tx [] (Engine.afterMac ctx route macValid) := by
  unfold Engine.afterMac
  cases route with
  | internalCrdb pvv =>
      dsimp only
      split
      · exact ⟨htx, hroute, rfl⟩
      · split
        · exact ⟨htx, hroute, rfl⟩
        · trivial
  | externalNode node failover =>
      dsimp only
      split
      · split
        · exact ⟨htx, hroute, rfl⟩
        · exact ⟨htx, hroute, rfl⟩
      · trivial

theorem taskAt_beforeMac {g : GlobalState} {ctx : TransactionContext} {route : HsmRoute}
    (htx : ctx.transaction.plain = tx.plain)
    (hroute : Engine.targetCh g route = g.hsmEgress tx.fpan) :
    TaskAt g calls i tx [] (Engine.beforeMac ctx route) := by
  unfold Engine.beforeMac
  split
  · exact ⟨htx, hroute, rfl⟩
  · exact taskAt_afterMac htx hroute

theorem taskAt_hsmRoute {g : GlobalState} {ctx : TransactionContext} (htx : ctx.transaction = tx) :
    TaskAt g calls i tx [] (Engine.hsmRoute g ctx) := by
  subst htx
  unfold Engine.hsmRoute
  split
  next route hroute =>
    split
    next hdest =>
      split
      · exact taskAt_beforeMac rfl (by simp only [GlobalState.hsmEgress, hroute, hdest]; rfl)
      · trivial
    next node hdest =>
      exact taskAt_beforeMac rfl (by simp only [GlobalState.hsmEgress, hroute, hdest]; rfl)
  next hroute => exact ⟨rfl, by rw [GlobalState.hsmEgress, hroute], rfl⟩

/-- A task moves on without doing anything. -/
theorem TaskInv.setHsm {l : List Event} (h : TaskInv s₀ calls i tx s) (hl : s.trace = s₀.trace ++ l)
    {pc : HsmPc} (hpc : TaskAt s₀.mem calls i tx l pc) : TaskInv s₀ calls i tx (s.setHsm i pc) := by
  refine ⟨h.mem, h.guard, l, hl, ?_⟩
  rw [Engine.setHsm_self]
  exact hpc

/-- A task moves on with an event. -/
theorem TaskInv.log {l : List Event} {e : Event} (h : TaskInv s₀ calls i tx s)
    (hl : s.trace = s₀.trace ++ l) {pc : HsmPc} (hpc : TaskAt s₀.mem calls i tx (l ++ [e]) pc) :
    TaskInv s₀ calls i tx ((s.log e).setHsm i pc) := by
  refine ⟨h.mem, h.guard, l ++ [e], ?_, ?_⟩
  · rw [Engine.setHsm, Engine.log, hl, List.append_assoc]
  · rw [Engine.setHsm_self]
    exact hpc

theorem TaskInv.step (h : TaskInv s₀ calls i tx s) (hstep : TaskStep calls i s t) :
    TaskInv s₀ calls i tx t := by
  obtain ⟨input, htakes, hstep⟩ := hstep
  obtain ⟨l, hl, hat⟩ := h.at_pc
  obtain ⟨pc', u, hturn, rfl⟩ := Engine.hsmStep_turn hstep
  generalize s.hsm i = pc at hturn htakes hat
  cases hturn with
  | route =>
      obtain ⟨htx, rfl⟩ := hat
      rw [h.mem]
      exact h.setHsm hl (taskAt_hsmRoute htx)
  | verifyMac =>
      obtain ⟨htx, hroute, rfl⟩ := hat
      exact h.setHsm hl (taskAt_afterMac htx hroute)
  | verifyPin =>
      obtain ⟨htx, hroute, rfl⟩ := hat
      refine h.setHsm hl ?_
      unfold Engine.afterVerifyPin
      split
      · split
        · trivial
        · exact ⟨htx, hroute, rfl⟩
      · trivial
  | translatePin =>
      obtain ⟨htx, hroute, rfl⟩ := hat
      refine h.setHsm hl ?_
      unfold Engine.afterTranslatePin
      split
      · exact ⟨htx, hroute, rfl⟩
      · trivial
  | resolve =>
      obtain ⟨htx, hroute, rfl⟩ := hat
      rw [h.mem]
      exact h.setHsm hl ⟨htx, hroute, rfl⟩
  | decline => cases htakes
  | journal =>
      obtain ⟨htx, htarget, rfl⟩ := hat
      exact h.log hl ⟨htx, htarget.symm, htakes.2.symm, rfl⟩
  | drop =>
      obtain ⟨htx, htarget, rfl⟩ := hat
      refine h.log hl ?_
      rw [TaskAt, hsmEvents, if_pos htakes.2.symm, ← htarget]
      simp only [List.nil_append, List.map_cons, List.map_nil, Event.plain, toPb_plain_of_eq htx]
  | unjournaled =>
      obtain ⟨-, -, rfl⟩ := hat
      refine h.setHsm hl ?_
      rw [TaskAt, hsmEvents, ← htakes.2]
      rfl
  | send =>
      obtain ⟨htx, htarget, hjournal, rfl⟩ := hat
      have hsend : true = calls.send := htakes
      refine h.log hl ?_
      rw [TaskAt, hsmEvents, if_pos hjournal, htarget]
      simp only [← hsend, List.cons_append, List.nil_append, List.map_cons, List.map_nil,
        Event.plain, toPb_plain_of_eq htx, Frame.plain, htx, if_true]
  | fail =>
      obtain ⟨htx, htarget, hjournal, rfl⟩ := hat
      have hsend : false = calls.send := htakes
      refine h.setHsm hl ?_
      rw [TaskAt, hsmEvents, if_pos hjournal, htarget]
      simp only [← hsend, List.map_cons, List.map_nil, Event.plain, toPb_plain_of_eq htx]
      rfl

theorem TaskInv.run (h : TaskInv s₀ calls i tx s) (hrun : ReflTransGen (TaskStep calls i) s t) :
    TaskInv s₀ calls i tx t := by
  induction hrun with
  | refl => exact h
  | tail _ hstep ih => exact ih.step hstep

/-- What a task has done in the end. -/
theorem HsmPath.effects {ctx : TransactionContext} (h : HsmPath calls s i ctx t) :
    t.mem = s.mem ∧ t.guard = s.guard ∧
      (Engine.newEvents s t).map Event.plain = hsmEvents s.mem calls i ctx.transaction := by
  have hinv : TaskInv s calls i ctx.transaction t := by
    have hstart : TaskInv s calls i ctx.transaction (s.setHsm i (.spawned ctx)) := by
      refine ⟨rfl, rfl, [], (List.append_nil _).symm, ?_⟩
      rw [Engine.setHsm_self]
      exact ⟨rfl, rfl⟩
    exact hstart.run h.run
  obtain ⟨l, hl, hat⟩ := hinv.at_pc
  rw [h.done] at hat
  refine ⟨hinv.mem, hinv.guard, ?_⟩
  rw [Engine.newEvents, hl, List.drop_left]
  exact hat

end Task

/-! ## What the worker does -/

section Worker

variable {s₀ s t : Engine} {calls : Calls} {w : Nat} {key : String} {tx : UniversalPaymentEvent}

/-- What a worker acts on. -/
structure Shared where
  mem : GlobalState
  guard : DashMap String ActiveTransaction
  trace : List Event

def Engine.shared (s : Engine) : Shared := ⟨s.mem, s.guard, s.trace⟩

/-- Nothing has happened but the events. -/
def Untouched (s₀ : Engine) (l : List Event) (m : Shared) : Prop :=
  m = ⟨s₀.mem, s₀.guard, s₀.trace ++ l⟩

/-- The request has a channel and has taken an egress STAN. -/
structure Numbered (s₀ : Engine) (calls : Calls) (tx : UniversalPaymentEvent) (m : Shared) :
    Prop where
  journal : calls.journal = true
  routed : s₀.mem.targetEgress tx ≠ none
  stanCounter : m.mem.stanCounter = s₀.mem.stanCounter + 1

/-- The request has no channel.  Where there is no entry under its key, nothing
has happened since the journal. -/
structure Declined (s₀ : Engine) (calls : Calls) (key : String) (tx : UniversalPaymentEvent)
    (m : Shared) : Prop where
  journal : calls.journal = true
  unrouted : s₀.mem.targetEgress tx = none
  vacant : s₀.guard.get key = none → Untouched s₀ [.appended (toPb tx)] m

/-- What holds at each position of the worker. -/
def WorkerAt (s₀ : Engine) (calls : Calls) (key : String) (tx : UniversalPaymentEvent) (m : Shared) :
    IngressPc → Prop
  | .carrying _ k ctx .inserted =>
      k = key ∧ ctx.transaction = tx ∧ ctx.needsHsm = false ∧ Untouched s₀ [] m
  | .carrying _ k ctx .journaled =>
      k = key ∧ ctx.transaction = tx ∧ calls.journal = true ∧ Untouched s₀ [.appended (toPb tx)] m
  | .carrying _ _ _ (.routed _ _) =>
      calls.journal = true ∧ s₀.mem.targetEgress tx ≠ none ∧ m.mem.stanCounter = s₀.mem.stanCounter
  | .carrying _ k ctx .unrouted =>
      k = key ∧ ctx.transaction = tx ∧ calls.journal = true ∧ s₀.mem.targetEgress tx = none ∧
        Untouched s₀ [.appended (toPb tx)] m
  | .carrying _ _ _ _ => Numbered s₀ calls tx m
  | .evicting k => k = key ∧ Declined s₀ calls key tx m
  | .idle =>
      (calls.journal = false ∧ Untouched s₀ [] m) ∨
      (Declined s₀ calls key tx m ∧ m.guard.get key = none) ∨ Numbered s₀ calls tx m
  | _ => False

def WorkerInv (s₀ : Engine) (calls : Calls) (w : Nat) (key : String) (tx : UniversalPaymentEvent)
    (s : Engine) : Prop :=
  WorkerAt s₀ calls key tx s.shared (s.ingress w)

/-- A worker gets to a position. -/
theorem WorkerInv.of_at {pc : IngressPc} (h : WorkerAt s₀ calls key tx s.shared pc) :
    WorkerInv s₀ calls w key tx (s.setIngress w pc) := by
  rw [WorkerInv, Engine.setIngress_self]
  exact h

theorem Untouched.log {l : List Event} {e : Event} (h : Untouched s₀ l s.shared) :
    Untouched s₀ (l ++ [e]) (s.log e).shared := by
  obtain ⟨hmem, hguard, htrace⟩ := Shared.mk.inj h
  rw [Untouched, Engine.shared, Engine.log, ← hmem, ← hguard, htrace, List.append_assoc]

theorem Numbered.of_mem (h : Numbered s₀ calls tx s.shared) (ht : t.mem = s.mem) :
    Numbered s₀ calls tx t.shared :=
  ⟨h.journal, h.routed, (congrArg GlobalState.stanCounter ht).trans h.stanCounter⟩

/-- Where there is no entry there is nothing to evict. -/
theorem Declined.evict (h : Declined s₀ calls key tx s.shared) :
    Declined s₀ calls key tx (s.evict key).shared := by
  refine ⟨h.journal, h.unrouted, fun hvacant => ?_⟩
  have hguard : s.guard = s₀.guard := congrArg Shared.guard (h.vacant hvacant)
  rw [Engine.evict, hguard, hvacant]
  exact h.vacant hvacant

theorem evict_get_self (s : Engine) (key : String) : (s.evict key).guard.get key = none := by
  unfold Engine.evict
  split
  · exact DashMap.get_remove_self _ _
  next h => exact h

/-- A step of the worker up to its position. -/
theorem workerAt_carryTurn {i : Serial} {k : String} {ctx : TransactionContext} {stage : Stage}
    {input : Input} {pc : IngressPc}
    (hat : WorkerAt s₀ calls key tx s.shared (.carrying i k ctx stage))
    (htakes : IngressPc.Takes calls (.carrying i k ctx stage) input)
    (hturn : s.CarryTurn i k ctx input stage pc t) : WorkerAt s₀ calls key tx t.shared pc := by
  cases hturn with
  | spawn hneeds | lose hneeds =>
      obtain ⟨-, -, hplain, -⟩ := hat
      rw [hplain] at hneeds
      cases hneeds
  | journal =>
      obtain ⟨rfl, rfl, -, hsame⟩ := hat
      exact ⟨rfl, rfl, htakes.symm, hsame.log⟩
  | unjournaled =>
      obtain ⟨-, -, -, hsame⟩ := hat
      exact .inl ⟨htakes.symm, hsame⟩
  | route hroute =>
      obtain ⟨rfl, rfl, hjournal, hsame⟩ := hat
      have hmem : s.mem = s₀.mem := congrArg Shared.mem hsame
      rw [hmem] at hroute
      exact ⟨hjournal, by rw [hroute]; simp, congrArg GlobalState.stanCounter hmem⟩
  | noRoute hroute =>
      obtain ⟨rfl, rfl, hjournal, hsame⟩ := hat
      have hmem : s.mem = s₀.mem := congrArg Shared.mem hsame
      exact ⟨rfl, rfl, hjournal, hmem ▸ hroute, hsame⟩
  | number =>
      obtain ⟨hjournal, hrouted, hcounter⟩ := hat
      exact ⟨hjournal, hrouted, congrArg (· + 1) hcounter⟩
  | decline hget =>
      obtain ⟨rfl, rfl, hjournal, hunrouted, hsame⟩ := hat
      refine ⟨rfl, hjournal, hunrouted, fun hvacant => ?_⟩
      have hguard : s.guard = s₀.guard := congrArg Shared.guard hsame
      rw [hguard, hvacant] at hget
      cases hget
  | declineNobody =>
      obtain ⟨rfl, rfl, hjournal, hunrouted, hsame⟩ := hat
      exact ⟨rfl, hjournal, hunrouted, fun _ => hsame⟩
  | fallback =>
      rcases Engine.stipDecision_cases _ ctx with ⟨profile, -, heq⟩ | ⟨rc, -, heq⟩
      · rw [heq]
        exact Numbered.of_mem hat rfl
      · rw [heq]
        exact Numbered.of_mem hat rfl
  | record | recordNowhere | fail | debit => exact Numbered.of_mem hat rfl
  | send | undecided => exact .inr (.inr (Numbered.of_mem hat rfl))
  | decide => exact .inr (.inr (Numbered.of_mem hat (Engine.respond_mem _ _ _ _)))

theorem WorkerInv.step (h : WorkerInv s₀ calls w key tx s) (hstep : WorkerStep calls w s t) :
    WorkerInv s₀ calls w key tx t := by
  obtain ⟨input, htakes, hstep⟩ := hstep
  obtain ⟨pc', u, hturn, rfl⟩ := Engine.ingressStep_turn hstep
  refine .of_at ?_
  rw [WorkerInv] at h
  generalize s.ingress w = pc at hturn htakes h
  cases hturn with
  | carry hturn => exact workerAt_carryTurn h htakes hturn
  | @evict k =>
      obtain ⟨rfl, hdeclined⟩ := h
      exact .inr (.inl ⟨hdeclined.evict, evict_get_self s k⟩)
  | receive => exact htakes.elim
  | @answer pc ctx source reply hheld => cases pc <;> first | exact h.elim | cases hheld
  | clear | binPanic | plain | detokenize | dpanPanic | screen | reverse | dataPanic | mark | pass
  | skip | accept => exact h.elim

theorem WorkerInv.run (h : WorkerInv s₀ calls w key tx s)
    (hrun : ReflTransGen (WorkerStep calls w) s t) : WorkerInv s₀ calls w key tx t := by
  induction hrun with
  | refl => exact h
  | tail _ hstep ih => exact ih.step hstep

/-- What a worker has done in the end. -/
theorem PlainPath.effects {i : Serial} {ctx : TransactionContext}
    (h : PlainPath calls s w i key ctx t) :
    (calls.journal = false ∧ Untouched s [] t.shared) ∨
      (Declined s calls key ctx.transaction.plain t.shared ∧ t.guard.get key = none) ∨
        Numbered s calls ctx.transaction.plain t.shared := by
  have hstart : WorkerInv s calls w key ctx.transaction.plain (s.setIngress w
      (.carrying i key { ctx with transaction := ctx.transaction.plain } .inserted)) := by
    refine .of_at ⟨rfl, rfl, rfl, ?_⟩
    rw [Untouched, List.append_nil]
    rfl
  have hend := hstart.run h.run
  rw [WorkerInv, h.done] at hend
  exact hend

end Worker

/-! ## Both paths end -/

section Ends

variable {s : Engine} {calls : Calls}

/-- How many steps a worker is from its end at most. -/
def Stage.rank : Stage → Nat
  | .inserted => 9
  | .journaled => 8
  | .routed _ _ => 7
  | .numbered _ _ => 6
  | .recorded _ _ => 5
  | .failed => 4
  | .debiting _ => 3
  | .decided | .unrouted => 2

def IngressPc.rank : IngressPc → Nat
  | .carrying _ _ _ stage => stage.rank
  | .evicting _ => 1
  | _ => 0

/-- The positions of a worker on its way. -/
def IngressPc.Underway : IngressPc → Prop
  | .carrying _ _ ctx .inserted => ctx.needsHsm = false
  | .carrying _ _ _ _ | .evicting _ | .idle => True
  | _ => False

attribute [local simp] IngressPc.rank Stage.rank

/-- The step of a worker leaves it nearer to its end. -/
def Nearer (w : Nat) (rank : Nat) (t : Engine) : Prop :=
  (t.ingress w).Underway ∧ (t.ingress w).rank < rank

theorem nearer_setIngress {w rank : Nat} {pc : IngressPc} (hunder : pc.Underway)
    (hrank : pc.rank < rank) : Nearer w rank (s.setIngress w pc) := by
  rw [Nearer, Engine.setIngress_self]
  exact ⟨hunder, hrank⟩

theorem nearer_carryStep {w : Nat} {i : Serial} {key : String} {ctx : TransactionContext}
    {stage : Stage} {input : Input} {t : Engine} (h : s.carryStep w i key ctx stage input = some t) :
    Nearer w stage.rank t := by
  obtain ⟨pc, u, hturn, rfl⟩ := Engine.carryStep_turn h
  cases hturn with
  | fallback =>
      rcases Engine.stipDecision_cases _ ctx with ⟨profile, -, heq⟩ | ⟨rc, -, heq⟩
      · exact nearer_setIngress (by rw [heq]; trivial) (by simp [heq])
      · exact nearer_setIngress (by rw [heq]; trivial) (by simp [heq])
  | spawn | lose | journal | unjournaled | route | noRoute | number | decline | declineNobody
  | record | recordNowhere | send | fail | debit | decide | undecided =>
      exact nearer_setIngress trivial (by simp)

theorem carry_progress (s : Engine) (w : Nat) (i : Serial) (key : String) (ctx : TransactionContext)
    (stage : Stage) (h : IngressPc.Underway (.carrying i key ctx stage)) :
    ∃ input t, IngressPc.Takes calls (.carrying i key ctx stage) input ∧
      s.carryStep w i key ctx stage input = some t ∧ Nearer w stage.rank t := by
  suffices hgo : ∃ input t, IngressPc.Takes calls (.carrying i key ctx stage) input ∧
      s.carryStep w i key ctx stage input = some t by
    obtain ⟨input, t, htakes, hstep⟩ := hgo
    exact ⟨input, t, htakes, hstep, nearer_carryStep hstep⟩
  cases stage with
  | inserted =>
      have hneeds : ctx.needsHsm = false := h
      refine ⟨.outcome calls.journal, s.journalRequest w i key ctx calls.journal, rfl, ?_⟩
      rw [Engine.carryStep, hneeds]
      rfl
  | recorded => exact ⟨.outcome calls.send, _, rfl, rfl⟩
  | journaled | routed | unrouted | numbered | debiting => exact ⟨.run, _, trivial, rfl⟩
  | failed | decided => exact ⟨.outcome true, _, trivial, rfl⟩

theorem worker_progress (calls : Calls) {w : Nat} (h : (s.ingress w).Underway)
    (hidle : s.ingress w ≠ .idle) :
    ∃ t, WorkerStep calls w s t ∧ Nearer w (s.ingress w).rank t := by
  cases hpc : s.ingress w with
  | carrying i key ctx stage =>
      rw [hpc] at h
      obtain ⟨input, t, htakes, hstep, hnearer⟩ := carry_progress s w i key ctx stage h
      refine ⟨t, ⟨input, hpc ▸ htakes, ?_⟩, hnearer⟩
      simp only [Engine.ingressStep, hpc]
      exact hstep
  | evicting key =>
      refine ⟨(s.evict key).setIngress w .idle, ⟨.run, ?_, ?_⟩, nearer_setIngress trivial (by simp)⟩
      · rw [hpc]; trivial
      · simp only [Engine.ingressStep, hpc]
  | idle => exact absurd hpc hidle
  | panicked | received | cleared | detokenized | screened | scanning =>
      rw [hpc] at h
      exact h.elim

theorem worker_ends (calls : Calls) (s : Engine) (w : Nat) (h : (s.ingress w).Underway) :
    ∃ t, ReflTransGen (WorkerStep calls w) s t ∧ t.ingress w = .idle := by
  by_cases hidle : s.ingress w = .idle
  · exact ⟨s, .refl, hidle⟩
  · obtain ⟨u, hstep, hunder, hlt⟩ := worker_progress calls h hidle
    obtain ⟨t, hrun, hdone⟩ := worker_ends calls u w hunder
    exact ⟨t, .head hstep hrun, hdone⟩
termination_by (s.ingress w).rank

theorem exists_plainPath (calls : Calls) (s : Engine) (w : Nat) (i : Serial) (key : String)
    (ctx : TransactionContext) : ∃ t, PlainPath calls s w i key ctx t := by
  obtain ⟨t, hrun, hdone⟩ := worker_ends calls (s.setIngress w
    (.carrying i key { ctx with transaction := ctx.transaction.plain } .inserted)) w
    (by rw [Engine.setIngress_self]; rfl)
  exact ⟨t, hrun, hdone⟩

/-- The card of an internal route is in the card database. -/
def GlobalState.CardKnown (g : GlobalState) (fpan : Bytes) : Prop :=
  ∀ route, g.router.find fpan = some route → route.destination = .internalCrdb →
    (g.crdb.cards.get (fromUtf8Lossy fpan)).isSome

def HsmPc.rank : HsmPc → Nat
  | .spawned _ => 6
  | .awaitingMac _ _ => 5
  | .awaitingPin _ _ _ => 4
  | .resolving _ _ => 3
  | .checked _ _ _ => 2
  | .sending _ _ _ => 1
  | .absent | .finished => 0

/-- The positions of a task that has not failed a check. -/
def HsmPc.Passing (g : GlobalState) : HsmPc → Prop
  | .spawned ctx => g.CardKnown ctx.transaction.fpan
  | .awaitingPin _ _ macValid => macValid = true
  | .checked _ isPinValid _ => isPinValid = true
  | .absent => False
  | _ => True

attribute [local simp] HsmPc.rank HsmPc.Passing

theorem passing_afterMac (g : GlobalState) (ctx : TransactionContext) (route : HsmRoute) :
    (Engine.afterMac ctx route true).Passing g ∧ (Engine.afterMac ctx route true).rank ≤ 4 := by
  unfold Engine.afterMac
  cases route with
  | internalCrdb pvv =>
      dsimp only
      split
      · simp
      · simp
  | externalNode node failover =>
      simp only [if_true]
      split <;> simp

theorem passing_beforeMac (g : GlobalState) (ctx : TransactionContext) (route : HsmRoute) :
    (Engine.beforeMac ctx route).Passing g ∧ (Engine.beforeMac ctx route).rank ≤ 5 := by
  unfold Engine.beforeMac
  split
  · simp
  · obtain ⟨hpassing, hrank⟩ := passing_afterMac g ctx route
    exact ⟨hpassing, Nat.le_succ_of_le hrank⟩

theorem passing_hsmRoute {g : GlobalState} {ctx : TransactionContext}
    (h : g.CardKnown ctx.transaction.fpan) :
    (Engine.hsmRoute g ctx).Passing g ∧ (Engine.hsmRoute g ctx).rank ≤ 5 := by
  unfold Engine.hsmRoute
  split
  next route hroute =>
    split
    next hdest =>
      obtain ⟨card, hcard⟩ := Option.isSome_iff_exists.mp (h route hroute hdest)
      rw [hcard]
      exact passing_beforeMac g ctx _
    next => exact passing_beforeMac g ctx _
  next => simp

theorem task_progress (calls : Calls) {i : Serial} (h : (s.hsm i).Passing s.mem)
    (hdone : s.hsm i ≠ .finished) :
    ∃ t, TaskStep calls i s t ∧ (t.hsm i).Passing t.mem ∧ (t.hsm i).rank < (s.hsm i).rank := by
  have hmove {pc : HsmPc} (input : Input) (pc' : HsmPc) (hpc : s.hsm i = pc)
      (htakes : pc.Takes calls input)
      (hstep : s.hsmStep i input = some (s.setHsm i pc')) (hpassing : pc'.Passing s.mem)
      (hrank : pc'.rank < pc.rank) :
      ∃ t, TaskStep calls i s t ∧ (t.hsm i).Passing t.mem ∧ (t.hsm i).rank < pc.rank := by
    refine ⟨_, ⟨input, hpc ▸ htakes, hstep⟩, ?_⟩
    rw [Engine.setHsm_self]
    exact ⟨hpassing, hrank⟩
  cases hpc : s.hsm i with
  | absent =>
      rw [hpc] at h
      exact h.elim
  | spawned ctx =>
      rw [hpc] at h
      obtain ⟨hpassing, hrank⟩ := passing_hsmRoute h
      exact hmove .run (Engine.hsmRoute s.mem ctx) hpc trivial (by simp only [Engine.hsmStep, hpc])
        hpassing (Nat.lt_succ_of_le hrank)
  | awaitingMac ctx route =>
      obtain ⟨hpassing, hrank⟩ := passing_afterMac s.mem ctx route
      exact hmove (.verifiedMac (some true)) (Engine.afterMac ctx route true) hpc rfl
        (by simp only [Engine.hsmStep, hpc]; rfl) hpassing (Nat.lt_succ_of_le hrank)
  | awaitingPin ctx route macValid =>
      rw [hpc] at h
      obtain rfl : macValid = true := h
      cases route with
      | internalCrdb pvv =>
          exact hmove (.verifiedPin (some true)) (.resolving ctx (.internalCrdb pvv)) hpc rfl
            (by simp only [Engine.hsmStep, hpc]; rfl) trivial (by simp)
      | externalNode node failover =>
          exact hmove (.translatedPin (some ""))
            (Engine.afterTranslatePin ctx (.externalNode node failover) (some "")) hpc rfl
            (by simp only [Engine.hsmStep, hpc]) trivial (by simp [Engine.afterTranslatePin])
  | resolving ctx route =>
      exact hmove .run (.checked ctx true (Engine.targetCh s.mem route)) hpc trivial
        (by simp only [Engine.hsmStep, hpc]) rfl (by simp)
  | checked ctx isPinValid target =>
      rw [hpc] at h
      obtain rfl : isPinValid = true := h
      refine ⟨s.journalHsm i ctx target calls.journal, ⟨.outcome calls.journal, ?_, ?_⟩, ?_⟩
      · rw [hpc]; exact ⟨rfl, rfl⟩
      · simp only [Engine.hsmStep, hpc]
      · unfold Engine.journalHsm
        split
        · dsimp only
          split <;> simp
        · simp
  | sending ctx destination channel =>
      refine ⟨s.sendHsm i ctx destination channel calls.send, ⟨.outcome calls.send, ?_, ?_⟩, ?_⟩
      · rw [hpc]; rfl
      · simp only [Engine.hsmStep, hpc]
      · unfold Engine.sendHsm
        split <;> simp
  | finished => exact absurd hpc hdone

theorem task_ends (calls : Calls) (s : Engine) (i : Serial) (h : (s.hsm i).Passing s.mem) :
    ∃ t, ReflTransGen (TaskStep calls i) s t ∧ t.hsm i = .finished := by
  by_cases hdone : s.hsm i = .finished
  · exact ⟨s, .refl, hdone⟩
  · obtain ⟨u, hstep, hpassing, hlt⟩ := task_progress calls h hdone
    obtain ⟨t, hrun, hend⟩ := task_ends calls u i hpassing
    exact ⟨t, .head hstep hrun, hend⟩
termination_by (s.hsm i).rank

theorem exists_hsmPath (calls : Calls) (s : Engine) (i : Serial) (ctx : TransactionContext)
    (h : s.mem.CardKnown ctx.transaction.fpan) : ∃ t, HsmPath calls s i ctx t := by
  obtain ⟨t, hrun, hdone⟩ := task_ends calls (s.setHsm i (.spawned ctx)) i
    (by rw [Engine.setHsm_self]; exact h)
  exact ⟨t, hrun, hdone⟩

end Ends

/-! ## Where the paths agree -/

/-- The journal refuses the request, or the request has no channel on either path
and nobody waits for it in the guard any more. -/
def NothingLeftToDo (calls : Calls) (s : Engine) (key : String) (tx : UniversalPaymentEvent) : Prop :=
  calls.journal = false ∨
    (s.mem.targetEgress tx = none ∧ s.guard.get key = none ∧
      (s.mem.hsmEgress tx.fpan = none ∨ calls.send = false))

theorem paths_agree_iff {calls : Calls} {s t t' : Engine} {w : Nat} {i : Serial} {key : String}
    {ctx : TransactionContext} (hplain : PlainPath calls s w i key ctx t)
    (hhsm : HsmPath calls s i ctx t') :
    Agree s t t' ↔ NothingLeftToDo calls s key ctx.transaction := by
  obtain ⟨hmem', hguard', hevents'⟩ := hhsm.effects
  have hevents {l : List Event} (h : Untouched s l t.shared) :
      (Engine.newEvents s t).map Event.plain = l.map Event.plain := by
    rw [Engine.newEvents, show t.trace = s.trace ++ l from congrArg Shared.trace h, List.drop_left]
  have hagree {l : List Event} (h : Untouched s l t.shared)
      (hl : l.map Event.plain = hsmEvents s.mem calls i ctx.transaction) : Agree s t t' := by
    obtain ⟨hmem, hguard, -⟩ := Shared.mk.inj h
    refine ⟨?_, ?_, fun k => ?_, ?_⟩
    · rw [hmem, hmem']
    · rw [hmem, hmem']
    · rw [hguard, hguard']
    · rw [hevents h, hl, hevents']
  rcases hplain.effects with ⟨hjournal, hsame⟩ | ⟨hdeclined, hgone⟩ | hnumbered
  · refine ⟨fun _ => .inl hjournal, fun _ => hagree hsame ?_⟩
    rw [hsmEvents, hjournal]
    rfl
  · constructor
    · intro h
      have hvacant : s.guard.get key = none := by
        rw [← hguard', ← h.guard, hgone]
      refine .inr ⟨hdeclined.unrouted, hvacant, ?_⟩
      have hl := h.events
      rw [hevents (hdeclined.vacant hvacant), hevents', hsmEvents, if_pos hdeclined.journal] at hl
      cases htarget : s.mem.hsmEgress ctx.transaction.fpan with
      | none => exact .inl rfl
      | some target =>
          right
          rw [htarget] at hl
          cases hsend : calls.send with
          | false => rfl
          | true =>
              rw [hsend] at hl
              have := congrArg List.length hl
              simp at this
    · rintro (hjournal | ⟨-, hvacant, hnowhere⟩)
      · rw [hdeclined.journal] at hjournal
        cases hjournal
      · refine hagree (hdeclined.vacant hvacant) ?_
        rw [hsmEvents, if_pos hdeclined.journal]
        rcases hnowhere with hnone | hsend
        · rw [hnone]
          rfl
        · rw [hsend]
          cases s.mem.hsmEgress ctx.transaction.fpan <;> rfl
  · constructor
    · intro h
      have hcounter := h.stanCounter
      rw [hmem', show t.mem.stanCounter = s.mem.stanCounter + 1 from hnumbered.stanCounter] at hcounter
      simp at hcounter
    · rintro (hjournal | ⟨hunrouted, -⟩)
      · rw [hnumbered.journal] at hjournal
        cases hjournal
      · exact absurd hunrouted hnumbered.routed

/-- For every state and every request: the worker comes to its end, the task does
so unless the card is unknown, and the two have the same effects exactly when
there is nothing left to do for either. -/
theorem hsm_path_agrees_iff (calls : Calls) (s : Engine) (w : Nat) (i : Serial) (key : String)
    (ctx : TransactionContext) :
    (∃ t, PlainPath calls s w i key ctx t) ∧
    (s.mem.CardKnown ctx.transaction.fpan → ∃ t, HsmPath calls s i ctx t) ∧
    ∀ t t', PlainPath calls s w i key ctx t → HsmPath calls s i ctx t' →
      (Agree s t t' ↔ NothingLeftToDo calls s key ctx.transaction) :=
  ⟨exists_plainPath calls s w i key ctx, exists_hsmPath calls s i ctx,
    fun _ _ => paths_agree_iff⟩

/-- A PIN purchase is behind the guard, and its route has a channel. -/
def pinAccepted : List Action := .storeRouter visaRouter :: accept 0 pinPurchase

theorem pinAccepted_cardKnown :
    (Engine.after pinAccepted).mem.CardKnown pinPurchase.fpan := by
  intro route hroute hdest
  have hfind : (Engine.after pinAccepted).mem.router.find pinPurchase.fpan =
      some ⟨.externalNode "MockVisaNode", none⟩ := by rfl
  rw [hfind, Option.some.injEq] at hroute
  subst hroute
  cases hdest

/-- With the journal down neither path does anything. -/
theorem hsm_path_agrees_iff_journalDown :
    ∃ t t', PlainPath ⟨false, true⟩ (Engine.after pinAccepted) 0 1 pinPurchase.guardKey
        ⟨pinPurchase, none⟩ t ∧
      HsmPath ⟨false, true⟩ (Engine.after pinAccepted) 1 ⟨pinPurchase, none⟩ t' ∧
      Agree (Engine.after pinAccepted) t t' := by
  obtain ⟨⟨t, hplain⟩, hhsm, hiff⟩ := hsm_path_agrees_iff ⟨false, true⟩ (Engine.after pinAccepted)
    0 1 pinPurchase.guardKey ⟨pinPurchase, none⟩
  obtain ⟨t', hhsm⟩ := hhsm pinAccepted_cardKnown
  exact ⟨t, t', hplain, hhsm, (hiff t t' hplain hhsm).mpr (.inl rfl)⟩

/-- With everything up the two differ. -/
theorem pinAccepted_disagrees :
    ¬ ∀ (calls : Calls) (s t t' : Engine) (w : Nat) (i : Serial) (key : String)
      (ctx : TransactionContext), Engine.Reachable Transition.Free s → ctx.needsHsm = true →
        PlainPath calls s w i key ctx t → HsmPath calls s i ctx t' → Agree s t t' := by
  intro hevery
  have hrun : Engine.Reachable Transition.Free (Engine.after pinAccepted) :=
    Engine.reachable_after_free (by decide)
  obtain ⟨t, hplain⟩ := exists_plainPath ⟨true, true⟩ (Engine.after pinAccepted) 0 1
    pinPurchase.guardKey ⟨pinPurchase, none⟩
  obtain ⟨t', hhsm⟩ := exists_hsmPath ⟨true, true⟩ (Engine.after pinAccepted) 1
    ⟨pinPurchase, none⟩ pinAccepted_cardKnown
  have hagree := hevery _ _ t t' 0 1 _ _ hrun (by decide) hplain hhsm
  rcases (paths_agree_iff hplain hhsm).mp hagree with hjournal | ⟨hunrouted, -⟩
  · cases hjournal
  · cases hunrouted

end Iso8583Switch
