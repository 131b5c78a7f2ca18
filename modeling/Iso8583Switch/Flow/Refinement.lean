import Iso8583Switch.Engine.Ownership
import Iso8583Switch.Flow.Machine

/-!
# The engine refines the flow

`Engine.flow` forgets everything but who holds what.  Every step of the engine
is one move of the flow or leaves the flow as it is.  The one fact that this
needs from the engine is that a context behind the guard has lost its responder,
which is `Engine.Disowned`.
-/

namespace Iso8583Switch

open Text Function

/-! ## The projection -/

/-- The responder in front of the guard. -/
def IngressPc.fronted : IngressPc → Option Responder
  | .received ctx | .cleared ctx | .detokenized ctx | .screened ctx | .scanning ctx _ _ _ =>
      ctx.responder
  | .idle | .panicked | .carrying _ _ _ _ | .evicting _ => none

/-- The context behind the guard, as long as it may be sent. -/
def IngressPc.carried : IngressPc → Option Carried
  | .carrying i key ctx .inserted | .carrying i key ctx .journaled
  | .carrying i key ctx (.routed _ _) => some ⟨i, key, ctx.transaction, none⟩
  | .carrying i key ctx (.numbered _ _) | .carrying i key ctx (.recorded _ _) =>
      some ⟨i, key, ctx.transaction, some ctx.transaction.stan⟩
  | _ => none

theorem IngressPc.fronted_of_held {pc : IngressPc} {ctx : TransactionContext}
    (h : pc.held = some ctx) : pc.fronted = ctx.responder := by
  cases pc <;> cases h <;> rfl

theorem IngressPc.carried_of_held {pc : IngressPc} {ctx : TransactionContext}
    (h : pc.held = some ctx) : pc.carried = none := by
  cases pc <;> cases h <;> rfl

/-- The context of a task, as long as it may be sent. -/
def HsmPc.task : HsmPc → Option UniversalPaymentEvent
  | .spawned ctx | .awaitingMac ctx _ | .awaitingPin ctx _ _ | .resolving ctx _
  | .checked ctx true (some _) | .sending ctx _ _ => some ctx.transaction
  | .absent | .checked _ _ _ | .finished => none

def ReplyPc.handling : ReplyPc → Option (Packet × String)
  | .translated packet key => some (packet, key)
  | _ => none

namespace Engine

def flow (s : Engine) : Flow where
  guard := s.guard
  nat := s.mem.stanNat
  trace := s.trace
  fronted := IngressPc.fronted ∘ s.ingress
  carried := IngressPc.carried ∘ s.ingress
  tasks := HsmPc.task ∘ s.hsm
  reclaim := s.reaper.reclaim
  inbox := s.bankReply
  handling := ReplyPc.handling ∘ s.repliers

/-! ## What the updates do to the flow -/

@[simp] theorem flow_guard (s : Engine) : s.flow.guard = s.guard := rfl
@[simp] theorem flow_nat (s : Engine) : s.flow.nat = s.mem.stanNat := rfl
@[simp] theorem flow_trace (s : Engine) : s.flow.trace = s.trace := rfl
@[simp] theorem flow_inbox (s : Engine) : s.flow.inbox = s.bankReply := rfl
@[simp] theorem flow_reclaim (s : Engine) : s.flow.reclaim = s.reaper.reclaim := rfl
@[simp] theorem flow_fronted (s : Engine) (w : Nat) : s.flow.fronted w = (s.ingress w).fronted :=
  rfl
@[simp] theorem flow_carried (s : Engine) (w : Nat) : s.flow.carried w = (s.ingress w).carried :=
  rfl
@[simp] theorem flow_tasks (s : Engine) (i : Serial) : s.flow.tasks i = (s.hsm i).task := rfl
@[simp] theorem flow_handling (s : Engine) (w : Nat) :
    s.flow.handling w = (s.repliers w).handling := rfl

theorem flow_log (s : Engine) (e : Event) :
    (s.log e).flow = { s.flow with trace := s.flow.trace ++ [e] } := rfl

theorem flow_respond (s : Engine) (responder : Option Responder) (source : Source)
    (reply : UniversalPaymentEvent) :
    (s.respond responder source reply).flow =
      { s.flow with trace := s.flow.trace ++ answers responder source reply } := by
  cases responder with
  | none => simp [respond, answers, flow]
  | some r => rfl

theorem flow_setGuard (s : Engine) (key : String) (entry : ActiveTransaction) :
    (s.setGuard key entry).flow = { s.flow with guard := s.flow.guard.put key entry } := rfl

theorem flow_setIngress (s : Engine) (w : Nat) (pc : IngressPc) :
    (s.setIngress w pc).flow =
      { s.flow with
        fronted := update s.flow.fronted w pc.fronted
        carried := update s.flow.carried w pc.carried } := by
  simp [setIngress, flow, comp_update]

theorem flow_setHsm (s : Engine) (i : Serial) (pc : HsmPc) :
    (s.setHsm i pc).flow = { s.flow with tasks := update s.flow.tasks i pc.task } := by
  simp [setHsm, flow, comp_update]

theorem flow_setReaper (s : Engine) (pc : ReaperPc) :
    (s.setReaper pc).flow = { s.flow with reclaim := pc.reclaim } := rfl

theorem flow_setReply (s : Engine) (w : Nat) (pc : ReplyPc) :
    (s.setReply w pc).flow =
      { s.flow with handling := update s.flow.handling w pc.handling } := by
  simp [setReply, flow, comp_update]

/-- A worker that moves on without its context or its responder. -/
theorem flow_setIngress_same {s : Engine} {w : Nat} {pc : IngressPc}
    (hf : pc.fronted = (s.ingress w).fronted) (hc : pc.carried = (s.ingress w).carried) :
    (s.setIngress w pc).flow = s.flow := by
  rw [flow_setIngress, hf, hc, ← flow_fronted, ← flow_carried, update_eq_self, update_eq_self]

theorem flow_setIngress_front {s : Engine} {w : Nat} {pc : IngressPc}
    (hc : pc.carried = (s.ingress w).carried) :
    (s.setIngress w pc).flow =
      { s.flow with fronted := update s.flow.fronted w pc.fronted } := by
  rw [flow_setIngress, hc, ← flow_carried, update_eq_self]

theorem flow_setIngress_carry {s : Engine} {w : Nat} {pc : IngressPc}
    (hf : pc.fronted = (s.ingress w).fronted) :
    (s.setIngress w pc).flow =
      { s.flow with carried := update s.flow.carried w pc.carried } := by
  rw [flow_setIngress, hf, ← flow_fronted, update_eq_self]

theorem flow_setHsm_same {s : Engine} {i : Serial} {pc : HsmPc} (h : pc.task = (s.hsm i).task) :
    (s.setHsm i pc).flow = s.flow := by
  rw [flow_setHsm, h, ← flow_tasks, update_eq_self]

/-- An eviction is a move, or there is nothing under the key. -/
theorem evict_flow (s : Engine) (key : String) :
    (s.evict key).flow = s.flow ∨ Move s.flow (s.evict key).flow := by
  unfold evict
  split
  next entry h => exact .inr (.custody (.evict h))
  next => exact .inl rfl

/-! ## The ingress worker in front of the guard -/

section Front

variable {s : Engine} {w : Nat} {ctx : TransactionContext} {pc : IngressPc}

/-- A worker that goes on with its context. -/
theorem front_flow {ctx' : TransactionContext} {pc' : IngressPc} (hpc : s.ingress w = pc)
    (hheld : pc.held = some ctx) (hheld' : pc'.held = some ctx')
    (hctx : ctx'.responder = ctx.responder) : (s.setIngress w pc').flow = s.flow := by
  refine flow_setIngress_same ?_ ?_
  · rw [hpc, IngressPc.fronted_of_held hheld, IngressPc.fronted_of_held hheld', hctx]
  · rw [hpc, IngressPc.carried_of_held hheld, IngressPc.carried_of_held hheld']

theorem answer_move {source : Source} (hpc : s.ingress w = pc) (hheld : pc.held = some ctx)
    (hsource : source.front = true) (reply : UniversalPaymentEvent) :
    Move s.flow ((s.respond ctx.responder source reply).setIngress w .idle).flow := by
  have hmove := Custody.answerFront (v := s.flow) (w := w) reply hsource
  rw [flow_fronted, hpc, IngressPc.fronted_of_held hheld] at hmove
  have hcarried : (s.ingress w).carried = none := by rw [hpc, IngressPc.carried_of_held hheld]
  rw [flow_setIngress_front (by rw [respond_ingress, hcarried]; rfl), flow_respond]
  exact .custody hmove

theorem panic_move (hpc : s.ingress w = pc) (hheld : pc.held = some ctx) :
    Move s.flow (s.setIngress w .panicked).flow := by
  rw [flow_setIngress_front (by rw [hpc, IngressPc.carried_of_held hheld]; rfl)]
  exact .custody (.dropFront w)

theorem receive_move (hpc : s.ingress w = .idle) (tx : UniversalPaymentEvent) (answerable : Bool) :
    Move s.flow (s.receive w tx answerable).flow := by
  have hf : s.flow.fronted w = none := by rw [flow_fronted, hpc]; rfl
  rw [receive, flow_setIngress_front (by rw [log, hpc]; rfl)]
  exact .custody (.receive tx answerable hf)

theorem insert_move {entry : ActiveTransaction} (hpc : s.ingress w = .screened ctx)
    (hget : s.guard.get ctx.transaction.guardKey = none)
    (hentry : entry =
      { createdAt := s.now
        state := .upstreamSent
        responder := ctx.responder
        transactionData := toPb ctx.transaction
        egressStan := none
        serial := s.trace.length }) :
    Move s.flow (((s.setGuard ctx.transaction.guardKey entry).log
      (.inserted ctx.transaction.guardKey ctx.transaction ctx.responder)).setIngress w
        (.carrying s.trace.length ctx.transaction.guardKey { ctx with responder := none }
          .inserted)).flow := by
  subst hentry
  have hc : s.flow.carried w = none := by rw [flow_carried, hpc]; rfl
  have hf : s.flow.fronted w = ctx.responder := by rw [flow_fronted, hpc]; rfl
  have hmove := Custody.insert (v := s.flow) (w := w) ctx.transaction s.now hget hc
  rw [hf] at hmove
  rw [flow_setIngress]
  exact .custody hmove

/-- A reversal marks the entry and goes on. -/
theorem mark_move {origStan key : String} {scan scan' : Scan} {marked marked' : List Serial}
    {entry : ActiveTransaction} (hpc : s.ingress w = .scanning ctx origStan scan marked)
    (hget : s.guard.get key = some entry) (tx : UniversalPaymentEvent) :
    Move s.flow ((((s.setGuard key { entry with state := .reversedPending }).log
      (.marked entry.serial)).log (.posted tx)).setIngress w
        (.scanning ctx origStan scan' marked')).flow := by
  have hmove : Custody s.flow _ := .touch hget (.mark tx)
  rw [flow_setIngress_same (by simp [log, setGuard, hpc, IngressPc.fronted])
    (by simp [log, setGuard, hpc, IngressPc.carried]), flow_log, flow_log, flow_setGuard]
  simpa using Move.custody hmove

end Front

/-! ## The ingress worker behind the guard -/

section Behind

variable {s : Engine} {w : Nat} {i : Serial} {key : String} {ctx : TransactionContext}

/-- A worker that drops its context, with the events of its last section. -/
theorem dismiss_move {l : List Event} (hf : (s.ingress w).fronted = none)
    (neutral : ∀ e ∈ l, e.neutral = true) {t : Engine}
    (ht : t.flow = { s.flow with trace := s.flow.trace ++ l }) (hi : t.ingress = s.ingress)
    {pc : IngressPc} (hpc : pc.fronted = none) (hcarried : pc.carried = none) :
    Move s.flow (t.setIngress w pc).flow := by
  rw [flow_setIngress_carry (by rw [hi, hf, hpc]), ht, hcarried]
  exact .traffic (.dismiss w l neutral)

/-- A worker that keeps its context, with the events of its last section. -/
theorem note_move {l : List Event} (neutral : ∀ e ∈ l, e.neutral = true) {t : Engine}
    (ht : t.flow = { s.flow with trace := s.flow.trace ++ l }) : Move s.flow t.flow := by
  rw [ht]
  exact .traffic (.note l neutral)

theorem carried_recorded {destination : RouteDestination} {channel : ChannelId}
    (hpc : s.ingress w = .carrying i key ctx (.recorded destination channel)) :
    s.flow.carried w = some ⟨i, key, ctx.transaction, some ctx.transaction.stan⟩ := by
  rw [flow_carried, hpc]
  rfl

/-- A step of a worker with a context that the guard has accepted.  Its answers reach nobody,
since the context has no responder. -/
theorem CarryTurn.flow {stage : Stage} {input : Input} {pc : IngressPc} {u : Engine}
    (hturn : s.CarryTurn i key ctx input stage pc u)
    (hpc : s.ingress w = .carrying i key ctx stage) (hctx : ctx.responder = none) :
    (u.setIngress w pc).flow = s.flow ∨ Move s.flow (u.setIngress w pc).flow := by
  have hf : (s.ingress w).fronted = none := by rw [hpc]; rfl
  cases hturn with
  | spawn =>
      have hc : s.flow.carried w = some ⟨i, key, ctx.transaction, none⟩ := by
        rw [flow_carried, hpc]; rfl
      rw [flow_setIngress_carry (by rw [setHsm, hf]; rfl), flow_setHsm]
      exact .inr (.traffic (.dispatch hc rfl))
  | lose | unjournaled | noRoute =>
      exact .inr (dismiss_move (l := []) hf (by simp) (by rw [List.append_nil]) rfl rfl rfl)
  | journal =>
      refine .inr (note_move (l := [.appended (toPb ctx.transaction)]) (by simp [Event.neutral]) ?_)
      rw [flow_setIngress_same (by rw [log, hpc]; rfl) (by rw [log, hpc]; rfl), flow_log]
  | route | declineNobody | recordNowhere =>
      exact .inl (flow_setIngress_same (by rw [hpc]; rfl) (by rw [hpc]; rfl))
  | number =>
      have hc : s.flow.carried w = some ⟨i, key, ctx.transaction, none⟩ := by
        rw [flow_carried, hpc]; rfl
      rw [flow_setIngress_carry (by rw [log, hpc]; rfl)]
      exact .inr (.traffic (.number s.mem.nextEgressStan hc rfl))
  | decline hget =>
      rw [flow_setIngress_same (by rw [setGuard, respond_ingress, hpc]; rfl)
        (by rw [setGuard, respond_ingress, hpc]; rfl), flow_setGuard, flow_respond]
      exact .inr (.custody (.touch hget (.close _)))
  | record hget =>
      have hc : s.flow.carried w = some ⟨i, key, ctx.transaction, some ctx.transaction.stan⟩ := by
        rw [flow_carried, hpc]; rfl
      have hmove : Custody s.flow _ := .touch hget (.record hc rfl rfl)
      rw [List.append_nil] at hmove
      rw [flow_setIngress_same (by rw [setGuard, hpc]; rfl) (by rw [setGuard, hpc]; rfl),
        flow_setGuard]
      exact .inr (.custody hmove)
  | @send destination channel =>
      rw [flow_setIngress_carry (by rw [log, log, hpc]; rfl), flow_log, flow_log]
      simp only [List.append_assoc, List.cons_append, List.nil_append]
      exact .inr (.traffic (.place destination channel (carried_recorded hpc) rfl))
  | fail =>
      exact .inr (dismiss_move (l := [.posted ctx.transaction]) hf (by simp [Event.neutral])
        (flow_log s _) rfl rfl rfl)
  | @fallback ok found =>
      refine .inl ?_
      rcases stipDecision_cases found ctx with ⟨profile, -, heq⟩ | ⟨rc, -, heq⟩
      all_goals
        rw [heq]
        exact flow_setIngress_same (by rw [hpc]; rfl) (by rw [hpc]; rfl)
  | debit =>
      refine .inl ?_
      rw [flow_setIngress_same (by rw [hpc]; rfl) (by rw [hpc]; rfl)]
      rfl
  | decide =>
      rw [hctx]
      refine .inr (dismiss_move (l := [.decided i ctx.transaction.responseCode,
        .appended (toPb ctx.transaction)]) hf (by simp [Event.neutral]) ?_ ?_ rfl rfl)
      · simp [respond, flow_log]
      · rfl
  | undecided =>
      exact .inr (dismiss_move (l := [.decided i ctx.transaction.responseCode]) hf
        (by simp [Event.neutral]) (flow_log s _) rfl rfl rfl)

theorem ingressStep_flow {t : Engine} {input : Input} (hown : s.Disowned)
    (h : s.ingressStep w input = some t) : t.flow = s.flow ∨ Move s.flow t.flow := by
  obtain ⟨pc', u, hturn, rfl⟩ := ingressStep_turn h
  have hw := hown.ingress w
  generalize hpc : s.ingress w = pc at hturn hw
  cases hturn with
  | receive tx answerable => exact .inr (receive_move hpc tx answerable)
  | binPanic | dpanPanic | dataPanic => exact .inr (panic_move hpc rfl)
  | answer reply hheld hfront => exact .inr (answer_move hpc hheld hfront reply)
  | clear | plain | detokenize | screen | reverse | pass | skip =>
      exact .inl (front_flow hpc rfl rfl rfl)
  | mark hget => exact .inr (mark_move hpc hget _)
  | accept _ _ hget => exact .inr (insert_move hpc hget rfl)
  | carry hturn => exact hturn.flow hpc hw
  | @evict key =>
      rw [flow_setIngress_same (by rw [evict_ingress, hpc]; rfl) (by rw [evict_ingress, hpc]; rfl)]
      exact evict_flow s key

end Behind

/-! ## The HSM task -/

section Task

variable {s : Engine} {i : Serial} {ctx : TransactionContext}

theorem afterMac_task (ctx : TransactionContext) (route : HsmRoute) (macValid : Bool) :
    (afterMac ctx route macValid).task = some ctx.transaction ∨
      (afterMac ctx route macValid).task = none := by
  unfold afterMac
  dsimp only
  split
  · split
    · exact .inl rfl
    · split
      · exact .inl rfl
      · exact .inr rfl
  · split
    · split <;> exact .inl rfl
    · exact .inr rfl

theorem hsmRoute_task (g : GlobalState) (ctx : TransactionContext) :
    (hsmRoute g ctx).task = some ctx.transaction ∨ (hsmRoute g ctx).task = none := by
  have hbefore (route : HsmRoute) :
      (beforeMac ctx route).task = some ctx.transaction ∨ (beforeMac ctx route).task = none := by
    unfold beforeMac
    split
    · exact .inl rfl
    · exact afterMac_task ctx route true
  unfold hsmRoute
  split
  · split
    · split
      · exact hbefore _
      · exact .inr rfl
    · exact hbefore _
  · exact .inr rfl

theorem afterVerifyPin_task (ctx : TransactionContext) (route : HsmRoute) (macValid : Bool)
    (result : Option Bool) :
    (afterVerifyPin ctx route macValid result).task = some ctx.transaction ∨
      (afterVerifyPin ctx route macValid result).task = none := by
  unfold afterVerifyPin
  split
  · split
    · exact .inr rfl
    · exact .inl rfl
  · exact .inr rfl

/-- A task that drops its context, with the events of its last section. -/
theorem dropTask_move {l : List Event} (neutral : ∀ e ∈ l, e.neutral = true) {t : Engine}
    (ht : t.flow = { s.flow with trace := s.flow.trace ++ l }) {pc : HsmPc} (hpc : pc.task = none) :
    Move s.flow (t.setHsm i pc).flow := by
  rw [flow_setHsm, ht, hpc]
  exact .traffic (.dropTask i l neutral)

/-- A task that goes on with its context or drops it. -/
theorem setHsm_flow {pc₀ pc : HsmPc} (hpc : s.hsm i = pc₀) (htask : pc₀.task = some ctx.transaction)
    (h : pc.task = some ctx.transaction ∨ pc.task = none) :
    (s.setHsm i pc).flow = s.flow ∨ Move s.flow (s.setHsm i pc).flow := by
  rcases h with h | h
  · exact .inl (flow_setHsm_same (by rw [h, hpc, htask]))
  · exact .inr (dropTask_move (l := []) (by simp) (by rw [List.append_nil]) h)

theorem translatePin_flow {route : HsmRoute} {macValid : Bool}
    (hpc : s.hsm i = .awaitingPin ctx route macValid) (result : Option String) :
    (s.setHsm i (afterTranslatePin ctx route result)).flow = s.flow ∨
      Move s.flow (s.setHsm i (afterTranslatePin ctx route result)).flow := by
  have htask : s.flow.tasks i = some ctx.transaction := by rw [flow_tasks, hpc]; rfl
  cases result with
  | none => exact setHsm_flow hpc rfl (.inr rfl)
  | some pin =>
      rw [flow_setHsm]
      exact .inr (.traffic (.translatePin (asBytes pin) htask))

/-- A step of a task.  Its decline reaches nobody, since the context has no responder. -/
theorem hsmStep_flow {t : Engine} {input : Input} (hown : s.Disowned)
    (h : s.hsmStep i input = some t) : t.flow = s.flow ∨ Move s.flow t.flow := by
  obtain ⟨pc', u, hturn, rfl⟩ := hsmStep_turn h
  have hi := hown.hsm i
  generalize hpc : s.hsm i = pc at hturn hi
  cases hturn with
  | @route ctx => exact setHsm_flow hpc rfl (hsmRoute_task s.mem ctx)
  | @verifyMac ctx route => exact setHsm_flow hpc rfl (afterMac_task ctx route _)
  | @verifyPin ctx => exact setHsm_flow hpc rfl (afterVerifyPin_task ctx _ _ _)
  | translatePin result => exact translatePin_flow hpc result
  | @resolve ctx route =>
      refine setHsm_flow hpc rfl ?_
      cases targetCh s.mem route with
      | none => exact .inr rfl
      | some target => exact .inl rfl
  | @decline ctx =>
      rw [show ctx.responder = none from hi]
      exact .inr (dropTask_move (l := [.decided i "55"]) (by simp [Event.neutral]) (flow_log s _)
        rfl)
  | @journal ctx =>
      refine .inr (note_move (l := [.appended (toPb ctx.transaction)]) (by simp [Event.neutral]) ?_)
      rw [flow_setHsm_same (by rw [log, hpc]; rfl), flow_log]
  | @drop ctx =>
      exact .inr (dropTask_move (l := [.appended (toPb ctx.transaction)]) (by simp [Event.neutral])
        (flow_log s _) rfl)
  | @send ctx destination channel =>
      have htask : s.flow.tasks i = some ctx.transaction := by rw [flow_tasks, hpc]; rfl
      rw [flow_setHsm, flow_log]
      exact .inr (.traffic (.placeTask destination channel htask))
  | unjournaled | fail =>
      exact .inr (dropTask_move (l := []) (by simp) (by rw [List.append_nil]) rfl)

end Task

/-! ## The reaper -/

section Reaper

variable {s : Engine}

theorem flow_sendReversal (s : Engine) (i : Serial) (reversal : UniversalPaymentEvent) (ok : Bool) :
    ∃ sent, (s.sendReversal i reversal ok).flow =
      { s.flow with trace := s.flow.trace ++ reversals i sent reversal } := by
  have hnone : s.flow = { s.flow with trace := s.flow.trace ++ reversals i none reversal } := by
    rw [reversals, List.append_nil]
  unfold sendReversal
  split
  next destination channel _ =>
    split
    · exact ⟨some (destination, channel), rfl⟩
    · exact ⟨none, hnone⟩
  next => exact ⟨none, hnone⟩

/-- What a timeout does to the flow, up to the egress STAN that it leaves to be
collected. -/
theorem timeOut_flow (s : Engine) (key : String) (entry : ActiveTransaction) (ok : Bool) :
    ∃ sent, (s.timeOut key entry ok).flow =
      { s.flow with
        guard := s.flow.guard.put key
          { entry with state := .reversed, egressStan := none, responder := none }
        trace := s.flow.trace ++
          (answers entry.responder (.reaper entry.serial) (timeoutReply entry) ++
            .timedOut entry.serial (autoReversal entry) ::
              reversals entry.serial sent (autoReversal entry)) } := by
  unfold timeOut
  obtain ⟨sent, hsent⟩ := flow_sendReversal
    (((s.setGuard key
        { entry with state := .reversed, egressStan := none, responder := none }).respond
      entry.responder (.reaper entry.serial) (timeoutReply entry)).log
      (.timedOut entry.serial (autoReversal entry))) entry.serial (autoReversal entry) ok
  refine ⟨sent, ?_⟩
  dsimp only
  rw [hsent, flow_log, flow_respond, flow_setGuard]
  simp only [List.append_assoc, List.cons_append, List.nil_append]

/-- A reaper that moves on without a NAT entry to collect. -/
theorem flow_setReaper_same {t : Engine} {pc : ReaperPc} (hr : t.reaper.reclaim = none)
    (hpc : pc.reclaim = none) : (t.setReaper pc).flow = t.flow := by
  rw [flow_setReaper, hpc, ← hr, ← flow_reclaim]

/-- The section is a timeout, which leaves the egress STAN to be collected, or
does nothing. -/
theorem reverseSection_flow (hreclaim : s.reaper.reclaim = none) (key : String) (ok : Bool)
    (toReverse : List String) :
    let t := (s.reverseSection key ok).1.setReaper
      (.reclaiming key (s.reverseSection key ok).2.1 (s.reverseSection key ok).2.2 toReverse)
    t.flow = s.flow ∨ Move s.flow t.flow := by
  have hnothing {didReverse : Bool} :
      (s.setReaper (.reclaiming key none didReverse toReverse)).flow = s.flow :=
    flow_setReaper_same hreclaim rfl
  dsimp only
  unfold reverseSection
  split
  next entry hget =>
    split
    next hstate =>
      right
      obtain ⟨sent, hsent⟩ := timeOut_flow s key entry ok
      rw [flow_setReaper, hsent]
      exact .custody (.touch hget (.timeOut sent hstate hreclaim))
    next => exact .inl hnothing
  next => exact .inl hnothing

theorem collectNat_flow {key : String} {egressStan : Option String} {didReverse : Bool}
    {toReverse : List String}
    (hpc : s.reaper = .reclaiming key egressStan didReverse toReverse) :
    ((s.collectNat egressStan).setReaper (.evicting key didReverse toReverse)).flow = s.flow ∨
      Move s.flow ((s.collectNat egressStan).setReaper (.evicting key didReverse toReverse)).flow := by
  have hreclaim : s.flow.reclaim = egressStan := by rw [flow_reclaim, hpc]; rfl
  cases egressStan with
  | none => exact .inl (flow_setReaper_same hreclaim rfl)
  | some e => exact .inr (.traffic (.collect hreclaim))

theorem reaperStep_flow {t : Engine} {input : Input} (h : s.reaperStep input = some t) :
    t.flow = s.flow ∨ Move s.flow t.flow := by
  obtain ⟨pc', u, hturn, rfl⟩ := reaperStep_turn h
  generalize hpc : s.reaper = pc at hturn
  cases hturn with
  | walk _ hreclaim hreclaim' =>
      exact .inl (flow_setReaper_same (by rw [hpc, hreclaim]) hreclaim')
  | @reverse key ok rest => exact reverseSection_flow (by rw [hpc]; rfl) key ok rest
  | collect => exact collectNat_flow hpc
  | @evict key _ _ _ hreclaim hreclaim' =>
      rw [flow_setReaper_same (by rw [evict_reaper, hpc, hreclaim]) hreclaim']
      exact evict_flow s key

end Reaper

/-! ## The reply workers -/

section Reply

variable {s t : Engine} {w : Nat} {input : Input}

theorem replyStep_flow (h : s.replyStep w input = some t) :
    t.flow = s.flow ∨ Move s.flow t.flow := by
  have hturn := replyStep_turn h
  generalize hpc : s.repliers w = pc at hturn
  have hhandling : s.flow.handling w = pc.handling := by rw [flow_handling, hpc]
  cases hturn with
  | translate hreplies =>
      rw [natInbound, flow_setReply]
      exact .inr (.traffic (.translate hreplies hhandling))
  | late hget hstate =>
      rw [flow_setReply, flow_log]
      refine .inr (.traffic (.discard hhandling fun entry' hget' => ?_))
      rw [flow_guard, hget, Option.some.injEq] at hget'
      exact hget' ▸ hstate
  | unknown hnone =>
      rw [flow_setReply, flow_log]
      refine .inr (.traffic (.discard hhandling fun entry' hget' => ?_))
      rw [flow_guard, hnone] at hget'
      cases hget'
  | complete hget hstate =>
      rw [flow_setReply, flow_respond, flow_log, flow_setGuard, flow_log]
      simp only [List.append_assoc, List.cons_append, List.nil_append]
      exact .inr (.custody (.touch hget (.complete hhandling hstate)))
  | completeUnjournaled hget hstate =>
      rw [flow_setReply, flow_setGuard, flow_log]
      exact .inr (.custody (.touch hget (.completeUnjournaled hhandling hstate)))
  | @evict key =>
      rw [flow_setReply, ← show (s.evict key).flow.handling w = ReplyPc.handling .idle by
        rw [flow_handling, evict_repliers, hpc]; rfl, update_eq_self]
      exact evict_flow s key

end Reply

/-! ## Refinement -/

theorem probe_flow (s : Engine) (node : String) (channel : ChannelId) (secs : Nat) (ok : Bool) :
    (s.probe node channel secs ok).flow = s.flow ∨
      Move s.flow (s.probe node channel secs ok).flow := by
  unfold probe
  dsimp only
  split
  · exact .inr (.traffic (.probe (.externalNode node) channel (probeEvent secs)))
  · exact .inl rfl

/-- Every step of the engine is a move of the flow, or leaves it as it is. -/
theorem step_flow {s t : Engine} {a : Action} (hown : s.Disowned) (h : s.step a = some t) :
    t.flow = s.flow ∨ Move s.flow t.flow := by
  cases a with
  | ingress w input => exact ingressStep_flow hown h
  | hsm i input => exact hsmStep_flow hown h
  | reaper input => exact reaperStep_flow h
  | reply w input => exact replyStep_flow h
  | bank packet => cases h; exact .inr (.traffic (.reply packet))
  | probe node secs ok =>
      obtain ⟨channel, -, rfl⟩ := Option.map_eq_some_iff.mp h
      exact probe_flow s node channel secs ok
  | tick ms => cases h; exact .inl rfl
  | storeStip stip => cases h; exact .inl rfl
  | storeCrdb crdb => cases h; exact .inl rfl
  | storeRouter router => cases h; exact .inl rfl
  | pollSanctions cache => cases h; exact .inl rfl

/-- The history of the engine only grows. -/
theorem step_trace_append {s t : Engine} {a : Action} (hown : s.Disowned) (h : s.step a = some t) :
    ∃ l, t.trace = s.trace ++ l := by
  rcases step_flow hown h with heq | hmove
  · exact ⟨[], (congrArg Flow.trace heq).trans (List.append_nil _).symm⟩
  · exact hmove.trace_append

theorem Initial.flow {s : Engine} (h : s.Initial) : s.flow.Initial where
  guard := h.guard
  nat := h.stanNat
  trace := h.trace
  fronted w := by rw [flow_fronted, h.ingress]; rfl
  carried w := by rw [flow_carried, h.ingress]; rfl
  tasks i := by rw [flow_tasks, h.hsm]; rfl
  reclaim := by rw [flow_reclaim, h.reaper]; rfl
  inbox := h.bankReply
  handling w := by rw [flow_handling, h.repliers]; rfl

/-- A discipline of the flow as one of the engine. -/
def Upholds (Q : Flow.Discipline) (s : Engine) (a : Action) : Prop :=
  ∀ t, s.step a = some t → ∀ e ∈ newEvents s t, Q s.flow e

/-- The flow of a reachable engine is a reachable flow. -/
theorem Reachable.flow {P : Engine → Action → Prop} {Q : Flow.Discipline}
    (hPQ : ∀ s a, P s a → Upholds Q s a) {s : Engine} (h : Reachable P s) :
    Flow.Reachable Q s.flow := by
  refine h.simulate (fun _ => Initial.flow) fun s t hs ⟨a, hp, hstep⟩ => ?_
  rcases step_flow (Reachable.disowned hs) hstep with heq | hmove
  · exact .inl heq
  · exact .inr ⟨hmove, hPQ s a hp t hstep⟩

theorem Reachable.flow_free {P : Engine → Action → Prop} {s : Engine} (h : Reachable P s) :
    Flow.Reachable Flow.Free s.flow :=
  h.flow fun _ _ _ _ _ _ _ => trivial

end Engine

end Iso8583Switch
