import Iso8583Switch.Engine.Step

/-!
# Steps of the workers and the tasks in outline

What a step of an ingress worker or of an HSM task can do, said once: where the thread was,
where it goes, and the state in between, in which all but its position is as the step leaves
it.  What later modules say of a step is a case analysis of its turn.
-/

namespace Iso8583Switch

open Text

/-- The context of a worker in front of the guard. -/
def IngressPc.held : IngressPc → Option TransactionContext
  | .received ctx | .cleared ctx | .detokenized ctx | .screened ctx | .scanning ctx _ _ _ => some ctx
  | .idle | .panicked | .carrying _ _ _ _ | .evicting _ => none

/-- The answers that are given before a context is behind the guard. -/
def Source.front : Source → Bool
  | .compliance | .detokenizer | .riskScreen | .echo | .duplicate | .reversal _ => true
  | .unrouted _ | .decision _ | .reaper _ | .bank _ _ => false

namespace Engine

/-! ## Behind the guard -/

/-- A step of a worker with a context that the guard has accepted. -/
inductive CarryTurn (s : Engine) (i : Serial) (key : String) (ctx : TransactionContext) :
    Input → Stage → IngressPc → Engine → Prop where
  | spawn : ctx.needsHsm = true →
      CarryTurn s i key ctx (.outcome true) .inserted .idle (s.setHsm i (.spawned ctx))
  | lose : ctx.needsHsm = true → CarryTurn s i key ctx (.outcome false) .inserted .idle s
  | journal : ctx.needsHsm = false →
      CarryTurn s i key ctx (.outcome true) .inserted (.carrying i key ctx .journaled)
        (s.log (.appended (toPb ctx.transaction)))
  | unjournaled : ctx.needsHsm = false → CarryTurn s i key ctx (.outcome false) .inserted .idle s
  | route {destination : RouteDestination} {channel : ChannelId} :
      s.mem.targetEgress ctx.transaction = some (destination, channel) →
      CarryTurn s i key ctx .run .journaled (.carrying i key ctx (.routed destination channel)) s
  | noRoute : s.mem.targetEgress ctx.transaction = none →
      CarryTurn s i key ctx .run .journaled (.carrying i key ctx .unrouted) s
  | number {destination : RouteDestination} {channel : ChannelId} :
      CarryTurn s i key ctx .run (.routed destination channel)
        (.carrying i key
          { ctx with transaction := { ctx.transaction with stan := s.mem.nextEgressStan } }
          (.numbered destination channel))
        ({ s with
          mem :=
            { s.mem with
              stanCounter := s.mem.stanCounter + 1
              stanNat := s.mem.stanNat.put s.mem.nextEgressStan ctx.transaction.stan } }.log
          (.numbered i s.mem.nextEgressStan))
  | decline {entry : ActiveTransaction} : s.guard.get key = some entry →
      CarryTurn s i key ctx .run .unrouted (.evicting key)
        ((s.respond entry.responder (.unrouted entry.serial)
          (ctx.transaction.answer "0110" "05")).setGuard key
            { entry with responder := none, state := .completed })
  | declineNobody : s.guard.get key = none →
      CarryTurn s i key ctx .run .unrouted (.evicting key) s
  | record {destination : RouteDestination} {channel : ChannelId} {entry : ActiveTransaction} :
      s.guard.get key = some entry →
      CarryTurn s i key ctx .run (.numbered destination channel)
        (.carrying i key ctx (.recorded destination channel))
        (s.setGuard key { entry with egressStan := some ctx.transaction.stan })
  | recordNowhere {destination : RouteDestination} {channel : ChannelId} :
      s.guard.get key = none →
      CarryTurn s i key ctx .run (.numbered destination channel)
        (.carrying i key ctx (.recorded destination channel)) s
  | send {destination : RouteDestination} {channel : ChannelId} :
      CarryTurn s i key ctx (.outcome true) (.recorded destination channel) .idle
        ((s.log (.posted ctx.transaction)).log
          (.placed ⟨.ingress i, destination, channel, ctx.transaction⟩))
  | fail {destination : RouteDestination} {channel : ChannelId} :
      CarryTurn s i key ctx (.outcome false) (.recorded destination channel)
        (.carrying i key ctx .failed) (s.log (.posted ctx.transaction))
  | fallback {ok : Bool} {found : Option (Option CardProfile)} :
      found = (if ok then s.stipDb.get ctx.transaction.fpan else none) →
      CarryTurn s i key ctx (.outcome ok) .failed
        (.carrying i key (stipDecision found ctx).2 (stipDecision found ctx).1) s
  | debit (profile : CardProfile) :
      CarryTurn s i key ctx .run (.debiting profile)
        (.carrying i key
          { ctx with
            transaction := { ctx.transaction.answer "0110" "00" with processingCode := "STIP12" } }
          .decided)
        { s with stipDb := s.stipDb.put ctx.transaction.fpan (some profile) }
  | decide :
      CarryTurn s i key ctx (.outcome true) .decided .idle
        (((s.log (.decided i ctx.transaction.responseCode)).log
          (.appended (toPb ctx.transaction))).respond ctx.responder (.decision i) ctx.transaction)
  | undecided :
      CarryTurn s i key ctx (.outcome false) .decided .idle
        (s.log (.decided i ctx.transaction.responseCode))

theorem carryStep_turn {s t : Engine} {w : Nat} {i : Serial} {key : String}
    {ctx : TransactionContext} {stage : Stage} {input : Input}
    (h : s.carryStep w i key ctx stage input = some t) :
    ∃ pc u, s.CarryTurn i key ctx input stage pc u ∧ t = u.setIngress w pc := by
  unfold carryStep at h
  split at h
  case h_1 ok =>
    split at h
    next hneeds =>
      cases h
      cases ok with
      | true => exact ⟨_, _, .spawn hneeds, rfl⟩
      | false => exact ⟨_, _, .lose hneeds, rfl⟩
    next hneeds =>
      cases h
      rw [Bool.not_eq_true] at hneeds
      cases ok with
      | true => exact ⟨_, _, .journal hneeds, rfl⟩
      | false => exact ⟨_, _, .unjournaled hneeds, rfl⟩
  case h_2 =>
    cases h
    unfold routeRequest
    split
    next hroute => exact ⟨_, _, .route hroute, rfl⟩
    next hroute => exact ⟨_, _, .noRoute hroute, rfl⟩
  case h_3 => cases h; exact ⟨_, _, .number, rfl⟩
  case h_4 =>
    cases h
    unfold declineUnrouted
    split
    next hget => exact ⟨_, _, .decline hget, rfl⟩
    next hget => exact ⟨_, _, .declineNobody hget, rfl⟩
  case h_5 =>
    cases h
    unfold recordEgressStan
    dsimp only
    split
    next hget => exact ⟨_, _, .record hget, rfl⟩
    next hget => exact ⟨_, _, .recordNowhere hget, rfl⟩
  case h_6 ok =>
    cases h
    cases ok with
    | true => exact ⟨_, _, .send, rfl⟩
    | false => exact ⟨_, _, .fail, rfl⟩
  case h_7 => cases h; exact ⟨_, _, .fallback rfl, rfl⟩
  case h_8 profile => cases h; exact ⟨_, _, .debit profile, rfl⟩
  case h_9 ok =>
    cases h
    cases ok with
    | true => exact ⟨_, _, .decide, rfl⟩
    | false => exact ⟨_, _, .undecided, rfl⟩
  case h_10 => cases h

/-! ## The ingress worker -/

/-- The two slices of a masked PAN. -/
def cutsMask (dpan : String) : Bool :=
  (slice dpan 0 6).isSome && (slice dpan (len dpan - 4) (len dpan)).isSome

/-- A step of an ingress worker. -/
inductive IngressTurn (s : Engine) : Input → IngressPc → IngressPc → Engine → Prop where
  | receive (tx : UniversalPaymentEvent) (answerable : Bool) :
      IngressTurn s (.receive tx answerable) .idle
        (.received ⟨tx, if answerable then some s.trace.length else none⟩)
        (s.log (.received tx answerable))
  | answer {pc : IngressPc} {ctx : TransactionContext} {source : Source}
      (reply : UniversalPaymentEvent) : pc.held = some ctx → source.front = true →
      IngressTurn s .run pc .idle (s.respond ctx.responder source reply)
  | clear {ctx : TransactionContext} : s.compliance.evaluate ctx.transaction = some false →
      IngressTurn s .run (.received ctx) (.cleared ctx) s
  | binPanic {ctx : TransactionContext} : s.compliance.evaluate ctx.transaction = none →
      IngressTurn s .run (.received ctx) .panicked s
  | plain {ctx : TransactionContext} : ctx.transaction.isTokenized = false →
      IngressTurn s .run (.cleared ctx) (.detokenized ctx) s
  | detokenize {ctx : TransactionContext} {realFpan : String} :
      ctx.transaction.isTokenized = true →
      s.mem.tspVault.detokenize (fromUtf8Lossy ctx.transaction.fpan) = some realFpan →
      cutsMask (fromUtf8Lossy ctx.transaction.fpan) = true →
      IngressTurn s .run (.cleared ctx)
        (.detokenized
          { ctx with
            transaction :=
              { ctx.transaction with
                fpan := asBytes realFpan
                dpan := some (fromUtf8Lossy ctx.transaction.fpan) } }) s
  | dpanPanic {ctx : TransactionContext} {realFpan : String} :
      ctx.transaction.isTokenized = true →
      s.mem.tspVault.detokenize (fromUtf8Lossy ctx.transaction.fpan) = some realFpan →
      ¬ cutsMask (fromUtf8Lossy ctx.transaction.fpan) = true →
      IngressTurn s .run (.cleared ctx) .panicked s
  | screen {ctx : TransactionContext} :
      (ctx.transaction.riskScore = 0 ∨
        ctx.transaction.riskScore ≤ s.mem.riskThreshold ctx.transaction.fpan) →
      IngressTurn s .run (.detokenized ctx) (.screened ctx) s
  | reverse {ctx : TransactionContext} {odata origStan : String} :
      ¬ isForSwitch ctx.transaction = true → ctx.transaction.isReversal = true →
      ctx.transaction.originalDataElements = some odata → 20 ≤ len odata →
      slice odata 4 10 = some origStan →
      IngressTurn s .run (.screened ctx) (.scanning ctx origStan (.start s.guard.keys) []) s
  | dataPanic {ctx : TransactionContext} {odata : String} :
      ¬ isForSwitch ctx.transaction = true → ctx.transaction.isReversal = true →
      ctx.transaction.originalDataElements = some odata → 20 ≤ len odata →
      slice odata 4 10 = none → IngressTurn s .run (.screened ctx) .panicked s
  | mark {ctx : TransactionContext} {origStan key : String} {scan : Scan} {marked : List Serial}
      {entry : ActiveTransaction} :
      s.guard.get key = some entry → key ∉ scan.seen → entry.transactionData.stan = origStan →
      IngressTurn s (.visit key) (.scanning ctx origStan scan marked)
        (.scanning ctx origStan (scan.meet key) (marked ++ [entry.serial]))
        (((s.setGuard key { entry with state := .reversedPending }).log (.marked entry.serial)).log
          (.posted { ctx.transaction with rrn := entry.transactionData.rrn }))
  | pass {ctx : TransactionContext} {origStan key : String} {scan : Scan} {marked : List Serial}
      {entry : ActiveTransaction} :
      s.guard.get key = some entry → key ∉ scan.seen → entry.transactionData.stan ≠ origStan →
      IngressTurn s (.visit key) (.scanning ctx origStan scan marked)
        (.scanning ctx origStan (scan.meet key) marked) s
  | skip {ctx : TransactionContext} {origStan key : String} {scan : Scan} {marked : List Serial} :
      key ∈ scan.todo → (s.guard.get key).isNone = true →
      IngressTurn s (.skip key) (.scanning ctx origStan scan marked)
        (.scanning ctx origStan (scan.drop key) marked) s
  | accept {ctx : TransactionContext} :
      ¬ isForSwitch ctx.transaction = true → ctx.transaction.isReversal = false →
      s.guard.get ctx.transaction.guardKey = none →
      IngressTurn s .run (.screened ctx)
        (.carrying s.trace.length ctx.transaction.guardKey { ctx with responder := none } .inserted)
        ((s.setGuard ctx.transaction.guardKey
          { createdAt := s.now
            state := .upstreamSent
            responder := ctx.responder
            transactionData := toPb ctx.transaction
            egressStan := none
            serial := s.trace.length }).log
          (.inserted ctx.transaction.guardKey ctx.transaction ctx.responder))
  | carry {i : Serial} {key : String} {ctx : TransactionContext} {stage : Stage} {input : Input}
      {pc : IngressPc} {u : Engine} : s.CarryTurn i key ctx input stage pc u →
      IngressTurn s input (.carrying i key ctx stage) pc u
  | evict {key : String} : IngressTurn s .run (.evicting key) .idle (s.evict key)

section Front

variable {s t : Engine} {w : Nat} {ctx : TransactionContext} {input : Input}

theorem complianceInterceptor_turn (s : Engine) (w : Nat) (ctx : TransactionContext) :
    ∃ pc u, s.IngressTurn .run (.received ctx) pc u ∧
      s.complianceInterceptor w ctx = u.setIngress w pc := by
  unfold complianceInterceptor
  split
  next h => exact ⟨_, _, .binPanic h, rfl⟩
  next => exact ⟨_, _, .answer _ rfl rfl, rfl⟩
  next h => exact ⟨_, _, .clear h, rfl⟩

theorem tspDetokenizer_turn (s : Engine) (w : Nat) (ctx : TransactionContext) :
    ∃ pc u, s.IngressTurn .run (.cleared ctx) pc u ∧
      s.tspDetokenizer w ctx = u.setIngress w pc := by
  unfold tspDetokenizer
  split
  next htoken =>
    dsimp only
    split
    next hreal =>
      split
      next hcut => exact ⟨_, _, .detokenize htoken hreal hcut, rfl⟩
      next hcut => exact ⟨_, _, .dpanPanic htoken hreal hcut, rfl⟩
    next => exact ⟨_, _, .answer _ rfl rfl, rfl⟩
  next htoken => exact ⟨_, _, .plain (Bool.not_eq_true _ ▸ htoken), rfl⟩

theorem riskPreScreen_turn (s : Engine) (w : Nat) (ctx : TransactionContext) :
    ∃ pc u, s.IngressTurn .run (.detokenized ctx) pc u ∧
      s.riskPreScreen w ctx = u.setIngress w pc := by
  unfold riskPreScreen
  split
  next => exact ⟨_, _, .answer _ rfl rfl, rfl⟩
  next hrisk =>
    refine ⟨_, _, .screen ?_, rfl⟩
    rw [not_and_or, UInt8.not_lt, UInt8.not_lt] at hrisk
    exact hrisk.imp_left UInt8.le_zero_iff.mp

theorem guardEntry_turn (s : Engine) (w : Nat) (hswitch : ¬ isForSwitch ctx.transaction = true)
    (hreversal : ctx.transaction.isReversal = false) :
    ∃ pc u, s.IngressTurn .run (.screened ctx) pc u ∧ s.guardEntry w ctx = u.setIngress w pc := by
  unfold guardEntry
  dsimp only
  split
  next => exact ⟨_, _, .answer _ rfl rfl, rfl⟩
  next hget => exact ⟨_, _, .accept hswitch hreversal hget, rfl⟩

theorem dispatch_turn (s : Engine) (w : Nat) (ctx : TransactionContext) :
    ∃ pc u, s.IngressTurn .run (.screened ctx) pc u ∧ s.dispatch w ctx = u.setIngress w pc := by
  unfold dispatch
  split
  next => exact ⟨_, _, .answer _ rfl rfl, rfl⟩
  next hswitch =>
    split
    next hreversal =>
      split
      next hodata =>
        split
        next hlen =>
          split
          next hstan => exact ⟨_, _, .reverse hswitch hreversal hodata hlen hstan, rfl⟩
          next hstan => exact ⟨_, _, .dataPanic hswitch hreversal hodata hlen hstan, rfl⟩
        next => exact ⟨_, _, .answer _ rfl rfl, rfl⟩
      next => exact ⟨_, _, .answer _ rfl rfl, rfl⟩
    next hreversal => exact guardEntry_turn s w hswitch (Bool.not_eq_true _ ▸ hreversal)

theorem scanStep_turn {origStan : String} {scan : Scan} {marked : List Serial}
    (h : s.scanStep w ctx origStan scan marked input = some t) :
    ∃ pc u, s.IngressTurn input (.scanning ctx origStan scan marked) pc u ∧
      t = u.setIngress w pc := by
  unfold scanStep at h
  split at h
  case h_1 =>
    split at h
    next hget =>
      split at h
      next => cases h
      next hseen =>
        cases h
        unfold visitReversal
        split
        next hstan => exact ⟨_, _, .mark hget hseen hstan, rfl⟩
        next hstan => exact ⟨_, _, .pass hget hseen hstan, rfl⟩
    next => cases h
  case h_2 =>
    split at h
    next hgone =>
      cases h
      exact ⟨_, _, .skip hgone.1 hgone.2, rfl⟩
    next => cases h
  case h_3 => split at h <;> cases h; exact ⟨_, _, .answer _ rfl rfl, rfl⟩
  case h_4 => cases h

theorem ingressStep_turn (h : s.ingressStep w input = some t) :
    ∃ pc u, s.IngressTurn input (s.ingress w) pc u ∧ t = u.setIngress w pc := by
  unfold ingressStep at h
  split at h
  case h_1 tx answerable hpc => cases h; exact ⟨_, _, hpc ▸ .receive tx answerable, rfl⟩
  case h_2 ctx hpc => cases h; exact hpc ▸ complianceInterceptor_turn s w ctx
  case h_3 ctx hpc => cases h; exact hpc ▸ tspDetokenizer_turn s w ctx
  case h_4 ctx hpc => cases h; exact hpc ▸ riskPreScreen_turn s w ctx
  case h_5 ctx hpc => cases h; exact hpc ▸ dispatch_turn s w ctx
  case h_6 hpc => exact hpc ▸ scanStep_turn h
  case h_7 hpc =>
    obtain ⟨pc, u, hturn, ht⟩ := carryStep_turn h
    exact ⟨pc, u, hpc ▸ .carry hturn, ht⟩
  case h_8 hpc => cases h; exact ⟨_, _, hpc ▸ .evict, rfl⟩
  case h_9 => cases h

end Front

/-! ## The HSM task -/

/-- A step of the HSM task of an instance. -/
inductive TaskTurn (s : Engine) (i : Serial) : Input → HsmPc → HsmPc → Engine → Prop where
  | route {ctx : TransactionContext} : TaskTurn s i .run (.spawned ctx) (hsmRoute s.mem ctx) s
  | verifyMac {ctx : TransactionContext} {route : HsmRoute} (result : Option Bool) :
      TaskTurn s i (.verifiedMac result) (.awaitingMac ctx route)
        (afterVerifyMac ctx route result) s
  | verifyPin {ctx : TransactionContext} {pvv : String} {macValid : Bool} (result : Option Bool) :
      TaskTurn s i (.verifiedPin result) (.awaitingPin ctx (.internalCrdb pvv) macValid)
        (afterVerifyPin ctx (.internalCrdb pvv) macValid result) s
  | translatePin {ctx : TransactionContext} {node : String} {failover : Option String}
      {macValid : Bool} (result : Option String) :
      TaskTurn s i (.translatedPin result) (.awaitingPin ctx (.externalNode node failover) macValid)
        (afterTranslatePin ctx (.externalNode node failover) result) s
  | resolve {ctx : TransactionContext} {route : HsmRoute} :
      TaskTurn s i .run (.resolving ctx route) (.checked ctx true (targetCh s.mem route)) s
  | decline {ctx : TransactionContext} {target : Option (RouteDestination × ChannelId)} :
      TaskTurn s i .run (.checked ctx false target) .finished
        ((s.log (.decided i "55")).respond ctx.responder (.decision i)
          (ctx.transaction.answer "0110" "55"))
  | journal {ctx : TransactionContext} {destination : RouteDestination} {channel : ChannelId} :
      TaskTurn s i (.outcome true) (.checked ctx true (some (destination, channel)))
        (.sending ctx destination channel) (s.log (.appended (toPb ctx.transaction)))
  | drop {ctx : TransactionContext} :
      TaskTurn s i (.outcome true) (.checked ctx true none) .finished
        (s.log (.appended (toPb ctx.transaction)))
  | unjournaled {ctx : TransactionContext} {target : Option (RouteDestination × ChannelId)} :
      TaskTurn s i (.outcome false) (.checked ctx true target) .finished s
  | send {ctx : TransactionContext} {destination : RouteDestination} {channel : ChannelId} :
      TaskTurn s i (.outcome true) (.sending ctx destination channel) .finished
        (s.log (.placed ⟨.hsm i, destination, channel, ctx.transaction⟩))
  | fail {ctx : TransactionContext} {destination : RouteDestination} {channel : ChannelId} :
      TaskTurn s i (.outcome false) (.sending ctx destination channel) .finished s

theorem hsmStep_turn {s t : Engine} {i : Serial} {input : Input} (h : s.hsmStep i input = some t) :
    ∃ pc u, s.TaskTurn i input (s.hsm i) pc u ∧ t = u.setHsm i pc := by
  unfold hsmStep at h
  split at h
  case h_1 hpc => cases h; exact ⟨_, _, hpc ▸ .route, rfl⟩
  case h_2 result hpc => cases h; exact ⟨_, _, hpc ▸ .verifyMac result, rfl⟩
  case h_3 result hpc => cases h; exact ⟨_, _, hpc ▸ .verifyPin result, rfl⟩
  case h_4 result hpc => cases h; exact ⟨_, _, hpc ▸ .translatePin result, rfl⟩
  case h_5 hpc => cases h; exact ⟨_, _, hpc ▸ .resolve, rfl⟩
  case h_6 hpc => cases h; exact ⟨_, _, hpc ▸ .decline, rfl⟩
  case h_7 target ok hpc =>
    cases h
    cases ok with
    | false => exact ⟨_, _, hpc ▸ .unjournaled, rfl⟩
    | true =>
        cases target with
        | none => exact ⟨_, _, hpc ▸ .drop, rfl⟩
        | some target => exact ⟨_, _, hpc ▸ .journal, rfl⟩
  case h_8 ok hpc =>
    cases h
    cases ok with
    | false => exact ⟨_, _, hpc ▸ .fail, rfl⟩
    | true => exact ⟨_, _, hpc ▸ .send, rfl⟩
  case h_9 => cases h

end Engine

end Iso8583Switch
