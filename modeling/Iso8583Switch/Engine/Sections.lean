import Iso8583Switch.Engine.State

/-!
# The atomic sections of the threads

switch-core/src/engine.rs, one definition for each stretch of code between two
points at which another thread can run.  A section that reads the guard and then
writes through the same `RefMut` is one definition, since the shard stays locked.
-/

namespace Iso8583Switch

open Text

namespace Engine

/-! ## The ingress worker before the guard -/

/-- The next context of the ingress channel.  Its responder is new. -/
def receive (s : Engine) (w : Nat) (tx : UniversalPaymentEvent) (answerable : Bool) : Engine :=
  (s.log (.received tx answerable)).setIngress w
    (.received ⟨tx, if answerable then some s.trace.length else none⟩)

/-- A decline before the guard: the responder is still in the context. -/
def declineFront (s : Engine) (w : Nat) (ctx : TransactionContext) (source : Source)
    (reply : UniversalPaymentEvent) : Engine :=
  (s.respond ctx.responder source reply).setIngress w .idle

def complianceInterceptor (s : Engine) (w : Nat) (ctx : TransactionContext) : Engine :=
  match s.compliance.evaluate ctx.transaction with
  | none => s.setIngress w .panicked
  | some true => s.declineFront w ctx .compliance (ctx.transaction.answer "0110" "93")
  | some false => s.setIngress w (.cleared ctx)

def tspDetokenizer (s : Engine) (w : Nat) (ctx : TransactionContext) : Engine :=
  if ctx.transaction.isTokenized then
    let dpan := fromUtf8Lossy ctx.transaction.fpan
    match s.mem.tspVault.detokenize dpan with
    | some realFpan =>
        -- The masked PAN is for a log line only, but its two slices can panic.
        if (slice dpan 0 6).isSome && (slice dpan (len dpan - 4) (len dpan)).isSome then
          s.setIngress w (.detokenized
            { ctx with
              transaction := { ctx.transaction with fpan := asBytes realFpan, dpan := some dpan } })
        else s.setIngress w .panicked
    | none => s.declineFront w ctx .detokenizer (ctx.transaction.answer "0110" "56")
  else s.setIngress w (.detokenized ctx)

def riskPreScreen (s : Engine) (w : Nat) (ctx : TransactionContext) : Engine :=
  if 0 < ctx.transaction.riskScore ∧
      s.mem.riskThreshold ctx.transaction.fpan < ctx.transaction.riskScore then
    s.declineFront w ctx .riskScreen (ctx.transaction.answer "0110" "59")
  else s.setIngress w (.screened ctx)

/-- Echoes for the switch itself, as opposed to those for a network. -/
def isForSwitch (tx : UniversalPaymentEvent) : Bool :=
  tx.messageClass = .networkManagement &&
    !(asBytes "4").isPrefixOf tx.fpan && !(asBytes "5").isPrefixOf tx.fpan

def finishReversal (s : Engine) (w : Nat) (ctx : TransactionContext) (marked : List Serial) :
    Engine :=
  s.declineFront w ctx (.reversal marked) (ctx.transaction.answer "0430" "00")

/-- `idempotency_guard.entry(key)`.  The key was formatted from the context as
received, and no section before this one changes the parts it is made of. -/
def guardEntry (s : Engine) (w : Nat) (ctx : TransactionContext) : Engine :=
  let key := ctx.transaction.guardKey
  match s.guard.get key with
  | some _ => s.declineFront w ctx .duplicate (ctx.transaction.answer "0110" "94")
  | none =>
      let entry : ActiveTransaction :=
        { createdAt := s.now
          state := .upstreamSent
          responder := ctx.responder
          transactionData := toPb ctx.transaction
          egressStan := none
          serial := s.trace.length }
      ((s.setGuard key entry).log (.inserted key ctx.transaction ctx.responder)).setIngress w
        (.carrying s.trace.length key { ctx with responder := none } .inserted)

/-- The class match, the reversal test and, for everything else, the guard. -/
def dispatch (s : Engine) (w : Nat) (ctx : TransactionContext) : Engine :=
  if isForSwitch ctx.transaction then
    s.declineFront w ctx .echo
      { ctx.transaction.answer "0810" "00" with messageClass := .networkManagementResponse }
  else if ctx.transaction.isReversal then
    match ctx.transaction.originalDataElements with
    | some odata =>
        if 20 ≤ len odata then
          match slice odata 4 10 with
          | some origStan =>
              s.setIngress w (.scanning ctx origStan (.start s.guard.keys) [])
          | none => s.setIngress w .panicked
        else s.finishReversal w ctx []
    | none => s.finishReversal w ctx []
  else s.guardEntry w ctx

/-- One element of the `iter_mut` of a reversal. -/
def visitReversal (s : Engine) (w : Nat) (ctx : TransactionContext) (origStan : String)
    (scan : Scan) (marked : List Serial) (key : String) (entry : ActiveTransaction) : Engine :=
  if entry.transactionData.stan = origStan then
    let s := s.setGuard key { entry with state := .reversedPending }
    let s := s.log (.marked entry.serial)
    let s := s.log (.posted { ctx.transaction with rrn := entry.transactionData.rrn })
    s.setIngress w (.scanning ctx origStan (scan.meet key) (marked ++ [entry.serial]))
  else s.setIngress w (.scanning ctx origStan (scan.meet key) marked)

/-! ## The ingress worker behind the guard -/

/-- `hsm_tx.send(context)`.  A send to an HSM thread that is gone drops the
context. -/
def sendToHsm (s : Engine) (w : Nat) (i : Serial) (ctx : TransactionContext) (ok : Bool) : Engine :=
  if ok then (s.setHsm i (.spawned ctx)).setIngress w .idle else s.setIngress w .idle

def journalRequest (s : Engine) (w : Nat) (i : Serial) (key : String) (ctx : TransactionContext)
    (ok : Bool) : Engine :=
  if ok then
    (s.log (.appended (toPb ctx.transaction))).setIngress w (.carrying i key ctx .journaled)
  else s.setIngress w .idle

def routeRequest (s : Engine) (w : Nat) (i : Serial) (key : String) (ctx : TransactionContext) :
    Engine :=
  match s.mem.targetEgress ctx.transaction with
  | some (destination, channel) => s.setIngress w (.carrying i key ctx (.routed destination channel))
  | none => s.setIngress w (.carrying i key ctx .unrouted)

/-- Take the next egress STAN, note the ingress STAN under it, and put it in the
outgoing context. -/
def natOutbound (s : Engine) (w : Nat) (i : Serial) (key : String) (ctx : TransactionContext)
    (destination : RouteDestination) (channel : ChannelId) : Engine :=
  let egressStan := s.mem.nextEgressStan
  let mem :=
    { s.mem with
      stanCounter := s.mem.stanCounter + 1
      stanNat := s.mem.stanNat.put egressStan ctx.transaction.stan }
  ({ s with mem := mem }.log (.numbered i egressStan)).setIngress w
    (.carrying i key { ctx with transaction := { ctx.transaction with stan := egressStan } }
      (.numbered destination channel))

/-- Record the egress STAN in whatever entry is under the key by now. -/
def recordEgressStan (s : Engine) (w : Nat) (i : Serial) (key : String) (ctx : TransactionContext)
    (destination : RouteDestination) (channel : ChannelId) : Engine :=
  let egressStan := ctx.transaction.stan
  let s := match s.guard.get key with
    | some entry => s.setGuard key { entry with egressStan := some egressStan }
    | none => s
  s.setIngress w (.carrying i key ctx (.recorded destination channel))

/-- Post to the ledger, then `send_timeout`. -/
def sendEgress (s : Engine) (w : Nat) (i : Serial) (key : String) (ctx : TransactionContext)
    (destination : RouteDestination) (channel : ChannelId) (ok : Bool) : Engine :=
  let s := s.log (.posted ctx.transaction)
  if ok then
    (s.log (.placed ⟨.ingress i, destination, channel, ctx.transaction⟩)).setIngress w .idle
  else s.setIngress w (.carrying i key ctx .failed)

/-- The outcome of the STIP fallback on the profile that was read: a new stage,
and the context with its response. -/
def stipDecision (found : Option (Option CardProfile)) (ctx : TransactionContext) :
    Stage × TransactionContext :=
  let decline (rc : String) : Stage × TransactionContext :=
    (.decided, { ctx with transaction := ctx.transaction.answer "0110" rc })
  match found with
  | some (some profile) =>
      if profile.isBlocked then decline "41"
      else if ctx.transaction.amount.toInt64 ≤ profile.balance then
        (.debiting { profile with balance := profile.balance - ctx.transaction.amount.toInt64 }, ctx)
      else decline "51"
  | some none => decline "05"
  | none => decline "05"

/-- `stip_db.get`.  A read error counts as no profile. -/
def stipFallback (s : Engine) (w : Nat) (i : Serial) (key : String) (ctx : TransactionContext)
    (ok : Bool) : Engine :=
  let found := if ok then s.stipDb.get ctx.transaction.fpan else none
  let (stage, ctx) := stipDecision found ctx
  s.setIngress w (.carrying i key ctx stage)

def stipDebit (s : Engine) (w : Nat) (i : Serial) (key : String) (ctx : TransactionContext)
    (profile : CardProfile) : Engine :=
  let s := { s with stipDb := s.stipDb.put ctx.transaction.fpan (some profile) }
  let reply := { ctx.transaction.answer "0110" "00" with processingCode := "STIP12" }
  s.setIngress w (.carrying i key { ctx with transaction := reply } .decided)

/-- Journal the result and answer through the responder of the context. -/
def stipAnswer (s : Engine) (w : Nat) (i : Serial) (ctx : TransactionContext) (ok : Bool) : Engine :=
  let s := s.log (.decided i ctx.transaction.responseCode)
  if ok then
    let s := s.log (.appended (toPb ctx.transaction))
    (s.respond ctx.responder (.decision i) ctx.transaction).setIngress w .idle
  else s.setIngress w .idle

/-- The decline of a request without an egress channel, through the responder of
whatever entry is under the key by now. -/
def declineUnrouted (s : Engine) (key : String) (tx : UniversalPaymentEvent) : Engine :=
  match s.guard.get key with
  | some entry =>
      (s.respond entry.responder (.unrouted entry.serial) (tx.answer "0110" "05")).setGuard key
        { entry with responder := none, state := .completed }
  | none => s

/-! ## The HSM task -/

/-- Where the task goes when the MAC is settled. -/
def afterMac (ctx : TransactionContext) (route : HsmRoute) (macValid : Bool) : HsmPc :=
  let hasPin := fromUtf8Lossy ctx.transaction.pinBlock ≠ ""
  match route with
  | .internalCrdb _ =>
      -- The PIN is verified even when the MAC has failed.
      if hasPin then .awaitingPin ctx route macValid
      else if macValid then .resolving ctx route
      else .checked ctx false none
  | .externalNode _ _ =>
      if macValid then if hasPin then .awaitingPin ctx route true else .resolving ctx route
      else .checked ctx false none

def beforeMac (ctx : TransactionContext) (route : HsmRoute) : HsmPc :=
  if ctx.transaction.macData.isSome then .awaitingMac ctx route else afterMac ctx route true

/-- The task up to its first call of the HSM. -/
def hsmRoute (g : GlobalState) (ctx : TransactionContext) : HsmPc :=
  match g.router.find ctx.transaction.fpan with
  | some route =>
      match route.destination with
      | .internalCrdb =>
          match g.crdb.cards.get (fromUtf8Lossy ctx.transaction.fpan) with
          | some cardRecord => beforeMac ctx (.internalCrdb cardRecord.pvv)
          | none => .checked ctx false none
      | .externalNode node => beforeMac ctx (.externalNode node route.failoverNode)
  | none => .checked ctx true none

/-- The answer of `verify_mac`, `none` for an error. -/
def afterVerifyMac (ctx : TransactionContext) (route : HsmRoute) (result : Option Bool) : HsmPc :=
  afterMac ctx route (result == some true)

/-- The answer of `verify_pin`, `none` for an error. -/
def afterVerifyPin (ctx : TransactionContext) (route : HsmRoute) (macValid : Bool)
    (result : Option Bool) : HsmPc :=
  match result with
  | some success => if !success || !macValid then .checked ctx false none else .resolving ctx route
  | none => .checked ctx false none

/-- The answer of `translate_pin`, `none` for an error. -/
def afterTranslatePin (ctx : TransactionContext) (route : HsmRoute) (result : Option String) :
    HsmPc :=
  match result with
  | some translatedPin =>
      .resolving
        { ctx with transaction := { ctx.transaction with pinBlock := asBytes translatedPin } } route
  | none => .checked ctx false none

/-- The channel of the HSM task. -/
def targetCh (g : GlobalState) : HsmRoute → Option (RouteDestination × ChannelId)
  | .internalCrdb _ => g.channelFor .internalCrdb none
  | .externalNode node failover => g.channelFor (.externalNode node) failover

/-- The decline of the HSM task, through the responder of its context. -/
def declineHsm (s : Engine) (i : Serial) (ctx : TransactionContext) : Engine :=
  let s := s.log (.decided i "55")
  (s.respond ctx.responder (.decision i) (ctx.transaction.answer "0110" "55")).setHsm i .finished

def journalHsm (s : Engine) (i : Serial) (ctx : TransactionContext)
    (target : Option (RouteDestination × ChannelId)) (ok : Bool) : Engine :=
  if ok then
    let s := s.log (.appended (toPb ctx.transaction))
    match target with
    | some (destination, channel) => s.setHsm i (.sending ctx destination channel)
    | none => s.setHsm i .finished
  else s.setHsm i .finished

def sendHsm (s : Engine) (i : Serial) (ctx : TransactionContext) (destination : RouteDestination)
    (channel : ChannelId) (ok : Bool) : Engine :=
  if ok then
    (s.log (.placed ⟨.hsm i, destination, channel, ctx.transaction⟩)).setHsm i .finished
  else s.setHsm i .finished

/-! ## The reaper -/

/-- The 0110 with RC 68 that a timed out client gets. -/
def timeoutReply (entry : ActiveTransaction) : UniversalPaymentEvent :=
  fromPb { entry.transactionData with mti := "0110", responseCode := "68" }

/-- The 0420 that is rebuilt from the saved request. -/
def autoReversal (entry : ActiveTransaction) : UniversalPaymentEvent :=
  fromPb { entry.transactionData with mti := "0420" }

/-- `ch.send(rev_ctx)`, if the route of the reversal has a channel. -/
def sendReversal (s : Engine) (i : Serial) (reversal : UniversalPaymentEvent) (ok : Bool) : Engine :=
  match s.mem.reversalChannel reversal.fpan with
  | some (destination, channel) =>
      if ok then s.log (.placed ⟨.reaper i, destination, channel, reversal⟩) else s
  | none => s

/-- The `get_mut` section of pass 1 on an entry that is still `UpstreamSent`. -/
def timeOut (s : Engine) (key : String) (entry : ActiveTransaction) (ok : Bool) : Engine :=
  let s := s.setGuard key { entry with state := .reversed, egressStan := none, responder := none }
  let s := s.respond entry.responder (.reaper entry.serial) (timeoutReply entry)
  let s := s.log (.timedOut entry.serial (autoReversal entry))
  s.sendReversal entry.serial (autoReversal entry) ok

/-- The `get_mut` section of pass 1, with the NAT entry to collect and the flag. -/
def reverseSection (s : Engine) (key : String) (ok : Bool) : Engine × Option String × Bool :=
  match s.guard.get key with
  | some entry =>
      if entry.state = .upstreamSent then (s.timeOut key entry ok, entry.egressStan, true)
      else (s, none, false)
  | none => (s, none, false)

/-- Drop the NAT entry of a timed out transaction. -/
def collectNat (s : Engine) (egressStan : Option String) : Engine :=
  match egressStan with
  | some e => { s with mem := { s.mem with stanNat := s.mem.stanNat.remove e } }
  | none => s

/-- Pass 1 selects these. -/
def expired (s : Engine) (entry : ActiveTransaction) : Bool :=
  entry.state = .upstreamSent && s.olderThan entry s.timeoutMs

/-- The grace period of pass 2, in milliseconds. -/
def pruneAfter : Nat := 30000

/-- Pass 2 selects these. -/
def stale (s : Engine) (entry : ActiveTransaction) : Bool :=
  (entry.state = .completed || entry.state = .reversed) && s.olderThan entry pruneAfter

/-! ## The bank reply worker -/

/-- Take a reply off the channel and translate its STAN back.  A STAN without a
NAT entry is taken as it is. -/
def natInbound (s : Engine) (w : Nat) (packet : Packet) (rest : List Packet) : Engine :=
  let reply := packet.transaction
  let ingressStan := (s.mem.stanNat.get reply.stan).getD reply.stan
  let key := formatKey reply.rrn ingressStan reply.acquirerId
  { s with
    bankReply := rest
    mem := { s.mem with stanNat := s.mem.stanNat.remove reply.stan } }.setReply w
      (.translated packet key)

/-- The approval that goes to the client. -/
def approval (packet : Packet) : UniversalPaymentEvent :=
  fromPb { packet.transaction with mti := "0110" }

/-- The section on an entry that is not `Reversed`. -/
def complete (s : Engine) (w : Nat) (packet : Packet) (key : String) (entry : ActiveTransaction)
    (ok : Bool) : Engine :=
  let s := s.log (.handled packet (some entry.serial))
  if ok then
    let s := s.setGuard key { entry with state := .completed, responder := none }
    let s := s.log (.appended packet.transaction)
    (s.respond entry.responder (.bank entry.serial packet) (approval packet)).setReply w
      (.evicting key)
  else (s.setGuard key { entry with state := .completed }).setReply w .idle

/-- The `get_mut` section of the reply worker. -/
def replySection (s : Engine) (w : Nat) (packet : Packet) (key : String) (ok : Bool) : Engine :=
  match s.guard.get key with
  | some entry =>
      if entry.state = .reversed then
        (s.log (.handled packet none)).setReply w (.evicting key)
      else s.complete w packet key entry ok
  | none => (s.log (.handled packet none)).setReply w .idle

/-! ## The network manager (payment-daemon/src/network_manager.rs) -/

/-- The 0800 of a probe at a given second. -/
def probeEvent (secs : Nat) : UniversalPaymentEvent where
  messageClass := .networkManagement
  transactionType := .purchase
  mti := asBytes "0800"
  fpan := asBytes "0000000000000000"
  dpan := none
  isTokenized := false
  tavvCryptogram := none
  processingCode := "000000"
  amount := 0
  stan := zeroPadded 6 (secs % 1000000)
  localTime := "120000"
  localDate := "1231"
  rrn := "PING" ++ zeroPadded 8 secs
  responseCode := "00"
  acquirerId := asBytes "NETWORK_MGR"
  pinBlock := []
  riskScore := 0
  requiresInstantClearing := false
  domesticSettlementData := none
  sourceAccount := none
  destinationAccount := none
  originalDataElements := none
  macData := none
  isReversal := false

/-- `try_send` on one channel, and the health that follows from it. -/
def probe (s : Engine) (node : String) (channel : ChannelId) (secs : Nat) (ok : Bool) : Engine :=
  let s := { s with mem := { s.mem with nodeHealth := s.mem.nodeHealth.put node ok } }
  if ok then s.log (.placed ⟨.probe, .externalNode node, channel, probeEvent secs⟩) else s

end Engine

end Iso8583Switch
