import Iso8583Switch.Library.Transition
import Iso8583Switch.GlobalState
import Mathlib.Logic.Function.Basic

/-!
# The state of the engine

The threads of `SwitchEngine::start` share the guard, the global state and the
channels.  The state holds the shared memory and, for every thread, how far it
is in its loop body.  A thread may stop between two accesses to shared memory, so
there is one position for each gap that the model keeps.  Three gaps it does not
keep.  `GlobalState.channelFor` chooses the channel of a route in one step, where the
source reads the health of the node, that of its failover and the channel in turn
(the ingress worker finds the route in the same step).  `natOutbound` takes the number
and inserts it into the NAT, and `natInbound` takes a reply off its channel and removes
its STAN from the NAT.

Three things are not in the source.

* `trace` lists what the threads did, oldest first.  Nothing reads it.
* `ActiveTransaction.serial` and the numbers that the positions carry name a
  guard instance, that is one successful `Entry::Vacant` insert, by the position
  of its `inserted` event in the trace.
* `Packet.answers` names the frame that a bank reply answers, by the position of
  its `placed` event.

A responder is likewise named by the position of the `received` event of the
context that brought it.  There may be any number of workers.  A blocking call
(a channel send, a journal append, a read of the STIP database, a call of the
HSM) takes its outcome as an input of the step.  Metrics, telemetry and log
lines are left out.
-/

namespace Iso8583Switch

open Text

/-- A oneshot sender, by the position of the event that brought it. -/
abbrev Responder := Nat

/-- A guard instance, by the position of the event that inserted it. -/
abbrev Serial := Nat

/-! ## Contexts and guard entries (context.rs) -/

inductive NetworkState where
  | hsmPending
  | upstreamSent
  | reversed
  | reversedPending
  | completed
deriving DecidableEq, Repr

structure ActiveTransaction where
  createdAt : Nat
  state : NetworkState
  responder : Option Responder
  transactionData : Transaction
  egressStan : Option String
  serial : Serial

structure TransactionContext where
  transaction : UniversalPaymentEvent
  responder : Option Responder

/-- A PIN block or a MAC sends the context to the HSM task. -/
def TransactionContext.needsHsm (ctx : TransactionContext) : Bool :=
  !ctx.transaction.pinBlock.isEmpty || ctx.transaction.macData.isSome

/-! ## What the threads do -/

/-- Who put a frame on an egress channel. -/
inductive Origin where
  | ingress (i : Serial)
  | hsm (i : Serial)
  | reaper (i : Serial)
  | probe
deriving DecidableEq

/-- The instance whose original request the frame is. -/
def Origin.request : Origin → Option Serial
  | .ingress i | .hsm i => some i
  | .reaper _ | .probe => none

/-- The instance on whose behalf the frame was sent. -/
def Origin.serial : Origin → Option Serial
  | .ingress i | .hsm i | .reaper i => some i
  | .probe => none

/-- A context on an egress channel. -/
structure Frame where
  origin : Origin
  destination : RouteDestination
  channel : ChannelId
  transaction : UniversalPaymentEvent
deriving DecidableEq

/-- A message on the `bank_reply` channel. -/
structure Packet where
  transaction : Transaction
  answers : Option Nat
deriving DecidableEq

/-- Which piece of code answers a client. -/
inductive Source where
  | compliance
  | detokenizer
  | riskScreen
  | echo
  | duplicate
  /-- The 0430, with the instances that the reversal marked. -/
  | reversal (marked : List Serial)
  /-- The RC 05 of a request without an egress channel. -/
  | unrouted (i : Serial)
  /-- RC 55, or the result of the STIP fallback. -/
  | decision (i : Serial)
  | reaper (i : Serial)
  | bank (i : Serial) (packet : Packet)
deriving DecidableEq

inductive Event where
  | received (tx : UniversalPaymentEvent) (answerable : Bool)
  | inserted (key : String) (tx : UniversalPaymentEvent) (responder : Option Responder)
  | responded (r : Responder) (source : Source) (reply : UniversalPaymentEvent)
  | marked (i : Serial)
  | numbered (i : Serial) (egressStan : String)
  | appended (record : Transaction)
  | posted (tx : UniversalPaymentEvent)
  | placed (frame : Frame)
  | decided (i : Serial) (responseCode : String)
  | timedOut (i : Serial) (reversal : UniversalPaymentEvent)
  | replied (packet : Packet)
  /-- A reply worker is done with the guard section, with the instance it
  completed. -/
  | handled (packet : Packet) (completed : Option Serial)
  | evicted (key : String) (i : Serial)
deriving DecidableEq

/-! ## The positions of the threads -/

/-- An iteration over a concurrent map: the keys it still has to meet among
those that were there when it began, and the keys it has met. -/
structure Scan where
  todo : List String
  seen : List String

namespace Scan

def start (keys : List String) : Scan := ⟨keys, []⟩

def meet (scan : Scan) (key : String) : Scan := ⟨scan.todo.erase key, key :: scan.seen⟩

/-- An entry that left the map before the iteration came to it is not met. -/
def drop (scan : Scan) (key : String) : Scan := { scan with todo := scan.todo.erase key }

end Scan

/-- How far an ingress worker is with a context that it inserted in the guard. -/
inductive Stage where
  | inserted
  | journaled
  | routed (destination : RouteDestination) (channel : ChannelId)
  | unrouted
  /-- The egress STAN is in the context from here on. -/
  | numbered (destination : RouteDestination) (channel : ChannelId)
  | recorded (destination : RouteDestination) (channel : ChannelId)
  | failed
  | debiting (profile : CardProfile)
  | decided

inductive IngressPc where
  | idle
  | panicked
  | received (ctx : TransactionContext)
  | cleared (ctx : TransactionContext)
  | detokenized (ctx : TransactionContext)
  | screened (ctx : TransactionContext)
  | scanning (ctx : TransactionContext) (origStan : String) (scan : Scan) (marked : List Serial)
  | carrying (i : Serial) (key : String) (ctx : TransactionContext) (stage : Stage)
  | evicting (key : String)

/-- What the HSM task knows of its route. -/
inductive HsmRoute where
  | internalCrdb (pvv : String)
  | externalNode (node : String) (failover : Option String)

inductive HsmPc where
  | absent
  | spawned (ctx : TransactionContext)
  | awaitingMac (ctx : TransactionContext) (route : HsmRoute)
  | awaitingPin (ctx : TransactionContext) (route : HsmRoute) (macValid : Bool)
  | resolving (ctx : TransactionContext) (route : HsmRoute)
  | checked (ctx : TransactionContext) (isPinValid : Bool)
      (target : Option (RouteDestination × ChannelId))
  | sending (ctx : TransactionContext) (destination : RouteDestination) (channel : ChannelId)
  | finished

inductive ReaperPc where
  | asleep
  | expiring (scan : Scan) (toReverse : List String)
  | reversing (toReverse : List String)
  | reclaiming (key : String) (egressStan : Option String) (didReverse : Bool)
      (toReverse : List String)
  | evicting (key : String) (didReverse : Bool) (toReverse : List String)
  | pruning (scan : Scan) (staleKeys : List String)
  | removing (staleKeys : List String)

inductive ReplyPc where
  | idle
  | translated (packet : Packet) (key : String)
  | evicting (key : String)

/-! ## The state -/

structure Engine where
  timeoutMs : Nat
  now : Nat
  mem : GlobalState
  compliance : ComplianceGuard
  /-- A value that does not deserialize is `none`. -/
  stipDb : DashMap Bytes (Option CardProfile)
  guard : DashMap String ActiveTransaction
  bankReply : List Packet
  ingress : Nat → IngressPc
  /-- The HSM task of a guard instance. -/
  hsm : Serial → HsmPc
  reaper : ReaperPc
  repliers : Nat → ReplyPc
  trace : List Event

namespace Engine

/-- A started engine that has done nothing yet.  The configuration is arbitrary. -/
structure Initial (s : Engine) : Prop where
  guard : s.guard = ∅
  stanNat : s.mem.stanNat = ∅
  stanCounter : s.mem.stanCounter = 0
  bankReply : s.bankReply = []
  ingress : s.ingress = fun _ => .idle
  hsm : s.hsm = fun _ => .absent
  reaper : s.reaper = .asleep
  repliers : s.repliers = fun _ => .idle
  trace : s.trace = []

/-- `SwitchEngine::start`: two egress channels, no routes, no rules, no cards. -/
def start (timeoutMs : Nat) (stipDb : DashMap Bytes (Option CardProfile)) : Engine where
  timeoutMs := timeoutMs
  now := 0
  mem :=
    { GlobalState.new with
      egressChannels := (DashMap.put ∅ "MockVisaNode" 0).put "MockMastercardNode" 1 }
  compliance := ⟨∅⟩
  stipDb := stipDb
  guard := ∅
  bankReply := []
  ingress := fun _ => .idle
  hsm := fun _ => .absent
  reaper := .asleep
  repliers := fun _ => .idle
  trace := []

theorem start_initial (timeoutMs : Nat) (stipDb : DashMap Bytes (Option CardProfile)) :
    (start timeoutMs stipDb).Initial :=
  ⟨rfl, rfl, rfl, rfl, rfl, rfl, rfl, rfl, rfl⟩

/-! ## Updates -/

def log (s : Engine) (event : Event) : Engine := { s with trace := s.trace ++ [event] }

/-- `if let Some(responder) = … { let _ = responder.send(reply); }` -/
def respond (s : Engine) (responder : Option Responder) (source : Source)
    (reply : UniversalPaymentEvent) : Engine :=
  match responder with
  | some r => s.log (.responded r source reply)
  | none => s

def setGuard (s : Engine) (key : String) (entry : ActiveTransaction) : Engine :=
  { s with guard := s.guard.put key entry }

/-- `guard.remove(&key)` -/
def evict (s : Engine) (key : String) : Engine :=
  match s.guard.get key with
  | some entry => { s with guard := s.guard.remove key }.log (.evicted key entry.serial)
  | none => s

def setIngress (s : Engine) (w : Nat) (pc : IngressPc) : Engine :=
  { s with ingress := Function.update s.ingress w pc }

def setHsm (s : Engine) (i : Serial) (pc : HsmPc) : Engine :=
  { s with hsm := Function.update s.hsm i pc }

@[simp] theorem setIngress_self (s : Engine) (w : Nat) (pc : IngressPc) :
    (s.setIngress w pc).ingress w = pc := Function.update_self _ _ _

theorem setIngress_of_ne (s : Engine) {w w' : Nat} (h : w' ≠ w) (pc : IngressPc) :
    (s.setIngress w pc).ingress w' = s.ingress w' := Function.update_of_ne h _ _

@[simp] theorem setHsm_self (s : Engine) (i : Serial) (pc : HsmPc) :
    (s.setHsm i pc).hsm i = pc := Function.update_self _ _ _

def setReaper (s : Engine) (pc : ReaperPc) : Engine := { s with reaper := pc }

def setReply (s : Engine) (w : Nat) (pc : ReplyPc) : Engine :=
  { s with repliers := Function.update s.repliers w pc }

/-- Whether `duration_since(created_at)` is more than a bound. -/
def olderThan (s : Engine) (entry : ActiveTransaction) (bound : Nat) : Bool :=
  bound < s.now - entry.createdAt

end Engine

end Iso8583Switch
