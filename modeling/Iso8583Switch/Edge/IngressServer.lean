import Iso8583Switch.Dialect.Responses
import Iso8583Switch.Edge.ReplyWriter
import Iso8583Switch.Engine.State

/-!
# The connections of the terminals

edge-ingress/src/server.rs.  The task of a connection reads frames and spawns a task for
each one that parses.  That task hands a context to the core and waits: for the response of
the core, which it puts on the queue of the connection, or for the end of the reader, upon
which it hands a reversal to the core.  If the parser panics the reader ends as well, and
the notifier is dropped with it.

The tasks interleave at every access to what is shared, and the socket may fail whenever it
is used.  The terminal is at the other end of both directions of the connection, with the
same codec.  A frame is known by its number, and so are its task, its oneshot channel and
the responder of its context; the code has no such number.  Metrics and log lines are left
out.
-/

namespace Iso8583Switch

open Text Function Framing

def IngressDialect.buildResponse : IngressDialect → UniversalPaymentEvent → Bytes
  | .standard => StandardDialect.buildResponse
  | .interac => InteracDialect.buildResponse
  | .ukFps => UkFpsDialect.buildResponse

/-- The 0420 that the listener injects when the socket drops before the response
(edge-ingress/src/server.rs).  It has no responder. -/
def socketDropReversal (canonicalTx : UniversalPaymentEvent) : UniversalPaymentEvent :=
  { canonicalTx with mti := asBytes "0420" }

namespace EdgeIngress

/-- How far the task of a frame is. -/
inductive TaskPc where
  | absent
  | sending (canonicalTx : UniversalPaymentEvent)
  /-- In the `select!`. -/
  | selecting (canonicalTx : UniversalPaymentEvent)
  | replying (isoOut : Bytes)
  | reversing (canonicalTx : UniversalPaymentEvent)
  | ended

/-- The oneshot channel of a frame, from the side of the core. -/
inductive Oneshot where
  | held
  | answered (responseTx : UniversalPaymentEvent)
  | dropped

def TaskPc.isDone : TaskPc → Bool
  | .absent | .ended => true
  | _ => false

/-- `contexts` is a history: what the tasks have put on the channel of the core. -/
structure Session where
  requests : Pipe Bytes
  replies : ReplyWriter
  reading : Bool
  tasks : Nat → TaskPc
  oneshots : Nat → Oneshot
  coreOpen : Bool
  contexts : List (Nat × TransactionContext)

inductive TaskAction where
  | handOver
  | takeResponse
  | takeNotice
  | reply
  | reverse

inductive SessionAction where
  /-- The terminal sends a request. -/
  | request (payload : Bytes)
  /-- Bytes of the terminal are sent or arrive, or the connection breaks. -/
  | uplink (p : PipeAction Bytes)
  /-- The stream gives the next frame. -/
  | read
  /-- The stream gives an error or ends. -/
  | close
  | task (n : Nat) (a : TaskAction)
  /-- The core answers. -/
  | respond (n : Nat) (responseTx : UniversalPaymentEvent)
  /-- The core drops a responder. -/
  | forget (n : Nat)
  /-- The receivers of the core are dropped. -/
  | coreEnds
  | writer (t : ReplyWriter.Turn)
  /-- Bytes arrive at the terminal or the terminal takes a response, or the connection
  breaks. -/
  | downlink (p : PipeAction Bytes)

namespace Session

def new : Session where
  requests := .opened
  replies := .opened
  reading := true
  tasks := fun _ => .absent
  oneshots := fun _ => .held
  coreOpen := true
  contexts := []

def setTask (s : Session) (n : Nat) (pc : TaskPc) : Session :=
  { s with tasks := update s.tasks n pc }

/-- Put a context on the channel of the core, which is lost if the core has ended. -/
def send (s : Session) (n : Nat) (ctx : TransactionContext) : Session :=
  if s.coreOpen then { s with contexts := s.contexts ++ [(n, ctx)] } else s

/-- Whether the core has got the responder of a frame. -/
def handedOver (s : Session) (n : Nat) : Bool :=
  s.contexts.any fun sent => sent.1 = n && sent.2.responder = some n

/-- Whether all senders of the queue are dropped. -/
def hungUp (s : Session) : Bool :=
  !s.reading && (List.range s.requests.taken.length).all fun n => (s.tasks n).isDone

/-- A frame is taken off the buffer. -/
def receive (s : Session) (payload src : Bytes) : Session :=
  { s with requests :=
    { s.requests with inBuffer := src, taken := s.requests.taken ++ [payload] } }

def readStep (dialect : IngressDialect) (s : Session) : Option Session :=
  match s.reading, decode (ε := Empty) s.requests.inBuffer with
  | true, (.ok (some payload), src) =>
      match dialect.parse payload with
      | .ok canonicalTx =>
          some ((s.receive payload src).setTask s.requests.taken.length (.sending canonicalTx))
      | .error (.error _) => some (s.receive payload src)
      | .error .panicked => some { s.receive payload src with reading := false }
  | _, _ => none

def taskStep (dialect : IngressDialect) (s : Session) (n : Nat) : TaskAction → Option Session
  | .handOver =>
      match s.tasks n with
      | .sending canonicalTx =>
          if s.coreOpen then
            some ((s.send n ⟨canonicalTx, some n⟩).setTask n (.selecting canonicalTx))
          else some (s.setTask n .ended)
      | _ => none
  | .takeResponse =>
      match s.tasks n, s.oneshots n with
      | .selecting _, .answered responseTx =>
          some (s.setTask n (.replying (dialect.buildResponse responseTx)))
      | .selecting _, .dropped => some (s.setTask n .ended)
      | _, _ => none
  | .takeNotice =>
      match s.tasks n with
      | .selecting canonicalTx =>
          if s.reading then none else some (s.setTask n (.reversing canonicalTx))
      | _ => none
  -- The receiver of the queue is there as long as there is a sender.
  | .reply =>
      match s.tasks n with
      | .replying isoOut =>
          if s.replies.queue.length < 10000 then
            some { s.setTask n .ended with replies := s.replies.push n isoOut }
          else none
      | _ => none
  | .reverse =>
      match s.tasks n with
      | .reversing canonicalTx =>
          some ((s.send n ⟨socketDropReversal canonicalTx, none⟩).setTask n .ended)
      | _ => none

/-- A step in the direction of the replies. -/
def replyStep (s : Session) (a : ReplyWriter.Action) : Option Session :=
  (s.replies.step .edgeIngress a).map fun replies => { s with replies }

def step (dialect : IngressDialect) (s : Session) : SessionAction → Option Session
  | .request payload =>
      if payload.length ≤ 65535 then
        (s.requests.step (decode (ε := Empty)) codecEncode (.put payload)).map fun requests =>
          { s with requests }
      else none
  | .uplink p =>
      match p with
      | .put _ | .take => none
      | p =>
          (s.requests.step (decode (ε := Empty)) codecEncode p).map fun requests =>
            { s with requests }
  | .read => s.readStep dialect
  | .close => if s.reading then some { s with reading := false } else none
  | .task n a => s.taskStep dialect n a
  | .respond n responseTx =>
      match s.handedOver n, s.oneshots n with
      | true, .held => some { s with oneshots := update s.oneshots n (.answered responseTx) }
      | _, _ => none
  | .forget n =>
      match s.handedOver n, s.oneshots n with
      | true, .held => some { s with oneshots := update s.oneshots n .dropped }
      | _, _ => none
  | .coreEnds => some { s with coreOpen := false }
  | .writer t => s.replyStep (.run s.hungUp t)
  | .downlink p => s.replyStep (.wire p)

/-- The states of all runs of a connection that meet a discipline. -/
abbrev Reachable (dialect : IngressDialect) (P : Session → SessionAction → Prop) :
    Session → Prop :=
  Transition.Reachable (· = new) (Transition.Steps (step dialect) P)

end Session

end EdgeIngress

end Iso8583Switch
