import Iso8583Switch.Edge.ReplyWriter
import Iso8583Switch.Edge.UpstreamClient
import Mathlib.Data.List.Basic

/-!
# The mock banks

mock-bank-node/src/main.rs in the simulator.  Both endpoints read a frame, decode it and
apply the bank's rules in a task of its own, so they answer in any order.  The answer is
queued for the writer task of the connection.  Base24 and Connex are the same dialect.
-/

namespace Iso8583Switch

open Text Function Framing

namespace MockBank

/-- The response code of an authorization or a purchase. -/
def decision (amount : UInt64) (fpan : Bytes) : String :=
  if 50000 < amount then "51"
  else if (asBytes "9999").isSuffixOf fpan then "59"
  else "00"

/-- The `match` on the class. -/
def respond (canonicalTx : UniversalPaymentEvent) : Option UniversalPaymentEvent :=
  match canonicalTx.messageClass with
  | .networkManagement =>
      some { canonicalTx with
        mti := asBytes "0810", responseCode := "00", messageClass := .networkManagementResponse }
  | .reversalAdvice =>
      some { canonicalTx with
        mti := asBytes "0430", responseCode := "00", messageClass := .reversalResponse }
  | .authorization =>
      some { canonicalTx with
        mti := asBytes "0110"
        responseCode := decision canonicalTx.amount canonicalTx.fpan }
  | .financial =>
      some { canonicalTx with
        mti := asBytes "0210"
        responseCode := decision canonicalTx.amount canonicalTx.fpan }
  | _ => none

def processBankRules (canonicalTx : UniversalPaymentEvent) : Option Bytes :=
  (respond canonicalTx).bind fun response => (universalEncode response).toOption

/-! ## A connection -/

/-- How far the task of a frame is. -/
inductive TaskPc where
  | absent
  | spawned (payload : Bytes)
  | queuing (encoded : Bytes)
  | ended

def TaskPc.isDone : TaskPc → Bool
  | .absent | .ended => true
  | _ => false

/-- What a task does with its payload; a panic ends it. -/
def answer (payload : Bytes) : Option Bytes :=
  match universalDecode payload with
  | .ok canonicalTx => processBankRules canonicalTx
  | .error _ => none

end MockBank

/-- A connection of the bank, with its tasks by the number of their frame. -/
structure MockBank where
  requests : Pipe Bytes
  reading : Bool
  tasks : Nat → MockBank.TaskPc
  replies : ReplyWriter

namespace MockBank

def opened : MockBank := ⟨.opened, true, fun _ => .absent, .opened⟩

def setTask (b : MockBank) (n : Nat) (pc : TaskPc) : MockBank :=
  { b with tasks := update b.tasks n pc }

/-- The stream gives the next frame. -/
def accept (b : MockBank) : Option MockBank :=
  match b.reading, EdgeIngress.decode (ε := Empty) b.requests.inBuffer with
  | true, (.ok (some payload), src) =>
      some ({ b with requests :=
        { b.requests with inBuffer := src, taken := b.requests.taken ++ [payload] } }.setTask
          b.requests.taken.length (.spawned payload))
  | _, _ => none

/-- The task of a frame decodes it, sleeps and answers. -/
def reply (b : MockBank) (n : Nat) : Option MockBank :=
  match b.tasks n with
  | .spawned payload =>
      match answer payload with
      | some encoded => some (b.setTask n (.queuing encoded))
      | none => some (b.setTask n .ended)
  | _ => none

/-- It puts the answer on the queue, if there is room. -/
def queue (b : MockBank) (n : Nat) : Option MockBank :=
  match b.tasks n with
  | .queuing encoded =>
      if b.replies.queue.length < 100000 then
        some { b.setTask n .ended with replies := b.replies.push n encoded }
      else none
  | _ => none

/-- Whether all senders of the queue are dropped. -/
def hungUp (b : MockBank) : Bool :=
  !b.reading && (List.range b.requests.taken.length).all fun n => (b.tasks n).isDone

end MockBank

end Iso8583Switch
