import Iso8583Switch.Simulator.MockBank

/-!
# A connection between the upstream client and a mock bank

edge-egress/src/client.rs with mock-bank-node/src/main.rs at the other end.  The sink of
the client takes encoded contexts; the bank answers; the reader task of the client decodes
an answer and puts it on the `bank_reply` channel as a `Transaction`.  A decoder that panics
ends the reader.

`sent` has the events whose encodings were fed, in this order, and `delivered` what was put
on the channel, with the number of the frame that it answers.  The code has no such number.
-/

namespace Iso8583Switch

open Text Function Framing

structure BankLink where
  sent : List UniversalPaymentEvent
  bank : MockBank
  reading : Bool
  delivered : List (Nat × Transaction)

inductive LinkAction where
  /-- The sink takes the encoding of a context. -/
  | feed (tx : UniversalPaymentEvent)
  /-- Bytes of the client are sent or arrive, or the connection breaks. -/
  | uplink (p : PipeAction Bytes)
  | accept
  /-- The stream of the bank ends. -/
  | hangUp
  | reply (n : Nat)
  | queue (n : Nat)
  | writer (t : ReplyWriter.Turn)
  /-- Bytes of the bank arrive, or the connection breaks. -/
  | downlink (p : PipeAction Bytes)
  /-- The stream of the reader gives the next frame. -/
  | deliver
  /-- It gives an error or ends. -/
  | close

namespace BankLink

def opened : BankLink := ⟨[], .opened, true, []⟩

def uplinkStep (l : BankLink) (p : PipeAction Bytes) : Option BankLink :=
  (l.bank.requests.step (EdgeIngress.decode (ε := Empty)) codecEncode p).map fun requests =>
    { l with bank := { l.bank with requests } }

def downlinkStep (l : BankLink) (r : ReplyWriter.Action) : Option BankLink :=
  (l.bank.replies.step .edgeEgress r).map fun replies =>
    { l with bank := { l.bank with replies } }

/-- The frame that the answer that the reader takes next is for. -/
def nextFrame (l : BankLink) : Nat :=
  ((l.bank.replies.fed[l.bank.replies.pipe.taken.length]?).map Prod.fst).getD 0

/-- What the reader makes of a payload, if it decodes. -/
def readReply (payload : Bytes) : Option Transaction :=
  match universalDecode payload with
  | .ok canonicalTx => some (toPb canonicalTx)
  | .error _ => none

/-- The reader has taken a payload. -/
def received (l : BankLink) (n : Nat) (payload : Bytes) : BankLink :=
  match readReply payload with
  | some pbTx => { l with delivered := l.delivered ++ [(n, pbTx)] }
  | none => { l with reading := universalDecode payload ≠ .error .panicked }

def deliverStep (l : BankLink) : Option BankLink :=
  match l.reading, EdgeEgress.decode (ε := Empty) l.bank.replies.pipe.inBuffer with
  | true, (.ok (some payload), _) =>
      (l.downlinkStep (.wire .take)).map fun l' => l'.received l.nextFrame payload
  | _, _ => none

def step (l : BankLink) : LinkAction → Option BankLink
  | .feed tx =>
      ({ l with sent := l.sent ++ [tx] } : BankLink).uplinkStep (.put (connexEncode tx))
  | .uplink p =>
      match p with
      | .put _ | .take => none
      | p => l.uplinkStep p
  | .accept => l.bank.accept.map fun bank => { l with bank }
  | .hangUp =>
      if l.bank.reading then some { l with bank := { l.bank with reading := false } } else none
  | .reply n => (l.bank.reply n).map fun bank => { l with bank }
  | .queue n => (l.bank.queue n).map fun bank => { l with bank }
  | .writer t => l.downlinkStep (.run l.bank.hungUp t)
  | .downlink p =>
      match p with
      | .take => none
      | p => l.downlinkStep (.wire p)
  | .deliver => l.deliverStep
  | .close => if l.reading then some { l with reading := false } else none

end BankLink

end Iso8583Switch
