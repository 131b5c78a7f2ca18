import Iso8583Switch.Edge.Iso8583Codec
import Iso8583Switch.Library.FramedPipe
import Iso8583Switch.Library.Transition

/-!
# The writer task of a connection

edge-ingress/src/server.rs, and both endpoints of mock-bank-node/src/main.rs in the
simulator.  What is put on the queue of a connection is fed to the sink by a task of its
own, which ignores the errors of the sink: a message that was not fed is gone, and after a
flush that failed the buffer stays.  The sink hands its buffer over while it is fed or
flushed.  The other end of the connection takes the messages off with the codec of its
crate.

A message carries a number that its sender gives it, which the code does not have.
-/

namespace Iso8583Switch

open Framing

namespace ReplyWriter

inductive Pc where
  | receiving
  /-- In `sink.feed`, outside or inside the inner loop. -/
  | feeding (n : Nat) (msg : Bytes)
  | draining
  | flushing
  | ended

def Pc.usesSink : Pc → Bool
  | .feeding _ _ | .flushing => true
  | _ => false

/-- What the task does next, with the result of the sink. -/
inductive Turn where
  | recv
  /-- `recv` finds the queue empty and every sender dropped. -/
  | hangUp
  | feed (ok : Bool)
  | tryRecv
  | transmit (n : Nat)
  | flush

inductive Action where
  | push (n : Nat) (msg : Bytes)
  /-- A step of the task, with whether all senders are dropped. -/
  | run (closed : Bool) (t : Turn)
  /-- Bytes arrive at the other end or it takes a message, or the connection breaks. -/
  | wire (p : PipeAction Bytes)

/-- The sink refuses the message. -/
def Turn.failsFeed : Turn → Bool
  | .feed ok => !ok
  | _ => false

def Action.failsFeed : Action → Bool
  | .run _ t => t.failsFeed
  | _ => false

end ReplyWriter

/-- `queued` and `fed` are histories: what has been put on the queue, and what the sink has
taken. -/
structure ReplyWriter where
  queued : List (Nat × Bytes)
  fed : List (Nat × Bytes)
  queue : List (Nat × Bytes)
  writer : ReplyWriter.Pc
  pipe : Pipe Bytes

namespace ReplyWriter

def opened : ReplyWriter := ⟨[], [], [], .receiving, .opened⟩

def push (w : ReplyWriter) (n : Nat) (msg : Bytes) : ReplyWriter :=
  { w with queued := w.queued ++ [(n, msg)], queue := w.queue ++ [(n, msg)] }

/-- A step of the connection, which the other end reads with its own codec. -/
def pipeStep (peer : CodecCrate) (w : ReplyWriter) (p : PipeAction Bytes) : Option ReplyWriter :=
  (w.pipe.step (peer.decode (ε := Empty)) codecEncode p).map fun pipe => { w with pipe }

/-- The outer loop receives, and the inner loop feeds until the queue is empty. -/
def taskStep (peer : CodecCrate) (w : ReplyWriter) (closed : Bool) : Turn → Option ReplyWriter
  | .recv =>
      match w.writer, w.queue with
      | .receiving, (n, msg) :: rest => some { w with writer := .feeding n msg, queue := rest }
      | _, _ => none
  | .hangUp =>
      match w.writer, w.queue with
      | .receiving, [] => if closed then some { w with writer := .ended } else none
      | _, _ => none
  | .feed ok =>
      match w.writer with
      | .feeding n msg =>
          if ok then
            { w with fed := w.fed ++ [(n, msg)], writer := .draining }.pipeStep peer (.put msg)
          else some { w with writer := .draining }
      | _ => none
  | .tryRecv =>
      match w.writer, w.queue with
      | .draining, (n, msg) :: rest => some { w with writer := .feeding n msg, queue := rest }
      | .draining, [] => some { w with writer := .flushing }
      | _, _ => none
  | .transmit n => if w.writer.usesSink then w.pipeStep peer (.transmit n) else none
  | .flush =>
      match w.writer with
      | .flushing => some { w with writer := .receiving }
      | _ => none

def step (peer : CodecCrate) (w : ReplyWriter) : Action → Option ReplyWriter
  | .push n msg => some (w.push n msg)
  | .run closed t => w.taskStep peer closed t
  | .wire p =>
      match p with
      | .put _ | .transmit _ => none
      | p => w.pipeStep peer p

abbrev Reachable (peer : CodecCrate) (P : ReplyWriter → Action → Prop) : ReplyWriter → Prop :=
  Transition.Reachable (· = opened) (Transition.Steps (step peer) P)

end ReplyWriter

end Iso8583Switch
