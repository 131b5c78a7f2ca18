import Iso8583Switch.Dialect.Universal
import Iso8583Switch.Journal.Wal
import Iso8583Switch.Library.DashMap
import Iso8583Switch.Library.Transition
import Mathlib.Logic.Function.Basic

/-!
# The upstream client

edge-egress/src/client.rs.  The main task connects to the bank and takes contexts from
`rx`.  For each context it spawns a task that puts the encoded message on the queue of
the connection, and a writer task per connection feeds what is in the queue to the
sink.  While the bank cannot be reached, advices go to `saf_db`.  A second task sweeps
`saf_db`: it writes what it finds to a connection of its own and removes the keys
afterwards.

The tasks interleave at every access to what is shared.  A socket may fail whenever it
is used, and so may the store.  The sink hands its buffer over while it is fed or
flushed, message by message.  The order in which the iterator of the store meets the
keys is left open, and when it ends as well.

A context carries the host of the client that took it and a number, which the code
does not have.
-/

namespace Iso8583Switch

open Text Function

structure Taken where
  host : String
  number : Nat
  transaction : UniversalPaymentEvent
deriving DecidableEq

namespace Taken

def isAdvice (t : Taken) : Bool :=
  fromUtf8Lossy t.transaction.mti = "0420" || fromUtf8Lossy t.transaction.mti = "0220"

/-- `format!("{}-{}", stan, rrn)`. -/
def safKey (t : Taken) : String := t.transaction.stan ++ "-" ++ t.transaction.rrn

end Taken

/-- `encode` with `unwrap_or_default`. -/
def connexEncode (tx : UniversalPaymentEvent) : Bytes :=
  match universalEncode tx with
  | .ok isoBytes => isoBytes
  | .error _ => []

/-- `Iso8583Codec::encode`, with the length as a `u16`. -/
def codecEncode (item : Bytes) : Bytes :=
  UInt8.ofNat (item.length / 256) :: UInt8.ofNat item.length :: item

/-- Bytes on their way to the bank, and the context that they are made of. -/
structure Outgoing where
  taken : Taken
  bytes : Bytes
deriving DecidableEq

structure SafRow where
  taken : Taken
  val : Bytes
deriving DecidableEq

/-- `sled::Db`. -/
abbrev SafDb := DashMap String SafRow

/-- What is done to the store with a context that cannot be sent. -/
def SafDb.save (db : SafDb) (codec : RecordCodec) (t : Taken) (inserted : Bool) : SafDb :=
  if t.isAdvice && inserted then db.put t.safKey ⟨t, codec.encode (toPb t.transaction)⟩ else db

/-! ## A connection and its writer task -/

inductive WriterPc where
  | receiving
  /-- In `sink.feed`, outside or inside the inner loop. -/
  | feeding (extra : Bool) (payload : Outgoing)
  | draining
  | flushing
  | ended
deriving DecidableEq

structure Connection where
  queue : List Outgoing
  sinkBuffer : List Outgoing
  writer : WriterPc

inductive WriterAction where
  | recv
  /-- `recv` finds the queue empty and every sender dropped. -/
  | hangUp
  | feed (ok : Bool)
  | tryRecv
  /-- The socket takes the first message of the buffer. -/
  | transmit
  | flush (ok : Bool)

def WriterPc.usesSink : WriterPc → Bool
  | .feeding _ _ | .flushing => true
  | _ => false

namespace Connection

/-- A connection that is not there, or whose writer task has ended. -/
def gone : Connection := ⟨[], [], .ended⟩

def opened : Connection := ⟨[], [], .receiving⟩

def push (conn : Connection) (payload : Outgoing) : Connection :=
  { conn with queue := conn.queue ++ [payload] }

/-- A step of the writer task, and what the socket takes in it.  What is in the queue
and in the buffer when the task ends goes with it. -/
def step (conn : Connection) (closed : Bool) : WriterAction → Option (Connection × List Outgoing)
  | .recv =>
      match conn.writer, conn.queue with
      | .receiving, payload :: rest =>
          some ({ conn with queue := rest, writer := .feeding false payload }, [])
      | _, _ => none
  | .hangUp =>
      match conn.writer, conn.queue with
      | .receiving, [] => if closed then some (gone, []) else none
      | _, _ => none
  | .feed ok =>
      match conn.writer with
      | .feeding extra payload =>
          if ok then
            let frame := { payload with bytes := codecEncode payload.bytes }
            some ({ conn with sinkBuffer := conn.sinkBuffer ++ [frame], writer := .draining }, [])
          -- Only the inner loop is left by the inner break.
          else if extra then some ({ conn with writer := .flushing }, [])
          else some (gone, [])
      | _ => none
  | .tryRecv =>
      match conn.writer, conn.queue with
      | .draining, payload :: rest =>
          some ({ conn with queue := rest, writer := .feeding true payload }, [])
      | .draining, [] => some ({ conn with writer := .flushing }, [])
      | _, _ => none
  | .transmit =>
      match conn.sinkBuffer with
      | payload :: rest =>
          if conn.writer.usesSink then some ({ conn with sinkBuffer := rest }, [payload]) else none
      | [] => none
  | .flush ok =>
      match conn.writer with
      -- The error of a flush is ignored, and the buffer stays.
      | .flushing =>
          if ok && !conn.sinkBuffer.isEmpty then none
          else some ({ conn with writer := .receiving }, [])
      | _ => none

end Connection

/-! ## The client -/

inductive MainPc where
  | connecting
  | connected (n : Nat)
  /-- The connect has failed. -/
  | offline
  | panicked
deriving DecidableEq

/-- `keysToRemove` has what was written under each key, too. -/
inductive SweepPc where
  | sleeping
  | iterating (visited : List String) (keysToRemove : List (String × Taken))
  | writing (key : String) (payload : Outgoing) (visited : List String)
      (keysToRemove : List (String × Taken))
  | removing (keysToRemove : List (String × Taken))
  | panicked

structure UpstreamClient where
  host : String
  main : MainPc
  /-- How many connections there have been, and how many contexts. -/
  opened : Nat
  next : Nat
  connections : Nat → Connection
  /-- The tasks that are to send a context to a connection. -/
  tasks : List (Nat × Taken)
  sweeper : SweepPc
  taken : List Taken
  /-- What sockets to the host have taken. -/
  written : List Outgoing

inductive MainAction where
  | connect
  | connectError
  | nodelayError
  | take (tx : UniversalPaymentEvent)
  | takeOffline (tx : UniversalPaymentEvent) (inserted : Bool)
  /-- There is nothing in `rx`, and the client sleeps for a second. -/
  | idle
  /-- The reader has ended or `rx` is disconnected. -/
  | disconnect

inductive SweepAction where
  | connect
  | nodelayError
  | visit (key : String)
  | writeAll (ok : Bool)
  | finish
  | remove (ok : Bool)

inductive EgressAction where
  | main (a : MainAction)
  /-- The task at a position sends its context, or finds the writer gone. -/
  | dispatch (k : Nat) (inserted : Bool)
  | writer (n : Nat) (w : WriterAction)
  | sweep (a : SweepAction)

/-- The client with the store that it has been given. -/
structure Egress where
  client : UpstreamClient
  safDb : SafDb

namespace UpstreamClient

/-- The client at the start of `run`. -/
def new (host : String) (next : Nat) : UpstreamClient where
  host := host
  main := .connecting
  opened := 0
  next := next
  connections := fun _ => .gone
  tasks := []
  sweeper := .sleeping
  taken := []
  written := []

def setConnection (c : UpstreamClient) (n : Nat) (conn : Connection) : UpstreamClient :=
  { c with connections := update c.connections n conn }

/-- Whether all senders of the queue are dropped. -/
def closed (c : UpstreamClient) (n : Nat) : Bool :=
  c.main ≠ .connected n && c.tasks.all fun task => task.1 ≠ n

/-- The context that the client takes next. -/
def context (c : UpstreamClient) (tx : UniversalPaymentEvent) : Taken := ⟨c.host, c.next, tx⟩

def take (c : UpstreamClient) (tx : UniversalPaymentEvent) : UpstreamClient :=
  { c with next := c.next + 1, taken := c.taken ++ [c.context tx] }

/-- The task at a position is done, and its message is in the queue. -/
def send (c : UpstreamClient) (k n : Nat) (payload : Outgoing) : UpstreamClient :=
  { c with tasks := c.tasks.eraseIdx k }.setConnection n ((c.connections n).push payload)

/-- What a row is sent as, or `none` if it does not decode. -/
def rowPayload (codec : RecordCodec) (row : SafRow) : Option Outgoing :=
  (codec.decode row.val).map fun pb => ⟨row.taken, codecEncode (connexEncode (fromPb pb))⟩

end UpstreamClient

namespace Egress

def mainStep (codec : RecordCodec) (s : Egress) : MainAction → Option Egress
  | .connect =>
      match s.client.main with
      | .connecting =>
          some { s with client :=
            { s.client.setConnection s.client.opened .opened with
              main := .connected s.client.opened
              opened := s.client.opened + 1 } }
      | _ => none
  | .connectError =>
      match s.client.main with
      | .connecting => some { s with client := { s.client with main := .offline } }
      | _ => none
  | .nodelayError =>
      match s.client.main with
      | .connecting => some { s with client := { s.client with main := .panicked } }
      | _ => none
  | .take tx =>
      match s.client.main with
      | .connected n =>
          some { s with client :=
            { s.client.take tx with tasks := s.client.tasks ++ [(n, s.client.context tx)] } }
      | _ => none
  | .takeOffline tx inserted =>
      match s.client.main with
      | .offline =>
          some
            { client := { s.client.take tx with main := .connecting }
              safDb := s.safDb.save codec (s.client.context tx) inserted }
      | _ => none
  | .idle =>
      match s.client.main with
      | .offline => some { s with client := { s.client with main := .connecting } }
      | _ => none
  | .disconnect =>
      match s.client.main with
      | .connected _ => some { s with client := { s.client with main := .connecting } }
      | _ => none

/-- The task of a context.  The queue holds a hundred thousand messages. -/
def dispatchStep (codec : RecordCodec) (s : Egress) (k : Nat) (inserted : Bool) : Option Egress :=
  match s.client.tasks[k]? with
  | some (n, t) =>
      if (s.client.connections n).writer = .ended then
        some
          { client := { s.client with tasks := s.client.tasks.eraseIdx k }
            safDb := s.safDb.save codec t inserted }
      else if (s.client.connections n).queue.length < 100000 then
        some { s with client := s.client.send k n ⟨t, connexEncode t.transaction⟩ }
      else none
  | none => none

def writerStep (s : Egress) (n : Nat) (w : WriterAction) : Option Egress :=
  ((s.client.connections n).step (s.client.closed n) w).map fun (conn, sent) =>
    { s with client := { s.client.setConnection n conn with written := s.client.written ++ sent } }

def sweepStep (codec : RecordCodec) (s : Egress) : SweepAction → Option Egress
  | .connect =>
      match s.client.sweeper with
      | .sleeping => some { s with client := { s.client with sweeper := .iterating [] [] } }
      | _ => none
  | .nodelayError =>
      match s.client.sweeper with
      | .sleeping => some { s with client := { s.client with sweeper := .panicked } }
      | _ => none
  | .visit key =>
      match s.client.sweeper, s.safDb.get key with
      | .iterating visited keysToRemove, some row =>
          if key ∈ visited then none
          else
            match UpstreamClient.rowPayload codec row with
            | some payload =>
                let sweeper := .writing key payload visited keysToRemove
                some { s with client := { s.client with sweeper } }
            | none =>
                let sweeper := .iterating (key :: visited) keysToRemove
                some { s with client := { s.client with sweeper } }
      | _, _ => none
  | .writeAll ok =>
      match s.client.sweeper with
      | .writing key payload visited keysToRemove =>
          if ok then
            let sweeper := .iterating (key :: visited) (keysToRemove ++ [(key, payload.taken)])
            let written := s.client.written ++ [payload]
            some { s with client := { s.client with sweeper, written } }
          else
            let sweeper := .iterating (key :: visited) keysToRemove
            some { s with client := { s.client with sweeper } }
      | _ => none
  | .finish =>
      match s.client.sweeper with
      | .iterating _ keysToRemove =>
          some { s with client := { s.client with sweeper := .removing keysToRemove } }
      | _ => none
  | .remove ok =>
      match s.client.sweeper with
      | .removing [] => some { s with client := { s.client with sweeper := .sleeping } }
      | .removing ((key, _) :: rest) =>
          some
            { client := { s.client with sweeper := .removing rest }
              safDb := if ok then s.safDb.remove key else s.safDb }
      | _ => none

def step (codec : RecordCodec) (s : Egress) : EgressAction → Option Egress
  | .main a => s.mainStep codec a
  | .dispatch k inserted => s.dispatchStep codec k inserted
  | .writer n w => s.writerStep n w
  | .sweep a => s.sweepStep codec a

/-- A client starts with what earlier runs have left in the store. -/
def Initial (s : Egress) : Prop :=
  ∃ host next, s.client = .new host next ∧
    ∀ key row, s.safDb.get key = some row → row.taken.number < next

abbrev Reachable (codec : RecordCodec) (P : Egress → EgressAction → Prop) : Egress → Prop :=
  Transition.Reachable Initial (Transition.Steps (step codec) P)

end Egress

end Iso8583Switch
