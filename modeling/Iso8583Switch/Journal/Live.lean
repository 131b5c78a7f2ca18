import Iso8583Switch.Journal.Settle
import Iso8583Switch.Library.Transition

/-!
# The journal thread and settle side by side

The journal thread writes the file while `settle` sweeps it.  The two stores of a
record are two steps, a sweep is one step on the file as it is then, and a restart
of the daemon makes a new file under the cursor that `settle` has stored.

Two things are not in the source.  `epoch` numbers the files, and `trace` lists
what was written and what was read, each by the file and the offset.
-/

namespace Iso8583Switch

open Text PrefixedLog

inductive JournalEvent where
  /-- The second store of a record is done. -/
  | written (epoch offset : Nat) (tx : Transaction)
  /-- A sweep has decoded a slice, or failed to. -/
  | read (epoch offset : Nat) (tx : Option Transaction)
  | swept (epoch : Nat)
  | restarted
deriving DecidableEq

structure LiveJournal where
  wal : Wal
  /-- The record whose length is stored and whose payload is not. -/
  pending : Option Transaction
  tally : TallyDb
  epoch : Nat
  trace : List JournalEvent

inductive JournalAction where
  | start (tx : Transaction)
  | finish
  | sweep
  | restart (size : UInt64)

namespace LiveJournal

/-- A fresh file, and this tally database, without a cursor. -/
structure Initial (db : TallyDb) (s : LiveJournal) : Prop where
  wal : ∃ size : UInt64, s.wal = .create size.toNat
  pending : s.pending = none
  tally : s.tally = db
  cursor : db.get cursorKey = none
  epoch : s.epoch = 0
  trace : s.trace = []

def log (s : LiveJournal) (events : List JournalEvent) : LiveJournal :=
  { s with trace := s.trace ++ events }

/-- The journal thread up to its first store.  A record that does not fit is
dropped. -/
def startRecord (codec : RecordCodec) (s : LiveJournal) (tx : Transaction) : LiveJournal :=
  if s.wal.Fits (codec.encode tx) then
    { s with wal := s.wal.storeLength (codec.encode tx), pending := some tx }
  else s

/-- The second store.  The record is at the offset of its length. -/
def finishRecord (codec : RecordCodec) (s : LiveJournal) (tx : Transaction) : LiveJournal :=
  { s with wal := s.wal.storePayload (codec.encode tx), pending := none }.log
    [.written s.epoch (s.wal.offset - 4) tx]

/-- Slices with the offsets of their lengths. -/
def placed : Nat → List Bytes → List (Nat × Bytes)
  | _, [] => []
  | offset, slice :: slices => (offset, slice) :: placed (offset + (4 + slice.length)) slices

/-- What a sweep decodes. -/
def readEvents (codec : RecordCodec) (epoch cursor : Nat) (slices : List Bytes) :
    List JournalEvent :=
  (placed cursor slices).map fun (offset, slice) => .read epoch offset (codec.decode slice)

/-- The cursor that `settle` has stored. -/
def cursor (s : LiveJournal) : Nat := ((s.tally.get cursorKey).getD 0).toNat

def step (codec : RecordCodec) (s : LiveJournal) : JournalAction → Option LiveJournal
  | .start tx =>
      match s.pending with
      | none => some (s.startRecord codec tx)
      | some _ => none
  | .finish => s.pending.map (s.finishRecord codec)
  | .sweep =>
      match settle codec s.tally s.wal.mmap, settleSlices s.wal.mmap s.cursor with
      | some tally, some (slices, _) =>
          some ({ s with tally := tally }.log
            (readEvents codec s.epoch s.cursor slices ++ [JournalEvent.swept s.epoch]))
      | _, _ => none
  | .restart size =>
      some ({ s with wal := .create size.toNat, pending := none, epoch := s.epoch + 1 }.log
        [.restarted])

/-- The states of all runs whose steps meet a discipline, from a tally database. -/
abbrev Reachable (codec : RecordCodec) (db : TallyDb) (P : LiveJournal → JournalAction → Prop) :
    LiveJournal → Prop :=
  Transition.Reachable (Initial db) (Transition.Steps (step codec) P)

end LiveJournal

end Iso8583Switch
