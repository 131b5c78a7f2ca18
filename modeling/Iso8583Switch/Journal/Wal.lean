import Iso8583Switch.Canonical
import Iso8583Switch.Library.PrefixedLog

/-!
# The journal thread

switch-core/src/journal.rs.  The thread owns a file of fixed size and the offset
of the next record.  Each record takes two stores, the length and the payload,
and a record that does not fit is dropped.

The protobuf codec is generated code outside the repository, so it is a
parameter.
-/

namespace Iso8583Switch

open Text PrefixedLog

/-- `Transaction::encode` and `Transaction::decode`. -/
structure RecordCodec where
  encode : Transaction → Bytes
  decode : Bytes → Option Transaction

namespace RecordCodec

/-- A base-128 number of at most ten bytes. -/
def varint : Nat → Nat → Bytes
  | 0, _ => []
  | k + 1, n =>
      if n < 128 then [UInt8.ofNat n] else UInt8.ofNat (n % 128 + 128) :: varint k (n / 128)

/-- A string field.  The default is left out. -/
def stringField (number : Nat) (s : String) : Bytes :=
  if s = "" then [] else UInt8.ofNat (number * 8 + 2) :: (varint 10 (len s) ++ asBytes s)

/-- The protobuf encoding of the message in payment-proto/proto/payment.proto. -/
def protobuf (tx : Transaction) : Bytes :=
  stringField 1 tx.mti ++ stringField 2 tx.pan ++ stringField 3 tx.processingCode ++
    (if tx.amount = 0 then [] else UInt8.ofNat 32 :: varint 10 tx.amount.toUInt64.toNat) ++
    stringField 5 tx.stan ++ stringField 6 tx.rrn ++ stringField 7 tx.responseCode ++
    stringField 8 tx.acquirerId ++ stringField 9 tx.pinBlock ++ stringField 10 tx.localTime ++
    stringField 11 tx.localDate

/-- The protobuf codec on some messages. -/
def onSamples (txs : List Transaction) : RecordCodec :=
  ⟨protobuf, fun bytes => txs.find? fun tx => protobuf tx = bytes⟩

end RecordCodec

/-- The memory-mapped file and the local `offset`. -/
structure Wal where
  mmap : Bytes
  offset : Nat
deriving DecidableEq

namespace Wal

/-- `Journaler::new`: the file is truncated and filled with zeros. -/
def create (size : Nat) : Wal := ⟨List.replicate size 0, 0⟩

/-- The record does not run past the end of the file. -/
def Fits (wal : Wal) (encoded : Bytes) : Prop :=
  wal.offset + (4 + encoded.length) ≤ wal.mmap.length

instance (wal : Wal) (encoded : Bytes) : Decidable (wal.Fits encoded) :=
  inferInstanceAs (Decidable (_ ≤ _))

/-- The first store.  The cast to `u32` keeps the low four bytes. -/
def storeLength (wal : Wal) (encoded : Bytes) : Wal :=
  ⟨store wal.mmap wal.offset (beBytes 4 encoded.length), wal.offset + 4⟩

/-- The second store. -/
def storePayload (wal : Wal) (encoded : Bytes) : Wal :=
  ⟨store wal.mmap wal.offset encoded, wal.offset + encoded.length⟩

/-- One iteration of the thread. -/
def write (wal : Wal) (encoded : Bytes) : Wal :=
  if wal.Fits encoded then (wal.storeLength encoded).storePayload encoded else wal

def writeAll (wal : Wal) (records : List Bytes) : Wal := records.foldl write wal

/-! ## What the file holds -/

/-- The file holds these records and is unused behind them. -/
structure Holds (wal : Wal) (records : List Bytes) : Prop where
  offset : wal.offset = (frames records).length
  mmap : ∃ n, wal.mmap = frames records ++ List.replicate n 0

theorem create_holds (size : Nat) : (create size).Holds [] :=
  ⟨rfl, size, rfl⟩

theorem length_of_holds {wal : Wal} {records : List Bytes} {n : Nat}
    (h : wal.mmap = frames records ++ List.replicate n 0) :
    wal.mmap.length = (frames records).length + n := by
  rw [h, List.length_append, List.length_replicate]

theorem Holds.offset_le {wal : Wal} {records : List Bytes} (h : wal.Holds records) :
    wal.offset ≤ wal.mmap.length := by
  obtain ⟨n, hmmap⟩ := h.mmap
  rw [length_of_holds hmmap, h.offset]
  exact Nat.le_add_right _ _

/-- A file too short for a length holds nothing. -/
theorem Holds.offset_short {wal : Wal} {records : List Bytes} (h : wal.Holds records)
    (hshort : wal.mmap.length < 4) : wal.offset = 0 := by
  have hle := h.offset_le
  cases records with
  | nil => exact h.offset
  | cons record records =>
      have hoff := h.offset
      rw [frames_cons, List.length_append, length_frame] at hoff
      omega

/-- After the first store the length is there and the payload is still zero. -/
theorem storeLength_mmap {wal : Wal} {records : List Bytes} {record : Bytes}
    (h : wal.Holds records) (hfits : wal.Fits record) : ∃ n,
    (wal.storeLength record).mmap = frames records ++
      (beBytes 4 record.length ++ (List.replicate record.length 0 ++ List.replicate n 0)) := by
  obtain ⟨n, hmmap⟩ := h.mmap
  have hroom : 4 + record.length ≤ n := by
    have hlen := length_of_holds hmmap
    have hoff := h.offset
    rw [Fits] at hfits
    omega
  have hzeros : List.replicate n (0 : UInt8) = List.replicate 4 0 ++
      (List.replicate record.length 0 ++ List.replicate (n - (4 + record.length)) 0) := by
    rw [List.replicate_append_replicate, List.replicate_append_replicate]
    congr 1
    omega
  refine ⟨n - (4 + record.length), ?_⟩
  rw [storeLength, hmmap, h.offset, hzeros]
  exact store_append (by rw [List.length_replicate, length_beBytes])

theorem storePayload_holds {wal : Wal} {records : List Bytes} {record : Bytes}
    (h : wal.Holds records) (hfits : wal.Fits record) :
    ((wal.storeLength record).storePayload record).Holds (records ++ [record]) := by
  obtain ⟨n, hmmap⟩ := storeLength_mmap h hfits
  have hoff : (wal.storeLength record).offset = (frames records ++ beBytes 4 record.length).length := by
    rw [List.length_append, length_beBytes, ← h.offset]
    rfl
  constructor
  · rw [frames_concat, List.length_append, length_frame, ← h.offset]
    exact Nat.add_assoc _ _ _
  · refine ⟨n, ?_⟩
    rw [storePayload, hoff, hmmap, ← List.append_assoc, store_append (List.length_replicate),
      frames_concat, frame, List.append_assoc, List.append_assoc, List.append_assoc]

theorem write_holds {wal : Wal} {records : List Bytes} (record : Bytes) (h : wal.Holds records) :
    (wal.write record).Holds (if wal.Fits record then records ++ [record] else records) := by
  rw [write]
  split
  next hfits => exact storePayload_holds h hfits
  next => exact h

theorem length_storeLength {wal : Wal} {record : Bytes} (h : wal.Fits record) :
    (wal.storeLength record).mmap.length = wal.mmap.length := by
  rw [Fits] at h
  exact length_store (by rw [length_beBytes]; omega)

@[simp] theorem length_write (wal : Wal) (record : Bytes) :
    (wal.write record).mmap.length = wal.mmap.length := by
  rw [write]
  split
  next hfits =>
    have hlen := length_storeLength hfits
    rw [Fits] at hfits
    have hoff : (wal.storeLength record).offset = wal.offset + 4 := rfl
    exact (length_store (by rw [hlen, hoff]; omega)).trans hlen
  next => rfl

/-- The records among these that fit when their turn comes. -/
def kept (codec : RecordCodec) (size : Nat) : Nat → List Transaction → List Transaction
  | _, [] => []
  | offset, tx :: txs =>
      if offset + (4 + (codec.encode tx).length) ≤ size then
        tx :: kept codec size (offset + (4 + (codec.encode tx).length)) txs
      else kept codec size offset txs

theorem mem_of_mem_kept {codec : RecordCodec} {size offset : Nat} {txs : List Transaction}
    {tx : Transaction} (h : tx ∈ kept codec size offset txs) : tx ∈ txs := by
  induction txs generalizing offset with
  | nil => cases h
  | cons tx' txs ih =>
      rw [kept] at h
      split at h
      · rcases List.mem_cons.mp h with rfl | h
        · exact List.mem_cons_self
        · exact List.mem_cons_of_mem _ (ih h)
      · exact List.mem_cons_of_mem _ (ih h)

theorem writeAll_holds (codec : RecordCodec) {wal : Wal} {records : List Bytes}
    (h : wal.Holds records) (txs : List Transaction) :
    (wal.writeAll (txs.map codec.encode)).Holds
      (records ++ (kept codec wal.mmap.length wal.offset txs).map codec.encode) := by
  induction txs generalizing wal records with
  | nil =>
      rw [kept, List.map_nil, List.append_nil]
      exact h
  | cons tx txs ih =>
      have hwrite := write_holds (codec.encode tx) h
      have hrest := ih hwrite
      rw [length_write] at hrest
      rw [kept, List.map_cons, writeAll, List.foldl_cons]
      by_cases hfits : wal.Fits (codec.encode tx)
      · have hoff : (wal.write (codec.encode tx)).offset =
            wal.offset + (4 + (codec.encode tx).length) := by
          rw [write, if_pos hfits]
          exact Nat.add_assoc _ _ _
        have hroom : wal.offset + (4 + (codec.encode tx).length) ≤ wal.mmap.length := hfits
        rw [if_pos hfits, hoff, List.append_assoc] at hrest
        rw [if_pos hroom]
        exact hrest
      · have hsame : wal.write (codec.encode tx) = wal := if_neg hfits
        have hfull : ¬ wal.offset + (4 + (codec.encode tx).length) ≤ wal.mmap.length := hfits
        rw [if_neg hfits, hsame] at hrest
        rw [if_neg hfull, hsame]
        exact hrest

end Wal

end Iso8583Switch
