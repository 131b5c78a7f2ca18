import Iso8583Switch.Journal.Settle

/-!
# The journal file is read back

Both readers visit what `PrefixedLog.Reads` gives, for any bytes at all.  On a file
that the journal thread wrote this is the list of the records it kept.
-/

namespace Iso8583Switch

open Text PrefixedLog

/-- The file of the journal thread reads as the records it holds. -/
theorem Wal.Holds.reads {wal : Wal} {records : List Bytes} (h : wal.Holds records)
    (hstorable : ∀ record ∈ records, Storable record) : Reads wal.mmap 0 records wal.offset := by
  obtain ⟨n, hmmap⟩ := h.mmap
  have hreads := Reads.frames hstorable [] n
  rw [List.nil_append, List.length_nil, Nat.zero_add] at hreads
  rw [hmmap, h.offset]
  exact hreads

/-! ## The key of the cursor -/

/-- Two databases that differ in the cursor at most. -/
def SameTallies (db db' : TallyDb) : Prop := ∀ key, key ≠ cursorKey → db.get key = db'.get key

theorem SameTallies.refl (db : TallyDb) : SameTallies db db := fun _ _ => rfl

theorem SameTallies.put {db db' : TallyDb} (h : SameTallies db db') (k : String) {v v' : UInt64}
    (hv : k ≠ cursorKey → v = v') : SameTallies (db.put k v) (db'.put k v') := by
  intro key hkey
  rw [DashMap.get_put, DashMap.get_put, h key hkey]
  split
  next heq => rw [hv (heq ▸ hkey)]
  next => rfl

/-- What is added does not depend on the cursor, unless it takes its place. -/
theorem SameTallies.add {db db' : TallyDb} (h : SameTallies db db') (tx : Transaction) :
    SameTallies (db.add tx) (db'.add tx) := by
  refine SameTallies.put (SameTallies.put h tx.acquirerId fun hne => ?_) _ fun hne => ?_
  · rw [h _ hne]
  · rw [h _ hne]

theorem SameTallies.tallySlice {db db' : TallyDb} (h : SameTallies db db') (codec : RecordCodec)
    (txBytes : Bytes) :
    SameTallies (tallySlice codec db txBytes) (Iso8583Switch.tallySlice codec db' txBytes) := by
  rw [Iso8583Switch.tallySlice, Iso8583Switch.tallySlice]
  cases codec.decode txBytes with
  | none => exact h
  | some tx =>
      dsimp only
      split
      · exact h.add tx
      · exact h

theorem SameTallies.foldl {db db' : TallyDb} (h : SameTallies db db') (codec : RecordCodec)
    (records : List Bytes) : SameTallies (records.foldl (Iso8583Switch.tallySlice codec) db)
      (records.foldl (Iso8583Switch.tallySlice codec) db') := by
  induction records generalizing db db' with
  | nil => exact h
  | cons record records ih => exact ih (h.tallySlice codec record)

/-! ## The readers -/

/-- A sweep of a file that is not too short and not finished yet. -/
theorem settle_eq (codec : RecordCodec) {db : TallyDb} {mmap : Bytes} {slices : List Bytes}
    {final : Nat} (hreads : Reads mmap ((db.get cursorKey).getD 0).toNat slices final)
    (hshort : 4 ≤ mmap.length) (hmore : ((db.get cursorKey).getD 0).toNat < mmap.length) :
    settle codec db mmap =
      some (DashMap.put (slices.foldl (tallySlice codec) db) cursorKey (UInt64.ofNat final)) := by
  rw [settle, if_neg (Nat.not_lt.mpr hshort)]
  dsimp only
  rw [if_neg (Nat.not_le.mpr hmore), settleLoop_eq _ hreads (Nat.succ_pos _) (by omega)]
  rfl

/-- A sweep ends, and stores the cursor that it stopped at. -/
theorem settle_cursor (codec : RecordCodec) {db : TallyDb} {mmap : Bytes} {slices : List Bytes}
    {final : Nat} (hreads : Reads mmap ((db.get cursorKey).getD 0).toNat slices final)
    (hsize : mmap.length < 2 ^ 64) :
    ∃ db', settle codec db mmap = some db' ∧ ((db'.get cursorKey).getD 0).toNat = final := by
  have hstopped (hshort : mmap.length < ((db.get cursorKey).getD 0).toNat + 4) :
      ((db.get cursorKey).getD 0).toNat = final := ((Reads.stop (.short hshort)).unique hreads).2
  by_cases hshort : mmap.length < 4
  · exact ⟨db, if_pos hshort, hstopped (by omega)⟩
  by_cases hdone : mmap.length ≤ ((db.get cursorKey).getD 0).toNat
  · refine ⟨db, ?_, hstopped (by omega)⟩
    rw [settle, if_neg hshort]
    exact if_pos hdone
  · refine ⟨_, settle_eq codec hreads (Nat.not_lt.mp hshort) (Nat.not_le.mp hdone), ?_⟩
    have hfinal := hreads.final_le (Nat.le_of_lt (Nat.not_le.mp hdone))
    rw [DashMap.get_put_self, Option.getD_some]
    exact UInt64.toNat_ofNat_of_lt' (Nat.lt_of_le_of_lt hfinal hsize)

/-- What the readers make of a file. -/
structure ReadsBack (codec : RecordCodec) (wal : Wal) (records : List Transaction) : Prop where
  settle : settleSlices wal.mmap 0 = some (records.map codec.encode, wal.offset)
  getJournal : journalSlices wal.mmap = some (records.map codec.encode)
  decodes : ∀ tx ∈ records, codec.decode (codec.encode tx) = some tx
  /-- A first sweep stores the offset of the writer in its eight bytes. -/
  cursor : ∀ db : TallyDb, db.get cursorKey = none → ∃ db', Iso8583Switch.settle codec db wal.mmap =
    some db' ∧ (db'.get cursorKey).getD 0 = UInt64.ofNat wal.offset

theorem Wal.Holds.readsBack {codec : RecordCodec} {wal : Wal} {records : List Transaction}
    (h : wal.Holds (records.map codec.encode))
    (hdecode : ∀ tx ∈ records, codec.decode (codec.encode tx) = some tx)
    (hstorable : ∀ tx ∈ records, Storable (codec.encode tx)) : ReadsBack codec wal records := by
  have hreads := h.reads fun record hmem => by
    obtain ⟨tx, htx, rfl⟩ := List.mem_map.mp hmem
    exact hstorable tx htx
  refine ⟨settleSlices_eq hreads, journalSlices_eq hreads, hdecode, fun db hdb => ?_⟩
  by_cases hshort : wal.mmap.length < 4
  · refine ⟨db, if_pos hshort, ?_⟩
    rw [hdb, h.offset_short hshort]
    rfl
  · have hzero : ((db.get cursorKey).getD 0).toNat = 0 := by
      rw [hdb]
      rfl
    refine ⟨_, settle_eq codec (by rw [hzero]; exact hreads) (Nat.not_lt.mp hshort)
      (by rw [hzero]; omega), ?_⟩
    rw [DashMap.get_put_self]
    rfl

/-- Both readers find the records that the journal thread kept, in order, and agree
on every other byte string. -/
theorem journal_reads_back (codec : RecordCodec) (size : Nat) (txs : List Transaction)
    (hdecode : ∀ tx ∈ txs, codec.decode (codec.encode tx) = some tx)
    (hstorable : ∀ tx ∈ txs, Storable (codec.encode tx)) :
    ReadsBack codec ((Wal.create size).writeAll (txs.map codec.encode))
      (Wal.kept codec size 0 txs) ∧
    ∀ mmap : Bytes, (∃ slices final, settleSlices mmap 0 = some (slices, final) ∧
      journalSlices mmap = some slices) ∧ ∀ cursor, (settleSlices mmap cursor).isSome := by
  refine ⟨?_, fun mmap => ⟨?_, fun cursor => ?_⟩⟩
  · have hholds := Wal.writeAll_holds codec (Wal.create_holds size) txs
    have hsize : (Wal.create size).mmap.length = size := List.length_replicate
    have hoff : (Wal.create size).offset = 0 := rfl
    rw [List.nil_append, hsize, hoff] at hholds
    exact hholds.readsBack (fun tx hkept => hdecode tx (Wal.mem_of_mem_kept hkept))
      fun tx hkept => hstorable tx (Wal.mem_of_mem_kept hkept)
  · obtain ⟨slices, final, hreads⟩ := Reads.total mmap 0
    exact ⟨slices, final, settleSlices_eq hreads, journalSlices_eq hreads⟩
  · obtain ⟨slices, final, hreads⟩ := Reads.total mmap cursor
    rw [settleSlices_eq hreads]
    rfl

/-! ## A file with room for two of three records -/

/-- A record with an MTI, an RRN and a response code. -/
def journalSample (mti rrn responseCode : String) : Transaction :=
  { mti := mti, pan := "", processingCode := "", amount := 1000, stan := "", rrn := rrn,
    responseCode := responseCode, acquirerId := "", pinBlock := "", localTime := "",
    localDate := "" }

/-- The second is too long for what is left of 48 bytes, the third is not. -/
def journalSamples : List Transaction :=
  [journalSample "0100" "1" "00", journalSample "0100" "RRN000000000000002" "00",
    journalSample "0110" "" ""]

set_option maxRecDepth 8000 in
theorem journal_reads_back_full :
    journalSlices ((Wal.create 48).writeAll (journalSamples.map RecordCodec.protobuf)).mmap =
      some ([journalSample "0100" "1" "00", journalSample "0110" "" ""].map RecordCodec.protobuf) :=
  (journal_reads_back (.onSamples journalSamples) 48 journalSamples (by decide)
    (by decide)).1.getJournal

end Iso8583Switch
