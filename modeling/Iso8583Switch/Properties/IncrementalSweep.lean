import Iso8583Switch.Properties.JournalFile

/-!
# Sweeping a journal bit by bit

The cursor is kept in the tally database, under a key that an acquirer may have for an
id, too.  So the value of that key does not follow from the records alone while a sweep
is under way, but every other value does, and the last write of a sweep is the cursor.

`Swept` says what a database is like behind a sweep of a file: the values of the keys but
one are those of given tallies, and the cursor is behind the records unless the file has
no room for a length.  One more sweep takes it to the longer file
(`Swept.settle`), so how often the file is swept on its way does not matter.
-/

namespace Iso8583Switch

open Text PrefixedLog

/-! ## One sweep -/

/-- The records of a file of some length have been swept, and these are the tallies. -/
structure Swept (records : List Bytes) (length : Nat) (tallies swept : TallyDb) : Prop where
  fits : (frames records).length ≤ length
  tallies : SameTallies swept tallies
  cursor : swept.get cursorKey =
    if length < 4 then none else some (UInt64.ofNat (frames records).length)

variable {codec : RecordCodec} {db tallies swept swept' : TallyDb} {records more : List Bytes}
  {length : Nat}

theorem Swept.start (h : db.get cursorKey = none) : Swept [] 0 db db :=
  ⟨Nat.le_refl _, .refl db, h⟩

/-- The cursor from which the next sweep starts. -/
theorem Swept.getD_cursor (h : Swept records length tallies swept) (hlength : length < 2 ^ 64) :
    ((swept.get cursorKey).getD 0).toNat = (frames records).length := by
  have hfits := h.fits
  rw [h.cursor]
  split
  next hshort =>
    have hnone : records = [] := by
      cases records with
      | nil => rfl
      | cons record records =>
          rw [frames_cons, List.length_append, length_frame] at hfits
          omega
    rw [hnone]
    rfl
  next =>
    rw [Option.getD_some]
    exact UInt64.toNat_ofNat_of_lt' (Nat.lt_of_le_of_lt hfits hlength)

/-- A sweep that finds nothing new leaves the database alone. -/
theorem settle_idle {file : Bytes}
    (h : file.length < 4 ∨ file.length ≤ ((db.get cursorKey).getD 0).toNat) :
    settle codec db file = some db := by
  rw [settle]
  split
  next => rfl
  next hlong =>
    dsimp only
    rw [if_pos (h.resolve_left hlong)]

/-- A sweep of the longer file. -/
theorem Swept.settle (h : Swept records length tallies swept)
    (hstorable : ∀ record ∈ more, Storable record) {padding : Nat}
    (hgrows : length ≤ (paddedFile (records ++ more) padding).length)
    (hsize : (paddedFile (records ++ more) padding).length < 2 ^ 64) :
    ∃ swept', settle codec swept (paddedFile (records ++ more) padding) = some swept' ∧
      Swept (records ++ more) (paddedFile (records ++ more) padding).length
        (more.foldl (tallySlice codec) tallies) swept' := by
  have hcursor := h.getD_cursor (Nat.lt_of_le_of_lt hgrows hsize)
  have hlength := length_paddedFile (records ++ more) padding
  have hframes := congrArg List.length (frames_append records more)
  rw [List.length_append] at hframes
  generalize hfile : paddedFile (records ++ more) padding = file at hgrows hsize hlength ⊢
  have hfits : (frames (records ++ more)).length ≤ file.length := by omega
  by_cases hdone : file.length < 4 ∨ file.length ≤ (frames records).length
  · -- There is nothing new.
    have hnone : more = [] := by
      cases more with
      | nil => rfl
      | cons record more =>
          rw [frames_cons, List.length_append, length_frame] at hframes
          omega
    subst hnone
    rw [List.append_nil] at hfits ⊢
    refine ⟨swept, settle_idle (by rw [hcursor]; exact hdone), hfits, h.tallies, ?_⟩
    rw [h.cursor]
    rcases hdone with hshort | hdone
    · rw [if_pos hshort, if_pos (Nat.lt_of_le_of_lt hgrows hshort)]
    · have hsame : file.length = length := by
        have := h.fits
        omega
      rw [hsame]
  · have hreads : Reads file ((swept.get cursorKey).getD 0).toNat more
        (frames (records ++ more)).length := by
      rw [hcursor, ← hfile, paddedFile, frames_append, List.append_assoc, List.length_append]
      exact Reads.frames hstorable _ padding
    refine ⟨_, settle_eq codec hreads (by omega) (by omega), hfits, fun key hkey => ?_, ?_⟩
    · rw [DashMap.get_put_ne _ _ hkey]
      exact h.tallies.foldl codec more key hkey
    · rw [DashMap.get_put_self, if_neg (by omega)]

/-- Two databases behind sweeps of the same file. -/
theorem Swept.unique (h : Swept records length tallies swept)
    (h' : Swept records length tallies swept') (key : String) : swept.get key = swept'.get key := by
  by_cases hkey : key = cursorKey
  · rw [hkey, h.cursor, h'.cursor]
  · rw [h.tallies key hkey, h'.tallies key hkey]

/-! ## Many sweeps -/

/-- Records that are appended, and the zeros that are behind them when the file is swept
next. -/
abbrev Batch := List Bytes × Nat

/-- A sweep after every batch. -/
def sweepAll (codec : RecordCodec) : List Bytes → List Batch → TallyDb → Option TallyDb
  | _, [], db => some db
  | records, (more, padding) :: batches, db =>
      (settle codec db (paddedFile (records ++ more) padding)).bind
        (sweepAll codec (records ++ more) batches)

/-- The file does not shrink, and its length is a `u64`. -/
def Growing : List Bytes → Nat → List Batch → Prop
  | _, _, [] => True
  | records, length, (more, padding) :: batches =>
      length ≤ (paddedFile (records ++ more) padding).length ∧
        (paddedFile (records ++ more) padding).length < 2 ^ 64 ∧
        Growing (records ++ more) (paddedFile (records ++ more) padding).length batches

/-- All records of the batches. -/
def allRecords (batches : List Batch) : List Bytes := batches.flatMap Prod.fst

theorem Swept.sweepAll (h : Swept records length tallies swept) {batches : List Batch}
    {last : Batch} (hstorable : ∀ record ∈ allRecords (batches ++ [last]), Storable record)
    (hgrowing : Growing records length (batches ++ [last])) :
    (paddedFile (records ++ allRecords (batches ++ [last])) last.2).length < 2 ^ 64 ∧
      ∃ swept', sweepAll codec records (batches ++ [last]) swept = some swept' ∧
        Swept (records ++ allRecords (batches ++ [last]))
          (paddedFile (records ++ allRecords (batches ++ [last])) last.2).length
          ((allRecords (batches ++ [last])).foldl (tallySlice codec) tallies) swept' := by
  induction batches generalizing records length tallies swept with
  | nil =>
      obtain ⟨hlength, hsize, -⟩ := hgrowing
      have hall : allRecords ([] ++ [last]) = last.1 := List.append_nil _
      rw [hall] at hstorable ⊢
      obtain ⟨swept', hsettle, hswept⟩ := h.settle hstorable hlength hsize
      refine ⟨hsize, swept', ?_, hswept⟩
      rw [List.nil_append, Iso8583Switch.sweepAll, hsettle]
      rfl
  | cons batch batches ih =>
      obtain ⟨more, padding⟩ := batch
      obtain ⟨hlength, hsize, hrest⟩ := hgrowing
      have hall : allRecords ((more, padding) :: batches ++ [last]) =
          more ++ allRecords (batches ++ [last]) := rfl
      rw [hall] at hstorable ⊢
      obtain ⟨swept', hsettle, hswept⟩ := h.settle
        (fun record hmem => hstorable record (List.mem_append_left _ hmem)) hlength hsize
      obtain ⟨hend, swept'', hlast, hswept'⟩ :=
        ih hswept (fun record hmem => hstorable record (List.mem_append_right _ hmem)) hrest
      rw [List.append_assoc] at hend hswept'
      rw [List.foldl_append]
      refine ⟨hend, swept'', ?_, hswept'⟩
      rw [List.cons_append, Iso8583Switch.sweepAll, hsettle]
      exact hlast

/-- Sweeping the file after every batch leaves what one sweep at the end leaves. -/
theorem incremental_sweep (codec : RecordCodec) (db : TallyDb) (hdb : db.get cursorKey = none)
    (batches : List Batch) (last : Batch)
    (hstorable : ∀ record ∈ allRecords (batches ++ [last]), Storable record)
    (hgrowing : Growing [] 0 (batches ++ [last])) :
    ∃ swept once, sweepAll codec [] (batches ++ [last]) db = some swept ∧
      settle codec db (paddedFile (allRecords (batches ++ [last])) last.2) = some once ∧
      ∀ key, swept.get key = once.get key := by
  have hstart := Swept.start hdb
  obtain ⟨hsize, swept, hsweeps, hswept⟩ := hstart.sweepAll hstorable hgrowing
  obtain ⟨once, hsettle, honce⟩ := hstart.settle hstorable (Nat.zero_le _) hsize
  exact ⟨swept, once, hsweeps, hsettle, hswept.unique honce⟩

/-- An approval of an acquirer that has the key of the cursor for an id. -/
def cursorSample : Transaction :=
  { journalSample "0100" "1" "00" with acquirerId := "cursor_offset" }

/-- Two sweeps with an approval before each, one of bytes that are no record, and one with
nothing new. -/
def sampleBatches : List Batch :=
  [([RecordCodec.protobuf cursorSample], 128), ([[0xFF]], 123), ([], 123)]

set_option maxRecDepth 8000 in
theorem incremental_sweep_sample :
    ∃ swept once,
      sweepAll (.onSamples [cursorSample]) []
        (sampleBatches ++ [([RecordCodec.protobuf cursorSample], 90)]) ∅ = some swept ∧
      settle (.onSamples [cursorSample]) ∅ (paddedFile (allRecords
        (sampleBatches ++ [([RecordCodec.protobuf cursorSample], 90)])) 90) = some once ∧
      ∀ key, swept.get key = once.get key :=
  incremental_sweep (.onSamples [cursorSample]) ∅ rfl sampleBatches
    ([RecordCodec.protobuf cursorSample], 90) (by decide)
    ⟨by decide, by decide, by decide, by decide, by decide, by decide, by decide, by decide, trivial⟩

end Iso8583Switch
