import Iso8583Switch.Library.Text
import Mathlib.Tactic.Ring

/-!
# Length-prefixed logs

A record is stored as its length in four bytes, most significant first, and then
its bytes.  A log is a row of such frames in a file of fixed size whose unused
rest is zero.  A length of zero therefore marks the end.

`Reads` says what a reader finds from a position of a file that need not be a
log: the slices it visits and the position where it stops.  It is total and
deterministic (`Reads.total`, `Reads.unique`).  `Reads.frames` is what it finds
in a log.
-/

namespace PrefixedLog

/-! ## Numbers in bytes -/

/-- The low `k` bytes of a number, most significant first. -/
def beBytes : Nat → Nat → Bytes
  | 0, _ => []
  | k + 1, n => UInt8.ofNat (n / 256 ^ k) :: beBytes k n

/-- The number that the bytes stand for, most significant first. -/
def fromBe (bs : Bytes) : Nat := bs.foldl (fun acc b => acc * 256 + b.toNat) 0

@[simp] theorem length_beBytes (k n : Nat) : (beBytes k n).length = k := by
  induction k with
  | zero => rfl
  | succ k ih => rw [beBytes, List.length_cons, ih]

theorem foldl_beBytes (k n acc : Nat) :
    (beBytes k n).foldl (fun acc b => acc * 256 + b.toNat) acc = acc * 256 ^ k + n % 256 ^ k := by
  induction k generalizing acc with
  | zero => simp [beBytes, Nat.mod_one]
  | succ k ih =>
      have hbyte : (UInt8.ofNat (n / 256 ^ k)).toNat = n / 256 ^ k % 256 := UInt8.toNat_ofNat'
      rw [beBytes, List.foldl_cons, ih, hbyte, pow_succ 256 k, Nat.mod_mul]
      ring

theorem fromBe_beBytes {k n : Nat} (h : n < 256 ^ k) : fromBe (beBytes k n) = n := by
  rw [fromBe, foldl_beBytes, Nat.zero_mul, Nat.zero_add, Nat.mod_eq_of_lt h]

theorem fromBe_replicate_zero (k : Nat) : fromBe (List.replicate k 0) = 0 := by
  induction k with
  | zero => rfl
  | succ k ih => exact ih

/-! ## Ranges of a file -/

/-- `&file[a..b]`, or `none` where Rust panics. -/
def range (file : Bytes) (a b : Nat) : Option Bytes :=
  if a ≤ b ∧ b ≤ file.length then some ((file.drop a).take (b - a)) else none

/-- `file[a..a + bytes.len()].copy_from_slice(bytes)`, for a range of the file. -/
def store (file : Bytes) (a : Nat) (bytes : Bytes) : Bytes :=
  file.take a ++ bytes ++ file.drop (a + bytes.length)

theorem range_isSome {file : Bytes} {a b : Nat} (hab : a ≤ b) (hb : b ≤ file.length) :
    ∃ bytes, range file a b = some bytes := ⟨_, if_pos ⟨hab, hb⟩⟩

theorem length_of_range {file bytes : Bytes} {a b : Nat} (h : range file a b = some bytes) :
    bytes.length = b - a := by
  rw [range] at h
  split at h
  next hab =>
    cases h
    rw [List.length_take, List.length_drop]
    omega
  next => cases h

/-- The middle of a file. -/
theorem range_append (before bytes after : Bytes) :
    range (before ++ (bytes ++ after)) before.length (before.length + bytes.length) = some bytes := by
  have hab : before.length ≤ before.length + bytes.length := Nat.le_add_right _ _
  have hb : before.length + bytes.length ≤ (before ++ (bytes ++ after)).length := by
    simp only [List.length_append]
    omega
  rw [range, if_pos ⟨hab, hb⟩, List.drop_left, Nat.add_sub_cancel_left, List.take_left]

theorem store_append {before old new after : Bytes} (h : old.length = new.length) :
    store (before ++ (old ++ after)) before.length new = before ++ (new ++ after) := by
  rw [store, List.take_left, ← List.drop_drop, List.drop_left, ← h, List.drop_left,
    List.append_assoc]

theorem length_store {file bytes : Bytes} {a : Nat} (h : a + bytes.length ≤ file.length) :
    (store file a bytes).length = file.length := by
  simp only [store, List.length_append, List.length_take, List.length_drop]
  omega

/-! ## Frames -/

def frame (record : Bytes) : Bytes := beBytes 4 record.length ++ record

def frames (records : List Bytes) : Bytes := records.flatMap frame

/-- A record that can be told from the end of the log. -/
def Storable (record : Bytes) : Prop := record ≠ [] ∧ record.length < 2 ^ 32

instance (record : Bytes) : Decidable (Storable record) := inferInstanceAs (Decidable (_ ∧ _))

theorem frames_eq_nil {records : List Bytes} (h : (frames records).length = 0) : records = [] := by
  cases records with
  | nil => rfl
  | cons record records =>
      simp only [frames, List.flatMap_cons, frame, List.length_append, length_beBytes] at h
      omega

@[simp] theorem length_frame (record : Bytes) : (frame record).length = 4 + record.length := by
  rw [frame, List.length_append, length_beBytes]

@[simp] theorem frames_nil : frames [] = [] := rfl

@[simp] theorem frames_cons (record : Bytes) (records : List Bytes) :
    frames (record :: records) = frame record ++ frames records := rfl

theorem frames_append (records more : List Bytes) :
    frames (records ++ more) = frames records ++ frames more := List.flatMap_append

theorem frames_concat (records : List Bytes) (record : Bytes) :
    frames (records ++ [record]) = frames records ++ frame record := by
  rw [frames_append, frames_cons, frames_nil, List.append_nil]

/-- A file that holds records, with zeros behind them. -/
def paddedFile (records : List Bytes) (padding : Nat) : Bytes :=
  frames records ++ List.replicate padding 0

@[simp] theorem length_paddedFile (records : List Bytes) (padding : Nat) :
    (paddedFile records padding).length = (frames records).length + padding := by
  rw [paddedFile, List.length_append, List.length_replicate]

theorem length_le_frames (records : List Bytes) : records.length ≤ (frames records).length := by
  induction records with
  | nil => exact Nat.le_refl _
  | cons record records ih =>
      rw [frames_cons, List.length_append, length_frame, List.length_cons]
      omega

/-! ## Reading -/

/-- Where a reader stops: too few bytes for a length, a length of zero, or a length
that runs past the end. -/
inductive Stops (file : Bytes) (cursor : Nat) : Prop where
  | short : file.length < cursor + 4 → Stops file cursor
  | zero {len : Bytes} : range file cursor (cursor + 4) = some len → fromBe len = 0 →
      Stops file cursor
  | truncated {len : Bytes} : range file cursor (cursor + 4) = some len →
      file.length < cursor + 4 + fromBe len → Stops file cursor

/-- From the cursor on a reader visits these slices, and it stops there. -/
inductive Reads (file : Bytes) : Nat → List Bytes → Nat → Prop where
  | stop {cursor : Nat} : Stops file cursor → Reads file cursor [] cursor
  | visit {cursor final : Nat} {len slice : Bytes} {slices : List Bytes} :
      range file cursor (cursor + 4) = some len → fromBe len ≠ 0 →
      range file (cursor + 4) (cursor + 4 + fromBe len) = some slice →
      Reads file (cursor + 4 + fromBe len) slices final →
      Reads file cursor (slice :: slices) final

theorem le_length_of_range {file bytes : Bytes} {a b : Nat} (h : range file a b = some bytes) :
    b ≤ file.length := by
  rw [range] at h
  split at h
  next hab => exact hab.2
  next => cases h

/-- What is left of the file gets shorter. -/
theorem exists_reads (file : Bytes) (fuel cursor : Nat) (h : file.length < cursor + fuel) :
    ∃ slices final, Reads file cursor slices final := by
  induction fuel generalizing cursor with
  | zero => exact ⟨[], cursor, .stop (.short (by omega))⟩
  | succ fuel ih =>
      by_cases hshort : file.length < cursor + 4
      · exact ⟨[], cursor, .stop (.short hshort)⟩
      have hlength : cursor + 4 ≤ file.length := Nat.not_lt.mp hshort
      obtain ⟨len, hlen⟩ := range_isSome (Nat.le_add_right cursor 4) hlength
      by_cases hzero : fromBe len = 0
      · exact ⟨[], cursor, .stop (.zero hlen hzero)⟩
      by_cases htrunc : file.length < cursor + 4 + fromBe len
      · exact ⟨[], cursor, .stop (.truncated hlen htrunc)⟩
      have hend : cursor + 4 + fromBe len ≤ file.length := Nat.not_lt.mp htrunc
      obtain ⟨slice, hslice⟩ := range_isSome (Nat.le_add_right (cursor + 4) (fromBe len)) hend
      obtain ⟨slices, final, hreads⟩ := ih (cursor + 4 + fromBe len) (by omega)
      exact ⟨slice :: slices, final, .visit hlen hzero hslice hreads⟩

theorem Reads.total (file : Bytes) (cursor : Nat) : ∃ slices final, Reads file cursor slices final :=
  exists_reads file (file.length + 1) cursor (by omega)

theorem Stops.not_visit {file len slice : Bytes} {cursor : Nat} (h : Stops file cursor)
    (hlen : range file cursor (cursor + 4) = some len) (hzero : fromBe len ≠ 0)
    (hslice : range file (cursor + 4) (cursor + 4 + fromBe len) = some slice) : False := by
  cases h with
  | short hshort => exact absurd (le_length_of_range hlen) (by omega)
  | zero hlen' hzero' =>
      cases hlen.symm.trans hlen'
      exact hzero hzero'
  | truncated hlen' htrunc =>
      cases hlen.symm.trans hlen'
      exact absurd (le_length_of_range hslice) (by omega)

theorem Reads.unique {file : Bytes} {cursor final final' : Nat} {slices slices' : List Bytes}
    (h : Reads file cursor slices final) (h' : Reads file cursor slices' final') :
    slices = slices' ∧ final = final' := by
  induction h generalizing slices' with
  | stop hstop =>
      cases h' with
      | stop => exact ⟨rfl, rfl⟩
      | visit hlen hzero hslice _ => exact (hstop.not_visit hlen hzero hslice).elim
  | visit hlen hzero hslice _ ih =>
      cases h' with
      | stop hstop => exact (hstop.not_visit hlen hzero hslice).elim
      | visit hlen' _ hslice' hreads' =>
          cases hlen.symm.trans hlen'
          cases hslice.symm.trans hslice'
          obtain ⟨rfl, rfl⟩ := ih hreads'
          exact ⟨rfl, rfl⟩

theorem Reads.final_le {file : Bytes} {cursor final : Nat} {slices : List Bytes}
    (h : Reads file cursor slices final) (hle : cursor ≤ file.length) : final ≤ file.length := by
  induction h with
  | stop => exact hle
  | visit _ _ hslice _ ih => exact ih (le_length_of_range hslice)

/-- A visited slice. -/
theorem Reads.cons {before record after : Bytes} {slices : List Bytes} {final : Nat}
    (h : Storable record)
    (hreads : Reads (before ++ (frame record ++ after)) (before.length + (frame record).length)
      slices final) :
    Reads (before ++ (frame record ++ after)) before.length (record :: slices) final := by
  have hpow : record.length < 256 ^ 4 := by
    have := h.2
    norm_num at this ⊢
    exact this
  have hbe : fromBe (beBytes 4 record.length) = record.length := fromBe_beBytes hpow
  have hlen : range (before ++ (frame record ++ after)) before.length (before.length + 4) =
      some (beBytes 4 record.length) := by
    have hmid := range_append before (beBytes 4 record.length) (record ++ after)
    rw [length_beBytes] at hmid
    rw [frame, List.append_assoc]
    exact hmid
  have hslice : range (before ++ (frame record ++ after)) (before.length + 4)
      (before.length + 4 + record.length) = some record := by
    have hmid := range_append (before ++ beBytes 4 record.length) record after
    rw [List.length_append, length_beBytes, List.append_assoc] at hmid
    rw [frame, List.append_assoc]
    exact hmid
  refine .visit hlen ?_ (by rw [hbe]; exact hslice) ?_
  · rw [hbe]
    exact fun hzero => h.1 (List.length_eq_zero_iff.mp hzero)
  · rw [hbe, Nat.add_assoc, ← length_frame]
    exact hreads

/-- The unused rest of a file stops a reader. -/
theorem stops_zeros (before : Bytes) (n : Nat) :
    Stops (before ++ List.replicate n 0) before.length := by
  by_cases hn : n < 4
  · refine .short ?_
    rw [List.length_append, List.length_replicate]
    omega
  · have hsplit : List.replicate n (0 : UInt8) = List.replicate 4 0 ++ List.replicate (n - 4) 0 := by
      rw [List.replicate_append_replicate]
      congr 1
      omega
    refine .zero ?_ (fromBe_replicate_zero 4)
    have hmid := range_append before (List.replicate 4 0) (List.replicate (n - 4) 0)
    rw [List.length_replicate] at hmid
    rw [hsplit]
    exact hmid

/-- A reader at a frame boundary finds the records that follow and stops at the
first unused byte. -/
theorem Reads.frames {records : List Bytes} (h : ∀ record ∈ records, Storable record)
    (before : Bytes) (n : Nat) :
    Reads (before ++ (PrefixedLog.frames records ++ List.replicate n 0)) before.length records
      (before.length + (PrefixedLog.frames records).length) := by
  induction records generalizing before with
  | nil => exact .stop (stops_zeros before n)
  | cons record records ih =>
      have hrest := ih (fun r hr => h r (List.mem_cons_of_mem _ hr)) (before ++ frame record)
      rw [List.append_assoc, List.length_append] at hrest
      rw [frames_cons, List.append_assoc, List.length_append, ← Nat.add_assoc]
      exact .cons (h record List.mem_cons_self) hrest

end PrefixedLog
