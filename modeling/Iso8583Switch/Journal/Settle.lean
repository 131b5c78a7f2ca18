import Iso8583Switch.Journal.Wal
import Iso8583Switch.Library.DashMap

/-!
# The two readers of the journal file

`settle` (switch-core/src/bin/settle.rs) sweeps the file from a stored cursor and
tallies approvals per acquirer.  `get_journal` (payment-daemon/src/main.rs) walks
the file from its start for display.  They place their cursor increments
differently.

Both loops are written over what they do with a slice.  A loop is `none` where a
slice or an index panics and where the fuel runs out, so `some` says that neither
happens.
-/

namespace Iso8583Switch

open Text PrefixedLog

variable {σ : Type}

/-! ## get_journal -/

/-- The loop of `get_journal`. -/
def journalLoop (visit : σ → Bytes → σ) (mmap : Bytes) : Nat → Nat → σ → Option σ
  | 0, _, _ => none
  | fuel + 1, offset, acc =>
      if offset + 4 ≤ mmap.length then do
        let b₀ ← mmap[offset]?
        let b₁ ← mmap[offset + 1]?
        let b₂ ← mmap[offset + 2]?
        let b₃ ← mmap[offset + 3]?
        let len := fromBe [b₀, b₁, b₂, b₃]
        let offset := offset + 4
        if len = 0 ∨ mmap.length < offset + len then some acc
        else do
          let slice ← range mmap offset (offset + len)
          journalLoop visit mmap fuel (offset + len) (visit acc slice)
      else some acc

/-- The slices that `get_journal` tries to decode. -/
def journalSlices (mmap : Bytes) : Option (List Bytes) :=
  journalLoop (fun slices slice => slices ++ [slice]) mmap (mmap.length + 1) 0 []

/-! ## settle -/

/-- The loop of a sweep, with the cursor that it ends with. -/
def settleLoop (visit : σ → Bytes → σ) (mmap : Bytes) : Nat → Nat → σ → Option (σ × Nat)
  | 0, _, _ => none
  | fuel + 1, cursor, acc =>
      if cursor + 4 ≤ mmap.length then do
        let lenBytes ← range mmap cursor (cursor + 4)
        let len := fromBe lenBytes
        if len = 0 then some (acc, cursor)
        else if mmap.length < cursor + 4 + len then some (acc, cursor)
        else do
          let txBytes ← range mmap (cursor + 4) (cursor + 4 + len)
          settleLoop visit mmap fuel (cursor + 4 + len) (visit acc txBytes)
      else some (acc, cursor)

/-- The slices that a sweep from a cursor tries to decode. -/
def settleSlices (mmap : Bytes) (cursor : Nat) : Option (List Bytes × Nat) :=
  settleLoop (fun slices slice => slices ++ [slice]) mmap (mmap.length + 1) cursor []

/-- The tally database: eight-byte values under string keys. -/
abbrev TallyDb := DashMap String UInt64

def cursorKey : String := "cursor_offset"

def countKey (acquirerId : String) : String := acquirerId ++ "_count"

/-- What a sweep counts. -/
def Transaction.settles (tx : Transaction) : Bool := tx.mti = "0100" && tx.responseCode = "00"

/-- Add a record to the total and the count of its acquirer. -/
def TallyDb.add (db : TallyDb) (tx : Transaction) : TallyDb :=
  let currentTotal := (db.get tx.acquirerId).getD 0
  let currentCount := (db.get (countKey tx.acquirerId)).getD 0
  (DashMap.put db tx.acquirerId (currentTotal + tx.amount.toUInt64)).put (countKey tx.acquirerId)
    (currentCount + 1)

/-- What a sweep does with a slice. -/
def tallySlice (codec : RecordCodec) (db : TallyDb) (txBytes : Bytes) : TallyDb :=
  match codec.decode txBytes with
  | some tx => if tx.settles then db.add tx else db
  | none => db

/-- One iteration of `run_settlement_loop` on a file that exists. -/
def settle (codec : RecordCodec) (db : TallyDb) (mmap : Bytes) : Option TallyDb :=
  if mmap.length < 4 then some db
  else
    let cursor := ((db.get cursorKey).getD 0).toNat
    if mmap.length ≤ cursor then some db
    else
      (settleLoop (tallySlice codec) mmap (mmap.length + 1) cursor db).map fun (db, cursor) =>
        db.put cursorKey (UInt64.ofNat cursor)

/-! ## What the readers do -/

theorem getElem?_of_range {mmap bytes : Bytes} {offset k i : Nat}
    (h : range mmap offset (offset + k) = some bytes) (hi : i < k) :
    mmap[offset + i]? = bytes[i]? := by
  rw [range] at h
  split at h
  next =>
    cases h
    rw [List.getElem?_take, Nat.add_sub_cancel_left, if_pos hi, List.getElem?_drop]
  next => cases h

/-- The four bytes of a length. -/
theorem lengthBytes_of_range {mmap len : Bytes} {offset : Nat}
    (h : range mmap offset (offset + 4) = some len) : ∃ b₀ b₁ b₂ b₃, len = [b₀, b₁, b₂, b₃] ∧
      mmap[offset]? = some b₀ ∧ mmap[offset + 1]? = some b₁ ∧ mmap[offset + 2]? = some b₂ ∧
      mmap[offset + 3]? = some b₃ := by
  have hlength : len.length = 4 := by
    rw [length_of_range h]
    omega
  match len, hlength with
  | [b₀, b₁, b₂, b₃], _ =>
      exact ⟨b₀, b₁, b₂, b₃, rfl, getElem?_of_range (i := 0) h (by omega),
        getElem?_of_range h (by omega), getElem?_of_range h (by omega),
        getElem?_of_range h (by omega)⟩

/-- A sweep passes the slices that the file reads as to its visitor. -/
theorem settleLoop_eq (visit : σ → Bytes → σ) {mmap : Bytes} {cursor final : Nat}
    {slices : List Bytes} (h : Reads mmap cursor slices final) {fuel : Nat} (hpos : 0 < fuel)
    (hfuel : mmap.length < cursor + fuel) (acc : σ) :
    settleLoop visit mmap fuel cursor acc = some (slices.foldl visit acc, final) := by
  induction h generalizing fuel acc with
  | stop hstop =>
      obtain ⟨fuel, rfl⟩ := Nat.exists_eq_succ_of_ne_zero hpos.ne'
      rw [settleLoop]
      cases hstop with
      | short hshort => rw [if_neg (Nat.not_le.mpr hshort)]; rfl
      | zero hlen hzero =>
          rw [if_pos (le_length_of_range hlen), hlen, Option.bind_eq_bind, Option.bind_some]
          exact if_pos hzero
      | truncated hlen htrunc =>
          rw [if_pos (le_length_of_range hlen), hlen, Option.bind_eq_bind, Option.bind_some]
          dsimp only
          rw [if_pos htrunc, ite_self]
          rfl
  | visit hlen hzero hslice _ ih =>
      obtain ⟨fuel, rfl⟩ := Nat.exists_eq_succ_of_ne_zero hpos.ne'
      have hend := le_length_of_range hslice
      rw [settleLoop, if_pos (le_length_of_range hlen), hlen, Option.bind_eq_bind,
        Option.bind_some]
      dsimp only
      rw [if_neg hzero, if_neg (Nat.not_lt.mpr hend), hslice, Option.bind_some]
      exact ih (by omega) (by omega) _

/-- So does `get_journal`. -/
theorem journalLoop_eq (visit : σ → Bytes → σ) {mmap : Bytes} {offset final : Nat}
    {slices : List Bytes} (h : Reads mmap offset slices final) {fuel : Nat} (hpos : 0 < fuel)
    (hfuel : mmap.length < offset + fuel) (acc : σ) :
    journalLoop visit mmap fuel offset acc = some (slices.foldl visit acc) := by
  induction h generalizing fuel acc with
  | stop hstop =>
      obtain ⟨fuel, rfl⟩ := Nat.exists_eq_succ_of_ne_zero hpos.ne'
      cases hstop with
      | short hshort =>
          rw [journalLoop, if_neg (Nat.not_le.mpr hshort)]
          rfl
      | zero hlen hzero =>
          obtain ⟨b₀, b₁, b₂, b₃, rfl, h₀, h₁, h₂, h₃⟩ := lengthBytes_of_range hlen
          simp only [journalLoop, if_pos (le_length_of_range hlen), h₀, h₁, h₂, h₃,
            Option.bind_eq_bind, Option.bind_some]
          exact if_pos (.inl hzero)
      | truncated hlen htrunc =>
          obtain ⟨b₀, b₁, b₂, b₃, rfl, h₀, h₁, h₂, h₃⟩ := lengthBytes_of_range hlen
          simp only [journalLoop, if_pos (le_length_of_range hlen), h₀, h₁, h₂, h₃,
            Option.bind_eq_bind, Option.bind_some]
          exact if_pos (.inr htrunc)
  | visit hlen hzero hslice _ ih =>
      obtain ⟨fuel, rfl⟩ := Nat.exists_eq_succ_of_ne_zero hpos.ne'
      obtain ⟨b₀, b₁, b₂, b₃, rfl, h₀, h₁, h₂, h₃⟩ := lengthBytes_of_range hlen
      have hend := le_length_of_range hslice
      have hgo := not_or.mpr ⟨hzero, Nat.not_lt.mpr hend⟩
      simp only [journalLoop, if_pos (le_length_of_range hlen), h₀, h₁, h₂, h₃,
        Option.bind_eq_bind, Option.bind_some, if_neg hgo, hslice]
      exact ih (by omega) (by omega) _

theorem foldl_collect (slices collected : List Bytes) :
    slices.foldl (fun slices slice => slices ++ [slice]) collected = collected ++ slices := by
  induction slices generalizing collected with
  | nil => exact (List.append_nil _).symm
  | cons slice slices ih =>
      rw [List.foldl_cons, ih, List.append_assoc]
      rfl

theorem settleSlices_eq {mmap : Bytes} {cursor final : Nat} {slices : List Bytes}
    (h : Reads mmap cursor slices final) : settleSlices mmap cursor = some (slices, final) := by
  rw [settleSlices, settleLoop_eq _ h (Nat.succ_pos _) (by omega), foldl_collect, List.nil_append]

theorem journalSlices_eq {mmap : Bytes} {final : Nat} {slices : List Bytes}
    (h : Reads mmap 0 slices final) : journalSlices mmap = some slices := by
  rw [journalSlices, journalLoop_eq _ h (Nat.succ_pos _) (by omega), foldl_collect, List.nil_append]

end Iso8583Switch
