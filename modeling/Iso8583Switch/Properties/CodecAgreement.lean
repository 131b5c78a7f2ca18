import Iso8583Switch.Dialect.Responses
import Iso8583Switch.Properties.ParsedEvents
import Iso8583Switch.Properties.UniversalCodec

/-!
# The standard dialect and the universal codec agree

Both write the same messages.  They read the same messages alike as long as these set
no bits but those of the twelve fields that both know: a bit that announces another
bitmap, an unknown field and a MAC are where they part.
-/

namespace Iso8583Switch

open Text FieldWalk

/-! ## Bitmaps as arrays and as slices -/

theorem isBitSetIn_toList (bitmap : Bitmap) (field : Nat) :
    isBitSetIn bitmap.toList field = isBitSet bitmap field := by
  have hlength : bitmap.toList.length = 8 := Vector.length_toList
  rw [isBitSetIn, isBitSet, hlength]
  by_cases hfield : 1 ≤ field ∧ field ≤ 64
  · have hbyte : (field - 1) / 8 < 8 := by omega
    rw [if_neg (by omega), dif_pos hfield, List.getElem?_eq_getElem (by omega), Option.getD_some,
      Vector.getElem_toList]
  · rw [if_pos (by omega), dif_neg hfield]

theorem setBitIn_toList (bitmap : Bitmap) (field : Nat) :
    setBitIn bitmap.toList field = (setBit bitmap field).toList := by
  have hlength : bitmap.toList.length = 8 := Vector.length_toList
  rw [setBitIn, setBit, hlength]
  by_cases hfield : 1 ≤ field ∧ field ≤ 64
  · have hbyte : (field - 1) / 8 < 8 := by omega
    rw [if_neg (by omega), dif_pos hfield]
    refine List.ext_getElem ?_ fun i hi hi' => ?_
    · rw [List.length_modify, Vector.length_toList, Vector.length_toList]
    · rw [List.getElem_modify, Vector.getElem_toList, Vector.getElem_toList, Vector.getElem_set]
      split
      next hsame => simp only [hsame]
      next => rfl
  · rw [if_pos (by omega), dif_neg hfield]

theorem bitmapOf_eq (fields : Fields) : bitmapOf fields =
    (fields.foldl (fun bitmap field => setBit bitmap field.1) Bitmap.empty).toList := by
  have hfold (bitmap : Bitmap) :
      fields.foldl (fun bitmap field => setBitIn bitmap field.1) bitmap.toList =
        (fields.foldl (fun bitmap field => setBit bitmap field.1) bitmap).toList := by
    induction fields generalizing bitmap with
    | nil => rfl
    | cons field fields ih => rw [List.foldl_cons, List.foldl_cons, setBitIn_toList, ih]
  exact hfold .empty

theorem length_bitmapOf (fields : Fields) : (bitmapOf fields).length = 8 := by
  rw [bitmapOf_eq]
  exact Vector.length_toList

/-- The bits that are set are those of the fields. -/
theorem isBitSetIn_bitmapOf {fields : Fields} (h : ∀ f ∈ fields, 1 ≤ f.1 ∧ f.1 ≤ 64) {k : Nat}
    (hk : 1 ≤ k ∧ k ≤ 64) :
    isBitSetIn (bitmapOf fields) k = true ↔ ∃ bytes, (k, bytes) ∈ fields := by
  rw [bitmapOf_eq, isBitSetIn_toList, isBitSet_foldl h hk, isBitSet_empty]
  simp

theorem toList_ofBytes {bytes : Bytes} (h : bytes.length = 8) :
    (Bitmap.ofBytes bytes).toList = bytes := by
  refine List.ext_getElem ?_ fun i hi hi' => ?_
  · rw [Vector.length_toList, h]
  · have hbyte : i < 8 := h ▸ hi'
    have hget : (Bitmap.ofBytes bytes)[i] = (bytes[i]?).getD 0 := by
      simp [Bitmap.ofBytes]
    rw [Vector.getElem_toList, hget, List.getElem?_eq_getElem hi', Option.getD_some]

/-! ## Writing -/

theorem StandardDialect.buildResponse_eq (e : UniversalPaymentEvent) :
    universalEncode e = .ok (StandardDialect.buildResponse e) := by
  have hfields : presentOf (StandardDialect.writtenFields e) = presentFields e := rfl
  rw [universalEncode, StandardDialect.buildResponse, hfields, bitmapOf_eq]
  rfl

/-! ## Reading -/

/-- The fields that both decoders know. -/
def commonFields : List Nat := [2, 3, 4, 11, 12, 13, 22, 32, 37, 39, 48, 52]

/-- A text is read as bytes and decoded. -/
theorem readText_bind {α : Type} (raw : Bytes) (offset len : Nat)
    (f : String × Nat → Except DecodeFailure α) :
    (readText raw offset len >>= f) =
      readFixed raw offset len >>= fun p => f (fromUtf8Lossy p.1, p.2) := by
  rw [readText]
  cases readFixed raw offset len with
  | error e => rfl
  | ok p => rfl

/-- A common field is read and assigned alike. -/
theorem StandardDialect.readField_eq (raw bitmap : Bytes) {field : Nat}
    (hfield : field ∈ commonFields) :
    StandardDialect.readField raw bitmap iso1987Dictionary field =
      Iso8583Switch.readField raw field := by
  funext tx offset
  simp only [commonFields, List.mem_cons, List.not_mem_nil, or_false] at hfield
  rcases hfield with rfl | rfl | rfl | rfl | rfl | rfl | rfl | rfl | rfl | rfl | rfl | rfl
  all_goals first
    | rfl
    | rw [Iso8583Switch.readField, readText_bind]; rfl

/-- Bit 1 announces no second bitmap, so there is one. -/
theorem StandardDialect.readBitmap_single {raw bitmap : Bytes} {offset : Nat}
    (hread : readFixed raw offset 8 = .ok (bitmap, offset + 8))
    (hone : isBitSetIn bitmap 1 = false) :
    StandardDialect.readBitmap raw 2 offset = .ok (bitmap, offset + 8) := by
  rw [StandardDialect.readBitmap, hread, ok_bind]
  dsimp only
  rw [hone]
  rfl

/-- With the common fields only, both walks read the same. -/
theorem StandardDialect.walk_eq {raw bitmap : Bytes} (hone : isBitSetIn bitmap 1 = false)
    (h : ∀ field, isBitSetIn bitmap field = true → field ∈ commonFields)
    (tx : UniversalPaymentEvent) (offset : Nat) :
    walk (StandardDialect.isPresent bitmap) (StandardDialect.readField raw bitmap iso1987Dictionary)
        (List.range' 1 64) tx offset =
      walk (isBitSetIn bitmap) (Iso8583Switch.readField raw) (List.range' 1 64) tx offset := by
  refine walk_congr (fun field hfield => ?_) (fun field _ hset => ?_) tx offset
  · have hrange := List.mem_range'_1.mp hfield
    rw [StandardDialect.isPresent]
    by_cases hfirst : field = 1
    · rw [hfirst, hone]
      rfl
    · have hsecond : field ≠ 65 := by omega
      have hthird : field ≠ 129 := by omega
      simp [hfirst, hsecond, hthird]
  · rw [StandardDialect.isPresent, Bool.and_eq_true] at hset
    exact StandardDialect.readField_eq raw bitmap (h field hset.2)

theorem StandardDialect.parse_eq {raw : Bytes}
    (h : ∀ field, isBitSetIn ((raw.drop 4).take 8) field = true → field ∈ commonFields) :
    StandardDialect.parse raw = universalDecode raw := by
  rw [StandardDialect.parse, universalDecode]
  split
  next => rfl
  next hlong =>
    have hmti : readFixed raw 0 4 = .ok ((raw.drop 0).take 4, 4) := if_neg (by omega)
    have hbitmap : readFixed raw 4 8 = .ok ((raw.drop 4).take 8, 12) := if_neg (by omega)
    have hlength : ((raw.drop 4).take 8).length = 8 := by
      rw [List.length_take, List.length_drop]
      omega
    generalize (raw.drop 4).take 8 = bitmap at h hbitmap hlength
    have hone : isBitSetIn bitmap 1 = false := by
      cases hset : isBitSetIn bitmap 1 with
      | false => rfl
      | true => exact absurd (h 1 hset) (by decide)
    have hbits : isBitSet (Bitmap.ofBytes bitmap) = isBitSetIn bitmap := by
      funext field
      rw [← isBitSetIn_toList, toList_ofBytes hlength]
    rw [hmti, ok_bind, ok_bind]
    dsimp only
    rw [StandardDialect.readBitmap_single hbitmap hone, hbitmap, ok_bind, ok_bind]
    dsimp only
    rw [dictionaryOf_eq, hlength, hbits]
    exact congrArg (fun r => r >>= fun p => Except.ok p.1) (StandardDialect.walk_eq hone h _ 12)

/-- The two implementations agree: on every event that they write, and on every message
that sets only the bits of the common fields, errors and panics included. -/
theorem codecs_agree :
    (∀ e, universalEncode e = .ok (StandardDialect.buildResponse e)) ∧
    ∀ raw : Bytes, (∀ field, isBitSetIn ((raw.drop 4).take 8) field = true → field ∈ commonFields) →
      StandardDialect.parse raw = universalDecode raw :=
  ⟨StandardDialect.buildResponse_eq, fun _ h => StandardDialect.parse_eq h⟩

/-- A message that sets the bit of field 3 and has too few bytes for it. -/
def truncatedSample : Bytes := asBytes "0800" ++ (bitmapOf [(3, [])] ++ asBytes "0000")

theorem truncatedSample_bits {field : Nat}
    (h : isBitSetIn ((truncatedSample.drop 4).take 8) field = true) : field ∈ commonFields := by
  have hbitmap : (truncatedSample.drop 4).take 8 = bitmapOf [(3, [])] := by decide
  rw [hbitmap] at h
  by_cases hfield : 1 ≤ field ∧ field ≤ 64
  · obtain ⟨bytes, hmem⟩ := (isBitSetIn_bitmapOf (by decide) hfield).mp h
    cases List.mem_singleton.mp hmem
    decide
  · rw [isBitSetIn, length_bitmapOf, if_pos (by omega)] at h
    cases h

theorem codecs_agree_truncated :
    StandardDialect.parse truncatedSample = universalDecode truncatedSample :=
  codecs_agree.2 truncatedSample fun _ h => truncatedSample_bits h

end Iso8583Switch
