import Iso8583Switch.Library.FieldLayout
import Iso8583Switch.Properties.CodecAgreement

/-!
# Messages on the wire

The three dialects and the universal codec read an MTI, up to three bitmaps and the
fields whose bit is set.  They differ in how many bitmaps they follow, in which fields
they know and in what they do with a field that they do not know: the standard dialect
rejects it, the others pass over its bit as if it were not set.

A `WireMessage` is what a decoder takes a message for.  A decoder accepts exactly the
byte strings that begin with one (`decode_eq_ok`), with one only (`WireMessage.unique`),
and reads no further (`consume_eq_ok`).
-/

namespace Iso8583Switch

open Text FieldWalk

/-! ## The bytes of a field -/

/-- The digits before a field that say how long it is. -/
def FieldType.digits : FieldType → Nat
  | .fixed _ => 0
  | .llvar => 2
  | .lllvar => 3

/-- What the digits say. -/
def lengthOf (lenBytes : Bytes) : Option Nat :=
  if asBytes (fromUtf8Lossy lenBytes) = lenBytes then
    parseUnsigned (2 ^ 64) (fromUtf8Lossy lenBytes)
  else none

/-- The digits say how many bytes are behind them. -/
def VarLength (digits : Nat) (bytes : Bytes) : Prop :=
  digits ≤ bytes.length ∧ lengthOf (bytes.take digits) = some (bytes.length - digits)

/-- The bytes that a field of a type may have, digits and all. -/
def FieldType.WellFormed : FieldType → Bytes → Prop
  | .fixed len, bytes => bytes.length = len
  | .llvar, bytes => VarLength 2 bytes
  | .lllvar, bytes => VarLength 3 bytes

theorem takes_readFixed (len : Nat) : Takes (fun raw offset => readFixed raw offset len)
    (·.length = len) id (.error .lengthError) where
  whole := by
    rintro bytes raw rest offset rfl hat
    exact readFixed_at hat
  cut := by
    rintro bytes part raw offset rfl - hlt ⟨before, rfl, rfl⟩
    rw [readFixed, if_pos (by rw [List.length_append]; omega)]
  only := by
    intro raw offset p hle hread
    rw [readFixed] at hread
    split at hread
    · cases hread
    · cases hread
      have hlen : ((raw.drop offset).take len).length = len := by
        rw [List.length_take, List.length_drop]
        omega
      refine ⟨(raw.drop offset).take len, (raw.drop offset).drop len, hlen, ?_, by rw [hlen]; rfl⟩
      rw [List.take_append_drop]
      exact ⟨raw.take offset, (List.take_append_drop _ _).symm, List.length_take_of_le hle⟩

theorem readVar_eq (digits : Nat) (raw : Bytes) (offset : Nat) : readVar digits raw offset =
    readFixed raw offset digits >>= fun p =>
      match lengthOf p.1 with
      | some len => readFixed raw p.2 len
      | none => .error (.error .invalidFormat) := by
  rw [readVar]
  refine congrArg _ (funext fun p => ?_)
  dsimp only
  rw [fromUtf8, lengthOf]
  split
  · rfl
  · rfl

theorem takes_readVar (digits : Nat) : Takes (readVar digits) (VarLength digits)
    (List.drop digits) (.error .lengthError) where
  whole := by
    rintro bytes raw rest offset ⟨hle, hlen⟩ hat
    rw [← List.take_append_drop digits bytes, List.append_assoc] at hat
    have hdigits : (bytes.take digits).length = digits := List.length_take_of_le hle
    rw [readVar_eq, (takes_readFixed digits).whole hdigits hat, ok_bind]
    dsimp only [id]
    rw [hlen]
    have hread := (takes_readFixed _).whole (List.length_drop (i := digits) (l := bytes)) hat.tail
    refine hread.trans ?_
    rw [hdigits, List.length_drop, Nat.add_assoc, Nat.add_sub_cancel' hle]
    rfl
  cut := by
    rintro bytes part raw offset ⟨hle, hlen⟩ hpart hlt hat
    have hdigits : (bytes.take digits).length = digits := List.length_take_of_le hle
    rw [← List.take_append_drop digits bytes] at hpart
    rw [readVar_eq]
    rcases Nat.lt_or_ge part.length digits with hinside | hbehind
    · -- The digits themselves are cut.
      have hcut : part <+: bytes.take digits := List.prefix_of_prefix_length_le hpart
        (List.prefix_append _ _) (by omega)
      rw [(takes_readFixed digits).cut hdigits hcut (by omega) hat]
      rfl
    · obtain ⟨part', rfl⟩ := List.prefix_of_prefix_length_le (List.prefix_append _ _) hpart
        (hdigits.le.trans hbehind)
      rw [List.length_append, hdigits] at hlt
      rw [(takes_readFixed digits).whole hdigits hat, ok_bind]
      dsimp only [id]
      rw [hlen]
      exact (takes_readFixed _).cut (List.length_drop (i := digits) (l := bytes))
        ((List.prefix_append_right_inj _).mp hpart) (by rw [List.length_drop]; omega) hat.tail
  only := by
    intro raw offset p hle hread
    rw [readVar_eq] at hread
    obtain ⟨q, hfirst, hread⟩ := ok_bind_eq hread
    obtain ⟨lenBytes, rest, hdigits, hat, rfl⟩ := (takes_readFixed digits).only hle hfirst
    dsimp only [id] at hread
    cases hlen : lengthOf lenBytes with
    | none =>
        rw [hlen] at hread
        cases hread
    | some len =>
        rw [hlen] at hread
        obtain ⟨data, rest', hdata, hat', rfl⟩ := (takes_readFixed len).only hat.tail.le hread
        refine ⟨lenBytes ++ data, rest', ⟨?_, ?_⟩, ?_, ?_⟩
        · rw [List.length_append]
          omega
        · rw [List.take_left' hdigits, List.length_append, hdigits, Nat.add_sub_cancel_left, hdata,
            hlen]
        · rw [List.append_assoc, ← At.rest_eq hat.tail hat']
          exact hat
        · rw [List.drop_left' hdigits, List.length_append, Nat.add_assoc]
          rfl

theorem FieldType.takes (ftype : FieldType) : Takes (fun raw offset => ftype.read raw offset)
    ftype.WellFormed (List.drop ftype.digits) (.error .lengthError) := by
  cases ftype with
  | fixed len => exact takes_readFixed len
  | llvar => exact takes_readVar 2
  | lllvar => exact takes_readVar 3

/-! ## Bitmaps -/

/-- Chunks of eight bytes of which every one but the last announces the next.  Behind
the last that may be followed, the first bit announces nothing. -/
def Chunks : Nat → Bytes → Prop
  | 0, bitmaps => bitmaps.length = 8
  | more + 1, bitmaps =>
      if isBitSetIn bitmaps 1 then 8 ≤ bitmaps.length ∧ Chunks more (bitmaps.drop 8)
      else bitmaps.length = 8

theorem Chunks.le_length {more : Nat} {bitmaps : Bytes} (h : Chunks more bitmaps) :
    8 ≤ bitmaps.length ∧ bitmaps.length ≤ 8 * (more + 1) := by
  induction more generalizing bitmaps with
  | zero =>
      change bitmaps.length = 8 at h
      omega
  | succ more ih =>
      rw [Chunks] at h
      split at h
      · obtain ⟨hle, hrest⟩ := h
        have hbound := (ih hrest).2
        rw [List.length_drop] at hbound
        omega
      · omega

theorem isBitSetIn_append {chunk : Bytes} (rest : Bytes) {field : Nat}
    (h : field ≤ chunk.length * 8) : isBitSetIn (chunk ++ rest) field = isBitSetIn chunk field := by
  rw [isBitSetIn, isBitSetIn, List.length_append]
  by_cases hfield : field < 1
  · rw [if_pos (.inl hfield), if_pos (.inl hfield)]
  · rw [if_neg (by omega), if_neg (by omega), List.getElem?_append_left (by omega)]

theorem isBitSetIn_behind {chunk : Bytes} (rest : Bytes) {field : Nat} (h : 1 ≤ field) :
    isBitSetIn (chunk ++ rest) (chunk.length * 8 + field) = isBitSetIn rest field := by
  have hindex : (chunk.length * 8 + field - 1) / 8 = chunk.length + (field - 1) / 8 := by omega
  have hmask : bitMask (chunk.length * 8 + field) = bitMask field := by
    rw [bitMask, bitMask, show (chunk.length * 8 + field - 1) % 8 = (field - 1) % 8 by omega]
  rw [isBitSetIn, isBitSetIn, List.length_append, hindex, hmask,
    List.getElem?_append_right (by omega), Nat.add_sub_cancel_left]
  by_cases hend : rest.length * 8 < field
  · rw [if_pos (.inr (by omega)), if_pos (.inr hend)]
  · rw [if_neg (by omega), if_neg (by omega)]

/-- A bit behind the last byte is not set. -/
theorem isBitSetIn_beyond {bitmap : Bytes} {field : Nat} (h : bitmap.length * 8 < field) :
    isBitSetIn bitmap field = false := by
  rw [isBitSetIn, if_pos (.inr h)]

theorem Chunks.append {more : Nat} {chunk rest : Bytes} (hlen : chunk.length = 8)
    (hset : isBitSetIn chunk 1 = true) (h : Chunks more rest) : Chunks (more + 1) (chunk ++ rest) := by
  rw [Chunks, isBitSetIn_append rest (by omega), hset, if_pos rfl]
  exact ⟨by rw [List.length_append]; omega, by rwa [List.drop_left' hlen]⟩

theorem Chunks.single {more : Nat} {chunk : Bytes} (hlen : chunk.length = 8)
    (hset : isBitSetIn chunk 1 = false) : Chunks more chunk := by
  cases more with
  | zero => exact hlen
  | succ more =>
      rw [Chunks, hset, if_neg Bool.false_ne_true]
      exact hlen

theorem Chunks.cases {more : Nat} {bitmaps : Bytes} (h : Chunks (more + 1) bitmaps) :
    (isBitSetIn bitmaps 1 = false ∧ bitmaps.length = 8) ∨ ∃ chunk rest,
      bitmaps = chunk ++ rest ∧ chunk.length = 8 ∧ isBitSetIn chunk 1 = true ∧ Chunks more rest := by
  rw [Chunks] at h
  cases hset : isBitSetIn bitmaps 1 with
  | false =>
      rw [hset, if_neg Bool.false_ne_true] at h
      exact .inl ⟨rfl, h⟩
  | true =>
      rw [hset, if_pos rfl] at h
      have hlen : (bitmaps.take 8).length = 8 := List.length_take_of_le h.1
      refine .inr ⟨bitmaps.take 8, bitmaps.drop 8, (List.take_append_drop _ _).symm, hlen, ?_, h.2⟩
      rw [← isBitSetIn_append (bitmaps.drop 8) (by omega), List.take_append_drop, hset]

/-- Reading the chunks takes them whole. -/
theorem takes_readBitmap (more : Nat) :
    Takes (fun raw offset => StandardDialect.readBitmap raw more offset) (Chunks more) id
      (.error .lengthError) := by
  induction more with
  | zero => exact takes_readFixed 8
  | succ more ih =>
      refine ⟨?_, ?_, ?_⟩
      · intro bitmaps raw rest offset hchunks hat
        rw [StandardDialect.readBitmap]
        rcases hchunks.cases with ⟨hset, hlen⟩ | ⟨chunk, bitmaps, rfl, hlen, hset, hchunks⟩
        · rw [(takes_readFixed 8).whole hlen hat, ok_bind]
          dsimp only [id]
          rw [hset, if_neg Bool.false_ne_true]
        · rw [List.append_assoc] at hat
          rw [(takes_readFixed 8).whole hlen hat, ok_bind]
          dsimp only [id]
          rw [hset, if_pos rfl, ih.whole hchunks hat.tail, ok_bind, List.length_append,
            Nat.add_assoc]
          rfl
      · intro bitmaps part raw offset hchunks hpart hlt hat
        rw [StandardDialect.readBitmap]
        rcases hchunks.cases with ⟨hset, hlen⟩ | ⟨chunk, bitmaps, rfl, hlen, hset, hchunks⟩
        · rw [(takes_readFixed 8).cut hlen hpart hlt hat]
          rfl
        · rcases Nat.lt_or_ge part.length 8 with hinside | hbehind
          · have hcut : part <+: chunk := List.prefix_of_prefix_length_le hpart
              (List.prefix_append _ _) (by omega)
            rw [(takes_readFixed 8).cut hlen hcut (by omega) hat]
            rfl
          · obtain ⟨part', rfl⟩ := List.prefix_of_prefix_length_le (List.prefix_append _ _) hpart
              (hlen.le.trans hbehind)
            rw [List.length_append, List.length_append] at hlt
            rw [(takes_readFixed 8).whole hlen hat, ok_bind]
            dsimp only [id]
            rw [hset, if_pos rfl, ih.cut hchunks ((List.prefix_append_right_inj _).mp hpart)
              (by omega) hat.tail]
            rfl
      · intro raw offset p hle hread
        rw [StandardDialect.readBitmap] at hread
        obtain ⟨q, hfirst, hread⟩ := ok_bind_eq hread
        obtain ⟨chunk, rest, hlen, hat, rfl⟩ := (takes_readFixed 8).only hle hfirst
        dsimp only [id] at hread
        cases hset : isBitSetIn chunk 1 with
        | false =>
            rw [hset, if_neg Bool.false_ne_true] at hread
            cases hread
            exact ⟨chunk, rest, Chunks.single hlen hset, hat, rfl⟩
        | true =>
            rw [hset, if_pos rfl] at hread
            obtain ⟨q, hmore, hread⟩ := ok_bind_eq hread
            obtain ⟨bitmaps, rest', hchunks, hat', rfl⟩ := ih.only hat.tail.le hmore
            cases hread
            refine ⟨chunk ++ bitmaps, rest', hchunks.append hlen hset, ?_, ?_⟩
            · rw [List.append_assoc, ← At.rest_eq hat.tail hat']
              exact hat
            · rw [List.length_append, Nat.add_assoc]
              rfl

/-! ## The decoders -/

inductive IsoDecoder where
  | universal
  | standard
  | interac
  | ukFps
deriving DecidableEq

namespace IsoDecoder

def decode : IsoDecoder → Bytes → Except DecodeFailure UniversalPaymentEvent
  | .universal => universalDecode
  | .standard => StandardDialect.parse
  | .interac => InteracDialect.parse
  | .ukFps => UkFpsDialect.parse

/-- How many bitmaps a decoder reads behind the first, if they are announced. -/
def moreBitmaps : IsoDecoder → Nat
  | .universal => 0
  | .standard => 2
  | .interac => 0
  | .ukFps => 1

/-- The fields that a decoder knows. -/
def fieldType : IsoDecoder → Nat → Option FieldType
  | .universal, field =>
      if field = 126 then some .lllvar
      else if field ∈ commonFields then iso1987Dictionary field else none
  | .standard, field => iso1987Dictionary field
  | .interac, field =>
      if field = 63 then some .lllvar
      else if field ∈ commonFields then iso1987Dictionary field else none
  | .ukFps, field =>
      if field = 102 ∨ field = 103 then some .llvar
      else if field ∈ commonFields ∧ field ≠ 48 then iso1987Dictionary field else none

def assign (decoder : IsoDecoder) (bitmaps : Bytes) (field : Nat) (data : Bytes)
    (tx : UniversalPaymentEvent) : Except DecodeFailure UniversalPaymentEvent :=
  match decoder with
  | .universal =>
      if field = 126 then
        .ok (if tx.isTokenized then { tx with tavvCryptogram := some (fromUtf8Lossy data) } else tx)
      else StandardDialect.assign bitmaps field data tx
  | .standard => StandardDialect.assign bitmaps field data tx
  | .interac =>
      if field = 48 then .ok { tx with tavvCryptogram := some (fromUtf8Lossy data) }
      else if field = 63 then .ok { tx with domesticSettlementData := some (fromUtf8Lossy data) }
      else .ok (assignField field data tx)
  | .ukFps =>
      if field = 102 then
        let tx := { tx with sourceAccount := some (fromUtf8Lossy data) }
        .ok (if tx.fpan.isEmpty then { tx with fpan := asBytes ("UKFPS-" ++ fromUtf8Lossy data) }
          else tx)
      else if field = 103 then .ok { tx with destinationAccount := some (fromUtf8Lossy data) }
      else .ok (assignField field data tx)

/-- The event before the first field. -/
def blank : IsoDecoder → Bytes → UniversalPaymentEvent
  | .universal, mti => blankEvent mti
  | .standard, mti => { blankEvent mti with isReversal := StandardDialect.isReversal mti }
  | .interac, mti =>
      { blankEvent mti with
        messageClass := classOfMti (fromUtf8Lossy mti)
        requiresInstantClearing := fromUtf8Lossy mti = "0200"
        isReversal := false }
  | .ukFps, mti =>
      { blankEvent mti with messageClass := classOfMti (fromUtf8Lossy mti), isReversal := false }

/-- The bits that a decoder takes for fields.  The standard dialect takes them all but
those that announce a bitmap, the others take the fields that they know. -/
def isRead (decoder : IsoDecoder) (bitmaps : Bytes) (field : Nat) : Bool :=
  match decoder with
  | .standard => StandardDialect.isPresent bitmaps field
  | _ => isBitSetIn bitmaps field && (decoder.fieldType field).isSome

/-- The bits of three bitmaps. -/
def fieldNumbers : List Nat := List.range' 1 192

def take (decoder : IsoDecoder) (field : Nat) (raw : Bytes) (offset : Nat) :
    Except DecodeFailure (Bytes × Nat) :=
  match decoder.fieldType field with
  | some ftype => ftype.read raw offset
  | none => .error (.error .invalidFormat)

/-- The bytes of a field, digits and all. -/
def WellFormed (decoder : IsoDecoder) (field : Nat) (bytes : Bytes) : Prop :=
  ∃ ftype, decoder.fieldType field = some ftype ∧ ftype.WellFormed bytes

/-- What a field holds. -/
def content (decoder : IsoDecoder) (field : Nat) (bytes : Bytes) : Bytes :=
  bytes.drop (match decoder.fieldType field with
    | some ftype => ftype.digits
    | none => 0)

/-- The event, and the offset behind the last byte that was read. -/
def consume (decoder : IsoDecoder) (raw : Bytes) :
    Except DecodeFailure (UniversalPaymentEvent × Nat) := do
  let (mti, offset) ← readFixed raw 0 4
  let (bitmaps, offset) ← StandardDialect.readBitmap raw decoder.moreBitmaps offset
  walk (decoder.isRead bitmaps) (readAndAssign decoder.take (decoder.assign bitmaps) raw) fieldNumbers
    (decoder.blank mti) offset

theorem takes_take (decoder : IsoDecoder) (field : Nat) : Takes (decoder.take field)
    (decoder.WellFormed field) (decoder.content field) (.error .lengthError) := by
  cases htype : decoder.fieldType field with
  | some ftype =>
      have htake : decoder.take field = fun raw offset => ftype.read raw offset := by
        funext raw offset
        rw [take, htype]
      have hwf : decoder.WellFormed field = ftype.WellFormed := by
        funext bytes
        simp [WellFormed, htype]
      have hcontent : decoder.content field = List.drop ftype.digits := by
        funext bytes
        rw [content, htype]
      rw [htake, hwf, hcontent]
      exact ftype.takes
  | none =>
      refine ⟨?_, ?_, ?_⟩
      · rintro bytes raw rest offset ⟨ftype, heq, -⟩
        rw [htype] at heq
        cases heq
      · rintro bytes part raw offset ⟨ftype, heq, -⟩
        rw [htype] at heq
        cases heq
      · intro raw offset p _ hread
        rw [take, htype] at hread
        cases hread

/-! ## What is assigned -/

/-- The amount and the parts of the guard key are assigned by one field each. -/
theorem assign_keeps {decoder : IsoDecoder} {bitmaps data : Bytes} {field : Nat}
    {tx tx' : UniversalPaymentEvent} (h : decoder.assign bitmaps field data tx = .ok tx') :
    (field ≠ 4 → tx'.amount = tx.amount) ∧ (field ≠ 11 → tx'.stan = tx.stan) ∧
      (field ≠ 32 → tx'.acquirerId = tx.acquirerId) ∧ (field ≠ 37 → tx'.rrn = tx.rrn) := by
  have hassign : (field ≠ 4 → (assignField field data tx).amount = tx.amount) ∧
      (field ≠ 11 → (assignField field data tx).stan = tx.stan) ∧
      (field ≠ 32 → (assignField field data tx).acquirerId = tx.acquirerId) ∧
      (field ≠ 37 → (assignField field data tx).rrn = tx.rrn) := by
    unfold assignField
    split
    case h_7 =>
      dsimp only
      split <;> simp
    all_goals simp
  have hstandard (h : StandardDialect.assign bitmaps field data tx = .ok tx') :
      (field ≠ 4 → tx'.amount = tx.amount) ∧ (field ≠ 11 → tx'.stan = tx.stan) ∧
        (field ≠ 32 → tx'.acquirerId = tx.acquirerId) ∧ (field ≠ 37 → tx'.rrn = tx.rrn) := by
    unfold StandardDialect.assign at h
    split at h
    · obtain ⟨_, _, rfl⟩ := additionalData_ok h
      simp
    · cases h
      split <;> simp
    · cases h
      simp
    · cases h
      split <;> simp
    · cases h
      exact hassign
  cases decoder with
  | universal =>
      change (if field = 126 then _ else _) = _ at h
      split at h
      · cases h
        split <;> simp
      · exact hstandard h
  | standard => exact hstandard h
  | interac =>
      change (if field = 48 then _ else if field = 63 then _ else _) = _ at h
      split at h
      · cases h
        simp
      · split at h
        · cases h
          simp
        · cases h
          exact hassign
  | ukFps =>
      change (if field = 102 then _ else if field = 103 then _ else _) = _ at h
      split at h
      · cases h
        split <;> simp
      · split at h
        · cases h
          simp
        · cases h
          exact hassign

/-! ## What the walks read -/

/-- The `match` of each decoder. -/
def readField (decoder : IsoDecoder) (bitmaps raw : Bytes) :
    Nat → UniversalPaymentEvent → Nat → Except DecodeFailure (UniversalPaymentEvent × Nat) :=
  match decoder with
  | .universal => Iso8583Switch.readField raw
  | .standard => StandardDialect.readField raw bitmaps iso1987Dictionary
  | .interac => InteracDialect.readField raw
  | .ukFps => UkFpsDialect.readField raw

/-- The common fields are assigned by one function, except for field 48. -/
theorem assign_common {bitmaps data : Bytes} {field : Nat} (h : field ∈ commonFields)
    (hne : field ≠ 48) (tx : UniversalPaymentEvent) :
    StandardDialect.assign bitmaps field data tx = .ok (assignField field data tx) := by
  simp only [commonFields, List.mem_cons, List.not_mem_nil, or_false] at h
  rcases h with rfl | rfl | rfl | rfl | rfl | rfl | rfl | rfl | rfl | rfl | rfl | rfl
  all_goals first
    | rfl
    | exact absurd rfl hne

/-- The standard dialect reads every field by its type, and fails on one that has none. -/
theorem readField_standard {bitmaps raw : Bytes} {field : Nat} :
    StandardDialect.readField raw bitmaps iso1987Dictionary field =
      readAndAssign standard.take (standard.assign bitmaps) raw field := by
  funext tx offset
  rw [StandardDialect.readField, readAndAssign, take, fieldType]
  cases iso1987Dictionary field with
  | none => rfl
  | some ftype => rfl

/-- Every decoder assigns the common fields alike, except for field 48. -/
theorem assign_common_field {decoder : IsoDecoder} {bitmaps data : Bytes} {field : Nat}
    (h : field ∈ commonFields) (hne : field ≠ 48) (tx : UniversalPaymentEvent) :
    decoder.assign bitmaps field data tx = .ok (assignField field data tx) := by
  have hrange : field ≤ 52 := by
    simp only [commonFields, List.mem_cons, List.not_mem_nil, or_false] at h
    omega
  cases decoder with
  | universal =>
      show (if field = 126 then _ else _) = _
      rw [if_neg (by omega), assign_common h hne]
  | standard => exact assign_common h hne tx
  | interac =>
      show (if field = 48 then _ else if field = 63 then _ else _) = _
      rw [if_neg hne, if_neg (by omega)]
  | ukFps =>
      show (if field = 102 then _ else if field = 103 then _ else _) = _
      rw [if_neg (by omega), if_neg (by omega)]

/-- A field that the decoder knows is read by its type and assigned. -/
theorem readField_known {decoder : IsoDecoder} {bitmaps raw : Bytes} {field : Nat}
    (h : (decoder.fieldType field).isSome = true) : decoder.readField bitmaps raw field =
      readAndAssign decoder.take (decoder.assign bitmaps) raw field := by
  funext tx offset
  cases decoder with
  | universal =>
      change Iso8583Switch.readField raw field tx offset = _
      rw [fieldType] at h
      split at h
      · subst field
        rfl
      · split at h
        · next hne hcommon =>
          rw [← StandardDialect.readField_eq raw bitmaps hcommon, StandardDialect.readField,
            readAndAssign, take, fieldType, if_neg hne, if_pos hcommon]
          simp only [assign, if_neg hne]
          cases hdict : iso1987Dictionary field with
          | none => rfl
          | some ftype => rfl
        · cases h
  | standard => exact congrFun (congrFun readField_standard tx) offset
  | interac =>
      change InteracDialect.readField raw field tx offset = _
      rw [fieldType] at h
      split at h
      · subst field
        rfl
      · split at h
        · next hcommon =>
          simp only [commonFields, List.mem_cons, List.not_mem_nil, or_false] at hcommon
          rcases hcommon with rfl | rfl | rfl | rfl | rfl | rfl | rfl | rfl | rfl | rfl | rfl | rfl
          all_goals rfl
        · cases h
  | ukFps =>
      change UkFpsDialect.readField raw field tx offset = _
      rw [fieldType] at h
      split at h
      · next haccount =>
        rcases haccount with rfl | rfl
        · rfl
        · rfl
      · split at h
        · next hcommon =>
          simp only [commonFields, List.mem_cons, List.not_mem_nil, or_false] at hcommon
          obtain ⟨hcommon, hne⟩ := hcommon
          rcases hcommon with rfl | rfl | rfl | rfl | rfl | rfl | rfl | rfl | rfl | rfl | rfl | rfl
          all_goals first
            | rfl
            | exact absurd rfl hne
        · cases h

/-- Outside the standard dialect, a field that is not known takes no bytes. -/
theorem readField_unknown {decoder : IsoDecoder} {bitmaps raw : Bytes} {field : Nat}
    (hdecoder : decoder ≠ .standard) (h : (decoder.fieldType field).isSome = false)
    (tx : UniversalPaymentEvent) (offset : Nat) :
    decoder.readField bitmaps raw field tx offset = .ok (tx, offset) := by
  cases decoder with
  | standard => exact absurd rfl hdecoder
  | universal =>
      show Iso8583Switch.readField raw field tx offset = .ok (tx, offset)
      unfold Iso8583Switch.readField
      split
      all_goals first
        | rfl
        | cases h
  | interac =>
      show InteracDialect.readField raw field tx offset = .ok (tx, offset)
      unfold InteracDialect.readField
      split
      all_goals first
        | rfl
        | cases h
  | ukFps =>
      show UkFpsDialect.readField raw field tx offset = .ok (tx, offset)
      unfold UkFpsDialect.readField
      split
      all_goals first
        | rfl
        | cases h

/-- Outside the standard dialect, a bit is read if it is set and its field is known. -/
theorem isRead_eq {decoder : IsoDecoder} (h : decoder ≠ .standard) (bitmaps : Bytes) (field : Nat) :
    decoder.isRead bitmaps field =
      (isBitSetIn bitmaps field && (decoder.fieldType field).isSome) := by
  cases decoder with
  | standard => exact absurd rfl h
  | universal => rfl
  | interac => rfl
  | ukFps => rfl

theorem isBitSetIn_of_isRead {decoder : IsoDecoder} {bitmaps : Bytes} {field : Nat}
    (h : decoder.isRead bitmaps field = true) : isBitSetIn bitmaps field = true := by
  by_cases hstandard : decoder = .standard
  · subst hstandard
    change StandardDialect.isPresent bitmaps field = true at h
    rw [StandardDialect.isPresent, Bool.and_eq_true] at h
    exact h.2
  · rw [isRead_eq hstandard, Bool.and_eq_true] at h
    exact h.1

/-- A walk over the bits that may be set is a walk over all bits. -/
theorem walk_fieldNumbers {present : Nat → Bool} {read : Nat → UniversalPaymentEvent → Nat →
    Except DecodeFailure (UniversalPaymentEvent × Nat)} {n : Nat} (hn : n ≤ 192)
    (hbeyond : ∀ field, n < field → present field = false) (tx : UniversalPaymentEvent)
    (offset : Nat) :
    walk present read fieldNumbers tx offset = walk present read (List.range' 1 n) tx offset := by
  have hsplit : fieldNumbers = List.range' 1 n ++ List.range' (1 + n) (192 - n) := by
    rw [List.range'_append_1, Nat.add_sub_cancel' hn]
    rfl
  rw [hsplit, walk_append]
  cases walk present read (List.range' 1 n) tx offset with
  | error e => rfl
  | ok p => exact walk_of_clear (fun field hfield => hbeyond field (by
      have := List.mem_range'_1.mp hfield
      omega)) p.1 p.2

/-- The walk of a decoder that passes over what it does not know. -/
theorem walk_known {decoder : IsoDecoder} (hdecoder : decoder ≠ .standard) {bitmaps raw : Bytes}
    {present : Nat → Bool} {n : Nat} (hn : n ≤ 192) (hlen : bitmaps.length * 8 ≤ n)
    (hpresent : ∀ field, 1 ≤ field → field ≤ n → present field = isBitSetIn bitmaps field)
    (tx : UniversalPaymentEvent) (offset : Nat) :
    walk present (decoder.readField bitmaps raw) (List.range' 1 n) tx offset =
      walk (decoder.isRead bitmaps) (readAndAssign decoder.take (decoder.assign bitmaps) raw)
        fieldNumbers tx offset := by
  rw [walk_fieldNumbers hn fun field hfield => by
    rw [isRead_eq hdecoder, isBitSetIn_beyond (by omega), Bool.false_and]]
  have hknown (field : Nat) (h : decoder.isRead bitmaps field = true) :
      (decoder.fieldType field).isSome = true := by
    rw [isRead_eq hdecoder, Bool.and_eq_true] at h
    exact h.2
  rw [← walk_congr (fun _ _ => rfl) fun field _ hset => readField_known (hknown field hset)]
  refine walk_skips (fun field hfield hset => ?_) (fun field hfield hset hclear => ?_) tx offset
  · have hrange := List.mem_range'_1.mp hfield
    rw [hpresent field (by omega) (by omega)]
    exact isBitSetIn_of_isRead hset
  · have hrange := List.mem_range'_1.mp hfield
    rw [hpresent field (by omega) (by omega)] at hset
    rw [isRead_eq hdecoder, hset, Bool.true_and] at hclear
    exact readField_unknown hdecoder hclear

/-- The walk of the standard dialect. -/
theorem walk_standard {raw bitmaps : Bytes} (hlen : bitmaps.length ≤ 24) (version : UInt8)
    (tx : UniversalPaymentEvent) (offset : Nat) :
    walk (StandardDialect.isPresent bitmaps)
        (StandardDialect.readField raw bitmaps (dictionaryOf version))
        (List.range' 1 (bitmaps.length * 8)) tx offset =
      walk (standard.isRead bitmaps) (readAndAssign standard.take (standard.assign bitmaps) raw)
        fieldNumbers tx offset := by
  have hbeyond (field : Nat) (hfield : bitmaps.length * 8 < field) :
      StandardDialect.isPresent bitmaps field = false := by
    rw [StandardDialect.isPresent, isBitSetIn_beyond hfield, Bool.and_false]
  rw [dictionaryOf_eq, ← walk_fieldNumbers (by omega) hbeyond]
  exact walk_congr (fun _ _ => rfl) (fun _ _ _ => readField_standard) _ _

theorem bind_fst {ε σ : Type} (x : Except ε (σ × Nat)) :
    (x >>= fun (s, _) => Except.ok s) = x.map Prod.fst := by
  cases x with
  | error e => rfl
  | ok p => rfl

theorem isBitSet_ofBytes {bytes : Bytes} (h : bytes.length = 8) :
    isBitSet (Bitmap.ofBytes bytes) = isBitSetIn bytes := by
  funext field
  rw [← isBitSetIn_toList, toList_ofBytes h]

/-- The two bitmaps of the UK dialect are one bitmap. -/
theorem isPresent_append {bitmap secondary : Bytes} (hlen : bitmap.length = 8)
    (hnone : isBitSetIn bitmap 1 = false → secondary = []) (field : Nat) :
    UkFpsDialect.isPresent bitmap secondary field = isBitSetIn (bitmap ++ secondary) field := by
  rw [UkFpsDialect.isPresent]
  split
  next hle => rw [isBitSetIn_append secondary (by omega)]
  next hgt =>
    cases hone : isBitSetIn bitmap 1 with
    | false =>
        rw [hnone hone, Bool.false_and, List.append_nil, isBitSetIn_beyond (by omega)]
    | true =>
        rw [Bool.true_and, ← isBitSetIn_behind secondary (by omega), hlen,
          show 8 * 8 + (field - 64) = field by omega]

/-- Each decoder is its reading of a message, behind one check of the length. -/
theorem decode_eq (decoder : IsoDecoder) (raw : Bytes) : decoder.decode raw =
    if raw.length < 12 then .error (.error .lengthError)
    else (decoder.consume raw).map Prod.fst := by
  cases decoder with
  | universal =>
      show universalDecode raw = _
      rw [universalDecode, consume]
      refine if_congr Iff.rfl rfl ?_
      cases readFixed raw 0 4 with
      | error e => rfl
      | ok p =>
          show (readFixed raw p.2 8 >>= _) = Except.map _ (readFixed raw p.2 8 >>= _)
          cases hbitmap : readFixed raw p.2 8 with
          | error e => rfl
          | ok q =>
              have hlen := (readFixed_ok hbitmap).1
              refine (bind_fst _).trans (congrArg _ ?_)
              rw [isBitSet_ofBytes hlen]
              exact walk_known (by decide : universal ≠ standard) (by decide) (by omega)
                (fun _ _ _ => rfl) _ _
  | standard =>
      show StandardDialect.parse raw = _
      rw [StandardDialect.parse, consume]
      refine if_congr Iff.rfl rfl ?_
      cases hmti : readFixed raw 0 4 with
      | error e => rfl
      | ok p =>
          show (StandardDialect.readBitmap raw 2 p.2 >>= _) =
            Except.map _ (StandardDialect.readBitmap raw 2 p.2 >>= _)
          cases hbitmap : StandardDialect.readBitmap raw 2 p.2 with
          | error e => rfl
          | ok q =>
              obtain ⟨bitmaps, -, hchunks, -, rfl⟩ :=
                (takes_readBitmap 2).only (readFixed_ok hmti).2.2 hbitmap
              have hlen := hchunks.le_length.2
              refine (bind_fst _).trans (congrArg _ ?_)
              exact walk_standard hlen _ _ _
  | interac =>
      show InteracDialect.parse raw = _
      rw [InteracDialect.parse, consume]
      refine if_congr Iff.rfl rfl ?_
      cases readFixed raw 0 4 with
      | error e => rfl
      | ok p =>
          show (readFixed raw p.2 8 >>= _) = Except.map _ (readFixed raw p.2 8 >>= _)
          cases hbitmap : readFixed raw p.2 8 with
          | error e => rfl
          | ok q =>
              have hlen := (readFixed_ok hbitmap).1
              refine (bind_fst _).trans (congrArg _ ?_)
              exact walk_known (by decide : interac ≠ standard) (by decide) (by omega)
                (fun _ _ _ => rfl) _ _
  | ukFps =>
      show UkFpsDialect.parse raw = _
      rw [UkFpsDialect.parse, consume]
      refine if_congr Iff.rfl rfl ?_
      cases readFixed raw 0 4 with
      | error e => rfl
      | ok p =>
          show (readFixed raw p.2 8 >>= _) = Except.map _ ((readFixed raw p.2 8 >>= _) >>= _)
          cases hbitmap : readFixed raw p.2 8 with
          | error e => rfl
          | ok q =>
              obtain ⟨bitmap, offset⟩ := q
              have hlen : bitmap.length = 8 := (readFixed_ok hbitmap).1
              simp only [ok_bind]
              cases hone : isBitSetIn bitmap 1 with
              | false =>
                  refine (bind_fst _).trans (congrArg _ ?_)
                  exact walk_known (by decide : ukFps ≠ standard) (by decide)
                    (show bitmap.length * 8 ≤ 128 by omega) (fun field _ _ => by
                      show UkFpsDialect.isPresent bitmap [] field = isBitSetIn bitmap field
                      rw [isPresent_append hlen fun _ => rfl, List.append_nil]) _ _
              | true =>
                  show (readFixed raw offset 8 >>= _) =
                    Except.map _ ((readFixed raw offset 8 >>= _) >>= _)
                  cases hsecond : readFixed raw offset 8 with
                  | error e => rfl
                  | ok r =>
                      have hlen' : r.1.length = 8 := (readFixed_ok hsecond).1
                      refine (bind_fst _).trans (congrArg _ ?_)
                      exact walk_known (by decide : ukFps ≠ standard) (by decide)
                        (by
                          have hsum : (bitmap ++ r.1).length = 16 := by
                            rw [List.length_append, hlen, hlen']
                          exact (congrArg (· * 8) hsum).le)
                        (fun field _ _ => isPresent_append hlen (fun h => by
                          rw [hone] at h
                          cases h) field) _ _

end IsoDecoder

/-! ## Messages -/

/-- What a decoder takes a message for. -/
structure WireMessage (decoder : IsoDecoder) where
  mti : Bytes
  bitmaps : Bytes
  fields : Fields
  length_mti : mti.length = 4
  chunks : Chunks decoder.moreBitmaps bitmaps
  listed : Listed (decoder.isRead bitmaps) decoder.WellFormed IsoDecoder.fieldNumbers fields

namespace WireMessage

variable {decoder : IsoDecoder}

def bytes (m : WireMessage decoder) : Bytes := m.mti ++ (m.bitmaps ++ payload m.fields)

/-- The assignments of the fields, one after the other. -/
def event (m : WireMessage decoder) : Except DecodeFailure UniversalPaymentEvent :=
  assignAll (decoder.assign m.bitmaps) decoder.content m.fields (decoder.blank m.mti)

theorem le_length_bytes (m : WireMessage decoder) : 12 ≤ m.bytes.length := by
  have hchunks := m.chunks.le_length.1
  rw [bytes, List.length_append, List.length_append, m.length_mti]
  omega

/-- There is one message at most that some bytes begin with. -/
theorem unique {m m' : WireMessage decoder} {raw : Bytes} (h : m.bytes <+: raw)
    (h' : m'.bytes <+: raw) : m = m' := by
  obtain ⟨rest, rfl⟩ := h
  obtain ⟨rest', heq⟩ := h'
  rw [bytes, bytes, List.append_assoc, List.append_assoc, List.append_assoc, List.append_assoc]
    at heq
  obtain ⟨hmti, heq⟩ := List.append_inj heq (m'.length_mti.trans m.length_mti.symm)
  obtain ⟨hbitmaps, heq⟩ := (takes_readBitmap _).unique m'.chunks m.chunks heq
  have hlisted := m'.listed
  rw [hbitmaps] at hlisted
  obtain ⟨hfields, -⟩ := hlisted.unique decoder.takes_take m.listed heq
  cases m
  cases m'
  subst hmti hbitmaps hfields
  rfl

/-- Some bytes that begin with a message are consumed up to its end. -/
theorem consume_append (m : WireMessage decoder) (rest : Bytes) :
    decoder.consume (m.bytes ++ rest) = m.event.map fun e => (e, m.bytes.length) := by
  have hmti : At (m.bytes ++ rest) 0 (m.mti ++ (m.bitmaps ++ (payload m.fields ++ rest))) :=
    ⟨[], by rw [bytes, List.append_assoc, List.append_assoc]; rfl, rfl⟩
  rw [IsoDecoder.consume, (takes_readFixed 4).whole m.length_mti hmti, ok_bind]
  dsimp only [id]
  rw [(takes_readBitmap _).whole m.chunks hmti.tail, ok_bind]
  dsimp only [id]
  rw [walk_listed decoder.takes_take m.listed hmti.tail.tail, bytes, List.length_append,
    List.length_append, Nat.zero_add, Nat.add_assoc]
  rfl

/-- A message that is cut off is not consumed. -/
theorem consume_cut (m : WireMessage decoder) {e : UniversalPaymentEvent} (he : m.event = .ok e)
    {part : Bytes} (hpart : part <+: m.bytes) (hlt : part.length < m.bytes.length) :
    decoder.consume part = .error (.error .lengthError) := by
  have hat : At part 0 part := ⟨[], rfl, rfl⟩
  rw [bytes] at hpart hlt
  rw [IsoDecoder.consume]
  rcases Nat.lt_or_ge part.length m.mti.length with hinside | hbehind
  · -- The cut is inside the MTI.
    have hcut : part <+: m.mti :=
      List.prefix_of_prefix_length_le hpart (List.prefix_append _ _) (Nat.le_of_lt hinside)
    rw [(takes_readFixed 4).cut m.length_mti hcut hinside hat]
    rfl
  obtain ⟨part, rfl⟩ := List.prefix_of_prefix_length_le (List.prefix_append _ _) hpart hbehind
  rw [List.prefix_append_right_inj] at hpart
  rw [List.length_append, List.length_append, Nat.add_lt_add_iff_left] at hlt
  rw [(takes_readFixed 4).whole m.length_mti hat, ok_bind]
  dsimp only [id]
  rcases Nat.lt_or_ge part.length m.bitmaps.length with hinside | hbehind
  · -- The cut is inside the bitmaps.
    have hcut : part <+: m.bitmaps :=
      List.prefix_of_prefix_length_le hpart (List.prefix_append _ _) (Nat.le_of_lt hinside)
    rw [(takes_readBitmap _).cut m.chunks hcut hinside hat.tail]
    rfl
  obtain ⟨part, rfl⟩ := List.prefix_of_prefix_length_le (List.prefix_append _ _) hpart hbehind
  rw [List.prefix_append_right_inj] at hpart
  rw [List.length_append, List.length_append, Nat.add_lt_add_iff_left] at hlt
  rw [(takes_readBitmap _).whole m.chunks hat.tail, ok_bind]
  exact walk_cut decoder.takes_take m.listed he hpart hlt hat.tail.tail

/-- The bitmaps stand behind the MTI. -/
theorem bitmaps_eq (m : WireMessage decoder) {raw : Bytes} (h : m.bytes <+: raw) :
    (raw.drop 4).take m.bitmaps.length = m.bitmaps := by
  obtain ⟨rest, rfl⟩ := h
  rw [bytes, List.append_assoc, List.append_assoc, List.drop_left' m.length_mti,
    List.take_left' rfl]

theorem nodup_numbers (m : WireMessage decoder) : (m.fields.map Prod.fst).Nodup := by
  rw [m.listed.numbers]
  exact List.Pairwise.filter _ List.nodup_range'

/-- The bytes of a field that the decoder knows by its type. -/
theorem wellFormed (m : WireMessage decoder) {field : Nat} {bytes : Bytes} {ftype : FieldType}
    (hmem : (field, bytes) ∈ m.fields) (htype : decoder.fieldType field = some ftype) :
    ftype.WellFormed bytes := by
  obtain ⟨ftype', heq, hwf⟩ := m.listed.wellFormed _ hmem
  rw [htype] at heq
  cases heq
  exact hwf

end WireMessage

namespace IsoDecoder

variable {decoder : IsoDecoder}

/-- What is consumed is a message. -/
theorem consume_eq_ok {raw : Bytes} {p : UniversalPaymentEvent × Nat} :
    decoder.consume raw = .ok p ↔
      ∃ m : WireMessage decoder, m.bytes <+: raw ∧ m.event = .ok p.1 ∧ p.2 = m.bytes.length := by
  refine ⟨fun hread => ?_, ?_⟩
  · rw [consume] at hread
    obtain ⟨q, hmti, hread⟩ := ok_bind_eq hread
    obtain ⟨mti, rest, hlen, hat, rfl⟩ := (takes_readFixed 4).only (Nat.zero_le _) hmti
    obtain ⟨q, hbitmaps, hread⟩ := ok_bind_eq hread
    obtain ⟨bitmaps, rest', hchunks, hat', rfl⟩ := (takes_readBitmap _).only hat.tail.le hbitmaps
    obtain ⟨fields, rest'', hlisted, hat'', hassign, hend⟩ :=
      listed_of_walk decoder.takes_take hat'.tail.le hread
    have hwhole := hat
    rw [At.rest_eq hat.tail hat', At.rest_eq hat'.tail hat''] at hwhole
    obtain ⟨before, rfl, hbefore⟩ := hwhole
    have hnil : before = [] := List.length_eq_zero_iff.mp hbefore
    subst hnil
    refine ⟨⟨mti, bitmaps, fields, hlen, hchunks, hlisted⟩, ⟨rest'', ?_⟩, hassign, ?_⟩
    · simp only [WireMessage.bytes, List.append_assoc, List.nil_append]
    · rw [hend, WireMessage.bytes, List.length_append, List.length_append, Nat.zero_add,
        Nat.add_assoc]
  · rintro ⟨m, ⟨rest, rfl⟩, he, hend⟩
    rw [m.consume_append rest, he, ← hend]
    rfl

/-- A decoder accepts what begins with a message whose fields can all be assigned. -/
theorem decode_eq_ok {raw : Bytes} {e : UniversalPaymentEvent} : decoder.decode raw = .ok e ↔
    ∃ m : WireMessage decoder, m.bytes <+: raw ∧ m.event = .ok e := by
  rw [decode_eq]
  refine ⟨fun h => ?_, ?_⟩
  · split at h
    · cases h
    · cases hread : decoder.consume raw with
      | error _ =>
          rw [hread] at h
          cases h
      | ok p =>
          rw [hread] at h
          cases h
          obtain ⟨m, hpart, he, -⟩ := consume_eq_ok.mp hread
          exact ⟨m, hpart, he⟩
  · rintro ⟨m, hpart, he⟩
    have hlong := m.le_length_bytes.trans hpart.length_le
    have hread : decoder.consume raw = .ok (e, m.bytes.length) :=
      consume_eq_ok.mpr ⟨m, hpart, he, rfl⟩
    rw [if_neg (by omega), hread]
    rfl

end IsoDecoder

end Iso8583Switch
