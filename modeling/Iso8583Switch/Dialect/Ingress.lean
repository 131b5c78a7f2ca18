import Iso8583Switch.Dialect.Universal

/-!
# The dialects of the listeners

payment-proto/src/iso_dialect.rs and payment-proto/src/dialects.  A listener reads
its frames with one of three parsers.

* `StandardDialect` reads up to three bitmaps.  The type of a field comes from a
  data dictionary, and a field that is not in it is an error.
* `InteracDialect` reads one bitmap and skips what it does not know.
* `UkFpsDialect` reads a secondary bitmap if bit 1 is set, and takes the PAN from
  the source account where there is no field 2.

The readers of this crate are those of the universal codec, and so is field 48 of
the standard dialect.
-/

namespace Iso8583Switch

open Text FieldWalk

/-! ## Bitmaps of any length -/

/-- `is_bit_set` on a slice. -/
def isBitSetIn (bitmap : Bytes) (field : Nat) : Bool :=
  if field < 1 ∨ bitmap.length * 8 < field then false
  else (bitmap[(field - 1) / 8]?).getD 0 &&& bitMask field != 0

/-! ## Data dictionaries -/

inductive FieldType where
  | fixed (len : Nat)
  | llvar
  | lllvar
deriving DecidableEq

def iso1987Dictionary (field : Nat) : Option FieldType :=
  match field with
  | 2 => some .llvar
  | 3 => some (.fixed 6)
  | 4 => some (.fixed 12)
  | 11 => some (.fixed 6)
  | 12 => some (.fixed 6)
  | 13 => some (.fixed 4)
  | 22 => some (.fixed 3)
  | 32 => some .llvar
  | 37 => some (.fixed 12)
  | 39 => some (.fixed 2)
  | 48 => some .lllvar
  | 52 => some (.fixed 16)
  | 64 => some (.fixed 16)
  | 90 => some (.fixed 42)
  | 128 => some (.fixed 16)
  | _ => none

def iso1993Dictionary (field : Nat) : Option FieldType := iso1987Dictionary field

def iso2003Dictionary (field : Nat) : Option FieldType := iso1987Dictionary field

/-- The dictionary for the first byte of an MTI. -/
def dictionaryOf (version : UInt8) : Nat → Option FieldType :=
  if version = 48 then iso1987Dictionary
  else if version = 49 then iso1993Dictionary
  else if version = 50 then iso2003Dictionary
  else iso1987Dictionary

def FieldType.read (raw : Bytes) (offset : Nat) :
    FieldType → Except DecodeFailure (Bytes × Nat)
  | .fixed len => readFixed raw offset len
  | .llvar => readLlvar raw offset
  | .lllvar => readLllvar raw offset

/-! ## What the three parsers share -/

/-- The assignments that do not differ between the dialects. -/
def assignField (field : Nat) (data : Bytes) (tx : UniversalPaymentEvent) :
    UniversalPaymentEvent :=
  match field with
  | 2 => { tx with fpan := data }
  | 3 => { tx with processingCode := fromUtf8Lossy data }
  | 4 =>
      let amtStr := fromUtf8Lossy data
      { tx with amount := UInt64.ofNat ((parseUnsigned (2 ^ 64) amtStr).getD 0) }
  | 11 => { tx with stan := fromUtf8Lossy data }
  | 12 => { tx with localTime := fromUtf8Lossy data }
  | 13 => { tx with localDate := fromUtf8Lossy data }
  | 22 =>
      let entryMode := fromUtf8Lossy data
      if entryMode = "071" ∨ entryMode = "072" then { tx with isTokenized := true } else tx
  | 32 => { tx with acquirerId := data }
  | 37 => { tx with rrn := fromUtf8Lossy data }
  | 39 => { tx with responseCode := fromUtf8Lossy data }
  | 52 => { tx with pinBlock := data }
  | _ => tx

/-- Read a field and assign it. -/
def takeField (raw : Bytes) (ftype : FieldType) (field : Nat) (tx : UniversalPaymentEvent)
    (offset : Nat) : Except DecodeFailure (UniversalPaymentEvent × Nat) := do
  let (data, offset) ← ftype.read raw offset
  .ok (assignField field data tx, offset)

/-! ## StandardDialect -/

namespace StandardDialect

/-- The bitmap chunks, as long as the first bit of a chunk announces another. -/
def readBitmap (raw : Bytes) : Nat → Nat → Except DecodeFailure (Bytes × Nat)
  | 0, offset => readFixed raw offset 8
  | more + 1, offset => do
      let (chunk, offset) ← readFixed raw offset 8
      if isBitSetIn chunk 1 then
        let (bitmap, offset) ← readBitmap raw more offset
        .ok (chunk ++ bitmap, offset)
      else .ok (chunk, offset)

/-- The loop over the bitmaps as it is written, with the number of the first bit of the
chunk at hand. -/
def bitmapLoop (raw bitmap : Bytes) (bitOffset offset : Nat) :
    Except DecodeFailure (Bytes × Nat) := do
  let (chunk, offset) ← readFixed raw offset 8
  let bitmap := bitmap ++ chunk
  if (chunk[0]?).getD 0 &&& 0x80 ≠ 0 ∧ bitOffset < 129 then
    bitmapLoop raw bitmap (bitOffset + 64) offset
  else .ok (bitmap, offset)
termination_by 129 - bitOffset

def isReversal (mti : Bytes) : Bool :=
  mti = asBytes "0400" || mti = asBytes "0420" || mti = asBytes "1420"

/-- The `match` behind the read. -/
def assign (bitmap : Bytes) (field : Nat) (data : Bytes) (tx : UniversalPaymentEvent) :
    Except DecodeFailure UniversalPaymentEvent :=
  match field with
  | 48 => additionalData (fromUtf8Lossy data) tx
  | 64 => .ok (if isBitSetIn bitmap 1 then tx else { tx with macData := some (fromUtf8Lossy data) })
  | 90 => .ok { tx with originalDataElements := some (fromUtf8Lossy data) }
  | 128 => .ok (if isBitSetIn bitmap 1 then { tx with macData := some (fromUtf8Lossy data) } else tx)
  | _ => .ok (assignField field data tx)

def readField (raw bitmap : Bytes) (dict : Nat → Option FieldType) (field : Nat)
    (tx : UniversalPaymentEvent) (offset : Nat) :
    Except DecodeFailure (UniversalPaymentEvent × Nat) :=
  match dict field with
  | some ftype => do
      let (data, offset) ← ftype.read raw offset
      let tx ← assign bitmap field data tx
      .ok (tx, offset)
  | none => .error (.error .invalidFormat)

/-- The bits that announce a bitmap are no fields. -/
def isPresent (bitmap : Bytes) (field : Nat) : Bool :=
  field ≠ 1 && field ≠ 65 && field ≠ 129 && isBitSetIn bitmap field

def parse (raw : Bytes) : Except DecodeFailure UniversalPaymentEvent :=
  if raw.length < 12 then .error (.error .lengthError)
  else do
    let (mti, offset) ← readFixed raw 0 4
    let dict := dictionaryOf ((mti[0]?).getD 0)
    let (bitmap, offset) ← readBitmap raw 2 offset
    let tx := { blankEvent mti with isReversal := isReversal mti }
    let (tx, _) ← walk (isPresent bitmap) (readField raw bitmap dict)
      (List.range' 1 (bitmap.length * 8)) tx offset
    .ok tx

end StandardDialect

/-! ## InteracDialect -/

namespace InteracDialect

def readField (raw : Bytes) (field : Nat) (tx : UniversalPaymentEvent) (offset : Nat) :
    Except DecodeFailure (UniversalPaymentEvent × Nat) :=
  match field with
  | 2 => takeField raw .llvar field tx offset
  | 3 => takeField raw (.fixed 6) field tx offset
  | 4 => takeField raw (.fixed 12) field tx offset
  | 11 => takeField raw (.fixed 6) field tx offset
  | 12 => takeField raw (.fixed 6) field tx offset
  | 13 => takeField raw (.fixed 4) field tx offset
  | 22 => takeField raw (.fixed 3) field tx offset
  | 32 => takeField raw .llvar field tx offset
  | 37 => takeField raw (.fixed 12) field tx offset
  | 39 => takeField raw (.fixed 2) field tx offset
  | 48 => do
      let (data, offset) ← readLllvar raw offset
      .ok ({ tx with tavvCryptogram := some (fromUtf8Lossy data) }, offset)
  | 52 => takeField raw (.fixed 16) field tx offset
  | 63 => do
      let (data, offset) ← readLllvar raw offset
      .ok ({ tx with domesticSettlementData := some (fromUtf8Lossy data) }, offset)
  | _ => .ok (tx, offset)

def parse (raw : Bytes) : Except DecodeFailure UniversalPaymentEvent :=
  if raw.length < 12 then .error (.error .lengthError)
  else do
    let (mti, offset) ← readFixed raw 0 4
    let (bitmap, offset) ← readFixed raw offset 8
    let mtiStr := fromUtf8Lossy mti
    let tx :=
      { blankEvent mti with
        messageClass := classOfMti mtiStr
        requiresInstantClearing := mtiStr = "0200"
        isReversal := false }
    let (tx, _) ← walk (isBitSetIn bitmap) (readField raw) (List.range' 1 64) tx offset
    .ok tx

end InteracDialect

/-! ## UkFpsDialect -/

namespace UkFpsDialect

def readField (raw : Bytes) (field : Nat) (tx : UniversalPaymentEvent) (offset : Nat) :
    Except DecodeFailure (UniversalPaymentEvent × Nat) :=
  match field with
  | 2 => takeField raw .llvar field tx offset
  | 3 => takeField raw (.fixed 6) field tx offset
  | 4 => takeField raw (.fixed 12) field tx offset
  | 11 => takeField raw (.fixed 6) field tx offset
  | 12 => takeField raw (.fixed 6) field tx offset
  | 13 => takeField raw (.fixed 4) field tx offset
  | 22 => takeField raw (.fixed 3) field tx offset
  | 32 => takeField raw .llvar field tx offset
  | 37 => takeField raw (.fixed 12) field tx offset
  | 39 => takeField raw (.fixed 2) field tx offset
  | 52 => takeField raw (.fixed 16) field tx offset
  | 102 => do
      let (data, offset) ← readLlvar raw offset
      let f102 := fromUtf8Lossy data
      let tx := { tx with sourceAccount := some f102 }
      .ok (if tx.fpan.isEmpty then { tx with fpan := asBytes ("UKFPS-" ++ f102) } else tx, offset)
  | 103 => do
      let (data, offset) ← readLlvar raw offset
      .ok ({ tx with destinationAccount := some (fromUtf8Lossy data) }, offset)
  | _ => .ok (tx, offset)

def isPresent (bitmap secondary : Bytes) (field : Nat) : Bool :=
  if field ≤ 64 then isBitSetIn bitmap field
  else isBitSetIn bitmap 1 && isBitSetIn secondary (field - 64)

def parse (raw : Bytes) : Except DecodeFailure UniversalPaymentEvent :=
  if raw.length < 12 then .error (.error .lengthError)
  else do
    let (mti, offset) ← readFixed raw 0 4
    let (bitmap, offset) ← readFixed raw offset 8
    let (secondary, offset) ←
      if isBitSetIn bitmap 1 then readFixed raw offset 8 else .ok ([], offset)
    let tx :=
      { blankEvent mti with messageClass := classOfMti (fromUtf8Lossy mti), isReversal := false }
    let (tx, _) ← walk (isPresent bitmap secondary) (readField raw) (List.range' 1 128) tx offset
    .ok tx

end UkFpsDialect

/-- The dialects that a listener can speak. -/
inductive IngressDialect where
  | standard
  | interac
  | ukFps
deriving DecidableEq

def IngressDialect.parse : IngressDialect → Bytes → Except DecodeFailure UniversalPaymentEvent
  | .standard => StandardDialect.parse
  | .interac => InteracDialect.parse
  | .ukFps => UkFpsDialect.parse

end Iso8583Switch
