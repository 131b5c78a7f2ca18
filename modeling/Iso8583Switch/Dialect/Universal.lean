import Iso8583Switch.Canonical
import Iso8583Switch.Library.FieldWalk

/-!
# The universal codec

iso-dialect/src/lib.rs.  A message is an MTI, a bitmap of 64 bits and the fields whose
bit is set.  The encoder appends the fields in the order of its code.  The decoder
walks the bits in numeric order.
-/

namespace Iso8583Switch

open Text FieldWalk

inductive ParseError where
  | invalidFormat
  | unknownMti
  | lengthError
deriving DecidableEq

/-- How a decoding ends without an event. -/
inductive DecodeFailure where
  | error (e : ParseError)
  | panicked
deriving DecidableEq

/-! ## The bitmap -/

abbrev Bitmap := Vector UInt8 8

def Bitmap.empty : Bitmap := Vector.replicate 8 0

/-- The bit of a field in its byte. -/
def bitMask (field : Nat) : UInt8 := 0x80 >>> UInt8.ofNat ((field - 1) % 8)

def setBit (bitmap : Bitmap) (field : Nat) : Bitmap :=
  if h : 1 ≤ field ∧ field ≤ 64 then
    have hbyte : (field - 1) / 8 < 8 := by omega
    bitmap.set ((field - 1) / 8) (bitmap[(field - 1) / 8] ||| bitMask field)
  else bitmap

def isBitSet (bitmap : Bitmap) (field : Nat) : Bool :=
  if h : 1 ≤ field ∧ field ≤ 64 then
    have hbyte : (field - 1) / 8 < 8 := by omega
    bitmap[(field - 1) / 8] &&& bitMask field != 0
  else false

/-- `copy_from_slice` of eight bytes. -/
def Bitmap.ofBytes (bytes : Bytes) : Bitmap := Vector.ofFn fun i => (bytes[i.val]?).getD 0

/-! ## Reading -/

/-- The next bytes, and the offset behind them. -/
def readFixed (data : Bytes) (offset len : Nat) : Except DecodeFailure (Bytes × Nat) :=
  if data.length < offset + len then .error (.error .lengthError)
  else .ok ((data.drop offset).take len, offset + len)

/-- `str::from_utf8`.  Bytes are UTF-8 if decoding them loses nothing. -/
def fromUtf8 (bytes : Bytes) : Except DecodeFailure String :=
  if asBytes (fromUtf8Lossy bytes) = bytes then .ok (fromUtf8Lossy bytes)
  else .error (.error .invalidFormat)

/-- A value with its length in some digits before it. -/
def readVar (digits : Nat) (data : Bytes) (offset : Nat) : Except DecodeFailure (Bytes × Nat) := do
  let (lenBytes, offset) ← readFixed data offset digits
  let lenStr ← fromUtf8 lenBytes
  match parseUnsigned (2 ^ 64) lenStr with
  | some len => readFixed data offset len
  | none => .error (.error .invalidFormat)

def readLlvar (data : Bytes) (offset : Nat) : Except DecodeFailure (Bytes × Nat) :=
  readVar 2 data offset

def readLllvar (data : Bytes) (offset : Nat) : Except DecodeFailure (Bytes × Nat) :=
  readVar 3 data offset

/-- A field of fixed length, as a string. -/
def readText (data : Bytes) (offset len : Nat) : Except DecodeFailure (String × Nat) := do
  let (bytes, offset) ← readFixed data offset len
  .ok (fromUtf8Lossy bytes, offset)

/-! ## Writing -/

def writeFixed (val : Bytes) (len : Nat) (padChar : UInt8) (padRight : Bool) : Bytes :=
  if len ≤ val.length then val.take len
  else
    let padding := List.replicate (len - val.length) padChar
    if padRight then val ++ padding else padding ++ val

/-- Nothing is written for a value that is too long. -/
def writeVar (digits cap : Nat) (val : Bytes) : Bytes :=
  if cap < val.length then [] else asBytes (zeroPadded digits val.length) ++ val

def writeLlvar (val : Bytes) : Bytes := writeVar 2 99 val

def writeLllvar (val : Bytes) : Bytes := writeVar 3 999 val

/-! ## Decoding -/

def decodedClass (mti : Bytes) : MessageClass :=
  if mti = asBytes "0100" ∨ mti = asBytes "0110" then .authorization
  else if mti = asBytes "0200" ∨ mti = asBytes "0210" then .financial
  else if mti = asBytes "0420" ∨ mti = asBytes "0421" then .reversalAdvice
  else if mti = asBytes "0430" then .reversalResponse
  else if mti = asBytes "0800" then .networkManagement
  else if mti = asBytes "0810" then .networkManagementResponse
  else .financial

def decodedReversal (mti : Bytes) : Bool :=
  mti = asBytes "0400" || mti = asBytes "0420" || mti = asBytes "1420"

/-- The event before the first field. -/
def blankEvent (mti : Bytes) : UniversalPaymentEvent where
  messageClass := decodedClass mti
  transactionType := .purchase
  mti := mti
  fpan := []
  dpan := none
  isTokenized := false
  tavvCryptogram := none
  processingCode := ""
  amount := 0
  stan := ""
  localTime := ""
  localDate := ""
  rrn := ""
  responseCode := ""
  acquirerId := []
  pinBlock := []
  riskScore := 0
  requiresInstantClearing := false
  domesticSettlementData := none
  sourceAccount := none
  destinationAccount := none
  originalDataElements := none
  macData := none
  isReversal := decodedReversal mti

/-- A slice of field 48, or a panic. -/
def sliceField (s : String) (a b : Nat) : Except DecodeFailure String :=
  match slice s a b with
  | some part => .ok part
  | none => .error .panicked

/-- Field 48: the network risk score `RSK:NNN:` and the cryptogram behind it, or the
cryptogram alone. -/
def additionalData (f48 : String) (tx : UniversalPaymentEvent) :
    Except DecodeFailure UniversalPaymentEvent :=
  if (asBytes "RSK:").isPrefixOf (asBytes f48) ∧ 8 ≤ len f48 then do
    let digits ← sliceField f48 4 7
    let tx := match parseUnsigned 256 digits with
      | some score => { tx with riskScore := UInt8.ofNat score }
      | none => tx
    let remainder ← sliceField f48 8 (len f48)
    .ok (if tx.isTokenized && remainder ≠ "" then { tx with tavvCryptogram := some remainder }
      else tx)
  else .ok (if tx.isTokenized then { tx with tavvCryptogram := some f48 } else tx)

/-- Field 48 sets the risk score and the cryptogram. -/
theorem additionalData_ok {f48 : String} {tx tx' : UniversalPaymentEvent}
    (h : additionalData f48 tx = .ok tx') : ∃ riskScore tavvCryptogram,
      tx' = { tx with riskScore := riskScore, tavvCryptogram := tavvCryptogram } := by
  rw [additionalData] at h
  split at h
  · obtain ⟨digits, -, h⟩ := ok_bind_eq h
    obtain ⟨remainder, -, h⟩ := ok_bind_eq h
    cases h
    -- The score may be set, and the cryptogram.
    split <;> split
    all_goals exact ⟨_, _, rfl⟩
  · cases h
    split
    · exact ⟨_, _, rfl⟩
    · exact ⟨_, _, rfl⟩

/-- The `match` of the loop. -/
def readField (raw : Bytes) (field : Nat) (tx : UniversalPaymentEvent) (offset : Nat) :
    Except DecodeFailure (UniversalPaymentEvent × Nat) :=
  match field with
  | 2 => do
      let (fpan, offset) ← readLlvar raw offset
      .ok ({ tx with fpan := fpan }, offset)
  | 3 => do
      let (processingCode, offset) ← readText raw offset 6
      .ok ({ tx with processingCode := processingCode }, offset)
  | 4 => do
      let (amtStr, offset) ← readText raw offset 12
      .ok ({ tx with amount := UInt64.ofNat ((parseUnsigned (2 ^ 64) amtStr).getD 0) }, offset)
  | 11 => do
      let (stan, offset) ← readText raw offset 6
      .ok ({ tx with stan := stan }, offset)
  | 12 => do
      let (localTime, offset) ← readText raw offset 6
      .ok ({ tx with localTime := localTime }, offset)
  | 13 => do
      let (localDate, offset) ← readText raw offset 4
      .ok ({ tx with localDate := localDate }, offset)
  | 22 => do
      let (entryMode, offset) ← readText raw offset 3
      .ok (if entryMode = "071" ∨ entryMode = "072" then { tx with isTokenized := true } else tx,
        offset)
  | 32 => do
      let (acquirerId, offset) ← readLlvar raw offset
      .ok ({ tx with acquirerId := acquirerId }, offset)
  | 37 => do
      let (rrn, offset) ← readText raw offset 12
      .ok ({ tx with rrn := rrn }, offset)
  | 39 => do
      let (responseCode, offset) ← readText raw offset 2
      .ok ({ tx with responseCode := responseCode }, offset)
  | 48 => do
      let (bytes, offset) ← readLllvar raw offset
      let tx ← additionalData (fromUtf8Lossy bytes) tx
      .ok (tx, offset)
  | 52 => do
      let (pinBlock, offset) ← readFixed raw offset 16
      .ok ({ tx with pinBlock := pinBlock }, offset)
  | 126 => do
      let (bytes, offset) ← readLllvar raw offset
      .ok (if tx.isTokenized then { tx with tavvCryptogram := some (fromUtf8Lossy bytes) } else tx,
        offset)
  -- An unknown field takes no bytes.
  | _ => .ok (tx, offset)

def universalDecode (raw : Bytes) : Except DecodeFailure UniversalPaymentEvent :=
  if raw.length < 12 then .error (.error .lengthError)
  else do
    let (mti, offset) ← readFixed raw 0 4
    let (bitmapBytes, offset) ← readFixed raw offset 8
    let bitmap := Bitmap.ofBytes bitmapBytes
    let (tx, _) ← walk (isBitSet bitmap) (readField raw) (List.range' 1 64) (blankEvent mti) offset
    .ok tx

/-! ## Encoding -/

/-- One `if` of the encoder: the field, whether it is written, and its bytes. -/
structure WrittenField where
  number : Nat
  present : Bool
  bytes : Bytes

/-- The fields in the order of the code. -/
def writtenFields (tx : UniversalPaymentEvent) : List WrittenField :=
  [⟨2, !tx.fpan.isEmpty, writeLlvar tx.fpan⟩,
    ⟨3, tx.processingCode ≠ "", writeFixed (asBytes tx.processingCode) 6 48 false⟩,
    ⟨4, 0 < tx.amount || ((asBytes "02").isPrefixOf tx.mti && tx.messageClass = .financial),
      writeFixed (asBytes (zeroPadded 12 tx.amount.toNat)) 12 48 false⟩,
    ⟨11, tx.stan ≠ "", writeFixed (asBytes tx.stan) 6 48 false⟩,
    ⟨12, tx.localTime ≠ "", writeFixed (asBytes tx.localTime) 6 48 false⟩,
    ⟨13, tx.localDate ≠ "", writeFixed (asBytes tx.localDate) 4 48 false⟩,
    ⟨22, tx.isTokenized, writeFixed (asBytes "071") 3 48 false⟩,
    ⟨32, !tx.acquirerId.isEmpty, writeLlvar tx.acquirerId⟩,
    ⟨37, tx.rrn ≠ "", writeFixed (asBytes tx.rrn) 12 32 true⟩,
    ⟨39, tx.responseCode ≠ "", writeFixed (asBytes tx.responseCode) 2 32 false⟩,
    ⟨48, tx.isTokenized && tx.tavvCryptogram.isSome,
      writeLllvar (asBytes (tx.tavvCryptogram.getD ""))⟩,
    ⟨52, !tx.pinBlock.isEmpty, writeFixed tx.pinBlock 16 48 false⟩]

/-- The fields whose bit is set. -/
def presentFields (tx : UniversalPaymentEvent) : Fields :=
  ((writtenFields tx).filter (·.present)).map fun field => (field.number, field.bytes)

def encodedBitmap (tx : UniversalPaymentEvent) : Bitmap :=
  (presentFields tx).foldl (fun bitmap field => setBit bitmap field.1) .empty

def universalEncode (tx : UniversalPaymentEvent) : Except ParseError Bytes :=
  let mti := if 4 ≤ tx.mti.length then tx.mti.take 4 else asBytes "0110"
  .ok (mti ++ ((encodedBitmap tx).toList ++ payload (presentFields tx)))

end Iso8583Switch
