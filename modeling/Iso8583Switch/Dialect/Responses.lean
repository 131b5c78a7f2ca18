import Iso8583Switch.Dialect.Ingress

/-!
# The answers of the listeners

`build_response` in payment-proto/src/iso_dialect.rs and payment-proto/src/dialects.
Each dialect writes its fields in the order of its code and sets a bit for each.

* `StandardDialect` writes field 48 for tokenized events only.
* `InteracDialect` writes field 48 whenever there is a cryptogram, and field 63.
* `UkFpsDialect` does not write field 2.  It writes the accounts in fields 102 and
  103, and the secondary bitmap if there is one of them.
-/

namespace Iso8583Switch

open Text FieldWalk

/-- `set_bit` on a slice. -/
def setBitIn (bitmap : Bytes) (field : Nat) : Bytes :=
  if field < 1 ∨ bitmap.length * 8 < field then bitmap
  else bitmap.modify ((field - 1) / 8) (· ||| bitMask field)

/-- The fields whose `if` is taken. -/
def presentOf (written : List WrittenField) : Fields :=
  (written.filter (·.present)).map fun field => (field.number, field.bytes)

theorem presentOf_append (written more : List WrittenField) :
    presentOf (written ++ more) = presentOf written ++ presentOf more := by
  rw [presentOf, List.filter_append, List.map_append]
  rfl

theorem mem_presentOf {written : List WrittenField} {k : Nat} {bytes : Bytes} :
    (k, bytes) ∈ presentOf written ↔
      ∃ field ∈ written, field.present = true ∧ field.number = k ∧ field.bytes = bytes := by
  simp only [presentOf, List.mem_map, List.mem_filter, Prod.mk.injEq, and_assoc]

theorem presentOf_sorted {written : List WrittenField}
    (h : written.Pairwise fun f g => f.number < g.number) :
    (presentOf written).Pairwise fun f g => f.1 < g.1 := by
  rw [presentOf, List.pairwise_map]
  exact h.filter _

/-- What holds of the numbers of all fields holds of those that are present. -/
theorem forall_presentOf {written : List WrittenField} {P : Nat → Prop}
    (h : ∀ field ∈ written, P field.number) : ∀ f ∈ presentOf written, P f.1 := by
  intro f hf
  obtain ⟨field, hfield, -, hnumber, -⟩ := mem_presentOf.mp hf
  exact hnumber ▸ h field hfield

/-- A field whose bit is not set is not present. -/
theorem absent_of_clear {written : List WrittenField} {fields : Fields} {bit : Bool} {k : Nat}
    (hbit : bit = true ↔ ∃ bytes, (k, bytes) ∈ fields)
    (hsub : ∀ f ∈ presentOf written, f ∈ fields) (hclear : bit = false) {field : WrittenField}
    (hfield : field ∈ written) (hnumber : field.number = k) : field.present = false := by
  cases hpresent : field.present with
  | false => rfl
  | true =>
      have hmem := hsub _ (mem_presentOf.mpr ⟨field, hfield, hpresent, hnumber, rfl⟩)
      rw [hbit.mpr ⟨_, hmem⟩] at hclear
      cases hclear

/-- The bits of some fields. -/
def bitmapOf (fields : Fields) : Bytes :=
  fields.foldl (fun bitmap field => setBitIn bitmap field.1) (List.replicate 8 0)

/-- The first four bytes of the MTI, or those of an authorization response. -/
def responseMti (tx : UniversalPaymentEvent) : Bytes :=
  if 4 ≤ tx.mti.length then tx.mti.take 4 else asBytes "0110"

/-- The fields that all three dialects write alike. -/
def sharedFields (tx : UniversalPaymentEvent) : List WrittenField :=
  [⟨3, tx.processingCode ≠ "", writeFixed (asBytes tx.processingCode) 6 48 false⟩,
    ⟨4, 0 < tx.amount || ((asBytes "02").isPrefixOf tx.mti && tx.messageClass = .financial),
      writeFixed (asBytes (zeroPadded 12 tx.amount.toNat)) 12 48 false⟩,
    ⟨11, tx.stan ≠ "", writeFixed (asBytes tx.stan) 6 48 false⟩,
    ⟨12, tx.localTime ≠ "", writeFixed (asBytes tx.localTime) 6 48 false⟩,
    ⟨13, tx.localDate ≠ "", writeFixed (asBytes tx.localDate) 4 48 false⟩,
    ⟨22, tx.isTokenized, writeFixed (asBytes "071") 3 48 false⟩,
    ⟨32, !tx.acquirerId.isEmpty, writeLlvar tx.acquirerId⟩,
    ⟨37, tx.rrn ≠ "", writeFixed (asBytes tx.rrn) 12 32 true⟩,
    ⟨39, tx.responseCode ≠ "", writeFixed (asBytes tx.responseCode) 2 32 false⟩]

def panField (tx : UniversalPaymentEvent) : WrittenField :=
  ⟨2, !tx.fpan.isEmpty, writeLlvar tx.fpan⟩

def pinField (tx : UniversalPaymentEvent) : WrittenField :=
  ⟨52, !tx.pinBlock.isEmpty, writeFixed tx.pinBlock 16 48 false⟩

namespace StandardDialect

def writtenFields (tx : UniversalPaymentEvent) : List WrittenField :=
  panField tx :: sharedFields tx ++
    [⟨48, tx.isTokenized && tx.tavvCryptogram.isSome,
        writeLllvar (asBytes (tx.tavvCryptogram.getD ""))⟩,
      pinField tx]

def buildResponse (tx : UniversalPaymentEvent) : Bytes :=
  let fields := presentOf (writtenFields tx)
  responseMti tx ++ (bitmapOf fields ++ payload fields)

end StandardDialect

namespace InteracDialect

def writtenFields (tx : UniversalPaymentEvent) : List WrittenField :=
  panField tx :: sharedFields tx ++
    [⟨48, tx.tavvCryptogram.isSome, writeLllvar (asBytes (tx.tavvCryptogram.getD ""))⟩,
      pinField tx,
      ⟨63, tx.domesticSettlementData.isSome,
        writeLllvar (asBytes (tx.domesticSettlementData.getD ""))⟩]

def buildResponse (tx : UniversalPaymentEvent) : Bytes :=
  let fields := presentOf (writtenFields tx)
  responseMti tx ++ (bitmapOf fields ++ payload fields)

end InteracDialect

namespace UkFpsDialect

def primaryFields (tx : UniversalPaymentEvent) : List WrittenField :=
  sharedFields tx ++ [pinField tx]

def accountFields (tx : UniversalPaymentEvent) : List WrittenField :=
  [⟨102, tx.sourceAccount.isSome, writeLlvar (asBytes (tx.sourceAccount.getD ""))⟩,
    ⟨103, tx.destinationAccount.isSome, writeLlvar (asBytes (tx.destinationAccount.getD ""))⟩]

/-- Each account sets bit 1, too. -/
def bitmap (tx : UniversalPaymentEvent) : Bytes :=
  bitmapOf (presentOf (primaryFields tx) ++ (presentOf (accountFields tx)).map fun _ => (1, []))

def secondaryBitmap (tx : UniversalPaymentEvent) : Bytes :=
  bitmapOf ((presentOf (accountFields tx)).map fun field => (field.1 - 64, []))

def buildResponse (tx : UniversalPaymentEvent) : Bytes :=
  let fields := presentOf (primaryFields tx) ++ presentOf (accountFields tx)
  let secondary := if isBitSetIn (bitmap tx) 1 then secondaryBitmap tx else []
  responseMti tx ++ (bitmap tx ++ (secondary ++ payload fields))

end UkFpsDialect

end Iso8583Switch
