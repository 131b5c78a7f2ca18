import Iso8583Switch.Library.Text

/-!
# The canonical event and the wire transaction

`UniversalPaymentEvent` (payment-proto/src/canonical.rs) is what the dialects
parse into and what every thread of the engine passes on.  `Transaction`
(payment-proto/proto) is what the journal stores, what the guard saves and what
bank replies arrive as.  `toPb` and `fromPb` (switch-core/src/lib.rs) convert.
Neither direction keeps everything: `toPb` decodes four byte fields lossily and
`fromPb` resets what the wire message has no field for.
-/

namespace Iso8583Switch

open Text

inductive MessageClass where
  | authorization
  | financial
  | reversalAdvice
  | reversalResponse
  | networkManagement
  | networkManagementResponse
  | fileUpdate
deriving DecidableEq, Repr

inductive TransactionType where
  | cashWithdrawal
  | balanceInquiry
  | purchase
  | refund
  | settlement
deriving DecidableEq, Repr

/-- The newtypes over `String` (`Stan`, `Rrn` and the others) are plain strings. -/
structure UniversalPaymentEvent where
  messageClass : MessageClass
  transactionType : TransactionType
  mti : Bytes
  fpan : Bytes
  dpan : Option String
  isTokenized : Bool
  tavvCryptogram : Option String
  processingCode : String
  amount : UInt64
  stan : String
  localTime : String
  localDate : String
  rrn : String
  responseCode : String
  acquirerId : Bytes
  pinBlock : Bytes
  riskScore : UInt8
  requiresInstantClearing : Bool
  domesticSettlementData : Option String
  sourceAccount : Option String
  destinationAccount : Option String
  originalDataElements : Option String
  macData : Option String
  isReversal : Bool
deriving DecidableEq, Repr

/-- The protobuf message. -/
structure Transaction where
  mti : String
  pan : String
  processingCode : String
  amount : Int64
  stan : String
  rrn : String
  responseCode : String
  acquirerId : String
  pinBlock : String
  localTime : String
  localDate : String
deriving DecidableEq

def toPb (canonical : UniversalPaymentEvent) : Transaction where
  mti := fromUtf8Lossy canonical.mti
  pan := fromUtf8Lossy canonical.fpan
  processingCode := canonical.processingCode
  amount := canonical.amount.toInt64
  stan := canonical.stan
  rrn := canonical.rrn
  responseCode := canonical.responseCode
  acquirerId := fromUtf8Lossy canonical.acquirerId
  pinBlock := fromUtf8Lossy canonical.pinBlock
  localTime := canonical.localTime
  localDate := canonical.localDate

/-- The message class `fromPb` derives from an MTI. -/
def classOfMti (mti : String) : MessageClass :=
  if mti = "0100" ∨ mti = "0110" then .authorization
  else if mti = "0200" ∨ mti = "0210" then .financial
  else if mti = "0420" ∨ mti = "0421" then .reversalAdvice
  else if mti = "0430" then .reversalResponse
  else if mti = "0800" then .networkManagement
  else if mti = "0810" then .networkManagementResponse
  else .financial

def fromPb (pb : Transaction) : UniversalPaymentEvent where
  messageClass := classOfMti pb.mti
  transactionType := .purchase
  mti := asBytes pb.mti
  fpan := asBytes pb.pan
  dpan := none
  isTokenized := false
  tavvCryptogram := none
  processingCode := pb.processingCode
  amount := pb.amount.toUInt64
  stan := pb.stan
  localTime := pb.localTime
  localDate := pb.localDate
  rrn := pb.rrn
  responseCode := pb.responseCode
  acquirerId := asBytes pb.acquirerId
  pinBlock := asBytes pb.pinBlock
  riskScore := 0
  requiresInstantClearing := false
  domesticSettlementData := none
  sourceAccount := none
  destinationAccount := none
  originalDataElements := none
  macData := none
  isReversal := false

/-- The guard key, `format!("{}-{}-{}", rrn, stan, acquirer_id)`. -/
def formatKey (rrn stan acquirerId : String) : String := rrn ++ "-" ++ stan ++ "-" ++ acquirerId

namespace UniversalPaymentEvent

/-- The key under which the ingress worker guards a request. -/
def guardKey (tx : UniversalPaymentEvent) : String :=
  formatKey tx.rrn tx.stan (fromUtf8Lossy tx.acquirerId)

/-- The event with the MTI and response code of an answer. -/
def answer (tx : UniversalPaymentEvent) (mti responseCode : String) : UniversalPaymentEvent :=
  { tx with mti := asBytes mti, responseCode := responseCode }

@[simp] theorem answer_responseCode (tx : UniversalPaymentEvent) (mti rc : String) :
    (tx.answer mti rc).responseCode = rc := rfl

/-- Renumbering for the wire keeps the other two parts of the key. -/
@[simp] theorem guardKey_withStan (tx : UniversalPaymentEvent) (stan : String) :
    { tx with stan := stan }.guardKey = formatKey tx.rrn stan (fromUtf8Lossy tx.acquirerId) := rfl

end UniversalPaymentEvent

/-! ## The round trip through the wire message -/

section RoundTrip
variable (tx : UniversalPaymentEvent)

@[simp] theorem fromPb_toPb_stan : (fromPb (toPb tx)).stan = tx.stan := rfl

@[simp] theorem fromPb_toPb_rrn : (fromPb (toPb tx)).rrn = tx.rrn := rfl

/-- The two casts between `u64` and `i64` undo each other. -/
@[simp] theorem fromPb_toPb_amount : (fromPb (toPb tx)).amount = tx.amount :=
  UInt64.toUInt64_toInt64 tx.amount

theorem toUInt64_toPb_amount : (toPb tx).amount.toUInt64 = tx.amount :=
  UInt64.toUInt64_toInt64 tx.amount

theorem toPb_amount_eq_zero : (toPb tx).amount = 0 ↔ tx.amount = 0 := by
  refine ⟨fun h => ?_, fun h => by rw [toPb, h]; rfl⟩
  rw [← toUInt64_toPb_amount, h]
  rfl

/-- The cast keeps an amount that has no sign bit. -/
theorem toInt_toInt64 {amount : UInt64} (h : amount.toNat < 2 ^ 63) :
    amount.toInt64.toInt = amount.toNat := by
  have hlt : 2 * amount.toBitVec.toNat < 2 ^ 64 := by
    rw [UInt64.toNat_toBitVec]
    omega
  exact BitVec.toInt_eq_toNat_of_lt hlt

end RoundTrip

end Iso8583Switch
