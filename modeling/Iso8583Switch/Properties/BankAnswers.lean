import Iso8583Switch.Edge.BankLink
import Iso8583Switch.Properties.EgressFidelity

/-!
# What a mock bank answers

A context is encoded, decoded by the bank, answered by its rules, encoded and decoded
again by the reader of the client.  An event that fits its fields comes through both hops
(`decode_wireFit`, `WireFit.respond`), so the answer has its STAN, its RRN and its acquirer,
and the code that the rules give for its amount and its PAN (`bank_answers`).
-/

namespace Iso8583Switch

open Text

/-- An event that the wire format can carry back and forth: its texts fit, and its
cryptogram does not look like a risk score. -/
structure WireFit (e : UniversalPaymentEvent) : Prop extends Sendable e where
  processingCode : FitsField e.processingCode 6
  stan : FitsField e.stan 6
  localTime : FitsField e.localTime 6
  localDate : FitsField e.localDate 4
  rrn : FitsField e.rrn 12
  responseCode : FitsField e.responseCode 2
  cryptogram : ∀ cryptogram, e.sentCryptogram = some cryptogram → len cryptogram ≤ 999 ∧
    ¬ ((asBytes "RSK:").isPrefixOf (asBytes cryptogram) ∧ 8 ≤ len cryptogram)

/-- What is read of an event that fits. -/
def UniversalPaymentEvent.overWire (e : UniversalPaymentEvent) : UniversalPaymentEvent :=
  { blankEvent e.mti with
    fpan := e.fpan
    processingCode := e.processingCode
    amount := e.amount
    stan := e.stan
    localTime := e.localTime
    localDate := e.localDate
    isTokenized := e.isTokenized
    acquirerId := e.acquirerId
    rrn := e.rrn
    responseCode := e.responseCode
    tavvCryptogram := e.sentCryptogram
    pinBlock := e.pinBlock }

section
variable {e : UniversalPaymentEvent}

theorem WireFit.wireImage_eq (h : WireFit e) :
    { e.wireImage with tavvCryptogram := e.sentCryptogram, pinBlock := e.pinBlock } =
      e.overWire := by
  have hzero {text : String} {width : Nat} (hfits : FitsField text width) :
      wireText text width 48 false = text := (wireText_eq_iff (by decide)).mpr hfits
  have hrrn : wireText e.rrn 12 32 true = e.rrn := (wireText_eq_iff (by decide)).mpr h.rrn
  have hcode : wireText e.responseCode 2 32 false = e.responseCode :=
    (wireText_eq_iff (by decide)).mpr h.responseCode
  rw [UniversalPaymentEvent.wireImage, hzero h.processingCode, hzero h.stan, hzero h.localTime,
    hzero h.localDate, hrrn, hcode]
  rfl

/-- An event that fits is decoded from its encoding. -/
theorem decode_wireFit (h : WireFit e) : universalDecode (connexEncode e) = .ok e.overWire := by
  have hencode : universalEncode e = .ok (connexEncode e) := rfl
  have hdecode := universalDecode_written h.toSendable
    (fun cryptogram hsent => (h.cryptogram cryptogram hsent).1) hencode
  rw [hdecode, ← h.wireImage_eq, UniversalPaymentEvent.takeCryptogram]
  cases hsent : e.sentCryptogram with
  | none => rfl
  | some cryptogram =>
      have htokenized : e.wireImage.isTokenized = true := by
        have hcases := hsent
        rw [UniversalPaymentEvent.sentCryptogram] at hcases
        split at hcases
        next htokenized => exact htokenized
        next => cases hcases
      dsimp only
      rw [additionalData, if_neg (h.cryptogram cryptogram hsent).2, if_pos htokenized]
      rfl

/-- And fits again. -/
theorem WireFit.overWire (h : WireFit e) : WireFit e.overWire where
  mti := h.mti
  fpan := h.fpan
  amount := h.amount
  acquirerId := h.acquirerId
  pinBlock := h.pinBlock
  processingCode := h.processingCode
  stan := h.stan
  localTime := h.localTime
  localDate := h.localDate
  rrn := h.rrn
  responseCode := h.responseCode
  cryptogram cryptogram hsent := by
    refine h.cryptogram cryptogram ?_
    rw [UniversalPaymentEvent.sentCryptogram] at hsent
    split at hsent
    · exact hsent
    · cases hsent

/-- With another MTI and another code, too. -/
theorem WireFit.answered (h : WireFit e) {mti code : String} (hmti : len mti = 4)
    (hcode : len code = 2) (messageClass : MessageClass) :
    WireFit { e with mti := asBytes mti, responseCode := code, messageClass := messageClass } where
  mti := (length_asBytes mti).trans hmti
  fpan := h.fpan
  amount := h.amount
  acquirerId := h.acquirerId
  pinBlock := h.pinBlock
  processingCode := h.processingCode
  stan := h.stan
  localTime := h.localTime
  localDate := h.localDate
  rrn := h.rrn
  responseCode := .inr (.inl hcode)
  cryptogram := h.cryptogram

end

/-! ## The answer of the bank -/

namespace MockBank

/-- The MTI and the code of the answer to a message of a class, if there is one. -/
def verdict (amount : UInt64) (fpan : Bytes) : MessageClass → Option (String × String)
  | .networkManagement => some ("0810", "00")
  | .reversalAdvice => some ("0430", "00")
  | .authorization => some ("0110", decision amount fpan)
  | .financial => some ("0210", decision amount fpan)
  | _ => none

/-- What comes back for a context. -/
def roundTrip (e : UniversalPaymentEvent) : Option Transaction :=
  (answer (connexEncode e)).bind BankLink.readReply

theorem respond_eq (tx : UniversalPaymentEvent) : ∃ messageClass,
    respond tx = (verdict tx.amount tx.fpan tx.messageClass).map fun v =>
      { tx with mti := asBytes v.1, responseCode := v.2, messageClass := messageClass } := by
  rcases tx with ⟨_ | _ | _ | _ | _ | _ | _⟩
  case authorization => exact ⟨.authorization, rfl⟩
  case financial => exact ⟨.financial, rfl⟩
  case reversalAdvice => exact ⟨.reversalResponse, rfl⟩
  case networkManagement => exact ⟨.networkManagementResponse, rfl⟩
  all_goals exact ⟨.fileUpdate, rfl⟩

theorem len_decision (amount : UInt64) (fpan : Bytes) : len (decision amount fpan) = 2 := by
  rw [decision]
  split
  · rfl
  · split <;> rfl

theorem len_verdict {amount : UInt64} {fpan : Bytes} {messageClass : MessageClass}
    {v : String × String} (h : verdict amount fpan messageClass = some v) :
    len v.1 = 4 ∧ len v.2 = 2 := by
  cases messageClass with
  | networkManagement => cases h; exact ⟨rfl, rfl⟩
  | reversalAdvice => cases h; exact ⟨rfl, rfl⟩
  | authorization => cases h; exact ⟨rfl, len_decision _ _⟩
  | financial => cases h; exact ⟨rfl, len_decision _ _⟩
  | _ => cases h

/-- The bank's answer to an event that fits. -/
def answered (e : UniversalPaymentEvent) (messageClass : MessageClass) (v : String × String) :
    UniversalPaymentEvent :=
  { e.overWire with mti := asBytes v.1, responseCode := v.2, messageClass := messageClass }

theorem answer_wireFit {e : UniversalPaymentEvent} (h : WireFit e) : ∃ messageClass,
    answer (connexEncode e) = (verdict e.amount e.fpan (decodedClass e.mti)).map fun v =>
      connexEncode (answered e messageClass v) := by
  obtain ⟨messageClass, hrespond⟩ := respond_eq e.overWire
  have hrules : verdict e.overWire.amount e.overWire.fpan e.overWire.messageClass =
      verdict e.amount e.fpan (decodedClass e.mti) := rfl
  refine ⟨messageClass, ?_⟩
  rw [answer, decode_wireFit h]
  dsimp only
  rw [processBankRules, hrespond, hrules]
  cases verdict e.amount e.fpan (decodedClass e.mti) with
  | none => rfl
  | some v => rfl

theorem readReply_answered {e : UniversalPaymentEvent} (h : WireFit e) {messageClass : MessageClass}
    {v : String × String} (hmti : len v.1 = 4) (hcode : len v.2 = 2) :
    BankLink.readReply (connexEncode (answered e messageClass v)) =
      some { toPb e with mti := v.1, responseCode := v.2 } := by
  have hdecode := decode_wireFit (h.overWire.answered hmti hcode messageClass)
  rw [BankLink.readReply, answered, hdecode]
  simp only [toPb, UniversalPaymentEvent.overWire, blankEvent, fromUtf8Lossy_asBytes]

/-- What comes back for an event that fits has the code of the rules. -/
theorem verdict_of_roundTrip {e : UniversalPaymentEvent} {pbTx : Transaction} (h : WireFit e)
    (hback : roundTrip e = some pbTx) : ∃ v, verdict e.amount e.fpan (decodedClass e.mti) = some v ∧
      pbTx = { toPb e with mti := v.1, responseCode := v.2 } := by
  obtain ⟨messageClass, hanswer⟩ := answer_wireFit h
  rw [roundTrip, hanswer] at hback
  cases hverdict : verdict e.amount e.fpan (decodedClass e.mti) with
  | none =>
      rw [hverdict] at hback
      cases hback
  | some v =>
      obtain ⟨hmti, hcode⟩ := len_verdict hverdict
      rw [hverdict, Option.map_some, Option.bind_some, readReply_answered h hmti hcode] at hback
      cases hback
      exact ⟨v, rfl, rfl⟩

/-- For an event that fits its fields, what comes back is the event itself, but for the MTI
and the code, which the rules give for the class of its MTI; nothing comes back where they
give none. -/
theorem bank_answers (e : UniversalPaymentEvent) (h : WireFit e) :
    roundTrip e = (verdict e.amount e.fpan (decodedClass e.mti)).map fun v =>
      { toPb e with mti := v.1, responseCode := v.2 } := by
  obtain ⟨messageClass, hanswer⟩ := answer_wireFit h
  rw [roundTrip, hanswer]
  cases hverdict : verdict e.amount e.fpan (decodedClass e.mti) with
  | none => rfl
  | some v =>
      obtain ⟨hmti, hcode⟩ := len_verdict hverdict
      rw [Option.map_some, Option.map_some, Option.bind_some, readReply_answered h hmti hcode]

/-- A purchase over the limit, from a card whose number ends like a suspect one. -/
def costlyPurchase : UniversalPaymentEvent :=
  { blankEvent (asBytes "0200") with
    fpan := asBytes "4000123412349999", amount := 50001, stan := "000007", rrn := "000000000042" }

theorem costlyPurchase_fit : WireFit costlyPurchase where
  mti := by decide
  fpan := by decide
  amount := by decide
  acquirerId := by decide
  pinBlock := .inl rfl
  processingCode := .inl rfl
  stan := .inr (.inl (by decide))
  localTime := .inl rfl
  localDate := .inl rfl
  rrn := .inr (.inl (by decide))
  responseCode := .inl rfl
  cryptogram := fun _ hsent => by cases hsent

theorem bank_answers_costly : roundTrip costlyPurchase =
    some { toPb costlyPurchase with mti := "0210", responseCode := "51" } :=
  bank_answers costlyPurchase costlyPurchase_fit

end MockBank

end Iso8583Switch
