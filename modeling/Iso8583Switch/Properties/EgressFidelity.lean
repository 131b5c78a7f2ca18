import Iso8583Switch.Properties.ParsedEvents
import Iso8583Switch.Properties.UniversalCodec

/-!
# What the bank gets of a parsed event

An event goes from an ingress parser through the universal encoder to a bank, with the
STAN of the egress.  The bytes of the client do not reach the encoder as they are: lossy
decoding makes texts longer, and the UK FPS parser puts a prefix in front of the PAN.
The encoder cuts a text to the width of its field, and sets the bit of a value that it
then does not write.

`EgressFit` says of which events the bank gets every field: no value with its length in
front is too long, no text is changed by the cut, and a cryptogram that looks like a risk
score can be sliced like one.
-/

namespace Iso8583Switch

open Text FieldWalk

/-! ## The property -/

def SixDigits (s : String) : Prop := s.toList.length = 6 ∧ ∀ c ∈ s.toList, c.isDigit = true

/-- What is decoded is what was sent under a STAN. -/
structure Faithful (e : UniversalPaymentEvent) (stan : String) (e' : UniversalPaymentEvent) :
    Prop where
  stan : e'.stan = stan
  mti : e'.mti = e.mti
  fpan : e'.fpan = e.fpan
  processingCode : e'.processingCode = e.processingCode
  amount : e'.amount = e.amount
  localTime : e'.localTime = e.localTime
  localDate : e'.localDate = e.localDate
  rrn : e'.rrn = e.rrn
  responseCode : e'.responseCode = e.responseCode
  acquirerId : e'.acquirerId = e.acquirerId
  pinBlock : e'.pinBlock = e.pinBlock

/-- The event is decoded from its encoding under a STAN. -/
def SentFaithfully (e : UniversalPaymentEvent) (stan : String) : Prop :=
  ∃ raw e', universalEncode { e with stan := stan } = .ok raw ∧ universalDecode raw = .ok e' ∧
    Faithful e stan e'

/-- A text is absent, or it has the width of its field, or all that is cut off of it is
part of a replacement character at its end. -/
def FitsField (text : String) (width : Nat) : Prop :=
  text = "" ∨ len text = width ∨
    (width < len text ∧ ∃ front, text = front ++ "\uFFFD" ∧ len front < width)

/-- A cryptogram that looks like a risk score has characters that end where its parts do. -/
def Sliceable (cryptogram : String) : Prop :=
  (asBytes "RSK:").isPrefixOf (asBytes cryptogram) = true → 8 ≤ len cryptogram →
    isCharBoundary cryptogram 7 = true ∧ isCharBoundary cryptogram 8 = true

structure EgressFit (e : UniversalPaymentEvent) : Prop where
  fpan : e.fpan.length ≤ 99
  processingCode : FitsField e.processingCode 6
  localTime : FitsField e.localTime 6
  localDate : FitsField e.localDate 4
  rrn : FitsField e.rrn 12
  responseCode : FitsField e.responseCode 2
  cryptogram : ∀ cryptogram, e.sentCryptogram = some cryptogram →
    len cryptogram ≤ 999 ∧ Sliceable cryptogram

/-! ## Texts -/

theorem wireText_eq_iff {text : String} {width : Nat} {padChar : UInt8} {padRight : Bool}
    (hpad : padChar.toNat < 0x80) :
    wireText text width padChar padRight = text ↔ FitsField text width := by
  by_cases hnil : text = ""
  · exact iff_of_true (wireText_exact (.inl hnil)) (.inl hnil)
  have hne : wireText text width padChar padRight =
      fromUtf8Lossy (writeFixed (asBytes text) width padChar padRight) := if_neg hnil
  rcases Nat.lt_trichotomy (len text) width with hshort | hexact | hlong
  · -- Padding is read as text, too.
    refine iff_of_false (fun heq => ?_) ?_
    · have hless : ¬ width ≤ (asBytes text).length := Nat.not_le.mpr hshort
      rw [hne, writeFixed, if_neg hless] at heq
      dsimp only at heq
      split at heq
      · have hlist := congrArg String.toList heq
        rw [fromUtf8Lossy_asBytes_append, String.toList_append, List.append_right_eq_self] at hlist
        have hempty : fromUtf8Lossy (List.replicate (width - (asBytes text).length) padChar) = "" :=
          String.toList_inj.mp hlist
        rw [fromUtf8Lossy_eq_empty, List.replicate_eq_nil_iff] at hempty
        omega
      · have hlist := congrArg (List.length ∘ String.toList) heq
        simp only [Function.comp_apply, toList_fromUtf8Lossy_replicate hpad, fromUtf8Lossy_asBytes,
          List.length_append, List.length_replicate] at hlist
        omega
    · rintro (h | h | ⟨h, -⟩)
      · exact hnil h
      · omega
      · omega
  · exact iff_of_true (wireText_exact (.inr hexact)) (.inr (.inl hexact))
  · have hcut : writeFixed (asBytes text) width padChar padRight = (asBytes text).take width :=
      if_pos (Nat.le_of_lt hlong)
    rw [hne, hcut, fromUtf8Lossy_take hlong]
    constructor
    · exact fun hfront => .inr (.inr ⟨hlong, hfront⟩)
    · rintro (h | h | ⟨-, hfront⟩)
      · exact absurd h hnil
      · omega
      · exact hfront

theorem SixDigits.len {s : String} (h : SixDigits s) : len s = 6 := by
  have hlen := len_ofList_digits h.2
  rw [String.ofList_toList, h.1] at hlen
  exact hlen

/-! ## Field 48 -/

theorem isOk_sliceField {s : String} {a b : Nat} :
    (∃ part, sliceField s a b = .ok part) ↔ (slice s a b).isSome = true := by
  rw [sliceField]
  cases slice s a b with
  | none => simp
  | some part => simp

/-- The prefix ends where a character does. -/
theorem isCharBoundary_prefix {s : String} (h : (asBytes "RSK:").isPrefixOf (asBytes s) = true) :
    isCharBoundary s 4 = true := by
  obtain ⟨rest, hrest⟩ := List.isPrefixOf_iff_prefix.mp h
  have htext : s = "RSK:" ++ fromUtf8Lossy rest := by
    rw [← fromUtf8Lossy_asBytes_append, hrest, fromUtf8Lossy_asBytes]
  rw [htext, isCharBoundary, String.toList_append]
  have hcut := splitAt_append "RSK:".toList (fromUtf8Lossy rest).toList
  have hfour : ("RSK:".toList.map Char.utf8Size).sum = 4 := rfl
  rw [hfour] at hcut
  rw [hcut]
  rfl

/-- Field 48 is taken without a panic. -/
theorem isOk_additionalData {f48 : String} {tx : UniversalPaymentEvent} :
    (∃ tx', additionalData f48 tx = .ok tx') ↔ Sliceable f48 := by
  rw [additionalData, Sliceable]
  split
  next hrisk =>
    have hfour := isCharBoundary_prefix hrisk.1
    have hdigits := isOk_sliceField (s := f48) (a := 4) (b := 7)
    have hrest := isOk_sliceField (s := f48) (a := 8) (b := len f48)
    rw [isSome_slice, hfour, decide_eq_true (by omega), Bool.true_and, Bool.true_and] at hdigits
    rw [isSome_slice, isCharBoundary_len, decide_eq_true hrisk.2, Bool.true_and, Bool.and_true]
      at hrest
    constructor
    · rintro ⟨tx', h⟩ - -
      obtain ⟨digits, hslice, h⟩ := ok_bind_eq h
      obtain ⟨remainder, hslice', -⟩ := ok_bind_eq h
      exact ⟨hdigits.mp ⟨digits, hslice⟩, hrest.mp ⟨remainder, hslice'⟩⟩
    · intro h
      obtain ⟨hseven, height⟩ := h hrisk.1 hrisk.2
      obtain ⟨digits, hslice⟩ := hdigits.mpr hseven
      obtain ⟨remainder, hslice'⟩ := hrest.mpr height
      rw [hslice, ok_bind, hslice', ok_bind]
      exact ⟨_, rfl⟩
  next hplain => exact iff_of_true ⟨_, rfl⟩ fun hstart hlen => absurd ⟨hstart, hlen⟩ hplain

theorem isOk_takeCryptogram {e tx : UniversalPaymentEvent} :
    (∃ tx', e.takeCryptogram tx = .ok tx') ↔
      ∀ cryptogram, e.sentCryptogram = some cryptogram → Sliceable cryptogram := by
  rw [UniversalPaymentEvent.takeCryptogram]
  cases e.sentCryptogram with
  | none => simp
  | some cryptogram => simp [isOk_additionalData]

theorem takeCryptogram_ok {e tx tx' : UniversalPaymentEvent} (h : e.takeCryptogram tx = .ok tx') :
    ∃ riskScore tavvCryptogram,
      tx' = { tx with riskScore := riskScore, tavvCryptogram := tavvCryptogram } := by
  rw [UniversalPaymentEvent.takeCryptogram] at h
  split at h
  next => exact additionalData_ok h
  next =>
    cases h
    exact ⟨_, _, rfl⟩

/-! ## What is decoded -/

/-- A decoded PAN has two digits for its length. -/
theorem readField_fpan {raw : Bytes} {field : Nat} {tx : UniversalPaymentEvent} {offset : Nat}
    {p : UniversalPaymentEvent × Nat} (h : readField raw field tx offset = .ok p)
    (htx : tx.fpan.length ≤ 99) : p.1.fpan.length ≤ 99 := by
  unfold readField at h
  split at h
  case h_1 =>
    obtain ⟨⟨fpan, offset'⟩, hread, h⟩ := ok_bind_eq h
    cases h
    exact readLlvar_ok hread
  case h_7 | h_13 =>
    obtain ⟨_, -, h⟩ := ok_bind_eq h
    cases h
    dsimp only
    split
    · exact htx
    · exact htx
  case h_11 =>
    obtain ⟨_, -, h⟩ := ok_bind_eq h
    obtain ⟨tx', hdata, h⟩ := ok_bind_eq h
    cases h
    obtain ⟨riskScore, tavvCryptogram, rfl⟩ := additionalData_ok hdata
    exact htx
  case h_14 =>
    cases h
    exact htx
  all_goals
    obtain ⟨_, -, h⟩ := ok_bind_eq h
    cases h
    exact htx

theorem universalDecode_fpan {raw : Bytes} {e : UniversalPaymentEvent}
    (h : universalDecode raw = .ok e) : e.fpan.length ≤ 99 := by
  rw [universalDecode] at h
  split at h
  · cases h
  · obtain ⟨⟨mti, _⟩, -, h⟩ := ok_bind_eq h
    obtain ⟨⟨bitmap, _⟩, -, h⟩ := ok_bind_eq h
    obtain ⟨p, hwalk, h⟩ := ok_bind_eq h
    cases h
    exact walk_keeps (P := fun tx => tx.fpan.length ≤ 99)
      (fun k _ s offset p hread hs => readField_fpan hread hs) hwalk (Nat.zero_le _)

/-- The bytes that the last two fields take at least. -/
def lastNeed (field : Nat) : Nat := if field = 48 then 3 else if field = 52 then 16 else 0

theorem readField_advances {raw : Bytes} {field : Nat} (hfield : field ∈ List.range' 48 17)
    {tx : UniversalPaymentEvent} {offset : Nat} {p : UniversalPaymentEvent × Nat}
    (h : readField raw field tx offset = .ok p) (hoffset : offset ≤ raw.length) :
    offset + lastNeed field ≤ p.2 ∧ p.2 ≤ raw.length := by
  have hin := List.mem_range'_1.mp hfield
  unfold readField at h
  split at h
  case h_11 =>
    obtain ⟨⟨bytes, offset'⟩, hread, h⟩ := ok_bind_eq h
    obtain ⟨tx', -, h⟩ := ok_bind_eq h
    cases h
    obtain ⟨-, hneed, hend⟩ := readVar_ok hread
    exact ⟨hneed, hend⟩
  case h_12 =>
    obtain ⟨⟨bytes, offset'⟩, hread, h⟩ := ok_bind_eq h
    cases h
    obtain ⟨-, hnext, hend⟩ := readFixed_ok hread
    exact ⟨Nat.le_of_eq hnext.symm, hend⟩
  case h_14 hne48 hne52 _ =>
    cases h
    rw [lastNeed, if_neg hne48, if_neg hne52]
    exact ⟨Nat.le_refl _, hoffset⟩
  all_goals omega

theorem length_pin (e : UniversalPaymentEvent) : (payload (presentOf [pinField e])).length =
    if isBitSet (encodedBitmap e) 52 then 16 else 0 := by
  have hset := isBitSet_pin (e := e) (k := 52) (by omega)
  cases hpin : e.pinBlock with
  | nil =>
      have hnone : presentOf [pinField e] = [] := by simp [presentOf, pinField, hpin]
      rw [hnone] at hset ⊢
      rw [if_neg (by simpa using hset)]
      rfl
  | cons b bs =>
      have hsome : presentOf [pinField e] = [(52, writeFixed e.pinBlock 16 48 false)] := by
        simp [presentOf, pinField, hpin]
      rw [hsome] at hset ⊢
      rw [if_pos (by simpa using hset)]
      simp [payload, length_writeFixed]

/-- A cryptogram that is too long for its field is announced and not written, and so the
bytes that the decoder takes for it are missing at the end. -/
theorem universalDecode_cut {e e' : UniversalPaymentEvent} (h : Sendable e) {cryptogram : String}
    (hsent : e.sentCryptogram = some cryptogram) (hlong : 999 < len cryptogram) {raw : Bytes}
    (hraw : universalEncode e = .ok raw) : universalDecode raw ≠ .ok e' := by
  intro hok
  obtain ⟨offset, ⟨before, hsplit, hbefore⟩, hdecode⟩ := universalDecode_front h hraw
  rw [hdecode] at hok
  obtain ⟨p, hwalk, -⟩ := ok_bind_eq hok
  have hempty : writeLllvar (asBytes cryptogram) = [] := if_pos hlong
  have hfields : e.cryptogramFields = [(48, [])] := by
    rw [UniversalPaymentEvent.cryptogramFields, hsent]
    dsimp only
    rw [hempty]
  have hset : isBitSet (encodedBitmap e) 48 = true := by
    rw [isBitSet_cryptogram, hfields]
    exact ⟨_, List.mem_cons_self⟩
  have hlength : raw.length = offset + if isBitSet (encodedBitmap e) 52 then 16 else 0 := by
    rw [hsplit, List.length_append, hbefore, hfields, ← length_pin]
    rfl
  have hreads : ∀ k ∈ List.range' 48 17, ∀ tx offset p, readField raw k tx offset = .ok p →
      offset ≤ raw.length → offset + lastNeed k ≤ p.2 ∧ p.2 ≤ raw.length :=
    fun k hk tx offset p => readField_advances hk
  obtain ⟨hneed, hend⟩ := walk_advances hreads hwalk (by omega)
  have hsum : ((List.range' 48 17).map fun k =>
      if isBitSet (encodedBitmap e) k then lastNeed k else 0).sum =
        3 + if isBitSet (encodedBitmap e) 52 then 16 else 0 := by
    simp [List.range', lastNeed, hset]
  omega

/-! ## The theorem -/

/-- What is read of an event is the event where its texts fit. -/
theorem faithful_iff {e : UniversalPaymentEvent} {stan : String} (hstan : SixDigits stan)
    {riskScore : UInt8} {tavvCryptogram : Option String} :
    Faithful e stan { { e with stan := stan }.wireImage with
        riskScore := riskScore, tavvCryptogram := tavvCryptogram, pinBlock := e.pinBlock } ↔
      FitsField e.processingCode 6 ∧ FitsField e.localTime 6 ∧ FitsField e.localDate 4 ∧
        FitsField e.rrn 12 ∧ FitsField e.responseCode 2 := by
  have hzero {text : String} {width : Nat} :
      wireText text width 48 false = text ↔ FitsField text width := wireText_eq_iff (by decide)
  constructor
  · intro h
    exact ⟨hzero.mp h.processingCode, hzero.mp h.localTime, hzero.mp h.localDate,
      (wireText_eq_iff (by decide)).mp h.rrn, (wireText_eq_iff (by decide)).mp h.responseCode⟩
  · rintro ⟨hprocessingCode, hlocalTime, hlocalDate, hrrn, hresponseCode⟩
    constructor
    case stan => exact wireText_exact (.inr hstan.len)
    case processingCode => exact hzero.mpr hprocessingCode
    case localTime => exact hzero.mpr hlocalTime
    case localDate => exact hzero.mpr hlocalDate
    case rrn => exact (wireText_eq_iff (by decide)).mpr hrrn
    case responseCode => exact (wireText_eq_iff (by decide)).mpr hresponseCode
    all_goals rfl

/-- A parsed event is decoded from its encoding, with every field, just when it fits. -/
theorem sentFaithfully_iff (dialect : IngressDialect) (raw : Bytes) (e : UniversalPaymentEvent)
    (h : dialect.parse raw = .ok e) (stan : String) (hstan : SixDigits stan) :
    SentFaithfully e stan ↔ EgressFit e := by
  have hparsed := IngressDialect.parse_parsed h
  have hsendable (hfpan : e.fpan.length ≤ 99) : Sendable { e with stan := stan } :=
    ⟨hparsed.mti, hfpan, hparsed.amount, hparsed.acquirerId, hparsed.pinBlock⟩
  constructor
  · rintro ⟨bytes, e', hencode, hdecode, hfaithful⟩
    have hfpan : e.fpan.length ≤ 99 := hfaithful.fpan ▸ universalDecode_fpan hdecode
    have hlen (cryptogram : String) (hsent : e.sentCryptogram = some cryptogram) :
        len cryptogram ≤ 999 := by
      refine Nat.not_lt.mp fun hlong => ?_
      exact universalDecode_cut (hsendable hfpan) hsent hlong hencode hdecode
    rw [universalDecode_written (hsendable hfpan) hlen hencode] at hdecode
    obtain ⟨tx, htake, htx⟩ := ok_bind_eq hdecode
    cases htx
    have hsliceable := isOk_takeCryptogram.mp ⟨tx, htake⟩
    obtain ⟨riskScore, tavvCryptogram, rfl⟩ := takeCryptogram_ok htake
    obtain ⟨hprocessingCode, hlocalTime, hlocalDate, hrrn, hresponseCode⟩ :=
      (faithful_iff hstan).mp hfaithful
    exact ⟨hfpan, hprocessingCode, hlocalTime, hlocalDate, hrrn, hresponseCode,
      fun cryptogram hsent => ⟨hlen cryptogram hsent, hsliceable cryptogram hsent⟩⟩
  · rintro ⟨hfpan, hprocessingCode, hlocalTime, hlocalDate, hrrn, hresponseCode, hcryptogram⟩
    obtain ⟨bytes, hencode⟩ : ∃ bytes, universalEncode { e with stan := stan } = .ok bytes :=
      ⟨_, rfl⟩
    obtain ⟨tx, htake⟩ : ∃ tx, { e with stan := stan }.takeCryptogram
        { e with stan := stan }.wireImage = .ok tx :=
      isOk_takeCryptogram.mpr fun cryptogram hsent => (hcryptogram cryptogram hsent).2
    have hdecode := universalDecode_written (hsendable hfpan)
      (fun cryptogram hsent => (hcryptogram cryptogram hsent).1) hencode
    rw [htake, ok_bind] at hdecode
    refine ⟨bytes, _, hencode, hdecode, ?_⟩
    obtain ⟨riskScore, tavvCryptogram, rfl⟩ := takeCryptogram_ok htake
    exact (faithful_iff hstan).mpr ⟨hprocessingCode, hlocalTime, hlocalDate, hrrn, hresponseCode⟩

/-- The longest account of a UK FPS message but for five bytes. -/
def longAccount : String := String.ofList (List.replicate 94 'A')

/-- A UK FPS authorization with nothing but a source account. -/
def longAccountFrame : Bytes :=
  asBytes "0100" ++ [0x80, 0, 0, 0, 0, 0, 0, 0] ++ [0, 0, 0, 0, 0x04, 0, 0, 0] ++
    asBytes "94" ++ asBytes longAccount

def longAccountEvent : UniversalPaymentEvent :=
  { blankEvent (asBytes "0100") with
    fpan := asBytes ("UKFPS-" ++ longAccount)
    sourceAccount := some longAccount }

theorem long_account_is_not_sent : ∃ dialect raw e stan, IngressDialect.parse dialect raw = .ok e ∧
    SixDigits stan ∧ ¬ SentFaithfully e stan := by
  refine ⟨.ukFps, longAccountFrame, longAccountEvent, "000001", ?_,
    ⟨rfl, List.all_eq_true.mp rfl⟩, ?_⟩
  · decide +kernel
  · rintro ⟨bytes, e', -, hdecode, hfaithful⟩
    have hlen : longAccountEvent.fpan.length ≤ 99 := hfaithful.fpan ▸ universalDecode_fpan hdecode
    exact absurd hlen (by decide +kernel)

/-- A response with a code whose second character is no text. -/
def garbledFrame : Bytes :=
  asBytes "0110" ++ [0x40, 0, 0, 0, 0x02, 0, 0, 0] ++ asBytes "164000123412341234" ++ [0x35, 0xFF]

def garbledEvent : UniversalPaymentEvent :=
  { blankEvent (asBytes "0110") with
    fpan := asBytes "4000123412341234"
    responseCode := "5\uFFFD" }

theorem sentFaithfully_garbled : SentFaithfully garbledEvent "000042" :=
  (sentFaithfully_iff .standard garbledFrame garbledEvent (by decide +kernel) "000042"
    ⟨rfl, List.all_eq_true.mp rfl⟩).mpr
    { fpan := by decide
      processingCode := .inl rfl
      localTime := .inl rfl
      localDate := .inl rfl
      rrn := .inl rfl
      responseCode := .inr (.inr ⟨by decide, "5", by decide, by decide⟩)
      cryptogram := nofun }

end Iso8583Switch
