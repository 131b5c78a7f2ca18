import Iso8583Switch.Properties.WireMessages
import Iso8583Switch.Properties.EgressFidelity

/-!
# What the decoders do with any bytes

Four laws of the decoders, each over all byte strings.

*Truncation.*  What a decoder has consumed it needs: the bytes behind do not matter, and
no shorter prefix is accepted.

*Panics.*  Field 48 is decoded lossily and sliced at fixed offsets by the standard dialect
and the universal codec.  Nothing else can panic.

*Unknown fields.*  Outside the standard dialect the bit of a field that is not known is
passed over, and its bytes are taken for those of the next field.

*Numbers.*  The digits of a length may begin with a plus sign, and an amount that is no
number is 0.
-/

namespace Iso8583Switch

open Text FieldWalk

variable {decoder : IsoDecoder}

/-! ## Truncation -/

theorem truncation_is_detected {raw : Bytes} {e : UniversalPaymentEvent}
    (h : decoder.decode raw = .ok e) : ∃ n, n ≤ raw.length ∧ decoder.consume raw = .ok (e, n) ∧
      (∀ rest, decoder.decode (raw.take n ++ rest) = .ok e) ∧
      ∀ part, part <+: raw → part.length < n → decoder.decode part = .error (.error .lengthError) := by
  obtain ⟨m, ⟨tail, rfl⟩, he⟩ := IsoDecoder.decode_eq_ok.mp h
  refine ⟨m.bytes.length, by rw [List.length_append]; omega, ?_, ?_, ?_⟩
  · rw [m.consume_append, he]
    rfl
  · intro rest
    rw [List.take_left]
    exact IsoDecoder.decode_eq_ok.mpr ⟨m, List.prefix_append _ _, he⟩
  · intro part hpart hlt
    have hcut : part <+: m.bytes := List.prefix_of_prefix_length_le hpart
      (List.prefix_append _ _) (Nat.le_of_lt hlt)
    rw [IsoDecoder.decode_eq, m.consume_cut he hcut hlt]
    split
    · rfl
    · rfl

def cardPurchaseFrame : Bytes :=
  asBytes "0100" ++ (bitmapOf [(2, []), (4, []), (11, [])] ++
    asBytes "164111111111111111000000001000000042")

def decodedPurchase : UniversalPaymentEvent :=
  { blankEvent (asBytes "0100") with
    fpan := asBytes "4111111111111111"
    amount := 1000
    stan := "000042" }

theorem decode_cardPurchaseFrame : IsoDecoder.standard.decode cardPurchaseFrame = .ok decodedPurchase := rfl

theorem truncation_is_detected_card : ∃ n, n ≤ cardPurchaseFrame.length ∧
    IsoDecoder.standard.consume cardPurchaseFrame = .ok (decodedPurchase, n) ∧
    (∀ rest, IsoDecoder.standard.decode (cardPurchaseFrame.take n ++ rest) = .ok decodedPurchase) ∧
    ∀ part, part <+: cardPurchaseFrame → part.length < n →
      IsoDecoder.standard.decode part = .error (.error .lengthError) :=
  truncation_is_detected decode_cardPurchaseFrame

/-! ## Panics -/

theorem ok_ne_panicked {α : Type} (a : α) : (.ok a : Except DecodeFailure α) ≠ .error .panicked := by
  intro h
  cases h

theorem error_ne_panicked {α : Type} (e : ParseError) :
    (.error (.error e) : Except DecodeFailure α) ≠ .error .panicked := by
  intro h
  cases h

theorem readFixed_ne_panicked (raw : Bytes) (offset len : Nat) :
    readFixed raw offset len ≠ .error .panicked := by
  rw [readFixed]
  split
  · exact error_ne_panicked _
  · exact ok_ne_panicked _

theorem readVar_ne_panicked (digits : Nat) (raw : Bytes) (offset : Nat) :
    readVar digits raw offset ≠ .error .panicked := by
  rw [readVar_eq, readFixed]
  split
  · exact error_ne_panicked _
  · rw [ok_bind]
    split
    · exact readFixed_ne_panicked _ _ _
    · exact error_ne_panicked _

theorem IsoDecoder.take_ne_panicked (decoder : IsoDecoder) (field : Nat) (raw : Bytes)
    (offset : Nat) : decoder.take field raw offset ≠ .error .panicked := by
  rw [IsoDecoder.take]
  cases decoder.fieldType field with
  | none => exact error_ne_panicked _
  | some ftype =>
      cases ftype with
      | fixed len => exact readFixed_ne_panicked _ _ _
      | llvar => exact readVar_ne_panicked _ _ _
      | lllvar => exact readVar_ne_panicked _ _ _

theorem readBitmap_ne_panicked (raw : Bytes) (more offset : Nat) :
    StandardDialect.readBitmap raw more offset ≠ .error .panicked := by
  induction more generalizing offset with
  | zero => exact readFixed_ne_panicked _ _ _
  | succ more ih =>
      rw [StandardDialect.readBitmap]
      cases hchunk : readFixed raw offset 8 with
      | error e =>
          intro h
          cases h
          exact readFixed_ne_panicked _ _ _ hchunk
      | ok p =>
          rw [ok_bind]
          dsimp only
          split
          · cases hmore : StandardDialect.readBitmap raw more p.2 with
            | error e =>
                intro h
                cases h
                exact ih p.2 hmore
            | ok q => exact ok_ne_panicked _
          · exact ok_ne_panicked _

/-- The decoders that slice field 48. -/
def IsoDecoder.slices (decoder : IsoDecoder) : Bool :=
  decoder = .universal || decoder = .standard

theorem additionalData_eq_error {f48 : String} {tx : UniversalPaymentEvent} {e : DecodeFailure} :
    additionalData f48 tx = .error e ↔ ¬ Sliceable f48 ∧ e = .panicked := by
  have hok : (∃ tx', additionalData f48 tx = .ok tx') ↔ Sliceable f48 := isOk_additionalData
  rw [← hok]
  cases hdata : additionalData f48 tx with
  | ok tx' => simp
  | error e' =>
      have hpanicked : e' = .panicked := by
        have hslice (a b : Nat) : sliceField f48 a b = .error e' → e' = .panicked := by
          rw [sliceField]
          split
          · intro h
            cases h
          · rintro ⟨⟩
            rfl
        rw [additionalData] at hdata
        split at hdata
        · cases hdigits : sliceField f48 4 7 with
          | error _ =>
              rw [hdigits] at hdata
              cases hdata
              exact hslice _ _ hdigits
          | ok digits =>
              rw [hdigits, ok_bind] at hdata
              cases hrest : sliceField f48 8 (len f48) with
              | error _ =>
                  rw [hrest] at hdata
                  cases hdata
                  exact hslice _ _ hrest
              | ok remainder =>
                  rw [hrest, ok_bind] at hdata
                  cases hdata
        · cases hdata
      subst hpanicked
      simp [eq_comm]

theorem StandardDialect.assign_of_ne {field : Nat} (h : field ≠ 48) (bitmaps data : Bytes)
    (tx : UniversalPaymentEvent) : ∃ tx', StandardDialect.assign bitmaps field data tx = .ok tx' := by
  unfold StandardDialect.assign
  split
  · exact absurd rfl h
  all_goals exact ⟨_, rfl⟩

/-- An assignment fails at a field 48 that cannot be sliced, and nowhere else. -/
theorem IsoDecoder.assign_eq_error {bitmaps data : Bytes} {field : Nat}
    {tx : UniversalPaymentEvent} {e : DecodeFailure} :
    decoder.assign bitmaps field data tx = .error e ↔
      (field = 48 ∧ decoder.slices = true) ∧ ¬ Sliceable (fromUtf8Lossy data) ∧ e = .panicked := by
  have hstandard : StandardDialect.assign bitmaps field data tx = .error e ↔
      field = 48 ∧ ¬ Sliceable (fromUtf8Lossy data) ∧ e = .panicked := by
    by_cases hfield : field = 48
    · subst hfield
      exact additionalData_eq_error.trans (by simp)
    · obtain ⟨tx', hok⟩ := StandardDialect.assign_of_ne hfield bitmaps data tx
      simp [hok, hfield]
  cases decoder with
  | universal =>
      show (if field = 126 then _ else _) = _ ↔ _
      split
      next hfield => simp [hfield]
      next => simpa [slices] using hstandard
  | standard =>
      show StandardDialect.assign bitmaps field data tx = _ ↔ _
      simpa [slices] using hstandard
  | interac =>
      show (if field = 48 then _ else if field = 63 then _ else _) = _ ↔ _
      split
      · simp [slices]
      · split <;> simp [slices]
  | ukFps =>
      show (if field = 102 then _ else if field = 103 then _ else _) = _ ↔ _
      split
      · simp [slices]
      · split <;> simp [slices]

/-- Without field 48, all fields can be assigned. -/
theorem IsoDecoder.assignAll_ok {bitmaps : Bytes} {fields : Fields} (h : ∀ f ∈ fields, f.1 ≠ 48)
    (tx : UniversalPaymentEvent) :
    ∃ tx', assignAll (decoder.assign bitmaps) decoder.content fields tx = .ok tx' := by
  induction fields generalizing tx with
  | nil => exact ⟨tx, rfl⟩
  | cons f fields ih =>
      obtain ⟨field, bytes⟩ := f
      rw [assignAll]
      cases hassign : decoder.assign bitmaps field (decoder.content field bytes) tx with
      | error e =>
          have hfield := (IsoDecoder.assign_eq_error.mp hassign).1.1
          exact absurd hfield (h (field, bytes) List.mem_cons_self)
      | ok tx' =>
          rw [ok_bind]
          exact ih (fun f hf => h f (List.mem_cons_of_mem _ hf)) tx'

/-- The text of field 48, if the message is well formed up to there. -/
def IsoDecoder.HoldsField48 (decoder : IsoDecoder) (raw : Bytes) (f48 : String) : Prop :=
  ∃ mti bitmaps before bytes rest, raw = mti ++ (bitmaps ++ (payload before ++ (bytes ++ rest))) ∧
    mti.length = 4 ∧ Chunks decoder.moreBitmaps bitmaps ∧
    Listed (decoder.isRead bitmaps) decoder.WellFormed (List.range' 1 47) before ∧
    decoder.isRead bitmaps 48 = true ∧ decoder.WellFormed 48 bytes ∧
    f48 = fromUtf8Lossy (decoder.content 48 bytes)

/-- Before field 48 come the 47 numbers below. -/
theorem fieldNumbers_split {before after : List Nat}
    (h : IsoDecoder.fieldNumbers = before ++ 48 :: after) : before = List.range' 1 47 := by
  have hlen : before.length < 192 := by
    have := congrArg List.length h
    rw [IsoDecoder.fieldNumbers, List.length_range', List.length_append, List.length_cons] at this
    omega
  have hget : IsoDecoder.fieldNumbers[before.length]? = some 48 := by
    rw [h, List.getElem?_append_right (Nat.le_refl _), Nat.sub_self]
    rfl
  rw [IsoDecoder.fieldNumbers, List.getElem?_range' hlen] at hget
  have hcount : before.length = 47 := by
    have := Option.some.inj hget
    omega
  have hbefore := congrArg (List.take 47) h
  rw [List.take_left' hcount] at hbefore
  exact hbefore.symm

theorem IsoDecoder.consume_panics {raw : Bytes} : decoder.consume raw = .error .panicked ↔
    decoder.slices = true ∧ ∃ f48, decoder.HoldsField48 raw f48 ∧ ¬ Sliceable f48 := by
  refine ⟨fun hread => ?_, ?_⟩
  · rw [consume] at hread
    cases hmti : readFixed raw 0 4 with
    | error e =>
        rw [hmti] at hread
        cases hread
        exact absurd hmti (readFixed_ne_panicked _ _ _)
    | ok p =>
        obtain ⟨mti, rest, hlen, hat, rfl⟩ := (takes_readFixed 4).only (Nat.zero_le _) hmti
        rw [hmti, ok_bind] at hread
        dsimp only [id] at hread
        cases hbitmaps : StandardDialect.readBitmap raw decoder.moreBitmaps (0 + mti.length) with
        | error e =>
            rw [hbitmaps] at hread
            cases hread
            exact absurd hbitmaps (readBitmap_ne_panicked _ _ _)
        | ok q =>
            obtain ⟨bitmaps, rest', hchunks, hat', rfl⟩ :=
              (takes_readBitmap _).only hat.tail.le hbitmaps
            rw [hbitmaps, ok_bind] at hread
            dsimp only [id] at hread
            obtain ⟨before, field, after, fields, bytes, rest'', hsplit, hstops, hat''⟩ :=
              (walk_fails decoder.takes_take decoder.take_ne_panicked hat'.tail.le).mp hread
            obtain ⟨t, -, hrefused⟩ := hstops.refused
            obtain ⟨⟨rfl, hslices⟩, hf48, -⟩ := assign_eq_error.mp hrefused
            have hbefore := hstops.listed
            rw [fieldNumbers_split hsplit] at hbefore
            have hwhole := hat
            rw [At.rest_eq hat.tail hat', At.rest_eq hat'.tail hat''] at hwhole
            obtain ⟨front, rfl, hfront⟩ := hwhole
            have hnil : front = [] := List.length_eq_zero_iff.mp hfront
            subst hnil
            exact ⟨hslices, _, ⟨mti, bitmaps, fields, bytes, rest'', rfl, hlen, hchunks, hbefore,
              hstops.isSet, hstops.wellFormed, rfl⟩, hf48⟩
  · rintro ⟨hslices, f48, ⟨mti, bitmaps, before, bytes, rest, rfl, hlen, hchunks, hbefore, hset,
      hbytes, rfl⟩, hf48⟩
    have hat := At.start [] (mti ++ (bitmaps ++ (payload before ++ (bytes ++ rest))))
    rw [List.nil_append, List.length_nil] at hat
    rw [consume, (takes_readFixed 4).whole hlen hat, ok_bind]
    dsimp only [id]
    rw [(takes_readBitmap _).whole hchunks hat.tail, ok_bind]
    dsimp only [id]
    have hsmall (f : Nat × Bytes) (hf : f ∈ before) : f.1 ≠ 48 := by
      have hmem := ((hbefore.mem_iff f.1).mp ⟨f.2, hf⟩).1
      have := List.mem_range'_1.mp hmem
      omega
    obtain ⟨t, hassign⟩ := assignAll_ok hsmall (decoder.blank mti)
    refine (walk_fails decoder.takes_take decoder.take_ne_panicked hat.tail.tail.le).mpr
      ⟨List.range' 1 47, 48, List.range' 49 144, before, bytes, rest, rfl,
        ⟨hbefore, hset, hbytes, t, hassign, ?_⟩, hat.tail.tail⟩
    exact assign_eq_error.mpr ⟨⟨rfl, hslices⟩, hf48, rfl⟩

/-- What holds a field 48 is long enough to be decoded. -/
theorem IsoDecoder.HoldsField48.le_length {raw : Bytes} {f48 : String}
    (h : decoder.HoldsField48 raw f48) : 12 ≤ raw.length := by
  obtain ⟨mti, bitmaps, before, bytes, rest, rfl, hlen, hchunks, -⟩ := h
  have := hchunks.le_length.1
  rw [List.length_append, List.length_append, hlen]
  omega

theorem decoding_never_panics_iff (decoder : IsoDecoder) (raw : Bytes) :
    decoder.decode raw ≠ .error .panicked ↔
      (decoder.slices = true → ∀ f48, decoder.HoldsField48 raw f48 → Sliceable f48) := by
  have hdecode : decoder.decode raw = .error .panicked ↔ decoder.slices = true ∧
      ∃ f48, decoder.HoldsField48 raw f48 ∧ ¬ Sliceable f48 := by
    rw [IsoDecoder.decode_eq]
    split
    next hshort =>
      refine iff_of_false nofun ?_
      rintro ⟨-, f48, hholds, -⟩
      have := hholds.le_length
      omega
    next =>
      rw [← IsoDecoder.consume_panics]
      cases decoder.consume raw with
      | error e => exact ⟨fun h => by cases h; rfl, fun h => by cases h; rfl⟩
      | ok p => exact iff_of_false nofun nofun
  rw [ne_eq, hdecode]
  constructor
  · intro h hslices f48 hholds
    by_contra hcut
    exact h ⟨hslices, f48, hholds, hcut⟩
  · rintro h ⟨hslices, f48, hholds, hcut⟩
    exact hcut (h hslices f48 hholds)

/-- A risk score whose last digit is a letter of two bytes. -/
def splitScore : Bytes := asBytes "0100" ++ (bitmapOf [(48, [])] ++ asBytes "008RSK:00\u00E9")

theorem decoding_panics :
    ¬ ∀ (decoder : IsoDecoder) (raw : Bytes), decoder.decode raw ≠ .error .panicked :=
  fun h => h .universal splitScore rfl

/-! ## Unknown fields -/

namespace WireMessage

/-- A bit that announces a bitmap which was read: the first of a bitmap that has another
behind it. -/
def announces (m : WireMessage decoder) (field : Nat) : Bool :=
  field % 64 = 1 && field + 127 ≤ m.bitmaps.length * 8

/-- Every set bit announces a bitmap that was read or stands for a field whose bytes were
read, and the fields stand in the order of their numbers. -/
structure ReadsAll (m : WireMessage decoder) : Prop where
  own : ∀ field, isBitSetIn m.bitmaps field = true →
    m.announces field = true ∨ ∃ bytes, (field, bytes) ∈ m.fields
  inOrder : m.fields.map Prod.fst =
    IsoDecoder.fieldNumbers.filter fun field => isBitSetIn m.bitmaps field && !m.announces field

theorem mem_fieldNumbers (m : WireMessage decoder) {field : Nat}
    (h : isBitSetIn m.bitmaps field = true) : field ∈ IsoDecoder.fieldNumbers := by
  have hmore : decoder.moreBitmaps ≤ 2 := by cases decoder <;> decide
  have hlen := m.chunks.le_length.2
  rw [isBitSetIn] at h
  split at h
  next => cases h
  next hrange => exact List.mem_range'_1.mpr (by omega)

/-- A field that is known is none of the bits that may announce a bitmap. -/
theorem announces_of_known (hdecoder : decoder ≠ .standard) (m : WireMessage decoder) {field : Nat}
    (h : (decoder.fieldType field).isSome = true) : m.announces field = false := by
  have hcommon (h : field ∈ commonFields) : field % 64 ≠ 1 := by
    simp only [commonFields, List.mem_cons, List.not_mem_nil, or_false] at h
    omega
  have hmod : field % 64 ≠ 1 := by
    cases decoder with
    | standard => exact absurd rfl hdecoder
    | universal =>
        rw [IsoDecoder.fieldType] at h
        split at h
        · omega
        · split at h
          next hmem => exact hcommon hmem
          next => cases h
    | interac =>
        rw [IsoDecoder.fieldType] at h
        split at h
        · omega
        · split at h
          next hmem => exact hcommon hmem
          next => cases h
    | ukFps =>
        rw [IsoDecoder.fieldType] at h
        split at h
        · omega
        · split at h
          next hmem => exact hcommon hmem.1
          next => cases h
  rw [announces, decide_eq_false hmod, Bool.false_and]

/-- A set bit stands for a field that was read if the decoder knows it. -/
theorem mem_fields_iff (hdecoder : decoder ≠ .standard) (m : WireMessage decoder) {field : Nat}
    (hset : isBitSetIn m.bitmaps field = true) :
    (∃ bytes, (field, bytes) ∈ m.fields) ↔ (decoder.fieldType field).isSome = true := by
  rw [m.listed.mem_iff, IsoDecoder.isRead_eq hdecoder, hset, Bool.true_and]
  exact and_iff_right (m.mem_fieldNumbers hset)

theorem readsAll_iff (hdecoder : decoder ≠ .standard) (m : WireMessage decoder) : m.ReadsAll ↔
    ∀ field, isBitSetIn m.bitmaps field = true →
      m.announces field = true ∨ (decoder.fieldType field).isSome = true := by
  constructor
  · intro h field hset
    rw [← m.mem_fields_iff hdecoder hset]
    exact h.own field hset
  · intro h
    refine ⟨fun field hset => ?_, ?_⟩
    · rw [m.mem_fields_iff hdecoder hset]
      exact h field hset
    · rw [m.listed.numbers]
      refine List.filter_congr fun field _ => ?_
      rw [IsoDecoder.isRead_eq hdecoder]
      cases hset : isBitSetIn m.bitmaps field with
      | false => rfl
      | true =>
          rw [Bool.true_and, Bool.true_and]
          cases hknown : (decoder.fieldType field).isSome with
          | true => rw [m.announces_of_known hdecoder hknown, Bool.not_false]
          | false =>
              rcases h field hset with hann | hknown'
              · rw [hann, Bool.not_true]
              · rw [hknown] at hknown'
                cases hknown'

end WireMessage

/-- Outside the standard dialect an accepted message is read as its bitmaps say if they
name no field that the decoder does not know. -/
theorem unknown_fields_rejected_iff {raw : Bytes} {e : UniversalPaymentEvent}
    (hdecoder : decoder ≠ .standard) (h : decoder.decode raw = .ok e) :
    ∃ m : WireMessage decoder, m.bytes <+: raw ∧ m.event = .ok e ∧
      (m.ReadsAll ↔ ∀ field, isBitSetIn m.bitmaps field = true →
        m.announces field = true ∨ (decoder.fieldType field).isSome = true) := by
  obtain ⟨m, hbytes, he⟩ := IsoDecoder.decode_eq_ok.mp h
  exact ⟨m, hbytes, he, m.readsAll_iff hdecoder⟩

/-- A purchase with its time of transmission in field 7 and the STAN 000042. -/
def transmittedFrame : Bytes :=
  asBytes "0100" ++ (bitmapOf [(7, []), (11, [])] ++ asBytes "0715123456000042")

/-- The month, day and hour of the transmission are taken for the STAN. -/
def misreadPurchase : UniversalPaymentEvent :=
  { blankEvent (asBytes "0100") with stan := "071512" }

theorem decode_transmittedFrame : IsoDecoder.universal.decode transmittedFrame = .ok misreadPurchase :=
  rfl

theorem unknown_fields_rejected_iff_universal : ∃ m : WireMessage .universal,
    m.bytes <+: transmittedFrame ∧ m.event = .ok misreadPurchase ∧
      (m.ReadsAll ↔ ∀ field, isBitSetIn m.bitmaps field = true →
        m.announces field = true ∨ (IsoDecoder.universal.fieldType field).isSome = true) :=
  unknown_fields_rejected_iff nofun decode_transmittedFrame

theorem unknown_field_is_misread : ¬ ∀ (decoder : IsoDecoder) (raw : Bytes)
    (e : UniversalPaymentEvent), decoder ≠ .standard → decoder.decode raw = .ok e →
    ∃ m : WireMessage decoder, m.bytes <+: raw ∧ m.event = .ok e ∧ m.ReadsAll := by
  intro h
  obtain ⟨m, hbytes, -, hall⟩ := h .universal transmittedFrame _ nofun decode_transmittedFrame
  have hlen : m.bitmaps.length = 8 := m.chunks
  have hbitmaps := m.bitmaps_eq hbytes
  rw [hlen] at hbitmaps
  have hset : isBitSetIn m.bitmaps 7 = true := by
    rw [← hbitmaps]
    rfl
  rcases hall.own 7 hset with hann | hmem
  · rw [WireMessage.announces, hlen] at hann
    cases hann
  · have hdecoder : IsoDecoder.universal ≠ .standard := nofun
    have hknown := (m.mem_fields_iff hdecoder hset).mp hmem
    cases hknown

/-! ## Numbers -/

/-- What the digits of a length may be. -/
theorem digits_iff_of_varLength {digits : Nat} {bytes : Bytes} (h : VarLength digits bytes) :
    (∀ b ∈ bytes.take digits, asciiDigit b = true) ↔ (bytes.take digits).head? ≠ some 43 := by
  have hlength := h.2
  rw [lengthOf, Option.ite_none_right_eq_some] at hlength
  exact digits_of_parseUnsigned hlength.1 hlength.2

theorem FieldType.digits_iff {ftype : FieldType} {bytes : Bytes} (h : ftype.WellFormed bytes) :
    (∀ b ∈ bytes.take ftype.digits, asciiDigit b = true) ↔
      (bytes.take ftype.digits).head? ≠ some 43 := by
  cases ftype with
  | fixed len => simp [FieldType.digits]
  | llvar => exact digits_iff_of_varLength h
  | lllvar => exact digits_iff_of_varLength h

namespace WireMessage

variable (m : WireMessage decoder)

/-- Every length is written in digits.  So is field 4, and the amount is its value. -/
structure Validated (e : UniversalPaymentEvent) : Prop where
  lengths : ∀ field bytes ftype, (field, bytes) ∈ m.fields → decoder.fieldType field = some ftype →
    ∀ b ∈ bytes.take ftype.digits, asciiDigit b = true
  amount : ∀ bytes, (4, bytes) ∈ m.fields →
    (∀ b ∈ bytes, asciiDigit b = true) ∧ e.amount.toNat = decimalValue bytes

/-- No length has a plus sign, and field 4 has digits only. -/
structure Unsigned : Prop where
  lengths : ∀ field bytes ftype, (field, bytes) ∈ m.fields → decoder.fieldType field = some ftype →
    (bytes.take ftype.digits).head? ≠ some 43
  amount : ∀ bytes, (4, bytes) ∈ m.fields → ∀ b ∈ bytes, asciiDigit b = true

variable {m}

/-- The amount is the number in field 4, or 0 where there is none. -/
theorem amount_eq {e : UniversalPaymentEvent} (he : m.event = .ok e) {bytes : Bytes}
    (hmem : (4, bytes) ∈ m.fields) :
    e.amount = UInt64.ofNat ((parseUnsigned (2 ^ 64) (fromUtf8Lossy bytes)).getD 0) := by
  have hcommon : 4 ∈ commonFields := by decide
  have hcontent : decoder.content 4 bytes = bytes := by
    cases decoder <;> rfl
  have hamount := assignAll_field (p := UniversalPaymentEvent.amount)
    (g := fun data => UInt64.ofNat ((parseUnsigned (2 ^ 64) (fromUtf8Lossy data)).getD 0))
    (fun field data tx tx' hne hassign => (IsoDecoder.assign_keeps hassign).1 hne)
    (fun data tx tx' hassign => by
      rw [IsoDecoder.assign_common_field hcommon (by decide)] at hassign
      cases hassign
      rfl) m.nodup_numbers hmem he
  rwa [hcontent] at hamount

theorem fieldType_four (decoder : IsoDecoder) : decoder.fieldType 4 = some (.fixed 12) := by
  cases decoder <;> rfl

theorem validated_iff {e : UniversalPaymentEvent} (he : m.event = .ok e) :
    m.Validated e ↔ m.Unsigned := by
  constructor
  · intro h
    refine ⟨fun field bytes ftype hmem htype => ?_, fun bytes hmem => (h.amount bytes hmem).1⟩
    exact (FieldType.digits_iff (m.wellFormed hmem htype)).mp (h.lengths field bytes ftype hmem htype)
  · intro h
    refine ⟨fun field bytes ftype hmem htype => ?_, fun bytes hmem => ⟨h.amount bytes hmem, ?_⟩⟩
    · exact (FieldType.digits_iff (m.wellFormed hmem htype)).mpr
        (h.lengths field bytes ftype hmem htype)
    · have hdigits := h.amount bytes hmem
      have hlen : bytes.length = 12 := m.wellFormed hmem (fieldType_four decoder)
      have hne : bytes ≠ [] := by
        rintro rfl
        cases hlen
      have hbound : decimalValue bytes < 2 ^ 64 := by
        have hlt := decimalValue_lt hdigits
        rw [hlen] at hlt
        omega
      rw [amount_eq he hmem, parseUnsigned_digits hne hdigits hbound, Option.getD_some]
      exact UInt64.toNat_ofNat_of_lt' hbound

end WireMessage

/-- The numbers of an accepted message are validated if no length has a plus sign and the
amount has digits only. -/
theorem numbers_are_validated_iff {raw : Bytes} {e : UniversalPaymentEvent}
    (h : decoder.decode raw = .ok e) : ∃ m : WireMessage decoder, m.bytes <+: raw ∧
      m.event = .ok e ∧ (m.Validated e ↔ m.Unsigned) := by
  obtain ⟨m, hbytes, he⟩ := IsoDecoder.decode_eq_ok.mp h
  exact ⟨m, hbytes, he, WireMessage.validated_iff he⟩

theorem numbers_are_validated_iff_card : ∃ m : WireMessage .standard,
    m.bytes <+: cardPurchaseFrame ∧ m.event = .ok decodedPurchase ∧
      (m.Validated decodedPurchase ↔ m.Unsigned) :=
  numbers_are_validated_iff decode_cardPurchaseFrame

/-- A PAN of five bytes by the length `+5`, and an amount with a letter in it. -/
def malformedNumbers : WireMessage .universal where
  mti := asBytes "0200"
  bitmaps := bitmapOf [(2, []), (4, [])]
  fields := [(2, asBytes "+541111"), (4, asBytes "00000000012A")]
  length_mti := rfl
  chunks := rfl
  listed := by
    refine ⟨rfl, fun f hf => ?_⟩
    simp only [List.mem_cons, List.not_mem_nil, or_false] at hf
    rcases hf with rfl | rfl
    · exact ⟨.llvar, rfl, by decide, rfl⟩
    · exact ⟨.fixed 12, rfl, rfl⟩

def unpricedPurchase : UniversalPaymentEvent :=
  { blankEvent (asBytes "0200") with fpan := asBytes "41111" }

theorem malformed_numbers_are_accepted : ¬ ∀ (decoder : IsoDecoder) (raw : Bytes)
    (e : UniversalPaymentEvent), decoder.decode raw = .ok e →
    ∃ m : WireMessage decoder, m.bytes <+: raw ∧ m.event = .ok e ∧ m.Validated e := by
  intro h
  have hdecode : IsoDecoder.universal.decode malformedNumbers.bytes = .ok unpricedPurchase := rfl
  obtain ⟨m, hbytes, -, hvalid⟩ := h .universal malformedNumbers.bytes _ hdecode
  rw [WireMessage.unique hbytes (List.prefix_refl malformedNumbers.bytes)] at hvalid
  have hmem : (4, asBytes "00000000012A") ∈ malformedNumbers.fields :=
    List.mem_cons_of_mem _ List.mem_cons_self
  exact absurd ((hvalid.amount _ hmem).1 65 (by decide)) (by decide)

end Iso8583Switch
