import Iso8583Switch.Dialect.Ingress
import Iso8583Switch.Library.LossyText

/-!
# What a parsed event is like

The readers bound what they give: a field of fixed length has that length, and a value
behind two digits has at most 99 bytes.  So whatever a parser accepts has an MTI of four
bytes, an acquirer id of at most 99, an amount of at most twelve digits and a PIN block
of sixteen bytes if it has one.  Text fields and the PAN of the UK FPS dialect are not
bounded in this way: lossy decoding makes texts longer, and so does the prefix of that
PAN.
-/

namespace Iso8583Switch

open Text FieldWalk

/-! ## The readers -/

theorem readFixed_ok {data : Bytes} {offset len : Nat} {p : Bytes × Nat}
    (h : readFixed data offset len = .ok p) :
    p.1.length = len ∧ p.2 = offset + len ∧ p.2 ≤ data.length := by
  rw [readFixed] at h
  split at h
  · cases h
  · cases h
    refine ⟨?_, rfl, by dsimp only; omega⟩
    rw [List.length_take, List.length_drop]
    omega

/-- A value is as long as its digits can say. -/
theorem readVar_ok {digits : Nat} {data : Bytes} {offset : Nat} {p : Bytes × Nat}
    (h : readVar digits data offset = .ok p) :
    p.1.length < 10 ^ digits ∧ offset + digits ≤ p.2 ∧ p.2 ≤ data.length := by
  obtain ⟨⟨lenBytes, offset'⟩, hlen, h⟩ := ok_bind_eq h
  obtain ⟨lenStr, hstr, h⟩ := ok_bind_eq h
  obtain ⟨hdigits, rfl, -⟩ := readFixed_ok hlen
  dsimp only at hdigits hstr h
  split at h
  next len hparse =>
    obtain ⟨hval, hoffset, hend⟩ := readFixed_ok h
    have hchars : lenStr.toList.length ≤ digits := by
      rw [fromUtf8] at hstr
      split at hstr
      · cases hstr
        exact hdigits ▸ length_toList_fromUtf8Lossy lenBytes
      · cases hstr
    have hlt := parseUnsigned_lt hparse
    have hpow : 10 ^ lenStr.toList.length ≤ 10 ^ digits := Nat.pow_le_pow_right (by omega) hchars
    exact ⟨by omega, by omega, hend⟩
  next => cases h

theorem readLlvar_ok {data : Bytes} {offset : Nat} {p : Bytes × Nat}
    (h : readLlvar data offset = .ok p) : p.1.length ≤ 99 := by
  have hlt := (readVar_ok h).1
  omega

/-- What a type bounds. -/
theorem FieldType.read_ok {raw : Bytes} {offset : Nat} {ftype : FieldType} {p : Bytes × Nat}
    (h : ftype.read raw offset = .ok p) :
    (∀ len, ftype = .fixed len → p.1.length = len) ∧ (ftype = .llvar → p.1.length ≤ 99) := by
  cases ftype with
  | fixed len =>
      refine ⟨fun len' heq => ?_, nofun⟩
      cases heq
      exact (readFixed_ok h).1
  | llvar => exact ⟨nofun, fun _ => readLlvar_ok h⟩
  | lllvar => exact ⟨nofun, nofun⟩

/-! ## Events -/

/-- What every parser makes sure of. -/
structure Parsed (e : UniversalPaymentEvent) : Prop where
  mti : e.mti.length = 4
  acquirerId : e.acquirerId.length ≤ 99
  amount : e.amount.toNat < 10 ^ 12
  pinBlock : e.pinBlock = [] ∨ e.pinBlock.length = 16

theorem Parsed.blank {mti : Bytes} (h : mti.length = 4) : Parsed (blankEvent mti) :=
  ⟨h, Nat.zero_le _, Nat.pow_pos (by decide), .inl rfl⟩

/-- What is not one of the four may change. -/
theorem Parsed.of_eq {e e' : UniversalPaymentEvent} (h : Parsed e) (hmti : e'.mti = e.mti)
    (hacquirerId : e'.acquirerId = e.acquirerId) (hamount : e'.amount = e.amount)
    (hpinBlock : e'.pinBlock = e.pinBlock) : Parsed e' :=
  ⟨hmti ▸ h.mti, hacquirerId ▸ h.acquirerId, hamount ▸ h.amount, hpinBlock ▸ h.pinBlock⟩

theorem amount_lt {data : Bytes} (h : data.length = 12) :
    (UInt64.ofNat ((parseUnsigned (2 ^ 64) (fromUtf8Lossy data)).getD 0)).toNat < 10 ^ 12 := by
  cases hparse : parseUnsigned (2 ^ 64) (fromUtf8Lossy data) with
  | none => decide
  | some n =>
      have hlt := parseUnsigned_lt hparse
      have hchars := length_toList_fromUtf8Lossy data
      rw [h] at hchars
      have hpow : 10 ^ (fromUtf8Lossy data).toList.length ≤ 10 ^ 12 :=
        Nat.pow_le_pow_right (by omega) hchars
      rw [Option.getD_some, UInt64.toNat_ofNat_of_lt' (by
        have hsize : UInt64.size = 2 ^ 64 := rfl
        omega)]
      omega

theorem Parsed.assignField {field : Nat} {data : Bytes} {tx : UniversalPaymentEvent} (h : Parsed tx)
    (hamount : field = 4 → data.length = 12) (hacquirerId : field = 32 → data.length ≤ 99)
    (hpinBlock : field = 52 → data.length = 16) : Parsed (assignField field data tx) := by
  unfold Iso8583Switch.assignField
  split
  case h_3 => exact ⟨h.mti, h.acquirerId, amount_lt (hamount rfl), h.pinBlock⟩
  case h_7 =>
    dsimp only
    split
    · exact h.of_eq rfl rfl rfl rfl
    · exact h
  case h_8 => exact ⟨h.mti, hacquirerId rfl, h.amount, h.pinBlock⟩
  case h_11 => exact ⟨h.mti, h.acquirerId, h.amount, .inr (hpinBlock rfl)⟩
  all_goals exact h.of_eq rfl rfl rfl rfl

theorem Parsed.takeField {raw : Bytes} {ftype : FieldType} {field : Nat}
    {tx : UniversalPaymentEvent} {offset : Nat} {p : UniversalPaymentEvent × Nat} (hs : Parsed tx)
    (htype : iso1987Dictionary field = some ftype)
    (h : takeField raw ftype field tx offset = .ok p) : Parsed p.1 := by
  obtain ⟨⟨data, offset'⟩, hread, h⟩ := ok_bind_eq h
  cases h
  obtain ⟨hfixed, hllvar⟩ := FieldType.read_ok hread
  refine hs.assignField (fun heq => ?_) (fun heq => ?_) fun heq => ?_
  · subst heq
    exact hfixed 12 (Option.some.inj htype).symm
  · subst heq
    exact hllvar (Option.some.inj htype).symm
  · subst heq
    exact hfixed 16 (Option.some.inj htype).symm

theorem Parsed.additionalData {f48 : String} {tx tx' : UniversalPaymentEvent} (hs : Parsed tx)
    (h : additionalData f48 tx = .ok tx') : Parsed tx' := by
  obtain ⟨riskScore, tavvCryptogram, rfl⟩ := additionalData_ok h
  exact hs.of_eq rfl rfl rfl rfl

/-! ## The three parsers -/

theorem StandardDialect.readField_parsed {raw bitmap : Bytes} {field : Nat}
    {tx : UniversalPaymentEvent} {offset : Nat} {p : UniversalPaymentEvent × Nat}
    (h : readField raw bitmap iso1987Dictionary field tx offset = .ok p) (hs : Parsed tx) :
    Parsed p.1 := by
  unfold readField at h
  split at h
  next ftype htype =>
    obtain ⟨⟨data, offset'⟩, hread, h⟩ := ok_bind_eq h
    obtain ⟨tx', hassign, h⟩ := ok_bind_eq h
    cases h
    show Parsed tx'
    unfold assign at hassign
    split at hassign
    next => exact hs.additionalData hassign
    next =>
      cases hassign
      split
      · exact hs
      · exact hs.of_eq rfl rfl rfl rfl
    next =>
      cases hassign
      exact hs.of_eq rfl rfl rfl rfl
    next =>
      cases hassign
      split
      · exact hs.of_eq rfl rfl rfl rfl
      · exact hs
    next =>
      cases hassign
      have htake : takeField raw ftype field tx offset = .ok (assignField field data tx, offset') := by
        rw [takeField, hread]
        rfl
      exact hs.takeField htype htake
  next => cases h

theorem InteracDialect.readField_parsed {raw : Bytes} {field : Nat} {tx : UniversalPaymentEvent}
    {offset : Nat} {p : UniversalPaymentEvent × Nat} (h : readField raw field tx offset = .ok p)
    (hs : Parsed tx) : Parsed p.1 := by
  unfold readField at h
  split at h
  case h_11 | h_13 =>
    obtain ⟨_, -, h⟩ := ok_bind_eq h
    cases h
    exact hs.of_eq rfl rfl rfl rfl
  case h_14 =>
    cases h
    exact hs
  all_goals exact hs.takeField rfl h

theorem UkFpsDialect.readField_parsed {raw : Bytes} {field : Nat} {tx : UniversalPaymentEvent}
    {offset : Nat} {p : UniversalPaymentEvent × Nat} (h : readField raw field tx offset = .ok p)
    (hs : Parsed tx) : Parsed p.1 := by
  unfold readField at h
  split at h
  case h_12 =>
    obtain ⟨_, -, h⟩ := ok_bind_eq h
    cases h
    dsimp only
    split
    · exact hs.of_eq rfl rfl rfl rfl
    · exact hs.of_eq rfl rfl rfl rfl
  case h_13 =>
    obtain ⟨_, -, h⟩ := ok_bind_eq h
    cases h
    exact hs.of_eq rfl rfl rfl rfl
  case h_14 =>
    cases h
    exact hs
  all_goals exact hs.takeField rfl h

theorem dictionaryOf_eq (version : UInt8) : dictionaryOf version = iso1987Dictionary := by
  rw [dictionaryOf]
  split
  next => rfl
  next =>
    split
    next => rfl
    next => split <;> rfl

/-! ## The parsers -/

section Keeps

variable {P : UniversalPaymentEvent → Prop} {raw : Bytes} {tx : UniversalPaymentEvent}

/-- What holds before the first field and is kept by every field holds in the end. -/
theorem StandardDialect.parse_keeps (h : parse raw = .ok tx)
    (hblank : ∀ mti : Bytes, mti.length = 4 →
      P { blankEvent mti with isReversal := isReversal mti })
    (hread : ∀ bitmap field s offset p,
      readField raw bitmap iso1987Dictionary field s offset = .ok p → P s → P p.1) : P tx := by
  rw [parse] at h
  split at h
  · cases h
  · obtain ⟨⟨mti, _⟩, hmti, h⟩ := ok_bind_eq h
    obtain ⟨⟨bitmap, _⟩, -, h⟩ := ok_bind_eq h
    obtain ⟨p, hwalk, h⟩ := ok_bind_eq h
    cases h
    dsimp only at hwalk
    rw [dictionaryOf_eq] at hwalk
    exact walk_keeps (fun k _ => hread bitmap k) hwalk (hblank mti (readFixed_ok hmti).1)

theorem InteracDialect.parse_keeps (h : parse raw = .ok tx)
    (hblank : ∀ mti : Bytes, mti.length = 4 →
      P { blankEvent mti with
          messageClass := classOfMti (fromUtf8Lossy mti)
          requiresInstantClearing := fromUtf8Lossy mti = "0200"
          isReversal := false })
    (hread : ∀ field s offset p, readField raw field s offset = .ok p → P s → P p.1) : P tx := by
  rw [parse] at h
  split at h
  · cases h
  · obtain ⟨⟨mti, _⟩, hmti, h⟩ := ok_bind_eq h
    obtain ⟨⟨bitmap, _⟩, -, h⟩ := ok_bind_eq h
    obtain ⟨p, hwalk, h⟩ := ok_bind_eq h
    cases h
    exact walk_keeps (fun k _ => hread k) hwalk (hblank mti (readFixed_ok hmti).1)

theorem UkFpsDialect.parse_keeps (h : parse raw = .ok tx)
    (hblank : ∀ mti : Bytes, mti.length = 4 →
      P { blankEvent mti with
          messageClass := classOfMti (fromUtf8Lossy mti)
          isReversal := false })
    (hread : ∀ field s offset p, readField raw field s offset = .ok p → P s → P p.1) : P tx := by
  rw [parse] at h
  split at h
  · cases h
  · obtain ⟨⟨mti, _⟩, hmti, h⟩ := ok_bind_eq h
    obtain ⟨⟨bitmap, _⟩, -, h⟩ := ok_bind_eq h
    dsimp only at h
    split at h
    all_goals
      obtain ⟨⟨secondary, _⟩, -, h⟩ := ok_bind_eq h
      obtain ⟨p, hwalk, h⟩ := ok_bind_eq h
      cases h
      exact walk_keeps (fun k _ => hread k) hwalk (hblank mti (readFixed_ok hmti).1)

end Keeps

theorem IngressDialect.parse_parsed {dialect : IngressDialect} {raw : Bytes}
    {tx : UniversalPaymentEvent} (h : dialect.parse raw = .ok tx) : Parsed tx := by
  cases dialect with
  | standard =>
      exact StandardDialect.parse_keeps h (fun _ hlen => (Parsed.blank hlen).of_eq rfl rfl rfl rfl)
        fun _ _ _ _ _ => StandardDialect.readField_parsed
  | interac =>
      exact InteracDialect.parse_keeps h (fun _ hlen => (Parsed.blank hlen).of_eq rfl rfl rfl rfl)
        fun _ _ _ _ => InteracDialect.readField_parsed
  | ukFps =>
      exact UkFpsDialect.parse_keeps h (fun _ hlen => (Parsed.blank hlen).of_eq rfl rfl rfl rfl)
        fun _ _ _ _ => UkFpsDialect.readField_parsed

end Iso8583Switch
