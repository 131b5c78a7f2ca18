import Iso8583Switch.Library.LossySegments
import Iso8583Switch.Properties.WireDecoding

/-!
# What a guard key tells

A guard key joins the texts of the RRN, the STAN and the acquirer id by dashes.  A text
may hold dashes itself, a field may be absent, and bytes that are no text are replaced.

So the key of a request is that of another one exactly where its dashes allow another cut,
or where a character of it is a replacement character and stands for other bytes as well.
What is neither is `Unambiguous`.
-/

namespace Iso8583Switch

open Text FieldWalk

variable {decoder : IsoDecoder}

/-! ## The values on the wire -/

namespace WireMessage

/-- What a field holds, and nothing where it is absent. -/
def value (m : WireMessage decoder) (field : Nat) : Bytes :=
  match m.fields.lookup field with
  | some bytes => decoder.content field bytes
  | none => []

/-- The bytes of the RRN, the STAN and the acquirer id. -/
def keyBytes (m : WireMessage decoder) : Bytes × Bytes × Bytes :=
  (m.value 37, m.value 11, m.value 32)

variable {m : WireMessage decoder}

theorem value_cases (m : WireMessage decoder) (field : Nat) :
    (m.value field = [] ∧ field ∉ m.fields.map Prod.fst) ∨
      ∃ bytes, (field, bytes) ∈ m.fields ∧ m.value field = decoder.content field bytes := by
  rw [value]
  cases hlookup : m.fields.lookup field with
  | none =>
      refine .inl ⟨rfl, fun hmem => ?_⟩
      obtain ⟨f, hf, hfield⟩ := List.mem_map.mp hmem
      exact absurd (List.lookup_eq_none_iff.mp hlookup f hf) (by simp [hfield])
  | some bytes =>
      obtain ⟨l, r, hfields, -⟩ := List.lookup_eq_some_iff.mp hlookup
      refine .inr ⟨bytes, ?_, rfl⟩
      rw [hfields]
      exact List.mem_append_right _ List.mem_cons_self

/-- What a common field assigns is the value on the wire. -/
theorem assigned {γ : Type} {p : UniversalPaymentEvent → γ} {g : Bytes → γ} {field : Nat}
    (hcommon : field ∈ commonFields) (hne : field ≠ 48)
    (hother : ∀ k data tx tx', k ≠ field → decoder.assign m.bitmaps k data tx = .ok tx' →
      p tx' = p tx)
    (hown : ∀ data tx, p (assignField field data tx) = g data)
    (hblank : p (decoder.blank m.mti) = g []) {e : UniversalPaymentEvent} (he : m.event = .ok e) :
    p e = g (m.value field) := by
  rcases m.value_cases field with ⟨hnil, habsent⟩ | ⟨bytes, hmem, hvalue⟩
  · rw [hnil, ← hblank]
    exact assignAll_untouched hother habsent he
  · rw [hvalue]
    refine assignAll_field hother (fun data tx tx' hassign => ?_) m.nodup_numbers hmem he
    rw [IsoDecoder.assign_common_field hcommon hne] at hassign
    cases hassign
    exact hown data tx

theorem blank_key (decoder : IsoDecoder) (mti : Bytes) : (decoder.blank mti).rrn = "" ∧
    (decoder.blank mti).stan = "" ∧ (decoder.blank mti).acquirerId = [] := by
  cases decoder <;> exact ⟨rfl, rfl, rfl⟩

/-- The parts of the key are the values on the wire. -/
theorem key_parts {e : UniversalPaymentEvent} (he : m.event = .ok e) :
    e.rrn = fromUtf8Lossy (m.value 37) ∧ e.stan = fromUtf8Lossy (m.value 11) ∧
      e.acquirerId = m.value 32 := by
  obtain ⟨hrrn, hstan, hacquirer⟩ := blank_key decoder m.mti
  refine ⟨?_, ?_, ?_⟩
  · exact assigned (p := UniversalPaymentEvent.rrn) (g := fromUtf8Lossy) (by decide) (by decide)
      (fun _ _ _ _ hne h => (IsoDecoder.assign_keeps h).2.2.2 hne) (fun _ _ => rfl) hrrn he
  · exact assigned (p := UniversalPaymentEvent.stan) (g := fromUtf8Lossy) (by decide) (by decide)
      (fun _ _ _ _ hne h => (IsoDecoder.assign_keeps h).2.1 hne) (fun _ _ => rfl) hstan he
  · exact assigned (p := UniversalPaymentEvent.acquirerId) (g := id) (by decide) (by decide)
      (fun _ _ _ _ hne h => (IsoDecoder.assign_keeps h).2.2.1 hne) (fun _ _ => rfl) hacquirer he

/-- A value behind two digits has at most 99 bytes. -/
theorem length_drop_varLength {bytes : Bytes} (h : VarLength 2 bytes) :
    (bytes.drop 2).length ≤ 99 := by
  obtain ⟨hle, hlength⟩ := h
  rw [lengthOf, Option.ite_none_right_eq_some] at hlength
  have hlt := parseUnsigned_lt hlength.2
  have hchars := length_toList_fromUtf8Lossy (bytes.take 2)
  rw [List.length_take_of_le hle] at hchars
  have hpow : 10 ^ (fromUtf8Lossy (bytes.take 2)).toList.length ≤ 10 ^ 2 :=
    Nat.pow_le_pow_right (by omega) hchars
  rw [List.length_drop]
  omega

theorem length_value_fixed (m : WireMessage decoder) {field len : Nat}
    (htype : decoder.fieldType field = some (.fixed len)) :
    (m.value field).length = 0 ∨ (m.value field).length = len := by
  rcases m.value_cases field with ⟨hnil, -⟩ | ⟨bytes, hmem, hvalue⟩
  · exact .inl (by rw [hnil]; rfl)
  · have hlen : bytes.length = len := m.wellFormed hmem htype
    have hcontent : decoder.content field bytes = bytes := by
      rw [IsoDecoder.content, htype]
      rfl
    exact .inr (by rw [hvalue, hcontent, hlen])

theorem length_value_llvar (m : WireMessage decoder) {field : Nat}
    (htype : decoder.fieldType field = some .llvar) : (m.value field).length ≤ 99 := by
  rcases m.value_cases field with ⟨hnil, -⟩ | ⟨bytes, hmem, hvalue⟩
  · rw [hnil]
    exact Nat.zero_le _
  · have hvar : VarLength 2 bytes := m.wellFormed hmem htype
    have hcontent : decoder.content field bytes = bytes.drop 2 := by
      rw [IsoDecoder.content, htype]
      rfl
    rw [hvalue, hcontent]
    exact length_drop_varLength hvar

/-- How long the values of the key are. -/
theorem length_values (m : WireMessage decoder) :
    ((m.value 37).length = 0 ∨ (m.value 37).length = 12) ∧
      ((m.value 11).length = 0 ∨ (m.value 11).length = 6) ∧ (m.value 32).length ≤ 99 := by
  refine ⟨m.length_value_fixed ?_, m.length_value_fixed ?_, m.length_value_llvar ?_⟩
  all_goals cases decoder <;> rfl

end WireMessage

/-! ## A message for every key -/

/-- A field that is left out where it has no bytes. -/
def optionalField (field : Nat) (val bytes : Bytes) : Fields :=
  if val.isEmpty then [] else [(field, bytes)]

/-- The fields of a message that has nothing but a key. -/
def keyFields (rrn stan acquirerId : Bytes) : Fields :=
  optionalField 11 stan stan ++
    (optionalField 32 acquirerId (asBytes (zeroPadded 2 acquirerId.length) ++ acquirerId) ++
      optionalField 37 rrn rrn)

theorem varLength_written {val : Bytes} (h : val.length ≤ 99) :
    VarLength 2 (asBytes (zeroPadded 2 val.length) ++ val) := by
  have hdigits : (asBytes (zeroPadded 2 val.length)).length = 2 := by
    rw [length_asBytes, len_zeroPadded (by decide) (by omega)]
  refine ⟨by rw [List.length_append]; omega, ?_⟩
  rw [List.take_left' hdigits, lengthOf, fromUtf8Lossy_asBytes, if_pos rfl,
    parseUnsigned_zeroPadded (by omega), List.length_append, hdigits, Nat.add_sub_cancel_left]

theorem mem_optionalField {field : Nat} {val bytes : Bytes} {f : Nat × Bytes}
    (h : f ∈ optionalField field val bytes) : val ≠ [] ∧ f = (field, bytes) := by
  rw [optionalField] at h
  cases val with
  | nil => cases h
  | cons b val => exact ⟨List.cons_ne_nil _ _, List.mem_singleton.mp h⟩

/-- The fields that may be there. -/
def keyNumbers : List (List Nat) :=
  [[], [11], [32], [37], [11, 32], [11, 37], [32, 37], [11, 32, 37]]

theorem keyFields_numbers (rrn stan acquirerId : Bytes) :
    (keyFields rrn stan acquirerId).map Prod.fst ∈ keyNumbers := by
  cases rrn <;> cases stan <;> cases acquirerId <;> simp [keyFields, optionalField, keyNumbers]

theorem bitmapOf_numbers (fields : Fields) :
    bitmapOf fields = (fields.map Prod.fst).foldl setBitIn (List.replicate 8 0) :=
  List.foldl_map.symm

/-- The bits of the fields are the only ones in their bitmap. -/
theorem keyNumbers_bits : ∀ numbers ∈ keyNumbers,
    numbers = IsoDecoder.fieldNumbers.filter
      (IsoDecoder.standard.isRead (numbers.foldl setBitIn (List.replicate 8 0))) ∧
    isBitSetIn (numbers.foldl setBitIn (List.replicate 8 0)) 1 = false ∧ 48 ∉ numbers := by
  decide

theorem keyFields_wellFormed {rrn stan acquirerId : Bytes} (hrrn : rrn.length = 0 ∨ rrn.length = 12)
    (hstan : stan.length = 0 ∨ stan.length = 6) (hacquirer : acquirerId.length ≤ 99) :
    ∀ f ∈ keyFields rrn stan acquirerId, IsoDecoder.standard.WellFormed f.1 f.2 := by
  intro f hf
  rcases List.mem_append.mp hf with hf | hf
  · obtain ⟨hne, rfl⟩ := mem_optionalField hf
    have hpos := List.length_pos_iff.mpr hne
    have hsix : stan.length = 6 := by omega
    exact ⟨.fixed 6, rfl, hsix⟩
  rcases List.mem_append.mp hf with hf | hf
  · obtain ⟨-, rfl⟩ := mem_optionalField hf
    exact ⟨.llvar, rfl, varLength_written hacquirer⟩
  · obtain ⟨hne, rfl⟩ := mem_optionalField hf
    have hpos := List.length_pos_iff.mpr hne
    have htwelve : rrn.length = 12 := by omega
    exact ⟨.fixed 12, rfl, htwelve⟩

/-- Any bytes of the right lengths are the key of some message. -/
theorem exists_message {rrn stan acquirerId : Bytes} (hrrn : rrn.length = 0 ∨ rrn.length = 12)
    (hstan : stan.length = 0 ∨ stan.length = 6) (hacquirer : acquirerId.length ≤ 99) :
    ∃ (m : WireMessage .standard) (e : UniversalPaymentEvent), m.event = .ok e ∧
      m.keyBytes = (rrn, stan, acquirerId) := by
  obtain ⟨hread, hone, hsmall⟩ := keyNumbers_bits _ (keyFields_numbers rrn stan acquirerId)
  rw [← bitmapOf_numbers] at hread hone
  let m : WireMessage .standard :=
    { mti := asBytes "0100"
      bitmaps := bitmapOf (keyFields rrn stan acquirerId)
      fields := keyFields rrn stan acquirerId
      length_mti := rfl
      chunks := Chunks.single (length_bitmapOf _) hone
      listed := ⟨hread, keyFields_wellFormed hrrn hstan hacquirer⟩ }
  have hfields (f : Nat × Bytes) (hf : f ∈ m.fields) : f.1 ≠ 48 := fun hfield =>
    hsmall (hfield ▸ List.mem_map_of_mem hf)
  obtain ⟨e, he⟩ := IsoDecoder.assignAll_ok hfields (IsoDecoder.standard.blank m.mti)
  refine ⟨m, e, he, ?_⟩
  have hdigits : (asBytes (zeroPadded 2 acquirerId.length)).length = 2 := by
    rw [length_asBytes, len_zeroPadded (by decide) (by omega)]
  have hcontent : (asBytes (zeroPadded 2 acquirerId.length) ++ acquirerId).drop 2 = acquirerId :=
    List.drop_left' hdigits
  have hnumber : IsoDecoder.standard.fieldType 37 = some (.fixed 12) ∧
      IsoDecoder.standard.fieldType 11 = some (.fixed 6) ∧
      IsoDecoder.standard.fieldType 32 = some .llvar := ⟨rfl, rfl, rfl⟩
  cases rrn <;> cases stan <;> cases acquirerId <;>
    simp [m, WireMessage.keyBytes, WireMessage.value, keyFields, optionalField, List.lookup_cons,
      IsoDecoder.content, hnumber, FieldType.digits] <;> simpa using hcontent

/-! ## Keys that tell their requests apart -/

/-- The bytes of a key as they are on the wire, joined by dashes. -/
def joinedBytes (rrn stan acquirerId : Bytes) : Bytes := rrn ++ 45 :: (stan ++ 45 :: acquirerId)

theorem length_joinedBytes (rrn stan acquirerId : Bytes) :
    (joinedBytes rrn stan acquirerId).length =
      rrn.length + stan.length + acquirerId.length + 2 := by
  simp only [joinedBytes, List.length_append, List.length_cons]
  omega

theorem getElem?_joinedBytes (rrn stan acquirerId : Bytes) :
    (joinedBytes rrn stan acquirerId)[rrn.length]? = some 45 ∧
      (joinedBytes rrn stan acquirerId)[rrn.length + 1 + stan.length]? = some 45 := by
  constructor
  · rw [joinedBytes, List.getElem?_append_right (Nat.le_refl _), Nat.sub_self]
    rfl
  · rw [joinedBytes, List.getElem?_append_right (by omega),
      show rrn.length + 1 + stan.length - rrn.length = stan.length + 1 by omega,
      List.getElem?_cons_succ, List.getElem?_append_right (Nat.le_refl _), Nat.sub_self]
    rfl

theorem exists_cut {bytes : Bytes} {i : Nat} {b : UInt8} (h : bytes[i]? = some b) :
    ∃ front rest, front.length = i ∧ bytes = front ++ b :: rest := by
  obtain ⟨hlt, rfl⟩ := List.getElem?_eq_some_iff.mp h
  refine ⟨bytes.take i, bytes.drop (i + 1), List.length_take_of_le (Nat.le_of_lt hlt), ?_⟩
  rw [List.getElem_cons_drop, List.take_append_drop]

/-- Two dashes cut some bytes into three parts. -/
theorem exists_parts {bytes : Bytes} {i j : Nat} (hi : bytes[i]? = some 45)
    (hj : bytes[i + 1 + j]? = some 45) : ∃ rrn stan acquirerId, rrn.length = i ∧
      stan.length = j ∧ bytes = joinedBytes rrn stan acquirerId := by
  obtain ⟨rrn, rest, rfl, rfl⟩ := exists_cut hi
  rw [List.getElem?_append_right (by omega),
    show rrn.length + 1 + j - rrn.length = j + 1 by omega, List.getElem?_cons_succ] at hj
  obtain ⟨stan, acquirerId, rfl, rfl⟩ := exists_cut hj
  exact ⟨rrn, stan, acquirerId, rfl, rfl, rfl⟩

/-- A key is the text of the joined bytes. -/
theorem formatKey_fromUtf8Lossy (rrn stan acquirerId : Bytes) :
    formatKey (fromUtf8Lossy rrn) (fromUtf8Lossy stan) (fromUtf8Lossy acquirerId) =
      fromUtf8Lossy (joinedBytes rrn stan acquirerId) := by
  have hdash : (45 : UInt8).toNat < 0x80 := by decide
  rw [joinedBytes, fromUtf8Lossy_append_ascii hdash, fromUtf8Lossy_append_ascii hdash, formatKey]
  simp only [String.append_assoc]
  rfl

/-- No part of a key has a replacement character, and the joined bytes do not have their
dashes where another request would have them, whose RRN is absent or has 12 bytes, whose
STAN is absent or has 6, and whose acquirer id has 99 at most. -/
structure Unambiguous (rrn stan acquirerId : Bytes) : Prop where
  legible : ∀ bytes ∈ [rrn, stan, acquirerId], replacement ∉ (fromUtf8Lossy bytes).toList
  oneCut : ∀ i ∈ [0, 12], ∀ j ∈ [0, 6],
    (joinedBytes rrn stan acquirerId)[i]? = some 45 →
    (joinedBytes rrn stan acquirerId)[i + 1 + j]? = some 45 →
    (joinedBytes rrn stan acquirerId).length ≤ i + j + 101 →
    i = rrn.length ∧ j = stan.length

def IngressDialect.isoDecoder : IngressDialect → IsoDecoder
  | .standard => .standard
  | .interac => .interac
  | .ukFps => .ukFps

theorem IngressDialect.parse_eq_ok {dialect : IngressDialect} {raw : Bytes}
    {e : UniversalPaymentEvent} : dialect.parse raw = .ok e ↔
      ∃ m : WireMessage dialect.isoDecoder, m.bytes <+: raw ∧ m.event = .ok e := by
  cases dialect with
  | standard => exact @IsoDecoder.decode_eq_ok .standard _ _
  | interac => exact @IsoDecoder.decode_eq_ok .interac _ _
  | ukFps => exact @IsoDecoder.decode_eq_ok .ukFps _ _

namespace WireMessage

variable {m : WireMessage decoder} {e : UniversalPaymentEvent}

theorem guardKey_eq (he : m.event = .ok e) :
    e.guardKey = fromUtf8Lossy (joinedBytes (m.value 37) (m.value 11) (m.value 32)) := by
  obtain ⟨hrrn, hstan, hacquirer⟩ := key_parts he
  rw [UniversalPaymentEvent.guardKey, hrrn, hstan, hacquirer, formatKey_fromUtf8Lossy]

/-- A key that is not ambiguous is the key of its own bytes only. -/
theorem keyBytes_eq (h : Unambiguous (m.value 37) (m.value 11) (m.value 32))
    (he : m.event = .ok e) {decoder' : IsoDecoder} {m' : WireMessage decoder'}
    {e' : UniversalPaymentEvent} (he' : m'.event = .ok e') (hkey : e'.guardKey = e.guardKey) :
    m'.keyBytes = m.keyBytes := by
  rw [guardKey_eq he, guardKey_eq he'] at hkey
  have hlegible : replacement ∉
      (fromUtf8Lossy (joinedBytes (m.value 37) (m.value 11) (m.value 32))).toList := by
    rw [← formatKey_fromUtf8Lossy, formatKey]
    simp only [String.toList_append, List.mem_append, not_or]
    exact ⟨⟨⟨⟨h.legible _ (by simp), by decide⟩, h.legible _ (by simp)⟩, by decide⟩,
      h.legible _ (by simp)⟩
  have hjoined := eq_of_fromUtf8Lossy hlegible hkey
  obtain ⟨hrrn, hstan, hacquirer⟩ := m'.length_values
  obtain ⟨hfirst, hsecond⟩ := getElem?_joinedBytes (m'.value 37) (m'.value 11) (m'.value 32)
  have hlength := length_joinedBytes (m'.value 37) (m'.value 11) (m'.value 32)
  rw [hjoined] at hfirst hsecond hlength
  obtain ⟨hr, hs⟩ := h.oneCut _ (by simpa using hrrn) _ (by simpa using hstan) hfirst hsecond
    (by omega)
  obtain ⟨hvalue, hrest⟩ := List.append_inj hjoined hr
  obtain ⟨hvalue', hrest⟩ := List.append_inj (List.cons.inj hrest).2 hs
  rw [keyBytes, keyBytes, hvalue, hvalue', (List.cons.inj hrest).2]

/-- Where some other bytes have the same key, there is a message with them. -/
theorem exists_same_key (he : m.event = .ok e) {rrn stan acquirerId : Bytes}
    (hrrn : rrn.length = 0 ∨ rrn.length = 12) (hstan : stan.length = 0 ∨ stan.length = 6)
    (hacquirer : acquirerId.length ≤ 99)
    (hkey : fromUtf8Lossy (joinedBytes rrn stan acquirerId) =
      fromUtf8Lossy (joinedBytes (m.value 37) (m.value 11) (m.value 32))) :
    ∃ (m' : WireMessage .standard) (e' : UniversalPaymentEvent), m'.event = .ok e' ∧
      e'.guardKey = e.guardKey ∧ m'.keyBytes = (rrn, stan, acquirerId) := by
  obtain ⟨m', e', he', hbytes⟩ := exists_message hrrn hstan hacquirer
  refine ⟨m', e', he', ?_, hbytes⟩
  obtain ⟨hvalue, hvalue', hvalue''⟩ : m'.value 37 = rrn ∧ m'.value 11 = stan ∧
      m'.value 32 = acquirerId := by simpa [keyBytes] using hbytes
  rw [guardKey_eq he', guardKey_eq he, hvalue, hvalue', hvalue'', hkey]

end WireMessage

/-- A text with a replacement character is that of other bytes, as many. -/
theorem exists_other_bytes {bytes : Bytes} (h : replacement ∈ (fromUtf8Lossy bytes).toList) :
    ∃ bytes', bytes' ≠ bytes ∧ bytes'.length = bytes.length ∧
      fromUtf8Lossy bytes' = fromUtf8Lossy bytes := by
  obtain ⟨bytes', hne, hlength, hread⟩ := (segmented_fromUtf8Lossy bytes).exists_other h
  exact ⟨bytes', hne, hlength, by rw [fromUtf8Lossy, hread, String.ofList_toList]⟩

/-- The key of a request identifies it if no other request has the same key and other
bytes in its fields. -/
def Identified (m : WireMessage decoder) (e : UniversalPaymentEvent) : Prop :=
  ∀ (dialect : IngressDialect) (raw : Bytes) (e' : UniversalPaymentEvent),
    dialect.parse raw = .ok e' → ∀ m' : WireMessage dialect.isoDecoder, m'.bytes <+: raw →
    e'.guardKey = e.guardKey → m'.keyBytes = m.keyBytes

namespace WireMessage

variable {m : WireMessage decoder} {e : UniversalPaymentEvent}

theorem identified_iff (he : m.event = .ok e) :
    Identified m e ↔ Unambiguous (m.value 37) (m.value 11) (m.value 32) := by
  constructor
  · intro h
    have hsame {rrn stan acquirerId : Bytes} (hrrn : rrn.length = 0 ∨ rrn.length = 12)
        (hstan : stan.length = 0 ∨ stan.length = 6) (hacquirer : acquirerId.length ≤ 99)
        (hkey : fromUtf8Lossy (joinedBytes rrn stan acquirerId) =
          fromUtf8Lossy (joinedBytes (m.value 37) (m.value 11) (m.value 32))) :
        rrn = m.value 37 ∧ stan = m.value 11 ∧ acquirerId = m.value 32 := by
      obtain ⟨m', e', he', hguard, hbytes⟩ := exists_same_key he hrrn hstan hacquirer hkey
      have hother := h .standard m'.bytes e'
        (IngressDialect.parse_eq_ok.mpr ⟨m', List.prefix_refl _, he'⟩) m' (List.prefix_refl _)
        hguard
      simpa [keyBytes] using hbytes.symm.trans hother
    obtain ⟨hrrn, hstan, hacquirer⟩ := m.length_values
    refine ⟨fun bytes hmem hreplaced => ?_, fun i hi j hj hfirst hsecond hlength => ?_⟩
    · obtain ⟨bytes', hne, hlen, htext⟩ := exists_other_bytes hreplaced
      simp only [List.mem_cons, List.not_mem_nil, or_false] at hmem
      simp only [← formatKey_fromUtf8Lossy] at hsame
      rcases hmem with rfl | rfl | rfl
      · exact hne (hsame (by rwa [hlen]) hstan hacquirer (by rw [htext])).1
      · exact hne (hsame hrrn (by rwa [hlen]) hacquirer (by rw [htext])).2.1
      · exact hne (hsame hrrn hstan (by rwa [hlen]) (by rw [htext])).2.2
    · obtain ⟨rrn, stan, acquirerId, rfl, rfl, hjoined⟩ := exists_parts hfirst hsecond
      rw [hjoined, length_joinedBytes] at hlength
      obtain ⟨hr, hs, -⟩ := hsame (by simpa using hi) (by simpa using hj) (by omega)
        (congrArg fromUtf8Lossy hjoined.symm)
      exact ⟨by rw [hr], by rw [hs]⟩
  · intro h dialect raw e' hparse m' hbytes hguard
    obtain ⟨m'', hbytes'', he'⟩ := IngressDialect.parse_eq_ok.mp hparse
    rw [WireMessage.unique hbytes'' hbytes] at he'
    exact keyBytes_eq h he he' hguard

end WireMessage

/-- A request that is accepted has its key for itself if its key is not ambiguous. -/
theorem guard_key_identifies_iff {dialect : IngressDialect} {raw : Bytes}
    {e : UniversalPaymentEvent} (h : dialect.parse raw = .ok e) :
    ∃ m : WireMessage dialect.isoDecoder, m.bytes <+: raw ∧ m.event = .ok e ∧
      (Identified m e ↔ Unambiguous (m.value 37) (m.value 11) (m.value 32)) := by
  obtain ⟨m, hbytes, he⟩ := IngressDialect.parse_eq_ok.mp h
  exact ⟨m, hbytes, he, WireMessage.identified_iff he⟩

theorem guard_key_identifies_iff_card : ∃ m : WireMessage IngressDialect.standard.isoDecoder,
    m.bytes <+: cardPurchaseFrame ∧ m.event = .ok decodedPurchase ∧
      (Identified m decodedPurchase ↔ Unambiguous (m.value 37) (m.value 11) (m.value 32)) :=
  guard_key_identifies_iff
    (show IngressDialect.standard.parse _ = .ok decodedPurchase from decode_cardPurchaseFrame)

/-- An RRN with two dashes and no STAN. -/
def dashedRrn : Bytes :=
  asBytes "0100" ++ (bitmapOf [(32, []), (37, [])] ++ asBytes "01C-000042-1234")

/-- A STAN, an acquirer id with two dashes and no RRN. -/
def dashedAcquirer : Bytes :=
  asBytes "0100" ++ (bitmapOf [(11, []), (32, [])] ++ asBytes "000042071234--C")

theorem keys_collide : ¬ ∀ (dialect dialect' : IngressDialect) (raw raw' : Bytes)
    (e e' : UniversalPaymentEvent), dialect.parse raw = .ok e → dialect'.parse raw' = .ok e' →
    e'.guardKey = e.guardKey →
    ∀ (m : WireMessage dialect.isoDecoder) (m' : WireMessage dialect'.isoDecoder),
      m.bytes <+: raw → m'.bytes <+: raw' → m'.keyBytes = m.keyBytes := by
  intro h
  have hparse : IngressDialect.standard.parse dashedRrn = .ok
      { blankEvent (asBytes "0100") with
        rrn := "-000042-1234"
        acquirerId := asBytes "C" } := rfl
  have hparse' : IngressDialect.standard.parse dashedAcquirer = .ok
      { blankEvent (asBytes "0100") with
        stan := "000042"
        acquirerId := asBytes "1234--C" } := rfl
  obtain ⟨m, hbytes, he⟩ := IngressDialect.parse_eq_ok.mp hparse
  obtain ⟨m', hbytes', he'⟩ := IngressDialect.parse_eq_ok.mp hparse'
  have hsame := h .standard .standard _ _ _ _ hparse hparse' rfl m m' hbytes hbytes'
  have hacquirer : m'.value 32 = m.value 32 := congrArg (fun k => k.2.2) hsame
  rw [← (WireMessage.key_parts he).2.2, ← (WireMessage.key_parts he').2.2] at hacquirer
  exact absurd hacquirer (by decide)

end Iso8583Switch
