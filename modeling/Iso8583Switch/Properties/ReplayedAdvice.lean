import Iso8583Switch.Properties.StoreAndForward
import Iso8583Switch.Library.LossySegments
import Iso8583Switch.Properties.CodecAgreement

/-!
# The frame of a replayed advice

An advice that cannot be sent is stored as a protobuf message and encoded again when it
is swept.  The message has texts where the event has bytes, no token and no message
class.

Two encodings with the same bits differ in the values of the fields 2, 32 and 52 only.
Lossy text is never shorter than its bytes, and what it gains it cannot lose elsewhere,
so the frames are equal only field by field (`varParts_inj`).
-/

namespace Iso8583Switch

open Text FieldWalk

/-! ## Bytes as text -/

/-- Bytes that have been a text. -/
def asText (bytes : Bytes) : Bytes := asBytes (fromUtf8Lossy bytes)

theorem asText_eq (bytes : Bytes) :
    asText bytes = (decodeLossy none bytes).flatMap String.utf8EncodeChar := by
  rw [asText, asBytes_eq, fromUtf8Lossy, String.toList_ofList]

theorem length_asText (bytes : Bytes) :
    (asText bytes).length = ((decodeLossy none bytes).map Char.utf8Size).sum := by
  rw [asText_eq, length_flatMap_encode]

theorem le_length_asText (bytes : Bytes) : bytes.length ≤ (asText bytes).length := by
  rw [length_asText]
  exact (segmented_decodeLossy bytes).1.le_size

theorem length_asText_le (bytes : Bytes) : (asText bytes).length ≤ 4 * bytes.length := by
  have hfour (cs : List Char) : (cs.map Char.utf8Size).sum ≤ 4 * cs.length := by
    induction cs with
    | nil => exact Nat.le_refl 0
    | cons c cs ih =>
        have := c.utf8Size_le_four
        rw [List.map_cons, List.sum_cons, List.length_cons]
        omega
  have hcount := (segmented_decodeLossy bytes).1.length_le
  have := hfour (decodeLossy none bytes)
  rw [length_asText]
  omega

theorem asText_eq_nil {bytes : Bytes} : asText bytes = [] ↔ bytes = [] := by
  rw [← List.length_eq_zero_iff, ← List.length_eq_zero_iff]
  have hle := le_length_asText bytes
  have hge := length_asText_le bytes
  omega

/-- A text that ends in the bytes it is read from is little longer. -/
theorem length_asText_suffix {bytes front : Bytes} (h : asText bytes = front ++ bytes) :
    front.length ≤ 6 := by
  have hdrop : (asText bytes).drop front.length = bytes := by rw [h, List.drop_left]
  have hsize := size_decodeLossy_drop (decodeLossy none bytes) front.length
  rw [← asText_eq, hdrop, ← length_asText, h, List.length_append] at hsize
  omega

/-! ## Values of variable length -/

/-- A value of variable length, or nothing where its field is absent. -/
def varPart (val : Bytes) : Bytes := if val.isEmpty then [] else writeLlvar val

theorem varPart_cases (val : Bytes) : (varPart val = [] ∧ (val = [] ∨ 99 < val.length)) ∨
    (varPart val = asBytes (zeroPadded 2 val.length) ++ val ∧ val ≠ [] ∧ val.length ≤ 99) := by
  rw [varPart, writeLlvar, writeVar]
  cases val with
  | nil => exact .inl ⟨rfl, .inl rfl⟩
  | cons b val =>
      rw [List.isEmpty_cons, if_neg Bool.false_ne_true]
      by_cases hlong : 99 < (b :: val).length
      · rw [if_pos hlong]
        exact .inl ⟨rfl, .inr hlong⟩
      · rw [if_neg hlong]
        exact .inr ⟨rfl, List.cons_ne_nil _ _, Nat.not_lt.mp hlong⟩

theorem length_zeroPadded_two {n : Nat} (h : n ≤ 99) : (asBytes (zeroPadded 2 n)).length = 2 := by
  rw [length_asBytes, len_zeroPadded (by decide) (by omega)]

theorem zeroPadded_two_inj {m n : Nat}
    (h : asBytes (zeroPadded 2 m) = asBytes (zeroPadded 2 n)) : m = n := by
  have htext := congrArg fromUtf8Lossy h
  rw [fromUtf8Lossy_asBytes, fromUtf8Lossy_asBytes] at htext
  exact zeroPadded_inj.mp htext

/-- A value and its text are written alike if they are one or neither is written. -/
theorem varPart_asText_iff {val : Bytes} :
    varPart val = varPart (asText val) ↔ asText val = val ∨ 99 < val.length := by
  have hle := le_length_asText val
  constructor
  · intro h
    rcases varPart_cases val with ⟨-, rfl | hlong⟩ | ⟨hval, hne, hshort⟩
    · exact .inl (asText_eq_nil.mpr rfl)
    · exact .inr hlong
    · rcases varPart_cases (asText val) with ⟨hnil, -⟩ | ⟨htext, -, hshort'⟩
      · have hlen := congrArg List.length h
        rw [hval, hnil, List.length_append, length_zeroPadded_two hshort] at hlen
        cases Nat.add_eq_zero_iff.mp hlen |>.1
      · rw [hval, htext] at h
        exact .inl (List.append_inj_right h
          ((length_zeroPadded_two hshort).trans (length_zeroPadded_two hshort').symm)).symm
  · rintro (heq | hlong)
    · rw [heq]
    · rcases varPart_cases val with ⟨hval, -⟩ | ⟨-, -, hshort⟩
      · rcases varPart_cases (asText val) with ⟨htext, -⟩ | ⟨-, -, hshort⟩
        · rw [hval, htext]
        · omega
      · omega

/-- Two values of variable length with something between them and their texts are written
alike only if both are. -/
theorem varParts_inj {a b x : Bytes}
    (h : varPart a ++ (x ++ varPart b) = varPart (asText a) ++ (x ++ varPart (asText b))) :
    varPart a = varPart (asText a) ∧ varPart b = varPart (asText b) := by
  have hsame (hlen : (varPart a).length = (varPart (asText a)).length) :
      varPart a = varPart (asText a) ∧ varPart b = varPart (asText b) := by
    obtain ⟨ha, hrest⟩ := List.append_inj h hlen
    exact ⟨ha, List.append_cancel_left hrest⟩
  have hle := le_length_asText a
  have hle' := le_length_asText b
  have htotal := congrArg List.length h
  simp only [List.length_append] at htotal
  rcases varPart_cases a with ⟨hnil, hwhy⟩ | ⟨ha, hne, hshort⟩
  · -- Nothing is written for the value, nor for its longer text.
    refine hsame ?_
    rcases varPart_cases (asText a) with ⟨hnil', -⟩ | ⟨-, hne, hshort⟩
    · rw [hnil, hnil']
    · rcases hwhy with rfl | hlong
      · exact absurd (asText_eq_nil.mpr rfl) hne
      · omega
  · rcases varPart_cases (asText a) with ⟨hnil', hwhy⟩ | ⟨ha', -, hshort'⟩
    · -- The text is too long, and the other text would have to make up for it.
      exfalso
      have hlong : 99 < (asText a).length := by
        rcases hwhy with heq | hlong
        · exact absurd (asText_eq_nil.mp heq) hne
        · exact hlong
      have hquarter := length_asText_le a
      rw [ha, hnil', List.length_append, length_zeroPadded_two hshort, List.length_nil] at htotal
      rcases varPart_cases (asText b) with ⟨hb', -⟩ | ⟨hb', hne', hbshort'⟩
      · rw [hb', List.length_nil] at htotal
        omega
      · rcases varPart_cases b with ⟨-, rfl | hlong'⟩ | ⟨hb, -, hbshort⟩
        · exact hne' (asText_eq_nil.mpr rfl)
        · omega
        · rw [hb, hb', List.length_append, List.length_append, length_zeroPadded_two hbshort,
            length_zeroPadded_two hbshort'] at htotal
          have hend : b <:+ varPart a ++ (x ++ varPart b) := by
            rw [hb]
            exact ⟨varPart a ++ (x ++ asBytes (zeroPadded 2 b.length)), by
              simp only [List.append_assoc]⟩
          have hend' : asText b <:+ varPart a ++ (x ++ varPart b) := by
            rw [h, hb']
            exact ⟨varPart (asText a) ++ (x ++ asBytes (zeroPadded 2 (asText b).length)), by
              simp only [List.append_assoc]⟩
          have hsuffix := List.suffix_of_suffix_length_le hend hend' hle'
          obtain ⟨front, hfront⟩ := hsuffix
          have hsix := length_asText_suffix hfront.symm
          have hlen := congrArg List.length hfront
          rw [List.length_append] at hlen
          omega
    · -- Both are written, and the lengths in front agree.
      rw [ha, ha', List.append_assoc, List.append_assoc] at h
      obtain ⟨hdigits, -⟩ := List.append_inj h
        ((length_zeroPadded_two hshort).trans (length_zeroPadded_two hshort').symm)
      have hlen := zeroPadded_two_inj hdigits
      refine hsame ?_
      rw [ha, ha', List.length_append, List.length_append, ← hlen]

/-! ## The PIN block -/

/-- The PIN block and its text are written alike if they begin alike. -/
theorem writeFixed_asText_iff {pin : Bytes} :
    writeFixed pin 16 48 false = writeFixed (asText pin) 16 48 false ↔
      (asText pin).take 16 = pin.take 16 := by
  have hle := le_length_asText pin
  have hne (k n : Nat) : List.replicate (k + 1) 48 ++ pin ≠ (asText pin).take n := by
    rw [asText_eq]
    exact (segmented_decodeLossy pin).1.replicate_append_ne (by decide) k n
  rw [writeFixed, writeFixed]
  by_cases hpin : 16 ≤ pin.length
  · rw [if_pos hpin, if_pos (by omega), eq_comm]
  rw [if_neg hpin]
  have hpad : List.replicate (16 - pin.length) 48 = List.replicate (15 - pin.length + 1) (48 : UInt8) :=
    congrArg (List.replicate · 48) (by omega)
  by_cases htext : 16 ≤ (asText pin).length
  · rw [if_pos htext]
    refine iff_of_false (fun heq => ?_) fun heq => ?_
    · exact hne (15 - pin.length) 16 (hpad ▸ heq)
    · have hlen := congrArg List.length heq
      rw [List.length_take, List.length_take] at hlen
      omega
  · rw [if_neg htext, List.take_of_length_le (by omega), List.take_of_length_le (by omega)]
    show List.replicate (16 - pin.length) 48 ++ pin =
      List.replicate (16 - (asText pin).length) 48 ++ asText pin ↔ asText pin = pin
    constructor
    · intro heq
      have hsplit : 16 - pin.length = 16 - (asText pin).length + ((asText pin).length - pin.length) := by
        omega
      rw [hsplit, List.replicate_add, List.append_assoc] at heq
      have hrest := List.append_cancel_left heq
      rcases Nat.eq_zero_or_pos ((asText pin).length - pin.length) with hzero | hpos
      · rw [hzero] at hrest
        exact hrest.symm
      · obtain ⟨k, hk⟩ := Nat.exists_eq_add_of_lt hpos
        rw [Nat.zero_add] at hk
        rw [hk] at hrest
        exact absurd (hrest.trans (List.take_length).symm) (hne k _)
    · intro heq
      rw [heq]

/-! ## The two encodings -/

/-- The event that the sweeper encodes. -/
def UniversalPaymentEvent.replayed (tx : UniversalPaymentEvent) : UniversalPaymentEvent :=
  fromPb (toPb tx)

/-- No token, a PAN and an acquirer id that are texts or too long to be written, a PIN
block that begins as its text does, and a message class that the MTI gives where it
decides about field 4. -/
structure Replayable (tx : UniversalPaymentEvent) : Prop where
  notTokenized : tx.isTokenized = false
  fpan : asText tx.fpan = tx.fpan ∨ 99 < tx.fpan.length
  acquirerId : asText tx.acquirerId = tx.acquirerId ∨ 99 < tx.acquirerId.length
  pinBlock : (asText tx.pinBlock).take 16 = tx.pinBlock.take 16
  amount : tx.mti = asBytes "0220" → tx.amount = 0 → tx.messageClass = .financial

/-- Whether field 4 is written. -/
def writesAmount (tx : UniversalPaymentEvent) : Bool :=
  0 < tx.amount || ((asBytes "02").isPrefixOf tx.mti && tx.messageClass = .financial)

def fieldPart (field : WrittenField) : Bytes := if field.present then field.bytes else []

theorem payload_presentOf (written : List WrittenField) :
    payload (presentOf written) = written.flatMap fieldPart := by
  induction written with
  | nil => rfl
  | cons field written ih =>
      rw [List.flatMap_cons, ← ih, ← List.singleton_append, presentOf_append, payload,
        List.flatMap_append, fieldPart]
      congr 1
      cases hpresent : field.present with
      | false => simp [presentOf, hpresent]
      | true => simp [presentOf, hpresent]

/-- The fields between the PAN and the acquirer id, without that of a token. -/
def middlePart (tx : UniversalPaymentEvent) : Bytes :=
  [(⟨3, tx.processingCode ≠ "", writeFixed (asBytes tx.processingCode) 6 48 false⟩ : WrittenField),
    ⟨4, writesAmount tx, writeFixed (asBytes (zeroPadded 12 tx.amount.toNat)) 12 48 false⟩,
    ⟨11, tx.stan ≠ "", writeFixed (asBytes tx.stan) 6 48 false⟩,
    ⟨12, tx.localTime ≠ "", writeFixed (asBytes tx.localTime) 6 48 false⟩,
    ⟨13, tx.localDate ≠ "", writeFixed (asBytes tx.localDate) 4 48 false⟩].flatMap fieldPart

/-- The fields between the acquirer id and the PIN block, without the cryptogram. -/
def laterPart (tx : UniversalPaymentEvent) : Bytes :=
  [(⟨37, tx.rrn ≠ "", writeFixed (asBytes tx.rrn) 12 32 true⟩ : WrittenField),
    ⟨39, tx.responseCode ≠ "", writeFixed (asBytes tx.responseCode) 2 32 false⟩].flatMap fieldPart

def pinPart (pin : Bytes) : Bytes := if pin.isEmpty then [] else writeFixed pin 16 48 false

theorem payload_presentFields {tx : UniversalPaymentEvent} (h : tx.isTokenized = false) :
    payload (presentFields tx) = varPart tx.fpan ++ (middlePart tx ++
      (varPart tx.acquirerId ++ (laterPart tx ++ pinPart tx.pinBlock))) := by
  have hfields : payload (presentFields tx) = payload (presentOf (writtenFields tx)) := rfl
  have hpart (val : Bytes) : (if (!val.isEmpty) = true then writeLlvar val else []) = varPart val := by
    rw [varPart]
    cases val.isEmpty with
    | false => rfl
    | true => rfl
  have hpin (pin : Bytes) :
      (if (!pin.isEmpty) = true then writeFixed pin 16 48 false else []) = pinPart pin := by
    rw [pinPart]
    cases pin.isEmpty with
    | false => rfl
    | true => rfl
  rw [hfields, payload_presentOf, writtenFields, middlePart, laterPart]
  simp only [List.flatMap_cons, List.flatMap_nil, List.append_nil, List.append_assoc, fieldPart, h,
    Bool.false_and, if_neg Bool.false_ne_true, List.nil_append, hpart, hpin]
  rfl

/-- The MTI of an advice is one of two. -/
theorem Taken.mti_of_isAdvice {t : Taken} (h : t.isAdvice = true) :
    t.transaction.mti = asBytes "0420" ∨ t.transaction.mti = asBytes "0220" := by
  rw [isAdvice, Bool.or_eq_true, decide_eq_true_eq, decide_eq_true_eq, fromUtf8Lossy_eq_iff rfl,
    fromUtf8Lossy_eq_iff rfl] at h
  exact h

section
variable {tx : UniversalPaymentEvent}
  (hmti : tx.mti = asBytes "0420" ∨ tx.mti = asBytes "0220")

include hmti

theorem replayed_mti : tx.replayed.mti = tx.mti := by
  show asText tx.mti = tx.mti
  rcases hmti with h | h
  all_goals
    rw [h, asText, fromUtf8Lossy_asBytes]

/-- Field 4 is replayed if the message class does not decide about it otherwise. -/
theorem writesAmount_replayed : writesAmount tx = writesAmount tx.replayed ↔
    (tx.mti = asBytes "0220" → tx.amount = 0 → tx.messageClass = .financial) := by
  have hamount : tx.replayed.amount = tx.amount := fromPb_toPb_amount tx
  have hclass : tx.replayed.messageClass = classOfMti (fromUtf8Lossy tx.mti) := rfl
  rw [writesAmount, writesAmount, replayed_mti hmti, hamount, hclass]
  rcases hmti with h | h
  · have hother : asBytes "0420" ≠ asBytes "0220" := by decide
    have hstart : (asBytes "02").isPrefixOf (asBytes "0420") = false := by decide
    rw [h, hstart]
    exact iff_of_true rfl fun heq => absurd heq hother
  · have hstart : (asBytes "02").isPrefixOf (asBytes "0220") = true := by decide
    have hfinancial : classOfMti "0220" = .financial := rfl
    rw [h, hstart, fromUtf8Lossy_asBytes, hfinancial]
    rcases eq_or_ne tx.amount 0 with hzero | hpos
    · simp [hzero]
    · have hpositive : 0 < tx.amount := UInt64.pos_iff_ne_zero.mpr hpos
      simp [hpositive, hpos]

/-- The bytes that the encoder writes behind the MTI. -/
theorem connexEncode_eq : connexEncode tx =
    tx.mti ++ ((encodedBitmap tx).toList ++ payload (presentFields tx)) := by
  have hlen : tx.mti.length = 4 := by
    rcases hmti with h | h
    all_goals
      rw [h]
      rfl
  rw [connexEncode, universalEncode]
  dsimp only
  rw [if_pos hlen.ge, List.take_of_length_le hlen.le]

end

theorem present_token {tx : UniversalPaymentEvent} :
    (∃ bytes, (22, bytes) ∈ presentFields tx) ↔ tx.isTokenized = true := by
  have hmem (bytes : Bytes) : (22, bytes) ∈ presentFields tx ↔
      ∃ field ∈ writtenFields tx, field.present = true ∧ field.number = 22 ∧ field.bytes = bytes :=
    mem_presentOf
  simp only [hmem]
  simp [writtenFields]

theorem present_amount {tx : UniversalPaymentEvent} :
    (∃ bytes, (4, bytes) ∈ presentFields tx) ↔ writesAmount tx = true := by
  have hmem (bytes : Bytes) : (4, bytes) ∈ presentFields tx ↔
      ∃ field ∈ writtenFields tx, field.present = true ∧ field.number = 4 ∧ field.bytes = bytes :=
    mem_presentOf
  simp only [hmem]
  simp [writtenFields, writesAmount]

/-- The bits depend on which fields are present. -/
theorem encodedBitmap_congr {tx tx' : UniversalPaymentEvent}
    (h : (writtenFields tx).map (fun field => (field.number, field.present)) =
      (writtenFields tx').map fun field => (field.number, field.present)) :
    encodedBitmap tx = encodedBitmap tx' := by
  have hbits (tx : UniversalPaymentEvent) : encodedBitmap tx =
      (((writtenFields tx).map fun field => (field.number, field.present)).filter (·.2)).foldl
        (fun bitmap field => setBit bitmap field.1) .empty := by
    rw [encodedBitmap, presentFields, List.foldl_map, List.filter_map, List.foldl_map]
    rfl
  rw [hbits, hbits, h]

theorem isEmpty_asText (bytes : Bytes) : (asText bytes).isEmpty = bytes.isEmpty := by
  rw [Bool.eq_iff_iff, List.isEmpty_iff, List.isEmpty_iff, asText_eq_nil]

theorem encodedBitmap_replayed {tx : UniversalPaymentEvent} (htoken : tx.isTokenized = false)
    (hamount : writesAmount tx = writesAmount tx.replayed) :
    encodedBitmap tx = encodedBitmap tx.replayed := by
  have hfpan : tx.replayed.fpan = asText tx.fpan := rfl
  have hacquirer : tx.replayed.acquirerId = asText tx.acquirerId := rfl
  have hpin : tx.replayed.pinBlock = asText tx.pinBlock := rfl
  have htoken' : tx.replayed.isTokenized = false := rfl
  refine encodedBitmap_congr ?_
  rw [writesAmount, writesAmount] at hamount
  simp only [writtenFields, List.map_cons, List.map_nil, hamount, hfpan, hacquirer, hpin, htoken,
    htoken', isEmpty_asText]
  rfl

theorem codecEncode_inj {item item' : Bytes} : codecEncode item = codecEncode item' ↔
    item = item' := by
  refine ⟨fun h => ?_, fun h => by rw [h]⟩
  rw [codecEncode, codecEncode, List.cons.injEq, List.cons.injEq] at h
  exact h.2.2

/-- The PIN block is written as 16 bytes or not at all. -/
theorem pinPart_asText (pin : Bytes) : pinPart pin = pinPart (asText pin) ↔
    writeFixed pin 16 48 false = writeFixed (asText pin) 16 48 false := by
  rw [pinPart, pinPart, isEmpty_asText]
  cases pin with
  | nil => exact iff_of_true rfl rfl
  | cons b pin => exact Iff.rfl

theorem length_pinPart (pin : Bytes) : (pinPart pin).length = (pinPart (asText pin)).length := by
  rw [pinPart, pinPart, isEmpty_asText]
  split
  · rfl
  · rw [length_writeFixed, length_writeFixed]

/-- The two frames are the same if the event is replayable. -/
theorem connexEncode_replayed_iff {tx : UniversalPaymentEvent}
    (hmti : tx.mti = asBytes "0420" ∨ tx.mti = asBytes "0220") :
    connexEncode tx.replayed = connexEncode tx ↔ Replayable tx := by
  have hmti' : tx.replayed.mti = asBytes "0420" ∨ tx.replayed.mti = asBytes "0220" := by
    rwa [replayed_mti hmti]
  have hamount : tx.replayed.amount = tx.amount := fromPb_toPb_amount tx
  rw [connexEncode_eq hmti, connexEncode_eq hmti', replayed_mti hmti, eq_comm,
    List.append_right_inj]
  have hbitmap (e : UniversalPaymentEvent) : (encodedBitmap e).toList.length = 8 :=
    Vector.length_toList
  -- The fields with fixed contents are the same in both.
  have hparts (htoken : tx.isTokenized = false) (hwrites : writesAmount tx = writesAmount tx.replayed) :
      payload (presentFields tx.replayed) = varPart (asText tx.fpan) ++ (middlePart tx ++
        (varPart (asText tx.acquirerId) ++ (laterPart tx ++ pinPart (asText tx.pinBlock)))) := by
    have hmiddle : middlePart tx.replayed = middlePart tx := by
      rw [middlePart, middlePart, hwrites, hamount]
      rfl
    rw [payload_presentFields (rfl : tx.replayed.isTokenized = false), hmiddle]
    rfl
  constructor
  · intro heq
    obtain ⟨hbits, hpayload⟩ := List.append_inj heq ((hbitmap _).trans (hbitmap _).symm)
    have hbits' : encodedBitmap tx = encodedBitmap tx.replayed := Vector.toList_inj.mp hbits
    have htoken : tx.isTokenized = false := by
      rw [← Bool.not_eq_true, ← present_token, ← isBitSet_encodedBitmap (by decide), hbits',
        isBitSet_encodedBitmap (by decide), present_token]
      exact Bool.false_ne_true
    have hwrites : writesAmount tx = writesAmount tx.replayed := by
      rw [Bool.eq_iff_iff, ← present_amount, ← present_amount, ← isBitSet_encodedBitmap (by decide),
        ← isBitSet_encodedBitmap (by decide), hbits']
    rw [payload_presentFields htoken, hparts htoken hwrites] at hpayload
    -- The PIN block is as long in both, so the rest can be compared without it.
    simp only [← List.append_assoc] at hpayload
    obtain ⟨hrest, hpin⟩ := List.append_inj' hpayload (length_pinPart tx.pinBlock)
    have hvar := List.append_cancel_right hrest
    rw [List.append_assoc, List.append_assoc] at hvar
    obtain ⟨hfpan, hacquirer⟩ := varParts_inj hvar
    exact ⟨htoken, varPart_asText_iff.mp hfpan, varPart_asText_iff.mp hacquirer,
      writeFixed_asText_iff.mp ((pinPart_asText _).mp hpin), (writesAmount_replayed hmti).mp hwrites⟩
  · intro h
    have hwrites := (writesAmount_replayed hmti).mpr h.amount
    rw [payload_presentFields h.notTokenized, hparts h.notTokenized hwrites,
      encodedBitmap_replayed h.notTokenized hwrites, varPart_asText_iff.mpr h.fpan,
      varPart_asText_iff.mpr h.acquirerId,
      (pinPart_asText tx.pinBlock).mpr (writeFixed_asText_iff.mpr h.pinBlock)]

/-- What the sweeper sends for a stored advice is what would have been sent, if the event
is replayable. -/
theorem replayed_as_sent_iff {codec : RecordCodec} (db : SafDb) {t : Taken}
    (hadvice : t.isAdvice = true)
    (hcodec : codec.decode (codec.encode (toPb t.transaction)) = some (toPb t.transaction)) :
    ((db.save codec t true).get t.safKey).bind (UpstreamClient.rowPayload codec) =
        some ⟨t, codecEncode (connexEncode t.transaction)⟩ ↔ Replayable t.transaction := by
  have hrow : (db.save codec t true).get t.safKey =
      some ⟨t, codec.encode (toPb t.transaction)⟩ := by
    rw [SafDb.save, hadvice]
    exact DashMap.get_put_self _ _ _
  rw [← connexEncode_replayed_iff (Taken.mti_of_isAdvice hadvice), hrow, Option.bind_some,
    UpstreamClient.rowPayload, hcodec, Option.map_some, Option.some.injEq, Outgoing.mk.injEq,
    codecEncode_inj]
  exact and_iff_right rfl

def storedReversal : Taken := ⟨"127.0.0.1:9188", 0, Egress.advice "888"⟩

theorem replayed_as_sent_iff_reversal :
    (((∅ : SafDb).save Egress.adviceCodec storedReversal true).get storedReversal.safKey).bind
        (UpstreamClient.rowPayload Egress.adviceCodec) =
      some ⟨storedReversal, codecEncode (connexEncode storedReversal.transaction)⟩ ↔
        Replayable storedReversal.transaction :=
  replayed_as_sent_iff ∅ (by decide) (by decide)

/-- The reversal of a purchase with a token. -/
def tokenReversal : Taken :=
  ⟨"127.0.0.1:9188", 0, { Egress.advice "888" with isTokenized := true }⟩

/-- The sweeper sends it without field 22. -/
theorem token_is_not_replayed : ¬ ∀ (codec : RecordCodec) (db : SafDb) (t : Taken),
    t.isAdvice = true →
    codec.decode (codec.encode (toPb t.transaction)) = some (toPb t.transaction) →
    ((db.save codec t true).get t.safKey).bind (UpstreamClient.rowPayload codec) =
      some ⟨t, codecEncode (connexEncode t.transaction)⟩ := by
  intro h
  have hsame := h Egress.adviceCodec ∅ tokenReversal (by decide) (by decide)
  exact absurd hsame (by decide)

end Iso8583Switch
