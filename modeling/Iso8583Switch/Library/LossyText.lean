import Iso8583Switch.Library.LossySegments

/-!
# What lossy decoding does to bytes that are no text

`String::from_utf8_lossy` never gives more characters than there are bytes, and it
gives ASCII only for ASCII.  An ASCII byte ends what is before it, so texts that are joined by
one are the text of the joined bytes (`fromUtf8Lossy_append_ascii`).  Of a text that is cut off
it keeps the characters that are whole and replaces the one that is not, so a cut text reads as
itself only where the character that is cut off is the replacement character and the last one
(`fromUtf8Lossy_take`).
-/

namespace Text

/-! ## ASCII -/

theorem length_toList_fromUtf8Lossy (bs : Bytes) : (fromUtf8Lossy bs).toList.length ≤ bs.length :=
  (segmented_fromUtf8Lossy bs).length_le

theorem flatMap_of_decodeLossy {bs : Bytes} (h : ∀ c ∈ decodeLossy none bs, c.toNat < 0x80) :
    (decodeLossy none bs).flatMap String.utf8EncodeChar = bs :=
  (segmented_decodeLossy bs).1.flatMap_eq fun hmem => absurd (h _ hmem) (by decide)

theorem size_of_ascii {cs : List Char} (h : ∀ c ∈ cs, c.toNat < 0x80) :
    (cs.map Char.utf8Size).sum = cs.length := by
  induction cs with
  | nil => rfl
  | cons c cs ih =>
      have hc : c.val.toNat < 0x80 := h c List.mem_cons_self
      have hsize : c.utf8Size = 1 := if_pos (UInt32.le_iff_toNat_le.mpr (Nat.lt_succ_iff.mp hc))
      rw [List.map_cons, List.sum_cons, hsize, ih fun c hc => h c (List.mem_cons_of_mem _ hc),
        List.length_cons, Nat.add_comm]

/-- An ASCII byte ends what is before it. -/
theorem decodeLossy_append_ascii {b : UInt8} (hb : b.toNat < 0x80) (bs rest : Bytes) :
    decodeLossy none (bs ++ b :: rest) =
        decodeLossy none bs ++ Char.ofNat b.toNat :: decodeLossy none rest ∧
      ∀ p : Pending, 0x80 ≤ p.lo → decodeLossy (some p) (bs ++ b :: rest) =
        decodeLossy (some p) bs ++ Char.ofNat b.toNat :: decodeLossy none rest := by
  induction bs with
  | nil =>
      have hlead : lead b = .char (Char.ofNat b.toNat) := if_pos hb
      have hnone : decodeLossy none (b :: rest) = Char.ofNat b.toNat :: decodeLossy none rest := by
        rw [decodeLossy, hlead]
      refine ⟨hnone, fun p hlo => ?_⟩
      have hout : ¬ (p.lo ≤ b.toNat ∧ b.toNat ≤ p.hi) := by omega
      show decodeLossy (some p) (b :: rest) =
        replacement :: Char.ofNat b.toNat :: decodeLossy none rest
      rw [decodeLossy, if_neg hout, hlead]
  | cons c bs ih =>
      have hnone : decodeLossy none (c :: bs ++ b :: rest) =
          decodeLossy none (c :: bs) ++ Char.ofNat b.toNat :: decodeLossy none rest := by
        rw [List.cons_append, decodeLossy, decodeLossy]
        cases hlead : lead c with
        | char d => exact congrArg _ ih.1
        | pending p => exact ih.2 p (unfinished_of_lead hlead).low
        | invalid => exact congrArg _ ih.1
      refine ⟨hnone, fun p _ => ?_⟩
      rw [List.cons_append, decodeLossy, decodeLossy]
      split
      · dsimp only
        split
        · exact congrArg _ ih.1
        · exact congrArg _ ih.1
        · exact ih.2 _ (Nat.le_refl _)
      · rw [List.cons_append, decodeLossy, decodeLossy] at hnone
        rw [hnone]
        rfl

/-- Texts that are joined by an ASCII character are the text of the joined bytes. -/
theorem fromUtf8Lossy_append_ascii {b : UInt8} (hb : b.toNat < 0x80) (bs rest : Bytes) :
    fromUtf8Lossy (bs ++ b :: rest) =
      fromUtf8Lossy bs ++ String.singleton (Char.ofNat b.toNat) ++ fromUtf8Lossy rest := by
  refine String.toList_injective ?_
  rw [String.toList_append, String.toList_append, String.toList_singleton, fromUtf8Lossy,
    fromUtf8Lossy, fromUtf8Lossy, String.toList_ofList, String.toList_ofList, String.toList_ofList,
    (decodeLossy_append_ascii hb bs rest).1, List.append_assoc, List.singleton_append]

/-- A text without a replacement character is the text of no other bytes. -/
theorem eq_of_fromUtf8Lossy {bs bs' : Bytes} (h : replacement ∉ (fromUtf8Lossy bs).toList)
    (heq : fromUtf8Lossy bs' = fromUtf8Lossy bs) : bs' = bs := by
  rw [← (segmented_fromUtf8Lossy bs).flatMap_eq h,
    ← (segmented_fromUtf8Lossy bs').flatMap_eq (by rwa [heq]), heq]

/-- ASCII comes from its own bytes only. -/
theorem fromUtf8Lossy_eq_iff {bs : Bytes} {s : String}
    (hs : (s.toList.all fun c => c.toNat < 0x80) = true) :
    fromUtf8Lossy bs = s ↔ bs = asBytes s := by
  constructor
  · rintro rfl
    simp only [List.all_eq_true, decide_eq_true_eq] at hs
    rw [fromUtf8Lossy, String.toList_ofList] at hs
    rw [asBytes_eq, fromUtf8Lossy, String.toList_ofList, flatMap_of_decodeLossy hs]
  · rintro rfl
    exact fromUtf8Lossy_asBytes s

/-- ASCII in front of other bytes is decoded on its own. -/
theorem toList_fromUtf8Lossy_replicate {b : UInt8} (hb : b.toNat < 0x80) (k : Nat) (bs : Bytes) :
    (fromUtf8Lossy (List.replicate k b ++ bs)).toList =
      List.replicate k (Char.ofNat b.toNat) ++ (fromUtf8Lossy bs).toList := by
  rw [fromUtf8Lossy, String.toList_ofList, fromUtf8Lossy, String.toList_ofList]
  induction k with
  | zero => rfl
  | succ k ih =>
      have hlead : lead b = .char (Char.ofNat b.toNat) := by
        have hone := lead_one hb
        rwa [UInt8.ofNat_toNat] at hone
      rw [List.replicate_succ, List.replicate_succ, List.cons_append, List.cons_append, decodeLossy,
        hlead]
      dsimp only
      rw [ih]

/-! ## Cut text -/

/-- A character that is cut off becomes one replacement character. -/
theorem decodeLossy_take_char (c : Char) {j : Nat} (hpos : 0 < j) (hj : j < c.utf8Size) :
    decodeLossy none ((String.utf8EncodeChar c).take j) = [replacement] := by
  have hvalid := toNat_valid c
  rw [← String.length_utf8EncodeChar] at hj
  rw [String.utf8EncodeChar] at hj ⊢
  generalize hv : c.val.toNat = v at hj ⊢
  have hv' : c.toNat = v := hv
  rw [hv'] at hvalid
  split at hj
  next =>
    have hone : j < 1 := hj
    omega
  next =>
    split at hj
    next hone htwo =>
      have hj' : j < 2 := hj
      obtain rfl : j = 1 := by omega
      rw [if_neg (by omega), if_pos (by omega)]
      show decodeLossy none [_] = _
      rw [decodeLossy, lead_two (by omega) (by omega)]
      rfl
    next hone htwo =>
      split at hj
      next hthree =>
        have hj' : j < 3 := hj
        rw [if_neg (by omega), if_neg (by omega), if_pos (by omega)]
        obtain rfl | rfl : j = 1 ∨ j = 2 := by omega
        · show decodeLossy none [_] = _
          rw [decodeLossy, lead_three (by omega)]
          rfl
        · show decodeLossy none [_, _] = _
          rw [decodeLossy, lead_three (by omega)]
          dsimp only
          rw [decodeLossy_more (m := 0) (by omega) (by split <;> omega) (by split <;> omega)]
          rfl
      next hthree =>
        have hj' : j < 4 := hj
        rw [if_neg (by omega), if_neg (by omega), if_neg (by omega)]
        obtain rfl | rfl | rfl : j = 1 ∨ j = 2 ∨ j = 3 := by omega
        · show decodeLossy none [_] = _
          rw [decodeLossy, lead_four (by omega)]
          rfl
        · show decodeLossy none [_, _] = _
          rw [decodeLossy, lead_four (by omega)]
          dsimp only
          rw [decodeLossy_more (m := 1) (by omega) (by split <;> omega) (by split <;> omega)]
          rfl
        · show decodeLossy none [_, _, _] = _
          rw [decodeLossy, lead_four (by omega)]
          dsimp only
          rw [decodeLossy_more (m := 1) (by omega) (by split <;> omega) (by split <;> omega),
            decodeLossy_more (m := 0) (by omega) (by omega) (by omega)]
          rfl

theorem decodeLossy_take {cs : List Char} {w : Nat} (h : w < (cs.map Char.utf8Size).sum) :
    decodeLossy none ((cs.flatMap String.utf8EncodeChar).take w) = cs ↔
      ∃ ps, cs = ps ++ [replacement] ∧ (ps.map Char.utf8Size).sum < w := by
  induction cs generalizing w with
  | nil => exact absurd h (Nat.not_lt_zero _)
  | cons c cs ih =>
      rw [List.map_cons, List.sum_cons] at h
      have hsize : (String.utf8EncodeChar c).length = c.utf8Size := String.length_utf8EncodeChar c
      rw [List.flatMap_cons]
      rcases Nat.lt_or_ge w c.utf8Size with hcut | hwhole
      · -- The first character is cut off.
        have htake : (String.utf8EncodeChar c ++ cs.flatMap String.utf8EncodeChar).take w =
            (String.utf8EncodeChar c).take w := List.take_append_of_le_length (by omega)
        rw [htake]
        rcases Nat.eq_zero_or_pos w with rfl | hpos
        · simp [decodeLossy]
        · rw [decodeLossy_take_char c hpos hcut]
          constructor
          · intro heq
            cases heq
            exact ⟨[], rfl, hpos⟩
          · rintro ⟨ps, heq, hlt⟩
            cases ps with
            | nil => exact heq.symm
            | cons p ps =>
                cases heq
                rw [List.map_cons, List.sum_cons] at hlt
                omega
      · have htake : (String.utf8EncodeChar c ++ cs.flatMap String.utf8EncodeChar).take w =
            String.utf8EncodeChar c ++
              (cs.flatMap String.utf8EncodeChar).take (w - c.utf8Size) := by
          rw [List.take_append, hsize, List.take_of_length_le (by omega)]
        rw [htake, decodeLossy_utf8EncodeChar, List.cons_inj_right, ih (by omega)]
        constructor
        · rintro ⟨ps, rfl, hlt⟩
          refine ⟨c :: ps, rfl, ?_⟩
          rw [List.map_cons, List.sum_cons]
          omega
        · rintro ⟨ps, heq, hlt⟩
          cases ps with
          | nil =>
              cases heq
              simp at h
              omega
          | cons p ps =>
              cases heq
              rw [List.map_cons, List.sum_cons] at hlt
              exact ⟨ps, rfl, by omega⟩

/-- A text that is cut off reads as itself only if a replacement character at its end is
what is cut. -/
theorem fromUtf8Lossy_take {s : String} {w : Nat} (h : w < len s) :
    fromUtf8Lossy ((asBytes s).take w) = s ↔ ∃ t, s = t ++ "\uFFFD" ∧ len t < w := by
  have hcut := @decodeLossy_take s.toList w (by rw [← len_eq_sum]; exact h)
  rw [← asBytes_eq] at hcut
  have hlist : fromUtf8Lossy ((asBytes s).take w) = s ↔
      decodeLossy none ((asBytes s).take w) = s.toList := by
    rw [← String.toList_inj, fromUtf8Lossy, String.toList_ofList]
  rw [hlist, hcut]
  constructor
  · rintro ⟨ps, heq, hlt⟩
    refine ⟨String.ofList ps, ?_, ?_⟩
    · rw [← String.toList_inj, String.toList_append, String.toList_ofList, heq]
      rfl
    · rw [len_eq_sum, String.toList_ofList]
      exact hlt
  · rintro ⟨t, rfl, hlt⟩
    refine ⟨t.toList, ?_, ?_⟩
    · rw [String.toList_append]
      rfl
    · rw [← len_eq_sum]
      exact hlt

/-! ## Digits -/

def asciiDigit (b : UInt8) : Bool := 48 ≤ b.toNat && b.toNat ≤ 57

def decimalValue (bytes : Bytes) : Nat := bytes.foldl (fun n b => 10 * n + (b.toNat - 48)) 0

/-- The text of ASCII bytes has one character a byte. -/
theorem toList_fromUtf8Lossy_ascii {bytes : Bytes} (h : ∀ b ∈ bytes, b.toNat < 0x80) :
    (fromUtf8Lossy bytes).toList = bytes.map fun b => Char.ofNat b.toNat := by
  rw [fromUtf8Lossy, String.toList_ofList]
  induction bytes with
  | nil => rfl
  | cons b bytes ih =>
      have hlead : lead b = .char (Char.ofNat b.toNat) := if_pos (h b List.mem_cons_self)
      rw [decodeLossy, hlead, List.map_cons, ih fun b' hb' => h b' (List.mem_cons_of_mem _ hb')]

theorem range_of_asciiDigit {b : UInt8} (h : asciiDigit b = true) :
    48 ≤ b.toNat ∧ b.toNat ≤ 57 := by
  rw [asciiDigit, Bool.and_eq_true, decide_eq_true_eq, decide_eq_true_eq] at h
  exact h

/-- A digit is a byte of its own. -/
theorem toNat_ofNat_digit {b : UInt8} (h : asciiDigit b = true) :
    (Char.ofNat b.toNat).toNat = b.toNat := by
  have hrange := range_of_asciiDigit h
  exact toNat_ofNat_of_valid (.inl (by omega))

theorem isDigit_iff {c : Char} : c.isDigit = true ↔ 48 ≤ c.toNat ∧ c.toNat ≤ 57 := by
  rw [Char.isDigit, Bool.and_eq_true, decide_eq_true_eq, decide_eq_true_eq]
  exact Iff.rfl

theorem ofDigitChars_map {bytes : Bytes} (h : ∀ b ∈ bytes, asciiDigit b = true) (init : Nat) :
    Nat.ofDigitChars 10 (bytes.map fun b => Char.ofNat b.toNat) init =
      bytes.foldl (fun n b => 10 * n + (b.toNat - 48)) init := by
  induction bytes generalizing init with
  | nil => rfl
  | cons b bytes ih =>
      rw [List.map_cons, Nat.ofDigitChars_cons, List.foldl_cons,
        toNat_ofNat_digit (h b List.mem_cons_self)]
      exact ih (fun b' hb' => h b' (List.mem_cons_of_mem _ hb')) _

/-- The text of digits has digits only, and it has the value of the bytes. -/
theorem toList_fromUtf8Lossy_digits {bytes : Bytes} (h : ∀ b ∈ bytes, asciiDigit b = true) :
    (fromUtf8Lossy bytes).toList.length = bytes.length ∧
      (∀ c ∈ (fromUtf8Lossy bytes).toList, c.isDigit = true) ∧
      Nat.ofDigitChars 10 (fromUtf8Lossy bytes).toList 0 = decimalValue bytes := by
  have hascii (b : UInt8) (hb : b ∈ bytes) : b.toNat < 0x80 := by
    have := range_of_asciiDigit (h b hb)
    omega
  rw [toList_fromUtf8Lossy_ascii hascii]
  refine ⟨List.length_map _, ?_, ofDigitChars_map h 0⟩
  intro c hc
  obtain ⟨b, hb, rfl⟩ := List.mem_map.mp hc
  rw [isDigit_iff, toNat_ofNat_digit (h b hb)]
  exact range_of_asciiDigit (h b hb)

theorem decimalValue_lt {bytes : Bytes} (h : ∀ b ∈ bytes, asciiDigit b = true) :
    decimalValue bytes < 10 ^ bytes.length := by
  obtain ⟨hlen, hdigits, hvalue⟩ := toList_fromUtf8Lossy_digits h
  have hlt := ofDigitChars_lt hdigits 0
  rwa [hvalue, hlen, Nat.zero_add, Nat.one_mul] at hlt

/-- Digits are parsed to their value, if it is in range. -/
theorem parseUnsigned_digits {bytes : Bytes} {bound : Nat} (hne : bytes ≠ [])
    (h : ∀ b ∈ bytes, asciiDigit b = true) (hbound : decimalValue bytes < bound) :
    parseUnsigned bound (fromUtf8Lossy bytes) = some (decimalValue bytes) := by
  obtain ⟨hlen, hdigits, hvalue⟩ := toList_fromUtf8Lossy_digits h
  rw [parseUnsigned, dropPlus_digits hdigits, hvalue]
  refine if_pos ⟨?_, List.all_eq_true.mpr hdigits, hbound⟩
  rw [← List.length_pos_iff, hlen]
  exact List.length_pos_iff.mpr hne

/-- Bytes that parse as a number are digits but for a plus sign in front. -/
theorem digits_of_parseUnsigned {bytes : Bytes} {bound n : Nat}
    (hutf8 : asBytes (fromUtf8Lossy bytes) = bytes)
    (h : parseUnsigned bound (fromUtf8Lossy bytes) = some n) :
    (∀ b ∈ bytes, asciiDigit b = true) ↔ bytes.head? ≠ some 43 := by
  rw [parseUnsigned, Option.ite_none_right_eq_some] at h
  obtain ⟨⟨hne, hdigits, -⟩, -⟩ := h
  rw [asBytes_eq] at hutf8
  generalize (fromUtf8Lossy bytes).toList = cs at hutf8 hne hdigits
  subst hutf8
  constructor
  · intro hall hplus
    have hmem := List.mem_of_mem_head? (a := (43 : UInt8)) hplus
    have := range_of_asciiDigit (hall 43 hmem)
    exact absurd this (by decide)
  · intro hplus
    have hdrop : dropPlus cs = cs := by
      rw [dropPlus.eq_def]
      split
      next => exact absurd rfl hplus
      next => rfl
    rw [hdrop] at hdigits
    intro b hb
    obtain ⟨c, hc, hb⟩ := List.mem_flatMap.mp hb
    have hrange := isDigit_iff.mp (List.all_eq_true.mp hdigits c hc)
    have hchar : c = Char.ofNat c.toNat := (Char.ofNat_toNat c).symm
    rw [hchar, utf8EncodeChar_ascii (by omega), List.mem_singleton] at hb
    rw [hb, asciiDigit, toNat_byte (by omega), decide_eq_true hrange.1, decide_eq_true hrange.2]
    rfl

end Text
