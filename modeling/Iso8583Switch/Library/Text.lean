import Mathlib.Algebra.Group.Nat.Defs
import Mathlib.Algebra.Order.Ring.Nat

/-!
# Text as Rust has it

A Rust `String` is UTF-8, and so is a Lean `String`.  Four operations work on its
bytes.

* `fromUtf8Lossy` is `String::from_utf8_lossy`: every maximal invalid prefix of
  a sequence becomes one replacement character.
* `slice` is `&s[a..b]`.  It is `none` where Rust panics, that is where an offset
  is past the end or inside a character.  `isSome_slice` is the criterion.
* `zeroPadded` is the width-`k` zero-filled decimal format `{:0k}`, and
  `parseUnsigned` reads it back.
-/

/-- A byte string. -/
abbrev Bytes := List UInt8

namespace Text

/-- `as_bytes`. -/
def asBytes (s : String) : Bytes := s.toByteArray.data.toList

/-- `s.len()`, in bytes. -/
def len (s : String) : Nat := s.utf8ByteSize

/-! ## Lossy decoding -/

/-- An unfinished sequence: the bytes still missing, the bits read so far, and
the range the next byte must be in. -/
structure Pending where
  missing : Nat
  bits : Nat
  lo : Nat
  hi : Nat

/-- What a byte means where a sequence may start. -/
inductive Lead where
  | char (c : Char)
  | pending (p : Pending)
  | invalid

/-- The replacement character. -/
def replacement : Char := Char.ofNat 0xFFFD

/-- The meaning of a leading byte.  `E0` and `F0` exclude overlong sequences,
`ED` the surrogates and `F4` what lies past the last code point. -/
def lead (b : UInt8) : Lead :=
  let n := b.toNat
  if n < 0x80 then .char (Char.ofNat n)
  else if n < 0xC2 then .invalid
  else if n < 0xE0 then .pending ⟨1, n - 0xC0, 0x80, 0xBF⟩
  else if n < 0xF0 then
    .pending ⟨2, n - 0xE0, if n = 0xE0 then 0xA0 else 0x80, if n = 0xED then 0x9F else 0xBF⟩
  else if n < 0xF5 then
    .pending ⟨3, n - 0xF0, if n = 0xF0 then 0x90 else 0x80, if n = 0xF4 then 0x8F else 0xBF⟩
  else .invalid

/-- Decode from inside an unfinished sequence, or from between sequences. -/
def decodeLossy : Option Pending → Bytes → List Char
  | none, [] => []
  | some _, [] => [replacement]
  | none, b :: bs =>
      match lead b with
      | .char c => c :: decodeLossy none bs
      | .pending p => decodeLossy (some p) bs
      | .invalid => replacement :: decodeLossy none bs
  | some p, b :: bs =>
      if p.lo ≤ b.toNat ∧ b.toNat ≤ p.hi then
        let bits := p.bits * 64 + (b.toNat - 0x80)
        match p.missing with
        | 0 | 1 => Char.ofNat bits :: decodeLossy none bs
        | m + 1 => decodeLossy (some ⟨m, bits, 0x80, 0xBF⟩) bs
      else
        -- The sequence breaks off here, and this byte is read as a leading byte.
        replacement :: match lead b with
          | .char c => c :: decodeLossy none bs
          | .pending p => decodeLossy (some p) bs
          | .invalid => replacement :: decodeLossy none bs

/-- `String::from_utf8_lossy`. -/
def fromUtf8Lossy (bs : Bytes) : String := String.ofList (decodeLossy none bs)

/-! ## Decoding what is well formed -/

theorem toNat_byte {n : Nat} (h : n < 256) : (UInt8.ofNat n).toNat = n :=
  UInt8.toNat_ofNat_of_lt' h

/-- A continuation byte that is not the last one. -/
theorem decodeLossy_more {m bits lo hi k : Nat} {rest : Bytes} (hk : k < 64) (hlo : lo ≤ k + 0x80)
    (hhi : k + 0x80 ≤ hi) :
    decodeLossy (some ⟨m + 2, bits, lo, hi⟩) (UInt8.ofNat (k + 0x80) :: rest) =
      decodeLossy (some ⟨m + 1, bits * 64 + k, 0x80, 0xBF⟩) rest := by
  have hbyte : (UInt8.ofNat (k + 0x80)).toNat = k + 0x80 := toNat_byte (by omega)
  rw [decodeLossy, hbyte, if_pos ⟨hlo, hhi⟩, Nat.add_sub_cancel]
  rfl

/-- The last continuation byte. -/
theorem decodeLossy_last {bits lo hi k : Nat} {rest : Bytes} (hk : k < 64) (hlo : lo ≤ k + 0x80)
    (hhi : k + 0x80 ≤ hi) :
    decodeLossy (some ⟨1, bits, lo, hi⟩) (UInt8.ofNat (k + 0x80) :: rest) =
      Char.ofNat (bits * 64 + k) :: decodeLossy none rest := by
  have hbyte : (UInt8.ofNat (k + 0x80)).toNat = k + 0x80 := toNat_byte (by omega)
  rw [decodeLossy, hbyte, if_pos ⟨hlo, hhi⟩, Nat.add_sub_cancel]
  rfl

theorem lead_one {n : Nat} (h : n < 0x80) : lead (UInt8.ofNat n) = .char (Char.ofNat n) := by
  rw [lead, toNat_byte (by omega)]
  exact if_pos h

theorem lead_two {k : Nat} (h : 2 ≤ k) (hk : k < 0x20) :
    lead (UInt8.ofNat (k + 0xC0)) = .pending ⟨1, k, 0x80, 0xBF⟩ := by
  rw [lead, toNat_byte (by omega)]
  rw [if_neg (by omega), if_neg (by omega), if_pos (by omega), Nat.add_sub_cancel]

theorem lead_three {k : Nat} (hk : k < 0x10) :
    lead (UInt8.ofNat (k + 0xE0)) = .pending ⟨2, k, if k = 0 then 0xA0 else 0x80,
      if k = 13 then 0x9F else 0xBF⟩ := by
  rw [lead, toNat_byte (by omega)]
  rw [if_neg (by omega), if_neg (by omega), if_neg (by omega), if_pos (by omega),
    Nat.add_sub_cancel]
  have hzero : (k + 0xE0 = 0xE0) = (k = 0) := by simp
  have hsurrogate : (k + 0xE0 = 0xED) = (k = 13) := by simp
  simp only [hzero, hsurrogate]

theorem lead_four {k : Nat} (hk : k < 5) :
    lead (UInt8.ofNat (k + 0xF0)) = .pending ⟨3, k, if k = 0 then 0x90 else 0x80,
      if k = 4 then 0x8F else 0xBF⟩ := by
  rw [lead, toNat_byte (by omega)]
  rw [if_neg (by omega), if_neg (by omega), if_neg (by omega), if_neg (by omega),
    if_pos (by omega), Nat.add_sub_cancel]
  have hzero : (k + 0xF0 = 0xF0) = (k = 0) := by simp
  have hlast : (k + 0xF0 = 0xF4) = (k = 4) := by simp
  simp only [hzero, hlast]

theorem toNat_valid (c : Char) : c.toNat < 0xD800 ∨ (0xDFFF < c.toNat ∧ c.toNat < 0x110000) := c.valid

/-- The bytes of a character decode to it. -/
theorem decodeLossy_utf8EncodeChar (c : Char) (rest : Bytes) :
    decodeLossy none (String.utf8EncodeChar c ++ rest) = c :: decodeLossy none rest := by
  have hvalid := toNat_valid c
  have hc : Char.ofNat c.toNat = c := Char.ofNat_toNat c
  rw [String.utf8EncodeChar]
  generalize hv : c.val.toNat = v
  have hv' : c.toNat = v := hv
  rw [hv'] at hvalid hc
  split
  next hone =>
    rw [List.cons_append, List.nil_append, decodeLossy, lead_one (by omega)]
    exact congrArg (· :: _) hc
  next hone =>
    split
    next htwo =>
      have hbits : v / 64 % 32 * 64 + v % 64 = v := by omega
      simp only [List.cons_append, List.nil_append]
      rw [decodeLossy, lead_two (by omega) (by omega)]
      dsimp only
      rw [decodeLossy_last (by omega) (by omega) (by omega), hbits, hc]
    next htwo =>
      split
      next hthree =>
        have hbits : (v / 4096 % 16 * 64 + v / 64 % 64) * 64 + v % 64 = v := by omega
        simp only [List.cons_append, List.nil_append]
        rw [decodeLossy, lead_three (by omega)]
        dsimp only
        rw [decodeLossy_more (m := 0) (by omega) (by split <;> omega) (by split <;> omega),
          decodeLossy_last (by omega) (by omega) (by omega), hbits, hc]
      next hthree =>
        have hbits : ((v / 262144 % 8 * 64 + v / 4096 % 64) * 64 + v / 64 % 64) * 64 + v % 64 = v := by
          omega
        simp only [List.cons_append, List.nil_append]
        rw [decodeLossy, lead_four (by omega)]
        dsimp only
        rw [decodeLossy_more (m := 1) (by omega) (by split <;> omega) (by split <;> omega),
          decodeLossy_more (m := 0) (by omega) (by omega) (by omega),
          decodeLossy_last (by omega) (by omega) (by omega), hbits, hc]

@[simp] theorem length_asBytes (s : String) : (asBytes s).length = len s := rfl

theorem asBytes_eq (s : String) : asBytes s = s.toList.flatMap String.utf8EncodeChar := by
  rw [asBytes, ← String.utf8Encode_toList, List.utf8Encode, List.toList_data_toByteArray]

/-- A string survives the way through its bytes. -/
@[simp] theorem fromUtf8Lossy_asBytes (s : String) : fromUtf8Lossy (asBytes s) = s := by
  have hchars (cs : List Char) : decodeLossy none (cs.flatMap String.utf8EncodeChar) = cs := by
    induction cs with
    | nil => rfl
    | cons c cs ih => rw [List.flatMap_cons, decodeLossy_utf8EncodeChar, ih]
  rw [fromUtf8Lossy, asBytes_eq, hchars, String.ofList_toList]

theorem asBytes_append (s t : String) : asBytes (s ++ t) = asBytes s ++ asBytes t := by
  rw [asBytes_eq, asBytes_eq, asBytes_eq, String.toList_append, List.flatMap_append]

theorem len_append (s t : String) : len (s ++ t) = len s + len t := by
  rw [← length_asBytes, asBytes_append, List.length_append, length_asBytes, length_asBytes]

/-- Text in front of other bytes is decoded as it is. -/
theorem fromUtf8Lossy_asBytes_append (s : String) (bs : Bytes) :
    fromUtf8Lossy (asBytes s ++ bs) = s ++ fromUtf8Lossy bs := by
  have hchars (cs : List Char) :
      decodeLossy none (cs.flatMap String.utf8EncodeChar ++ bs) = cs ++ decodeLossy none bs := by
    induction cs with
    | nil => rfl
    | cons c cs ih =>
        rw [List.flatMap_cons, List.append_assoc, decodeLossy_utf8EncodeChar, ih, List.cons_append]
  refine String.toList_injective ?_
  rw [String.toList_append, fromUtf8Lossy, fromUtf8Lossy, String.toList_ofList,
    String.toList_ofList, asBytes_eq, hchars]

/-- Every sequence, finished or not, becomes a character. -/
theorem decodeLossy_pending_ne_nil (p : Pending) (bs : Bytes) : decodeLossy (some p) bs ≠ [] := by
  induction bs generalizing p with
  | nil => simp [decodeLossy]
  | cons b bs ih =>
      rw [decodeLossy]
      split
      · dsimp only
        split
        · exact List.cons_ne_nil _ _
        · exact List.cons_ne_nil _ _
        · exact ih _
      · exact List.cons_ne_nil _ _

@[simp] theorem fromUtf8Lossy_eq_empty {bs : Bytes} : fromUtf8Lossy bs = "" ↔ bs = [] := by
  constructor
  · intro h
    cases bs with
    | nil => rfl
    | cons b bs =>
        have hnil : decodeLossy none (b :: bs) = [] := by
          rw [← String.toList_ofList (l := decodeLossy none (b :: bs))]
          exact congrArg String.toList h
        rw [decodeLossy] at hnil
        split at hnil
        · cases hnil
        · exact absurd hnil (decodeLossy_pending_ne_nil _ _)
        · cases hnil
  · rintro rfl
    rfl

/-! ## Slices -/

/-- Cut a text at a byte offset.  `none` when the offset is no boundary. -/
def splitAt : List Char → Nat → Option (List Char × List Char)
  | cs, 0 => some ([], cs)
  | [], _ + 1 => none
  | c :: cs, n + 1 =>
      if c.utf8Size ≤ n + 1 then
        (splitAt cs (n + 1 - c.utf8Size)).map fun (l, r) => (c :: l, r)
      else none

/-- `&s[a..b]`, or `none` where Rust panics. -/
def slice (s : String) (a b : Nat) : Option String :=
  if a ≤ b then
    match splitAt s.toList a with
    | none => none
    | some (_, r) => (splitAt r (b - a)).map fun (l, _) => String.ofList l
  else none

/-- `s.is_char_boundary(n)`. -/
def isCharBoundary (s : String) (n : Nat) : Bool := (splitAt s.toList n).isSome

theorem splitAt_zero (cs : List Char) : splitAt cs 0 = some ([], cs) := by
  cases cs <;> rfl

/-- A cut behind a cut. -/
theorem splitAt_add {cs l r : List Char} {a : Nat} (h : splitAt cs a = some (l, r)) (k : Nat) :
    (splitAt r k).isSome = (splitAt cs (a + k)).isSome := by
  induction cs generalizing a l with
  | nil =>
      cases a with
      | zero =>
          cases h
          rw [Nat.zero_add]
      | succ n => cases h
  | cons c cs ih =>
      cases a with
      | zero =>
          cases h
          rw [Nat.zero_add]
      | succ n =>
          have hpos := c.utf8Size_pos
          rw [splitAt] at h
          split at h
          next hle =>
            obtain ⟨⟨l', r'⟩, hrest, heq⟩ := Option.map_eq_some_iff.mp h
            cases heq
            have hcut := ih hrest
            have hoffset : n + 1 - c.utf8Size + k = n + k + 1 - c.utf8Size := by omega
            rw [hcut, Nat.add_right_comm, splitAt, if_pos (by omega), Option.isSome_map, hoffset]
          next => cases h

/-- A cut between two texts. -/
theorem splitAt_append (cs ds : List Char) :
    splitAt (cs ++ ds) (cs.map Char.utf8Size).sum = some (cs, ds) := by
  induction cs with
  | nil => exact splitAt_zero ds
  | cons c cs ih =>
      have hpos := c.utf8Size_pos
      obtain ⟨n, hn⟩ : ∃ n, c.utf8Size + (cs.map Char.utf8Size).sum = n + 1 :=
        ⟨c.utf8Size + (cs.map Char.utf8Size).sum - 1, by omega⟩
      have hrest : n + 1 - c.utf8Size = (cs.map Char.utf8Size).sum := by omega
      rw [List.map_cons, List.sum_cons, hn, List.cons_append, splitAt, if_pos (by omega), hrest, ih]
      rfl

theorem splitAt_size (cs : List Char) :
    splitAt cs (cs.map Char.utf8Size).sum = some (cs, []) := by
  have hcut := splitAt_append cs []
  rw [List.append_nil] at hcut
  exact hcut

theorem len_eq_sum (s : String) : len s = (s.toList.map Char.utf8Size).sum := by
  rw [← length_asBytes, asBytes_eq, List.length_flatMap]
  simp only [String.length_utf8EncodeChar]

@[simp] theorem isCharBoundary_zero (s : String) : isCharBoundary s 0 = true := by
  rw [isCharBoundary, splitAt_zero]
  rfl

@[simp] theorem isCharBoundary_len (s : String) : isCharBoundary s (len s) = true := by
  rw [isCharBoundary, len_eq_sum, splitAt_size]
  rfl

/-- A slice is taken between two boundaries. -/
theorem isSome_slice {s : String} {a b : Nat} :
    (slice s a b).isSome = (decide (a ≤ b) && isCharBoundary s a && isCharBoundary s b) := by
  rw [slice, isCharBoundary, isCharBoundary]
  by_cases hab : a ≤ b
  · rw [if_pos hab, decide_eq_true hab, Bool.true_and]
    cases hcut : splitAt s.toList a with
    | none => rfl
    | some parts =>
        obtain ⟨l, r⟩ := parts
        have hrest := splitAt_add hcut (b - a)
        rw [Nat.add_sub_cancel' hab] at hrest
        rw [Option.isSome_some, Bool.true_and, ← hrest]
        exact Option.isSome_map
  · rw [if_neg hab, decide_eq_false hab]
    rfl

/-- The slice of the middle of three texts. -/
theorem le_size_of_splitAt {cs : List Char} {n : Nat} (h : (splitAt cs n).isSome = true) :
    n ≤ (cs.map Char.utf8Size).sum := by
  induction cs generalizing n with
  | nil =>
      cases n with
      | zero => exact Nat.zero_le _
      | succ n => cases h
  | cons c cs ih =>
      cases n with
      | zero => exact Nat.zero_le _
      | succ n =>
          rw [splitAt] at h
          split at h
          next =>
            rw [Option.isSome_map] at h
            have hrest := ih h
            rw [List.map_cons, List.sum_cons]
            omega
          next => cases h

/-- A slice ends inside the text. -/
theorem le_len_of_slice {s t : String} {a b : Nat} (h : slice s a b = some t) : b ≤ len s := by
  have hsome : (slice s a b).isSome = true := by
    rw [h]
    rfl
  rw [isSome_slice, Bool.and_eq_true] at hsome
  rw [len_eq_sum]
  exact le_size_of_splitAt hsome.2

theorem slice_append (a b c : String) : slice (a ++ b ++ c) (len a) (len a + len b) = some b := by
  rw [slice, if_pos (Nat.le_add_right _ _), Nat.add_sub_cancel_left, len_eq_sum a, len_eq_sum b,
    String.toList_append, String.toList_append, List.append_assoc, splitAt_append]
  dsimp only
  rw [splitAt_append, Option.map_some, String.ofList_toList]

/-! ## Decimal formats -/

/-- `format!("{:0k}", n)`. -/
def zeroPadded (k n : Nat) : String :=
  let digits := Nat.toDigits 10 n
  String.ofList (List.replicate (k - digits.length) '0' ++ digits)

theorem asBytes_ofList (cs : List Char) :
    asBytes (String.ofList cs) = cs.flatMap String.utf8EncodeChar := by
  rw [asBytes_eq, String.toList_ofList]

/-- Numerals take one byte a digit. -/
theorem len_ofList_digits {cs : List Char} (h : ∀ c ∈ cs, c.isDigit = true) :
    len (String.ofList cs) = cs.length := by
  rw [← length_asBytes, asBytes_ofList]
  induction cs with
  | nil => rfl
  | cons c cs ih =>
      have hc := h c List.mem_cons_self
      rw [Char.isDigit, Bool.and_eq_true, decide_eq_true_eq, decide_eq_true_eq] at hc
      have hsize : c.utf8Size = 1 := if_pos (UInt32.le_trans hc.2 (by decide))
      rw [List.flatMap_cons, List.length_append, String.length_utf8EncodeChar, hsize,
        ih (fun c' hc' => h c' (List.mem_cons_of_mem _ hc')), List.length_cons, Nat.add_comm]

theorem isDigit_of_mem_zeroPadded {k n : Nat} {c : Char} (h : c ∈ (zeroPadded k n).toList) :
    c.isDigit = true := by
  rw [zeroPadded, String.toList_ofList] at h
  rcases List.mem_append.mp h with h | h
  · rw [List.eq_of_mem_replicate h]
    rfl
  · exact Nat.isDigit_of_mem_toDigits (by omega) (by omega) h

theorem length_zeroPadded {k n : Nat} (hk : 0 < k) (h : n < 10 ^ k) :
    (zeroPadded k n).length = k := by
  have hdigits := (Nat.length_toDigits_le_iff (by omega) hk).mpr h
  rw [← String.length_toList, zeroPadded, String.toList_ofList, List.length_append,
    List.length_replicate]
  omega

theorem len_zeroPadded {k n : Nat} (hk : 0 < k) (h : n < 10 ^ k) : len (zeroPadded k n) = k := by
  have hlen := len_ofList_digits fun c hc => isDigit_of_mem_zeroPadded (k := k) (n := n) (c := c) hc
  rw [String.ofList_toList] at hlen
  rw [hlen, String.length_toList, length_zeroPadded hk h]

theorem zeroPadded_ne_empty {k n : Nat} (hk : 0 < k) (h : n < 10 ^ k) : zeroPadded k n ≠ "" := by
  intro hnil
  have hlen := len_zeroPadded hk h
  rw [hnil] at hlen
  exact Nat.ne_of_lt hk hlen

/-! ## Numbers from text -/

/-- A leading plus sign is skipped. -/
def dropPlus : List Char → List Char
  | '+' :: digits => digits
  | digits => digits

/-- `s.parse()` at an unsigned type with the values below a bound. -/
def parseUnsigned (bound : Nat) (s : String) : Option Nat :=
  let digits := dropPlus s.toList
  let n := Nat.ofDigitChars 10 digits 0
  if digits ≠ [] ∧ digits.all Char.isDigit ∧ n < bound then some n else none

theorem dropPlus_digits {cs : List Char} (h : ∀ c ∈ cs, c.isDigit = true) : dropPlus cs = cs := by
  rw [dropPlus.eq_def]
  split
  next => cases h '+' List.mem_cons_self
  next => rfl

theorem parseUnsigned_zeroPadded {bound k n : Nat} (h : n < bound) :
    parseUnsigned bound (zeroPadded k n) = some n := by
  have hdigit (c : Char) (hc : c ∈ (zeroPadded k n).toList) := isDigit_of_mem_zeroPadded hc
  have hvalue : Nat.ofDigitChars 10 (zeroPadded k n).toList 0 = n := by
    rw [zeroPadded, String.toList_ofList, Nat.ofDigitChars_append, Nat.ofDigitChars_replicate_zero,
      Nat.mul_zero, Nat.ofDigitChars_ten_toDigits]
  have hne : (zeroPadded k n).toList ≠ [] := by
    rw [zeroPadded, String.toList_ofList]
    exact List.append_ne_nil_of_right_ne_nil _ Nat.toDigits_ne_nil
  rw [parseUnsigned, dropPlus_digits hdigit, hvalue]
  exact if_pos ⟨hne, List.all_eq_true.mpr hdigit, h⟩

/-- A number is read off its text. -/
theorem zeroPadded_inj {k m n : Nat} : zeroPadded k m = zeroPadded k n ↔ m = n := by
  refine ⟨fun htext => ?_, congrArg _⟩
  have hparse : parseUnsigned (m + n + 1) (zeroPadded k m) = some m :=
    parseUnsigned_zeroPadded (by omega)
  rw [htext, parseUnsigned_zeroPadded (by omega : n < m + n + 1)] at hparse
  exact (Option.some.inj hparse).symm

theorem ofDigitChars_lt {cs : List Char} (h : ∀ c ∈ cs, c.isDigit = true) (init : Nat) :
    Nat.ofDigitChars 10 cs init < (init + 1) * 10 ^ cs.length := by
  induction cs generalizing init with
  | nil =>
      rw [Nat.ofDigitChars_nil, List.length_nil]
      omega
  | cons c cs ih =>
      have hc := h c List.mem_cons_self
      rw [Char.isDigit, Bool.and_eq_true, decide_eq_true_eq, decide_eq_true_eq] at hc
      have hnine : c.toNat ≤ 57 := hc.2
      have hzero : '0'.toNat = 48 := rfl
      have hrest := ih (fun c' hc' => h c' (List.mem_cons_of_mem _ hc'))
        (10 * init + (c.toNat - '0'.toNat))
      have hstep : 10 * init + (c.toNat - '0'.toNat) + 1 ≤ 10 * (init + 1) := by omega
      have hscale := Nat.mul_le_mul_right (10 ^ cs.length) hstep
      rw [Nat.ofDigitChars_cons, List.length_cons, Nat.pow_succ]
      calc Nat.ofDigitChars 10 cs (10 * init + (c.toNat - '0'.toNat))
          < (10 * init + (c.toNat - '0'.toNat) + 1) * 10 ^ cs.length := hrest
        _ ≤ 10 * (init + 1) * 10 ^ cs.length := hscale
        _ = (init + 1) * (10 ^ cs.length * 10) := by
            rw [Nat.mul_comm 10, Nat.mul_assoc, Nat.mul_comm 10]

theorem length_dropPlus_le (cs : List Char) : (dropPlus cs).length ≤ cs.length := by
  rw [dropPlus.eq_def]
  split
  · exact Nat.le_succ _
  · exact Nat.le_refl _

/-- A number has at most the digits that its text has characters. -/
theorem parseUnsigned_lt {bound n : Nat} {s : String} (h : parseUnsigned bound s = some n) :
    n < 10 ^ s.toList.length := by
  rw [parseUnsigned, Option.ite_none_right_eq_some] at h
  obtain ⟨⟨-, hdigits, -⟩, hn⟩ := h
  have hlt := ofDigitChars_lt (List.all_eq_true.mp hdigits) 0
  rw [Nat.zero_add, Nat.one_mul] at hlt
  rw [← Option.some.inj hn]
  exact Nat.lt_of_lt_of_le hlt (Nat.pow_le_pow_right (by omega) (length_dropPlus_le _))

example : zeroPadded 6 7 = "000007" := by decide

example : fromUtf8Lossy [0x41, 0xE2, 0x82, 0x41] = "A\uFFFDA" := by decide

example : slice "A\u00E9B" 1 3 = some "\u00E9" := by decide

example : slice "A\u00E9B" 1 2 = none := by decide

end Text
