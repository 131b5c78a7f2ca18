import Iso8583Switch.Library.Text

/-!
# What lossy decoding reads bytes as

A sequence of bytes falls into pieces that spell a character and pieces that are lost to
a replacement character (`Segmented`).  Lossy decoding reads it in this way
(`segmented_decodeLossy`): an unfinished sequence that is continued in range spells a
character in the end, and otherwise it is lost as far as it goes.

So a text has at most as many characters as there are bytes, and at least as many bytes
in the end (`Segmented.length_le`, `Segmented.le_size`).  It starts with ASCII only where
the bytes do.  And of the bytes of a text, those behind some point are read as the rest of
the text but for three bytes at most (`size_decodeLossy_drop`).
-/

namespace Text

/-! ## Leading bytes -/

theorem toNat_ofNat_of_valid {v : Nat} (h : v.isValidChar) : (Char.ofNat v).toNat = v := by
  rw [Char.ofNat, dif_pos h]
  rfl

/-- The five meanings of a leading byte. -/
theorem lead_cases (b : UInt8) :
    (b.toNat < 0x80 ∧ lead b = .char (Char.ofNat b.toNat)) ∨
    (0xC2 ≤ b.toNat ∧ b.toNat < 0xE0 ∧ lead b = .pending ⟨1, b.toNat - 0xC0, 0x80, 0xBF⟩) ∨
    (0xE0 ≤ b.toNat ∧ b.toNat < 0xF0 ∧ lead b = .pending ⟨2, b.toNat - 0xE0,
      if b.toNat = 0xE0 then 0xA0 else 0x80, if b.toNat = 0xED then 0x9F else 0xBF⟩) ∨
    (0xF0 ≤ b.toNat ∧ b.toNat < 0xF5 ∧ lead b = .pending ⟨3, b.toNat - 0xF0,
      if b.toNat = 0xF0 then 0x90 else 0x80, if b.toNat = 0xF4 then 0x8F else 0xBF⟩) ∨
    lead b = .invalid := by
  rw [lead]
  by_cases hone : b.toNat < 0x80
  · exact .inl ⟨hone, if_pos hone⟩
  by_cases hlow : b.toNat < 0xC2
  · rw [if_neg hone, if_pos hlow]
    exact .inr (.inr (.inr (.inr rfl)))
  by_cases htwo : b.toNat < 0xE0
  · rw [if_neg hone, if_neg hlow, if_pos htwo]
    exact .inr (.inl ⟨Nat.not_lt.mp hlow, htwo, rfl⟩)
  by_cases hthree : b.toNat < 0xF0
  · rw [if_neg hone, if_neg hlow, if_neg htwo, if_pos hthree]
    exact .inr (.inr (.inl ⟨Nat.not_lt.mp htwo, hthree, rfl⟩))
  by_cases hfour : b.toNat < 0xF5
  · rw [if_neg hone, if_neg hlow, if_neg htwo, if_neg hthree, if_pos hfour]
    exact .inr (.inr (.inr (.inl ⟨Nat.not_lt.mp hthree, hfour, rfl⟩)))
  · rw [if_neg hone, if_neg hlow, if_neg htwo, if_neg hthree, if_neg hfour]
    exact .inr (.inr (.inr (.inr rfl)))

theorem char_of_lead {b : UInt8} {c : Char} (h : lead b = .char c) :
    b.toNat < 0x80 ∧ Char.ofNat b.toNat = c := by
  rcases lead_cases b with ⟨hb, hlead⟩ | ⟨-, -, hlead⟩ | ⟨-, -, hlead⟩ | ⟨-, -, hlead⟩ | hlead
  all_goals
    rw [hlead] at h
    cases h
  exact ⟨hb, rfl⟩

/-! ## Encoded characters -/

theorem utf8EncodeChar_ascii {n : Nat} (h : n < 0x80) :
    String.utf8EncodeChar (Char.ofNat n) = [UInt8.ofNat n] := by
  have hval : (Char.ofNat n).val.toNat = n := toNat_ofNat_of_valid (.inl (by omega))
  rw [String.utf8EncodeChar, hval]
  exact if_pos (by omega)

theorem byte_eq {b : UInt8} {n : Nat} (h : b.toNat = n) : b = UInt8.ofNat n := by
  rw [← h, UInt8.ofNat_toNat]

theorem encode_two {v : Nat} (h : 0x80 ≤ v) (hv : v < 0x800) :
    String.utf8EncodeChar (Char.ofNat v) =
      [UInt8.ofNat (v / 64 + 0xC0), UInt8.ofNat (v % 64 + 0x80)] := by
  have hval : (Char.ofNat v).val.toNat = v := toNat_ofNat_of_valid (.inl (by omega))
  rw [String.utf8EncodeChar, hval, if_neg (by omega), if_pos (by omega),
    Nat.mod_eq_of_lt (show v / 64 < 32 by omega)]

theorem encode_three {v : Nat} (h : 0x800 ≤ v) (hv : v < 0xD800 ∨ (0xDFFF < v ∧ v < 0x10000)) :
    String.utf8EncodeChar (Char.ofNat v) = [UInt8.ofNat (v / 4096 + 0xE0),
      UInt8.ofNat (v / 64 % 64 + 0x80), UInt8.ofNat (v % 64 + 0x80)] := by
  have hval : (Char.ofNat v).val.toNat = v :=
    toNat_ofNat_of_valid (hv.imp id fun h => ⟨h.1, by omega⟩)
  rw [String.utf8EncodeChar, hval, if_neg (by omega), if_neg (by omega), if_pos (by omega),
    Nat.mod_eq_of_lt (show v / 4096 < 16 by omega)]

theorem encode_four {v : Nat} (h : 0x10000 ≤ v) (hv : v < 0x110000) :
    String.utf8EncodeChar (Char.ofNat v) = [UInt8.ofNat (v / 262144 + 0xF0),
      UInt8.ofNat (v / 4096 % 64 + 0x80), UInt8.ofNat (v / 64 % 64 + 0x80),
      UInt8.ofNat (v % 64 + 0x80)] := by
  have hval : (Char.ofNat v).val.toNat = v := toNat_ofNat_of_valid (.inr ⟨by omega, hv⟩)
  rw [String.utf8EncodeChar, hval, if_neg (by omega), if_neg (by omega), if_neg (by omega),
    Nat.mod_eq_of_lt (show v / 262144 < 8 by omega)]

/-- A character that begins with an ASCII byte is that byte. -/
theorem tail_of_ascii {c : Char} {b : UInt8} {others : Bytes}
    (h : String.utf8EncodeChar c = b :: others) (hb : b.toNat < 0x80) : others = [] := by
  have hbyte {n : Nat} (hn : n < 256) (heq : UInt8.ofNat n = b) : n = b.toNat := by
    rw [← heq, toNat_byte hn]
  rw [String.utf8EncodeChar] at h
  generalize c.val.toNat = v at h
  split at h
  · exact (List.cons.inj h).2.symm
  · split at h
    · have := hbyte (by omega) (List.cons.inj h).1
      omega
    · split at h
      · have := hbyte (by omega) (List.cons.inj h).1
        omega
      · have := hbyte (by omega) (List.cons.inj h).1
        omega

/-! ## Unfinished sequences -/

/-- The character that the next bytes in range will spell, behind some bytes. -/
def Spells : Nat → Nat → Nat → Nat → Bytes → Prop
  | 0, _, _, _, _ => False
  | 1, bits, lo, hi, front =>
      ∀ b : UInt8, lo ≤ b.toNat → b.toNat ≤ hi →
        front ++ [b] = String.utf8EncodeChar (Char.ofNat (bits * 64 + (b.toNat - 0x80)))
  | m + 2, bits, lo, hi, front =>
      ∀ b : UInt8, lo ≤ b.toNat → b.toNat ≤ hi →
        Spells (m + 1) (bits * 64 + (b.toNat - 0x80)) 0x80 0xBF (front ++ [b])

theorem spells_two {b : UInt8} (h : 0xC2 ≤ b.toNat) (hb : b.toNat < 0xE0) :
    Spells 1 (b.toNat - 0xC0) 0x80 0xBF [b] := by
  intro c hc hc'
  rw [encode_two (by omega) (by omega)]
  simp only [List.singleton_append, List.cons.injEq, and_true]
  exact ⟨byte_eq (by omega), byte_eq (by omega)⟩

theorem spells_three {b : UInt8} (h : 0xE0 ≤ b.toNat) (hb : b.toNat < 0xF0) :
    Spells 2 (b.toNat - 0xE0) (if b.toNat = 0xE0 then 0xA0 else 0x80)
      (if b.toNat = 0xED then 0x9F else 0xBF) [b] := by
  intro c hc hc' d hd hd'
  have hcont : 0x80 ≤ c.toNat ∧ c.toNat ≤ 0xBF := by
    split at hc <;> split at hc' <;> omega
  have hlong : 0x800 ≤ ((b.toNat - 0xE0) * 64 + (c.toNat - 0x80)) * 64 + (d.toNat - 0x80) := by
    split at hc <;> omega
  rw [encode_three hlong (by split at hc' <;> omega)]
  simp only [List.cons_append, List.nil_append, List.cons.injEq, and_true]
  exact ⟨byte_eq (by omega), byte_eq (by omega), byte_eq (by omega)⟩

theorem spells_four {b : UInt8} (h : 0xF0 ≤ b.toNat) (hb : b.toNat < 0xF5) :
    Spells 3 (b.toNat - 0xF0) (if b.toNat = 0xF0 then 0x90 else 0x80)
      (if b.toNat = 0xF4 then 0x8F else 0xBF) [b] := by
  intro c hc hc' d hd hd' e he he'
  have hcont : 0x80 ≤ c.toNat ∧ c.toNat ≤ 0xBF := by
    split at hc <;> split at hc' <;> omega
  have hlong : 0x10000 ≤ (((b.toNat - 0xF0) * 64 + (c.toNat - 0x80)) * 64 + (d.toNat - 0x80)) * 64 +
      (e.toNat - 0x80) := by
    split at hc <;> omega
  rw [encode_four hlong (by split at hc' <;> omega)]
  simp only [List.cons_append, List.nil_append, List.cons.injEq, and_true]
  exact ⟨byte_eq (by omega), byte_eq (by omega), byte_eq (by omega), byte_eq (by omega)⟩

/-- The bytes so far of an unfinished sequence. -/
structure Unfinished (p : Pending) (front : Bytes) : Prop where
  spells : Spells p.missing p.bits p.lo p.hi front
  high : ∀ b ∈ front, 0x80 ≤ b.toNat
  size : 1 ≤ front.length ∧ front.length + p.missing ≤ 4
  low : 0x80 ≤ p.lo
  later : 2 ≤ front.length → p.lo = 0x80 ∧ p.hi = 0xBF
  read : ∀ bs, decodeLossy none (front ++ bs) = decodeLossy (some p) bs

theorem Unfinished.start {b : UInt8} {missing bits lo hi : Nat}
    (hlead : lead b = .pending ⟨missing, bits, lo, hi⟩) (hspells : Spells missing bits lo hi [b])
    (hb : 0x80 ≤ b.toNat) (hmissing : missing ≤ 3) (hlo : 0x80 ≤ lo) :
    Unfinished ⟨missing, bits, lo, hi⟩ [b] where
  spells := hspells
  high := by
    intro c hc
    rw [List.mem_singleton.mp hc]
    exact hb
  size := ⟨Nat.le_refl 1, by
    show 1 + missing ≤ 4
    omega⟩
  low := hlo
  later := fun hlen => absurd hlen (by rw [List.length_singleton]; omega)
  read := by
    intro bs
    rw [List.singleton_append, decodeLossy, hlead]

theorem unfinished_of_lead {b : UInt8} {p : Pending} (h : lead b = .pending p) :
    Unfinished p [b] := by
  rcases lead_cases b with ⟨-, hlead⟩ | ⟨hlo, hhi, hlead⟩ | ⟨hlo, hhi, hlead⟩ |
    ⟨hlo, hhi, hlead⟩ | hlead
  all_goals
    rw [hlead] at h
    cases h
  · exact .start hlead (spells_two hlo hhi) (by omega) (by omega) (Nat.le_refl _)
  · exact .start hlead (spells_three hlo hhi) (by omega) (by omega) (by split <;> omega)
  · exact .start hlead (spells_four hlo hhi) (by omega) (by omega) (by split <;> omega)

theorem Unfinished.more {m bits lo hi : Nat} {front : Bytes} {b : UInt8}
    (h : Unfinished ⟨m + 2, bits, lo, hi⟩ front) (hlo : lo ≤ b.toNat) (hhi : b.toNat ≤ hi) :
    Unfinished ⟨m + 1, bits * 64 + (b.toNat - 0x80), 0x80, 0xBF⟩ (front ++ [b]) where
  spells := h.spells b hlo hhi
  high := by
    intro c hc
    rcases List.mem_append.mp hc with hc | hc
    · exact h.high c hc
    · rw [List.mem_singleton.mp hc]
      exact h.low.trans hlo
  size := by
    have hsize := h.size
    dsimp only at hsize
    rw [List.length_append, List.length_singleton]
    dsimp only
    omega
  low := Nat.le_refl _
  later := fun _ => ⟨rfl, rfl⟩
  read := by
    intro bs
    rw [List.append_assoc, h.read, List.singleton_append, decodeLossy, if_pos ⟨hlo, hhi⟩]
    rfl

/-! ## Pieces -/

/-- Bytes that are lost to one replacement character, in front of others.  What may
still be a sequence breaks off at a byte that does not continue it. -/
structure Lost (w rest : Bytes) : Prop where
  high : ∀ b ∈ w, 0x80 ≤ b.toNat
  size : 1 ≤ w.length ∧ w.length ≤ 3
  broken : 2 ≤ w.length → ∀ b ∈ rest.head?, b.toNat < 0x80 ∨ 0xBF < b.toNat
  read : decodeLossy none (w ++ rest) = replacement :: decodeLossy none rest

/-- The characters that bytes are read as: what they spell, or what is lost. -/
inductive Segmented : Bytes → List Char → Prop
  | nil : Segmented [] []
  | char {bs : Bytes} {cs : List Char} (c : Char) (h : Segmented bs cs) :
      Segmented (String.utf8EncodeChar c ++ bs) (c :: cs)
  | lost {bs w : Bytes} {cs : List Char} (hw : Lost w bs) (h : Segmented bs cs) :
      Segmented (w ++ bs) (replacement :: cs)

/-- Lossy decoding spells what it can. -/
theorem segmented_decodeLossy (bs : Bytes) : Segmented bs (decodeLossy none bs) ∧
    ∀ p front, Unfinished p front → Segmented (front ++ bs) (decodeLossy (some p) bs) := by
  induction bs with
  | nil =>
      refine ⟨.nil, fun p front h => .lost ⟨h.high, ?_, (fun _ b hb => nomatch hb), h.read []⟩ .nil⟩
      have hsize := h.size
      have hmissing : p.missing ≠ 0 := fun hzero => by
        have hspells := h.spells
        rw [hzero] at hspells
        exact hspells
      omega
  | cons b bs ih =>
      have hnone : Segmented (b :: bs) (decodeLossy none (b :: bs)) := by
        rw [decodeLossy]
        cases hlead : lead b with
        | char c =>
            obtain ⟨hb, rfl⟩ := char_of_lead hlead
            have hchar := Segmented.char (Char.ofNat b.toNat) ih.1
            rwa [utf8EncodeChar_ascii hb, UInt8.ofNat_toNat] at hchar
        | pending p => exact ih.2 p [b] (unfinished_of_lead hlead)
        | invalid =>
            refine Segmented.lost (w := [b]) ⟨?_, ⟨Nat.le_refl 1, ?_⟩, ?_, ?_⟩ ih.1
            · intro c hc
              rw [List.mem_singleton.mp hc]
              by_contra hlow
              rw [lead, if_pos (by omega)] at hlead
              cases hlead
            · rw [List.length_singleton]
              omega
            · intro hlen
              exact absurd hlen (by rw [List.length_singleton]; omega)
            · rw [List.singleton_append, decodeLossy, hlead]
      refine ⟨hnone, fun p front h => ?_⟩
      obtain ⟨missing, bits, lo, hi⟩ := p
      rw [decodeLossy]
      split
      next hin =>
        rcases missing with _ | _ | m
        · exact h.spells.elim
        · have hspelled := h.spells b hin.1 hin.2
          have hchar := Segmented.char (Char.ofNat (bits * 64 + (b.toNat - 0x80))) ih.1
          rw [← hspelled, List.append_assoc] at hchar
          exact hchar
        · have hmore := ih.2 _ _ (h.more hin.1 hin.2)
          rw [List.append_assoc] at hmore
          exact hmore
      next hout =>
        have hread := h.read (b :: bs)
        rw [decodeLossy, if_neg hout] at hread
        rw [decodeLossy] at hnone
        refine Segmented.lost ⟨h.high, ?_, ?_, ?_⟩ hnone
        · have hsize := h.size
          have hmissing : missing ≠ 0 := fun hzero => by
            have hspells := h.spells
            rw [hzero] at hspells
            exact hspells
          dsimp only at hsize
          omega
        · intro hlen c hc
          cases hc
          obtain ⟨rfl, rfl⟩ := h.later hlen
          dsimp only at hout
          omega
        · rw [hread, decodeLossy]

theorem segmented_fromUtf8Lossy (bs : Bytes) : Segmented bs (fromUtf8Lossy bs).toList := by
  rw [fromUtf8Lossy, String.toList_ofList]
  exact (segmented_decodeLossy bs).1

namespace Segmented

variable {bs : Bytes} {cs : List Char}

/-- The pieces are what lossy decoding reads. -/
theorem read (h : Segmented bs cs) : decodeLossy none bs = cs := by
  induction h with
  | nil => rfl
  | char c _ ih => rw [decodeLossy_utf8EncodeChar, ih]
  | lost hw _ ih => rw [hw.read, ih]

theorem length_le (h : Segmented bs cs) : cs.length ≤ bs.length := by
  induction h with
  | nil => exact Nat.le_refl 0
  | char c _ ih =>
      have hpos := c.utf8Size_pos
      rw [List.length_append, String.length_utf8EncodeChar, List.length_cons]
      omega
  | lost hw _ ih =>
      have hsize := hw.size
      rw [List.length_append, List.length_cons]
      omega

theorem le_size (h : Segmented bs cs) : bs.length ≤ (cs.map Char.utf8Size).sum := by
  induction h with
  | nil => exact Nat.le_refl 0
  | char c _ ih =>
      rw [List.length_append, String.length_utf8EncodeChar, List.map_cons, List.sum_cons]
      omega
  | lost hw _ ih =>
      have hsize := hw.size
      have hthree : replacement.utf8Size = 3 := by decide
      rw [List.length_append, List.map_cons, List.sum_cons, hthree]
      omega

/-- Where nothing is replaced, the bytes are those of the characters. -/
theorem flatMap_eq (h : Segmented bs cs) (hcs : replacement ∉ cs) :
    cs.flatMap String.utf8EncodeChar = bs := by
  induction h with
  | nil => rfl
  | char c _ ih =>
      rw [List.flatMap_cons, ih fun hmem => hcs (List.mem_cons_of_mem _ hmem)]
  | lost hw _ ih => exact absurd List.mem_cons_self hcs

/-- Text does not begin with more of an ASCII byte than the bytes that it is read from. -/
theorem replicate_append_ne (h : Segmented bs cs) {b : UInt8} (hb : b.toNat < 0x80) (k n : Nat) :
    List.replicate (k + 1) b ++ bs ≠ (cs.flatMap String.utf8EncodeChar).take n := by
  induction h generalizing n with
  | nil =>
      rw [List.flatMap_nil, List.take_nil]
      exact List.append_ne_nil_of_left_ne_nil (List.cons_ne_nil _ _) _
  | @char bs cs c _ ih =>
      rw [List.replicate_succ, List.cons_append, List.flatMap_cons]
      intro heq
      rcases n with _ | n
      · cases heq
      obtain ⟨first, others, hfirst⟩ : ∃ first others, String.utf8EncodeChar c = first :: others := by
        cases hbytes : String.utf8EncodeChar c with
        | nil => exact absurd hbytes (by simp)
        | cons first others => exact ⟨first, others, rfl⟩
      rw [hfirst, List.cons_append, List.cons_append, List.take_succ_cons, List.cons.injEq] at heq
      obtain ⟨rfl, heq⟩ := heq
      have hothers : others = [] := tail_of_ascii hfirst hb
      subst hothers
      rw [List.nil_append, List.nil_append, ← List.singleton_append, ← List.append_assoc,
        ← List.replicate_succ'] at heq
      exact ih _ heq
  | lost hw _ ih =>
      rw [List.replicate_succ, List.cons_append, List.flatMap_cons]
      intro heq
      rcases n with _ | n
      · cases heq
      · have hfirst : String.utf8EncodeChar replacement = [0xEF, 0xBF, 0xBD] := by decide
        rw [hfirst, List.cons_append, List.take_succ_cons, List.cons.injEq] at heq
        rw [heq.1] at hb
        exact absurd hb (by decide)

end Segmented

/-! ## Behind a point -/

theorem lead_continuation {n : Nat} (h : n < 64) : lead (UInt8.ofNat (n + 0x80)) = .invalid := by
  rw [lead, toNat_byte (by omega)]
  rw [if_neg (by omega), if_pos (by omega)]

/-- No byte of a character but its first can start a sequence. -/
theorem lead_of_mem_tail {c : Char} {b : UInt8} (h : b ∈ (String.utf8EncodeChar c).tail) :
    lead b = .invalid := by
  rw [String.utf8EncodeChar] at h
  generalize c.val.toNat = v at h
  split at h
  · cases h
  · split at h
    · simp only [List.tail_cons, List.mem_singleton] at h
      rw [h]
      exact lead_continuation (by omega)
    · split at h
      · simp only [List.tail_cons, List.mem_cons, List.not_mem_nil, or_false] at h
        rcases h with rfl | rfl
        all_goals exact lead_continuation (by omega)
      · simp only [List.tail_cons, List.mem_cons, List.not_mem_nil, or_false] at h
        rcases h with rfl | rfl | rfl
        all_goals exact lead_continuation (by omega)

/-- Bytes that start nothing are replaced one by one. -/
theorem decodeLossy_invalid {w : Bytes} (h : ∀ b ∈ w, lead b = .invalid) (rest : Bytes) :
    decodeLossy none (w ++ rest) = List.replicate w.length replacement ++ decodeLossy none rest := by
  induction w with
  | nil => rfl
  | cons b w ih =>
      rw [List.cons_append, decodeLossy, h b List.mem_cons_self]
      exact congrArg _ (ih fun c hc => h c (List.mem_cons_of_mem _ hc))

theorem length_flatMap_encode (cs : List Char) :
    (cs.flatMap String.utf8EncodeChar).length = (cs.map Char.utf8Size).sum := by
  induction cs with
  | nil => rfl
  | cons c cs ih =>
      rw [List.flatMap_cons, List.length_append, String.length_utf8EncodeChar, ih, List.map_cons,
        List.sum_cons]

theorem decodeLossy_flatMap (cs : List Char) :
    decodeLossy none (cs.flatMap String.utf8EncodeChar) = cs := by
  induction cs with
  | nil => rfl
  | cons c cs ih => rw [List.flatMap_cons, decodeLossy_utf8EncodeChar, ih]

/-- The bytes of a text behind some point give a text of at most six bytes more, since
three of them at most are the rest of a character. -/
theorem size_decodeLossy_drop (cs : List Char) (k : Nat) :
    ((decodeLossy none ((cs.flatMap String.utf8EncodeChar).drop k)).map Char.utf8Size).sum ≤
      ((cs.flatMap String.utf8EncodeChar).drop k).length + 6 := by
  induction cs generalizing k with
  | nil =>
      rw [List.flatMap_nil, List.drop_nil]
      exact Nat.zero_le _
  | cons c cs ih =>
      rw [List.flatMap_cons, List.drop_append, String.length_utf8EncodeChar]
      rcases Nat.lt_or_ge k c.utf8Size with hinside | hbehind
      · rw [Nat.sub_eq_zero_of_le (Nat.le_of_lt hinside), List.drop_zero]
        rcases Nat.eq_zero_or_pos k with rfl | hpos
        · rw [List.drop_zero, decodeLossy_utf8EncodeChar, decodeLossy_flatMap, List.length_append,
            String.length_utf8EncodeChar, length_flatMap_encode, List.map_cons, List.sum_cons]
          omega
        · have htail : (String.utf8EncodeChar c).drop k = (String.utf8EncodeChar c).tail.drop (k - 1) := by
            rw [← List.drop_one, List.drop_drop, Nat.add_sub_cancel' hpos]
          have hinvalid (b : UInt8) (hb : b ∈ (String.utf8EncodeChar c).drop k) : lead b = .invalid := by
            rw [htail] at hb
            exact lead_of_mem_tail (List.mem_of_mem_drop hb)
          have hshort : ((String.utf8EncodeChar c).drop k).length ≤ 3 := by
            have hfour := c.utf8Size_le_four
            rw [List.length_drop, String.length_utf8EncodeChar]
            omega
          have hthree : replacement.utf8Size = 3 := by decide
          rw [decodeLossy_invalid hinvalid, decodeLossy_flatMap, List.map_append, List.sum_append,
            List.map_replicate, List.sum_replicate_nat, hthree, List.length_append,
            length_flatMap_encode]
          omega
      · have hnil : (String.utf8EncodeChar c).drop k = [] :=
          List.drop_eq_nil_of_le (by rwa [String.length_utf8EncodeChar])
        rw [hnil, List.nil_append]
        exact ih _

/-! ## Other bytes with the same text -/

/-- A sequence breaks off in front of a byte that does not continue it. -/
theorem decodeLossy_break {missing bits : Nat} {rest : Bytes}
    (h : ∀ b ∈ rest.head?, b.toNat < 0x80 ∨ 0xBF < b.toNat) :
    decodeLossy (some ⟨missing, bits, 0x80, 0xBF⟩) rest = replacement :: decodeLossy none rest := by
  cases rest with
  | nil => rfl
  | cons b rest =>
      have hb := h b rfl
      have hout : ¬ (0x80 ≤ b.toNat ∧ b.toNat ≤ 0xBF) := by omega
      show (if 0x80 ≤ b.toNat ∧ b.toNat ≤ 0xBF then _ else _) = _
      rw [if_neg hout, decodeLossy]

/-- The first byte of a text continues nothing. -/
theorem head_flatMap_encode (cs : List Char) :
    ∀ b ∈ (cs.flatMap String.utf8EncodeChar).head?, b.toNat < 0x80 ∨ 0xBF < b.toNat := by
  intro b hb
  cases cs with
  | nil => cases hb
  | cons c cs =>
      rw [List.flatMap_cons, String.utf8EncodeChar] at hb
      generalize c.val.toNat = v at hb
      have hbyte {n : Nat} (hn : n < 256) (heq : some (UInt8.ofNat n) = some b) : b.toNat = n := by
        cases heq
        exact toNat_byte hn
      split at hb
      · have := hbyte (by omega) hb
        omega
      · split at hb
        · have := hbyte (by omega) hb
          omega
        · split at hb
          · have := hbyte (by omega) hb
            omega
          · have := hbyte (by omega) hb
            omega

/-- There are two ways to lose as many bytes. -/
theorem Lost.exists_other {w rest : Bytes} (h : Lost w rest) : ∃ w', w' ≠ w ∧
    w'.length = w.length ∧ decodeLossy none (w' ++ rest) = replacement :: decodeLossy none rest := by
  have hpick {a b : Bytes} (hne : a ≠ b) (ha : a.length = w.length ∧
      decodeLossy none (a ++ rest) = replacement :: decodeLossy none rest)
      (hb : b.length = w.length ∧
        decodeLossy none (b ++ rest) = replacement :: decodeLossy none rest) :
      ∃ w', w' ≠ w ∧ w'.length = w.length ∧
        decodeLossy none (w' ++ rest) = replacement :: decodeLossy none rest := by
    by_cases heq : a = w
    · exact ⟨b, fun h => hne (heq.trans h.symm), hb⟩
    · exact ⟨a, heq, ha⟩
  obtain ⟨hpos, hthree⟩ := h.size
  obtain hlen | hlen | hlen : w.length = 1 ∨ w.length = 2 ∨ w.length = 3 := by omega
  · exact hpick (a := [0xFF]) (b := [0xFE]) (by decide) ⟨hlen.symm, rfl⟩ ⟨hlen.symm, rfl⟩
  · have hbreak := h.broken (by omega)
    exact hpick (a := [0xE1, 0x80]) (b := [0xE2, 0x80]) (by decide)
      ⟨hlen.symm, decodeLossy_break hbreak⟩ ⟨hlen.symm, decodeLossy_break hbreak⟩
  · have hbreak := h.broken (by omega)
    exact hpick (a := [0xF1, 0x80, 0x80]) (b := [0xF2, 0x80, 0x80]) (by decide)
      ⟨hlen.symm, decodeLossy_break hbreak⟩ ⟨hlen.symm, decodeLossy_break hbreak⟩

/-- A text with a replacement character is the text of other bytes, too. -/
theorem Segmented.exists_other {bs : Bytes} {cs : List Char} (h : Segmented bs cs)
    (hcs : replacement ∈ cs) :
    ∃ bs', bs' ≠ bs ∧ bs'.length = bs.length ∧ decodeLossy none bs' = cs := by
  induction h with
  | nil => cases hcs
  | @char bs cs c h ih =>
      by_cases hmem : replacement ∈ cs
      · obtain ⟨bs', hne, hlen, hread⟩ := ih hmem
        refine ⟨String.utf8EncodeChar c ++ bs', fun heq => hne (List.append_cancel_left heq), ?_, ?_⟩
        · rw [List.length_append, List.length_append, hlen]
        · rw [decodeLossy_utf8EncodeChar, hread]
      · -- The character is the replacement character itself, and text follows.
        obtain rfl : replacement = c := (List.mem_cons.mp hcs).resolve_right hmem
        have hhead := head_flatMap_encode cs
        rw [h.flatMap_eq hmem] at hhead
        have hread : decodeLossy none ([0xF1, 0x80, 0x80] ++ bs) = replacement :: decodeLossy none bs :=
          decodeLossy_break hhead
        refine ⟨[0xF1, 0x80, 0x80] ++ bs, ?_, ?_, ?_⟩
        · rw [ne_eq, List.append_left_inj]
          decide
        · rw [List.length_append, List.length_append]
          rfl
        · rw [hread, h.read]
  | @lost bs w cs hw h _ =>
      obtain ⟨w', hne, hlen, hread⟩ := hw.exists_other
      refine ⟨w' ++ bs, fun heq => hne (List.append_cancel_right heq), ?_, ?_⟩
      · rw [List.length_append, List.length_append, hlen]
      · rw [hread, h.read]

end Text
