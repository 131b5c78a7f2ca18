import Iso8583Switch.Properties.WireDecoding

/-!
# Bitmaps that add nothing

The standard dialect follows the first bit of a bitmap to a second one, and the first of
that to a third.  A bitmap that holds no other bit adds no field, and only the fields 64
and 128 ask whether there is a second bitmap.  So a message keeps its meaning with such
bitmaps in front of its body, if it has no field 64.
-/

namespace Iso8583Switch

open Text FieldWalk

/-! ## The loop over the bitmaps -/

theorem isBitSetIn_one {chunk : Bytes} (h : chunk.length = 8) :
    isBitSetIn chunk 1 = ((chunk[0]?).getD 0 &&& 0x80 != 0) := by
  rw [isBitSetIn, if_neg (by omega)]
  rfl

/-- The loop reads the chunks that are left to it. -/
theorem StandardDialect.bitmapLoop_eq_readBitmap {raw : Bytes} {more bitOffset : Nat}
    (h : bitOffset + 64 * more = 129) (bitmap : Bytes) (offset : Nat) :
    bitmapLoop raw bitmap bitOffset offset =
      (readBitmap raw more offset).map fun p => (bitmap ++ p.1, p.2) := by
  induction more generalizing bitOffset bitmap offset with
  | zero =>
      rw [bitmapLoop, readBitmap]
      cases hread : readFixed raw offset 8 with
      | error e => rfl
      | ok p =>
          rw [ok_bind]
          dsimp only
          rw [if_neg (by omega)]
          rfl
  | succ more ih =>
      rw [bitmapLoop, readBitmap]
      cases hread : readFixed raw offset 8 with
      | error e => rfl
      | ok p =>
          have hlen : p.1.length = 8 := (readFixed_ok hread).1
          rw [ok_bind, ok_bind]
          dsimp only
          rw [isBitSetIn_one hlen]
          by_cases hmore : (p.1[0]?).getD 0 &&& 0x80 ≠ 0
          · rw [if_pos ⟨hmore, by omega⟩, if_pos (bne_iff_ne.mpr hmore), ih (by omega)]
            cases readBitmap raw more p.2 with
            | error e => rfl
            | ok q =>
                show Except.ok (bitmap ++ p.1 ++ q.1, q.2) = Except.ok (bitmap ++ (p.1 ++ q.1), q.2)
                rw [List.append_assoc]
          · rw [if_neg fun hboth => hmore hboth.1, if_neg fun hset => hmore (bne_iff_ne.mp hset)]
            rfl

theorem StandardDialect.bitmapLoop_eq (raw : Bytes) (offset : Nat) :
    bitmapLoop raw [] 1 offset = readBitmap raw 2 offset := by
  rw [bitmapLoop_eq_readBitmap (show 1 + 64 * 2 = 129 from rfl)]
  cases readBitmap raw 2 offset with
  | error e => rfl
  | ok p => rfl

/-! ## No fourth bitmap -/

/-- Bytes behind what is read do not matter. -/
theorem readFixed_take {raw raw' : Bytes} {n offset len : Nat} (h : raw.take n = raw'.take n)
    (hle : offset + len ≤ n) : readFixed raw offset len = readFixed raw' offset len := by
  have hread (bytes : Bytes) : readFixed bytes offset len = readFixed (bytes.take n) offset len := by
    rw [readFixed, readFixed, List.length_take, List.drop_take, List.take_take,
      Nat.min_eq_left (by omega : len ≤ n - offset)]
    by_cases hshort : bytes.length < offset + len
    · rw [if_pos hshort, if_pos (by omega)]
    · rw [if_neg hshort, if_neg (by omega)]
  rw [hread raw, hread raw', h]

theorem readBitmap_take {raw raw' : Bytes} {n more offset : Nat} (h : raw.take n = raw'.take n)
    (hle : offset + 8 * (more + 1) ≤ n) : StandardDialect.readBitmap raw more offset =
      StandardDialect.readBitmap raw' more offset := by
  induction more generalizing offset with
  | zero => exact readFixed_take h hle
  | succ more ih =>
      rw [StandardDialect.readBitmap, StandardDialect.readBitmap, readFixed_take h (by omega)]
      cases hread : readFixed raw' offset 8 with
      | error e => rfl
      | ok p =>
          have hoffset := (readFixed_ok hread).2.1
          rw [ok_bind, ok_bind]
          dsimp only
          rw [ih (by omega)]

theorem length_readBitmap {raw : Bytes} {more offset : Nat} {p : Bytes × Nat}
    (h : StandardDialect.readBitmap raw more offset = .ok p) :
    p.1.length ≤ 8 * (more + 1) ∧ p.2 = offset + p.1.length := by
  have hle : offset ≤ raw.length := by
    cases more with
    | zero =>
        obtain ⟨-, hend, hlen⟩ := readFixed_ok h
        omega
    | succ more =>
        obtain ⟨q, hfirst, -⟩ := ok_bind_eq h
        obtain ⟨-, hend, hlen⟩ := readFixed_ok hfirst
        omega
  obtain ⟨bitmaps, -, hchunks, -, rfl⟩ := (takes_readBitmap more).only hle h
  exact ⟨hchunks.le_length.2, rfl⟩

/-! ## Bitmaps without fields -/

def emptyBitmap : Bytes := List.replicate 8 0

/-- A bitmap that announces the next and nothing else. -/
def announcingBitmap : Bytes := setBitIn emptyBitmap 1

theorem isBitSetIn_setBitIn {bitmap : Bytes} (h : bitmap.length = 8) {k : Nat} (hk : 1 ≤ k)
    (hle : k ≤ 64) : isBitSetIn (setBitIn bitmap 1) k = (decide (1 = k) || isBitSetIn bitmap k) := by
  rw [← toList_ofBytes h, setBitIn_toList, isBitSetIn_toList, isBitSetIn_toList]
  exact isBitSet_setBit (by decide) ⟨hk, hle⟩

theorem length_setBitIn (bitmap : Bytes) (k : Nat) :
    (setBitIn bitmap k).length = bitmap.length := by
  rw [setBitIn]
  split
  · rfl
  · exact List.length_modify _ _ _

theorem isBitSetIn_emptyBitmap (k : Nat) : isBitSetIn emptyBitmap k = false := by
  rw [isBitSetIn]
  split
  · rfl
  next hrange =>
    have hlen : emptyBitmap.length = 8 := rfl
    have hbyte : (k - 1) / 8 < 8 := by omega
    rw [emptyBitmap, List.getElem?_replicate, if_pos hbyte, Option.getD_some, UInt8.zero_and]
    rfl

/-- Bitmaps behind the first that announce bitmaps and hold no field. -/
structure Adds (extra : Bytes) : Prop where
  chunks : Chunks 1 extra
  clear : ∀ k, 1 ≤ k → isBitSetIn extra k = true → k = 1 ∨ k = 65

theorem adds_empty : Adds emptyBitmap where
  chunks := Chunks.single rfl rfl
  clear := by
    intro k _ hset
    rw [isBitSetIn_emptyBitmap] at hset
    cases hset

theorem adds_announcing {third : Bytes} (hlen : third.length = 8)
    (hclear : ∀ k, 1 ≤ k → isBitSetIn third k = true → k = 1) :
    Adds (announcingBitmap ++ third) where
  chunks := by
    have hthird : Chunks 0 third := hlen
    exact hthird.append rfl rfl
  clear := by
    intro k hk hset
    rcases Nat.lt_or_ge 64 k with hbehind | hfront
    · have hshift : isBitSetIn (announcingBitmap ++ third) (64 + (k - 64)) =
          isBitSetIn third (k - 64) := isBitSetIn_behind third (by omega)
      rw [Nat.add_sub_cancel' (Nat.le_of_lt hbehind), hset] at hshift
      have hone := hclear (k - 64) (by omega) hshift.symm
      exact .inr (by omega)
    · have hfirst : isBitSetIn (announcingBitmap ++ third) k = isBitSetIn announcingBitmap k :=
        isBitSetIn_append third hfront
      rw [hfirst, announcingBitmap, isBitSetIn_setBitIn rfl hk hfront, isBitSetIn_emptyBitmap,
        Bool.or_false, decide_eq_true_eq] at hset
      exact .inl hset.symm

/-- The standard dialect asks for the second bitmap at the fields 64 and 128 only. -/
theorem StandardDialect.assign_bitmaps {bitmaps bitmaps' : Bytes} {field : Nat}
    (h : field ≠ 64 ∧ field ≠ 128) :
    StandardDialect.assign bitmaps field = StandardDialect.assign bitmaps' field := by
  funext data tx
  unfold StandardDialect.assign
  split
  · rfl
  · exact absurd rfl h.1
  · rfl
  · exact absurd rfl h.2
  · rfl

/-- The bits that are read are those of the first bitmap. -/
theorem isPresent_adds {b1 extra : Bytes} (hlen : b1.length = 8) (hextra : Adds extra) {k : Nat}
    (hk : 1 ≤ k) : StandardDialect.isPresent (setBitIn b1 1 ++ extra) k =
      StandardDialect.isPresent b1 k := by
  have hlen' : (setBitIn b1 1).length = 8 := (length_setBitIn b1 1).trans hlen
  rw [StandardDialect.isPresent, StandardDialect.isPresent]
  by_cases hbits : k = 1 ∨ k = 65 ∨ k = 129
  · rcases hbits with rfl | rfl | rfl
    all_goals rfl
  · rcases Nat.lt_or_ge 64 k with hbehind | hfront
    · have hshift : isBitSetIn (setBitIn b1 1 ++ extra) k = isBitSetIn extra (k - 64) := by
        have hfield : (setBitIn b1 1).length * 8 + (k - 64) = k := by omega
        rw [← hfield, isBitSetIn_behind extra (by omega), hfield]
      have hclear : isBitSetIn extra (k - 64) = false := by
        rw [← Bool.not_eq_true]
        intro hset
        have := hextra.clear (k - 64) (by omega) hset
        omega
      rw [hshift, hclear, isBitSetIn_beyond (show b1.length * 8 < k by omega)]
    · have hne : decide (1 = k) = false := decide_eq_false (by omega)
      rw [isBitSetIn_append extra (by omega), isBitSetIn_setBitIn hlen hk hfront, hne, Bool.false_or]

/-- A message keeps its event with bitmaps that hold no field. -/
theorem parse_adds {mti b1 body extra : Bytes} {e : UniversalPaymentEvent} (hlen : b1.length = 8)
    (hmti : mti.length = 4) (hone : isBitSetIn b1 1 = false) (hlast : isBitSetIn b1 64 = false)
    (h : StandardDialect.parse (mti ++ (b1 ++ body)) = .ok e) (hextra : Adds extra) :
    StandardDialect.parse (mti ++ (setBitIn b1 1 ++ (extra ++ body))) = .ok e := by
  have hdecode : IsoDecoder.standard.decode (mti ++ (b1 ++ body)) = .ok e := h
  obtain ⟨m, ⟨rest, heq⟩, he⟩ := IsoDecoder.decode_eq_ok.mp hdecode
  rw [WireMessage.bytes, List.append_assoc, List.append_assoc] at heq
  obtain ⟨rfl, heq'⟩ := List.append_inj heq (m.length_mti.trans hmti.symm)
  obtain ⟨rfl, rfl⟩ := (takes_readBitmap 2).unique m.chunks (Chunks.single hlen hone) heq'
  have hlisted : Listed (IsoDecoder.standard.isRead (setBitIn m.bitmaps 1 ++ extra))
      IsoDecoder.standard.WellFormed IsoDecoder.fieldNumbers m.fields :=
    m.listed.congr fun k hk => (isPresent_adds hlen hextra (List.mem_range'_1.mp hk).1).symm
  have hchunks : Chunks 2 (setBitIn m.bitmaps 1 ++ extra) :=
    hextra.chunks.append ((length_setBitIn _ 1).trans hlen)
      (isBitSetIn_setBitIn hlen (Nat.le_refl 1) (by decide))
  let m' : WireMessage .standard :=
    ⟨m.mti, setBitIn m.bitmaps 1 ++ extra, m.fields, m.length_mti, hchunks, hlisted⟩
  have hassign (f : Nat × Bytes) (hf : f ∈ m.fields) :
      IsoDecoder.standard.assign (setBitIn m.bitmaps 1 ++ extra) f.1 =
        IsoDecoder.standard.assign m.bitmaps f.1 := by
    refine StandardDialect.assign_bitmaps ?_
    have hread := ((m.listed.mem_iff f.1).mp ⟨f.2, hf⟩).2
    have hset := IsoDecoder.isBitSetIn_of_isRead hread
    refine ⟨?_, ?_⟩
    · intro hfield
      rw [hfield, hlast] at hset
      cases hset
    · intro hfield
      rw [hfield, isBitSetIn_beyond (show m.bitmaps.length * 8 < 128 by omega)] at hset
      cases hset
  have he' : m'.event = .ok e := (assignAll_congr hassign _).trans he
  have hbytes : m'.bytes ++ rest =
      m.mti ++ (setBitIn m.bitmaps 1 ++ (extra ++ (payload m.fields ++ rest))) := by
    simp only [WireMessage.bytes, m', List.append_assoc]
  rw [← hbytes]
  exact IsoDecoder.decode_eq_ok.mpr ⟨m', List.prefix_append _ _, he'⟩

/-- Empty bitmaps change nothing, and there is no fourth bitmap. -/
theorem empty_bitmaps_keep_the_event {mti b1 body : Bytes} {e : UniversalPaymentEvent}
    (hmti : mti.length = 4) (hlen : b1.length = 8) (hone : isBitSetIn b1 1 = false)
    (hlast : isBitSetIn b1 64 = false) (h : StandardDialect.parse (mti ++ (b1 ++ body)) = .ok e) :
    StandardDialect.parse (mti ++ (setBitIn b1 1 ++ (emptyBitmap ++ body))) = .ok e ∧
      (∀ third, third = emptyBitmap ∨ third = announcingBitmap →
        StandardDialect.parse
          (mti ++ (setBitIn b1 1 ++ (announcingBitmap ++ (third ++ body)))) = .ok e) ∧
      (∀ raw raw' : Bytes, raw.take 28 = raw'.take 28 →
        StandardDialect.bitmapLoop raw [] 1 4 = StandardDialect.bitmapLoop raw' [] 1 4) ∧
      ∀ (raw : Bytes) (p : Bytes × Nat), StandardDialect.bitmapLoop raw [] 1 4 = .ok p →
        p.1.length ≤ 24 ∧ p.2 = 4 + p.1.length := by
  refine ⟨parse_adds hlen hmti hone hlast h adds_empty, ?_, ?_, ?_⟩
  · intro third hthird
    have hadds : Adds (announcingBitmap ++ third) := by
      rcases hthird with rfl | rfl
      · refine adds_announcing rfl fun k _ hset => ?_
        rw [isBitSetIn_emptyBitmap] at hset
        cases hset
      · refine adds_announcing rfl fun k hk hset => ?_
        have hle : k ≤ 64 := by
          by_contra hgt
          rw [isBitSetIn_beyond (show announcingBitmap.length * 8 < k from Nat.lt_of_not_le hgt)]
            at hset
          cases hset
        rw [announcingBitmap, isBitSetIn_setBitIn rfl hk hle, isBitSetIn_emptyBitmap, Bool.or_false,
          decide_eq_true_eq] at hset
        exact hset.symm
    have hparse := parse_adds hlen hmti hone hlast h hadds
    rwa [List.append_assoc] at hparse
  · intro raw raw' htake
    rw [StandardDialect.bitmapLoop_eq, StandardDialect.bitmapLoop_eq]
    exact readBitmap_take htake (by decide)
  · intro raw p hloop
    rw [StandardDialect.bitmapLoop_eq] at hloop
    exact length_readBitmap hloop

theorem empty_bitmaps_keep_the_card_purchase :
    let mti := asBytes "0100"
    let b1 := bitmapOf [(2, []), (4, []), (11, [])]
    let body := asBytes "164111111111111111000000001000000042"
    StandardDialect.parse (mti ++ (setBitIn b1 1 ++ (emptyBitmap ++ body))) = .ok decodedPurchase ∧
      (∀ third, third = emptyBitmap ∨ third = announcingBitmap →
        StandardDialect.parse (mti ++ (setBitIn b1 1 ++ (announcingBitmap ++ (third ++ body)))) =
          .ok decodedPurchase) ∧
      (∀ raw raw' : Bytes, raw.take 28 = raw'.take 28 →
        StandardDialect.bitmapLoop raw [] 1 4 = StandardDialect.bitmapLoop raw' [] 1 4) ∧
      ∀ (raw : Bytes) (p : Bytes × Nat), StandardDialect.bitmapLoop raw [] 1 4 = .ok p →
        p.1.length ≤ 24 ∧ p.2 = 4 + p.1.length :=
  empty_bitmaps_keep_the_event rfl rfl rfl rfl decode_cardPurchaseFrame

end Iso8583Switch
