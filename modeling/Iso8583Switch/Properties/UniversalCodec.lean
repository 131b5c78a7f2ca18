import Iso8583Switch.Dialect.Responses

/-!
# What the universal codec reads of what it writes

Before each bit the decoder holds what it has read of the event, the fields below that
bit.  So each field is proved on its own, whatever the others are, and `walk_stages`
puts them together.  A text is read as it was written, cut or padded to the width of its
field (`wireText`), and `universalDecode_written` says what becomes of an event.  An
event whose texts have the width of their fields is read back as it was.
-/

namespace Iso8583Switch

open Text FieldWalk

/-! ## The bitmap -/

theorem bitMask_and (k j : Nat) :
    bitMask k &&& bitMask j = if (k - 1) % 8 = (j - 1) % 8 then bitMask j else 0 := by
  have hall : ∀ p q : Fin 8, ((0x80 : UInt8) >>> UInt8.ofNat p) &&& (0x80 >>> UInt8.ofNat q) =
      if p.val = q.val then 0x80 >>> UInt8.ofNat q else 0 := by decide
  exact hall ⟨(k - 1) % 8, Nat.mod_lt _ (by omega)⟩ ⟨(j - 1) % 8, Nat.mod_lt _ (by omega)⟩

theorem or_and_eq_zero {a b c : UInt8} :
    (a ||| b) &&& c = 0 ↔ a &&& c = 0 ∧ b &&& c = 0 := by
  have hdistrib : (a ||| b) &&& c = (a &&& c) ||| (b &&& c) := by
    rw [← UInt8.toBitVec_inj]
    ext i
    simp [Bool.and_or_distrib_right]
  rw [hdistrib, UInt8.or_eq_zero_iff]

theorem bitMask_ne_zero (field : Nat) : bitMask field ≠ 0 := by
  have hall : ∀ k : Fin 8, (0x80 : UInt8) >>> UInt8.ofNat k ≠ 0 := by decide
  exact hall ⟨(field - 1) % 8, Nat.mod_lt _ (by omega)⟩

theorem isBitSet_empty (field : Nat) : isBitSet .empty field = false := by
  rw [isBitSet]
  split
  next h => simp [Bitmap.empty]
  next => rfl

/-- Setting a bit sets that bit and no other. -/
theorem isBitSet_setBit {bitmap : Bitmap} {k j : Nat} (hk : 1 ≤ k ∧ k ≤ 64) (hj : 1 ≤ j ∧ j ≤ 64) :
    isBitSet (setBit bitmap k) j = (decide (k = j) || isBitSet bitmap j) := by
  rw [isBitSet, dif_pos hj, setBit, dif_pos hk, isBitSet, dif_pos hj]
  dsimp only
  rw [Vector.getElem_set]
  split
  next hbyte =>
    simp only [hbyte]
    rw [Bool.eq_iff_iff, bne_iff_ne, ne_eq, or_and_eq_zero, bitMask_and, Bool.or_eq_true, bne_iff_ne,
      decide_eq_true_eq, Decidable.not_and_iff_not_or_not, or_comm]
    have hsame : (k - 1) % 8 = (j - 1) % 8 ↔ k = j := by omega
    simp only [hsame]
    by_cases hkj : k = j
    · simp [hkj, bitMask_ne_zero]
    · simp [hkj]
  next hbyte =>
    have hkj : k ≠ j := by
      rintro rfl
      exact hbyte rfl
    simp [hkj]

/-- The bits of the fields that are written. -/
theorem isBitSet_foldl {fields : Fields} (h : ∀ f ∈ fields, 1 ≤ f.1 ∧ f.1 ≤ 64) {bitmap : Bitmap}
    {j : Nat} (hj : 1 ≤ j ∧ j ≤ 64) :
    isBitSet (fields.foldl (fun bitmap field => setBit bitmap field.1) bitmap) j = true ↔
      isBitSet bitmap j = true ∨ ∃ bytes, (j, bytes) ∈ fields := by
  induction fields generalizing bitmap with
  | nil => simp
  | cons f fields ih =>
      rw [List.foldl_cons, ih fun g hg => h g (List.mem_cons_of_mem _ hg),
        isBitSet_setBit (h f List.mem_cons_self) hj, Bool.or_eq_true, decide_eq_true_eq]
      constructor
      · rintro ((rfl | hold) | ⟨bytes, hmem⟩)
        · exact .inr ⟨f.2, List.mem_cons_self⟩
        · exact .inl hold
        · exact .inr ⟨bytes, List.mem_cons_of_mem _ hmem⟩
      · rintro (hold | ⟨bytes, hmem⟩)
        · exact .inl (.inr hold)
        · rcases List.mem_cons.mp hmem with rfl | hmem
          · exact .inl (.inl rfl)
          · exact .inr ⟨bytes, hmem⟩

theorem ofBytes_toList (bitmap : Bitmap) : Bitmap.ofBytes bitmap.toList = bitmap := by
  rw [Bitmap.ofBytes]
  ext i hi
  simp

/-! ## The readers -/

theorem readFixed_at {data bytes rest : Bytes} {offset : Nat} (h : At data offset (bytes ++ rest)) :
    readFixed data offset bytes.length = .ok (bytes, offset + bytes.length) := by
  obtain ⟨before, rfl, rfl⟩ := h
  have hroom : ¬ (before ++ (bytes ++ rest)).length < before.length + bytes.length := by
    simp only [List.length_append]
    omega
  rw [readFixed, if_neg hroom, List.drop_left, List.take_left]

theorem fromUtf8_asBytes (s : String) : fromUtf8 (asBytes s) = .ok s := by
  rw [fromUtf8, fromUtf8Lossy_asBytes]
  exact if_pos rfl

theorem writeFixed_exact {val : Bytes} {len : Nat} {padChar : UInt8} {padRight : Bool}
    (h : val.length = len) : writeFixed val len padChar padRight = val := by
  rw [writeFixed, if_pos (Nat.le_of_eq h.symm), ← h, List.take_length]

/-- A value with its length before it is read back. -/
theorem readVar_at {data val rest : Bytes} {offset digits cap : Nat} (hdigits : 0 < digits)
    (hcap : cap < 10 ^ digits) (hcap' : cap < 2 ^ 64) (hval : val.length ≤ cap)
    (h : At data offset (writeVar digits cap val ++ rest)) :
    readVar digits data offset = .ok (val, offset + (writeVar digits cap val).length) := by
  have hwrite : writeVar digits cap val = asBytes (zeroPadded digits val.length) ++ val :=
    if_neg (Nat.not_lt.mpr hval)
  rw [hwrite, List.append_assoc] at h
  have hlen : (asBytes (zeroPadded digits val.length)).length = digits := by
    rw [length_asBytes]
    exact len_zeroPadded hdigits (Nat.lt_of_le_of_lt hval hcap)
  have hread := readFixed_at h
  have hbody := readFixed_at h.tail
  rw [hlen] at hread hbody
  have hparse : parseUnsigned (2 ^ 64) (zeroPadded digits val.length) = some val.length :=
    parseUnsigned_zeroPadded (Nat.lt_of_le_of_lt hval hcap')
  rw [readVar, hread, ok_bind]
  dsimp only
  rw [fromUtf8_asBytes, ok_bind, hparse, hwrite, List.length_append, hlen, ← Nat.add_assoc]
  exact hbody

/-- What a message starts with is read, and its fields are behind it. -/
structure Opens (raw mti bitmap rest : Bytes) : Prop where
  long : ¬ raw.length < 12
  readMti : readFixed raw 0 4 = .ok (mti, 4)
  readBitmap : readFixed raw 4 8 = .ok (bitmap, 12)
  rest : At raw 12 rest

theorem opens {mti bitmap : Bytes} (hmti : mti.length = 4) (hbitmap : bitmap.length = 8)
    (rest : Bytes) : Opens (mti ++ (bitmap ++ rest)) mti bitmap rest := by
  have hstart : At (mti ++ (bitmap ++ rest)) 0 (mti ++ (bitmap ++ rest)) := ⟨[], rfl, rfl⟩
  have hheader := readFixed_at hstart
  have hsecond := readFixed_at hstart.tail
  have hrest := hstart.tail.tail
  rw [hmti] at hheader hsecond hrest
  rw [hbitmap] at hsecond hrest
  refine ⟨?_, hheader, hsecond, hrest⟩
  simp only [List.length_append, hmti, hbitmap]
  omega

/-! ## What is read of an event -/

/-- The text that is read where a text was written. -/
def wireText (text : String) (width : Nat) (padChar : UInt8) (padRight : Bool) : String :=
  if text = "" then "" else fromUtf8Lossy (writeFixed (asBytes text) width padChar padRight)

theorem length_writeFixed (val : Bytes) (width : Nat) (padChar : UInt8) (padRight : Bool) :
    (writeFixed val width padChar padRight).length = width := by
  rw [writeFixed]
  split
  next hle =>
    rw [List.length_take]
    omega
  next hlt =>
    dsimp only
    split
    · rw [List.length_append, List.length_replicate]
      omega
    · rw [List.length_append, List.length_replicate]
      omega

theorem wireText_exact {text : String} {width : Nat} {padChar : UInt8} {padRight : Bool}
    (h : text = "" ∨ len text = width) : wireText text width padChar padRight = text := by
  rw [wireText]
  split
  next hnil => exact hnil.symm
  next hne =>
    have hexact : writeFixed (asBytes text) width padChar padRight = asBytes text :=
      writeFixed_exact (h.resolve_left hne)
    rw [hexact, fromUtf8Lossy_asBytes]

/-- The event with the fields whose number is below a bound. -/
def UniversalPaymentEvent.below (e : UniversalPaymentEvent) (bound : Nat) : UniversalPaymentEvent :=
  { blankEvent e.mti with
    fpan := if 2 < bound then e.fpan else []
    processingCode := if 3 < bound then e.processingCode else ""
    amount := if 4 < bound then e.amount else 0
    stan := if 11 < bound then e.stan else ""
    localTime := if 12 < bound then e.localTime else ""
    localDate := if 13 < bound then e.localDate else ""
    isTokenized := if 22 < bound then e.isTokenized else false
    acquirerId := if 32 < bound then e.acquirerId else []
    rrn := if 37 < bound then e.rrn else ""
    responseCode := if 39 < bound then e.responseCode else ""
    tavvCryptogram := if 48 < bound then e.tavvCryptogram else none
    pinBlock := if 52 < bound then e.pinBlock else [] }

namespace UniversalPaymentEvent

variable (e : UniversalPaymentEvent)

/-- What is read of an event before field 48. -/
def wireImage : UniversalPaymentEvent :=
  { blankEvent e.mti with
    fpan := e.fpan
    processingCode := wireText e.processingCode 6 48 false
    amount := e.amount
    stan := wireText e.stan 6 48 false
    localTime := wireText e.localTime 6 48 false
    localDate := wireText e.localDate 4 48 false
    isTokenized := e.isTokenized
    acquirerId := e.acquirerId
    rrn := wireText e.rrn 12 32 true
    responseCode := wireText e.responseCode 2 32 false }

/-- The cryptogram that field 48 is written for. -/
def sentCryptogram : Option String := if e.isTokenized then e.tavvCryptogram else none

def cryptogramFields : Fields :=
  match e.sentCryptogram with
  | some cryptogram => [(48, writeLllvar (asBytes cryptogram))]
  | none => []

/-- Field 48 is read if it was written. -/
def takeCryptogram (tx : UniversalPaymentEvent) : Except DecodeFailure UniversalPaymentEvent :=
  match e.sentCryptogram with
  | some cryptogram => additionalData cryptogram tx
  | none => .ok tx

end UniversalPaymentEvent

/-- The lengths that a message can carry.  The texts may have any. -/
structure Sendable (e : UniversalPaymentEvent) : Prop where
  mti : e.mti.length = 4
  fpan : e.fpan.length ≤ 99
  amount : e.amount.toNat < 10 ^ 12
  acquirerId : e.acquirerId.length ≤ 99
  pinBlock : e.pinBlock = [] ∨ e.pinBlock.length = 16

/-! ## One field -/

section
variable {e : UniversalPaymentEvent} {raw rest : Bytes} {offset : Nat}

theorem readText_written {text : String} {width : Nat} {padChar : UInt8} {padRight : Bool}
    (hne : text ≠ "")
    (hat : At raw offset (writeFixed (asBytes text) width padChar padRight ++ rest)) :
    readText raw offset width = .ok (wireText text width padChar padRight,
      offset + (writeFixed (asBytes text) width padChar padRight).length) := by
  have hread := readFixed_at hat
  rw [length_writeFixed] at hread ⊢
  rw [readText, hread, ok_bind, wireText, if_neg hne]

theorem readLlvar_written {val : Bytes} (hval : val.length ≤ 99)
    (hat : At raw offset (writeLlvar val ++ rest)) :
    readLlvar raw offset = .ok (val, offset + (writeLlvar val).length) :=
  readVar_at (by decide) (by decide) (by decide) hval hat

theorem readLllvar_written {val : Bytes} (hval : val.length ≤ 999)
    (hat : At raw offset (writeLllvar val ++ rest)) :
    readLllvar raw offset = .ok (val, offset + (writeLllvar val).length) :=
  readVar_at (by decide) (by decide) (by decide) hval hat

/-- The decoder reads a written field and holds what it has read of it, too. -/
theorem readField_written (h : Sendable e) {field : WrittenField}
    (hfield : field ∈ panField e :: sharedFields e) (hpresent : field.present = true)
    (hat : At raw offset (field.bytes ++ rest)) :
    readField raw field.number (e.wireImage.below field.number) offset =
      .ok (e.wireImage.below (field.number + 1), offset + field.bytes.length) := by
  simp only [sharedFields, List.mem_cons, List.not_mem_nil, or_false] at hfield
  rcases hfield with rfl | rfl | rfl | rfl | rfl | rfl | rfl | rfl | rfl | rfl
  · dsimp only [panField] at hat ⊢
    rw [readField, readLlvar_written h.fpan hat]
    rfl
  · rw [readField, readText_written (of_decide_eq_true hpresent) hat]
    rfl
  · have hlen : len (zeroPadded 12 e.amount.toNat) = 12 := len_zeroPadded (by decide) h.amount
    have hne := zeroPadded_ne_empty (by decide) h.amount
    rw [readField, readText_written hne hat, wireText_exact (.inr hlen), ok_bind]
    dsimp only
    rw [parseUnsigned_zeroPadded e.amount.toNat_lt, Option.getD_some, UInt64.ofNat_toNat]
    rfl
  · rw [readField, readText_written (of_decide_eq_true hpresent) hat]
    rfl
  · rw [readField, readText_written (of_decide_eq_true hpresent) hat]
    rfl
  · rw [readField, readText_written (of_decide_eq_true hpresent) hat]
    rfl
  · have htokenized : e.wireImage.isTokenized = true := hpresent
    have hlen : len "071" = 3 := rfl
    have hentry : At raw offset (writeFixed (asBytes "071") 3 48 false ++ rest) := hat
    rw [readField, readText_written (by decide) hentry, wireText_exact (.inr hlen), ok_bind]
    dsimp only
    rw [UniversalPaymentEvent.below, UniversalPaymentEvent.below, htokenized]
    rfl
  · rw [readField, readLlvar_written h.acquirerId hat]
    rfl
  · rw [readField, readText_written (of_decide_eq_true hpresent) hat]
    rfl
  · rw [readField, readText_written (of_decide_eq_true hpresent) hat]
    rfl

theorem ite_succ {α : Type} {i k : Nat} {x y : α} (h : i = k → x = y) :
    (if i < k + 1 then x else y) = if i < k then x else y := by
  rcases Nat.lt_trichotomy i k with hlt | heq | hgt
  · rw [if_pos hlt, if_pos (Nat.lt_succ_of_lt hlt)]
  · rw [if_pos (by omega), if_neg (by omega)]
    exact h heq
  · rw [if_neg (by omega), if_neg (by omega)]

/-- A field that is not written is at its default. -/
theorem below_succ (e : UniversalPaymentEvent) {k : Nat} (hk : k < 48)
    (h : ∀ field ∈ panField e :: sharedFields e, field.number = k → field.present = false) :
    e.wireImage.below (k + 1) = e.wireImage.below k := by
  simp only [sharedFields, List.forall_mem_cons] at h
  obtain ⟨h2, h3, h4, h11, h12, h13, h22, h32, h37, h39, -⟩ := h
  have htext {text : String} {width : Nat} {padChar : UInt8} {padRight : Bool}
      (hclear : decide (text ≠ "") = false) : wireText text width padChar padRight = "" :=
    if_pos (by simpa using hclear)
  have hfpan (hk2 : 2 = k) : e.wireImage.fpan = [] := by
    have hclear : (!e.fpan.isEmpty) = false := h2 hk2
    show e.fpan = []
    simpa using hclear
  have hprocessingCode (hk3 : 3 = k) : e.wireImage.processingCode = "" := htext (h3 hk3)
  have hamount (hk4 : 4 = k) : e.wireImage.amount = 0 := by
    have hzero := h4 hk4
    rw [Bool.or_eq_false_iff, decide_eq_false_iff_not] at hzero
    show e.amount = 0
    simpa using hzero.1
  have hstan (hk11 : 11 = k) : e.wireImage.stan = "" := htext (h11 hk11)
  have hlocalTime (hk12 : 12 = k) : e.wireImage.localTime = "" := htext (h12 hk12)
  have hlocalDate (hk13 : 13 = k) : e.wireImage.localDate = "" := htext (h13 hk13)
  have hacquirerId (hk32 : 32 = k) : e.wireImage.acquirerId = [] := by
    have hclear := h32 hk32
    show e.acquirerId = []
    simpa using hclear
  have hrrn (hk37 : 37 = k) : e.wireImage.rrn = "" := htext (h37 hk37)
  have hresponseCode (hk39 : 39 = k) : e.wireImage.responseCode = "" := htext (h39 hk39)
  have htokenized (hk22 : 22 = k) : e.wireImage.isTokenized = false := h22 hk22
  rw [UniversalPaymentEvent.below, UniversalPaymentEvent.below, ite_succ hfpan,
    ite_succ hprocessingCode, ite_succ hamount, ite_succ hstan, ite_succ hlocalTime,
    ite_succ hlocalDate, ite_succ htokenized, ite_succ hacquirerId, ite_succ hrrn,
    ite_succ hresponseCode, ite_succ (i := 48) (by omega), ite_succ (i := 52) (by omega)]

end

/-! ## The fields of a message -/

section
variable {e : UniversalPaymentEvent}

theorem presentFields_range : ∀ f ∈ presentFields e, 1 ≤ f.1 ∧ f.1 ≤ 64 :=
  forall_presentOf (P := fun k => 1 ≤ k ∧ k ≤ 64) (by simp [writtenFields])

theorem presentFields_eq (e : UniversalPaymentEvent) : presentFields e =
    presentOf (panField e :: sharedFields e) ++ (e.cryptogramFields ++ presentOf [pinField e]) := by
  have hfields : presentFields e = presentOf ((panField e :: sharedFields e) ++
      ([⟨48, e.isTokenized && e.tavvCryptogram.isSome,
        writeLllvar (asBytes (e.tavvCryptogram.getD ""))⟩] ++ [pinField e])) := rfl
  rw [hfields, presentOf_append, presentOf_append, UniversalPaymentEvent.cryptogramFields,
    UniversalPaymentEvent.sentCryptogram]
  cases e.isTokenized with
  | false => rfl
  | true => cases e.tavvCryptogram <;> rfl

theorem isBitSet_encodedBitmap {k : Nat} (hk : 1 ≤ k ∧ k ≤ 64) :
    isBitSet (encodedBitmap e) k = true ↔ ∃ bytes, (k, bytes) ∈ presentFields e := by
  rw [encodedBitmap, isBitSet_foldl presentFields_range hk, isBitSet_empty]
  simp

theorem front_range : ∀ f ∈ presentOf (panField e :: sharedFields e), 1 ≤ f.1 ∧ f.1 < 48 :=
  forall_presentOf (P := fun k => 1 ≤ k ∧ k < 48) (by simp [sharedFields, panField])

theorem cryptogram_range : ∀ f ∈ e.cryptogramFields, f.1 = 48 := by
  intro f hf
  rw [UniversalPaymentEvent.cryptogramFields] at hf
  split at hf
  next => rw [List.mem_singleton.mp hf]
  next => cases hf

theorem pin_range : ∀ f ∈ presentOf [pinField e], f.1 = 52 :=
  forall_presentOf (P := fun k => k = 52) (by simp [pinField])

theorem isBitSet_front {k : Nat} (hk : 1 ≤ k ∧ k < 48) : isBitSet (encodedBitmap e) k = true ↔
    ∃ bytes, (k, bytes) ∈ presentOf (panField e :: sharedFields e) := by
  rw [isBitSet_encodedBitmap (by omega), presentFields_eq]
  simp only [List.mem_append]
  constructor
  · rintro ⟨bytes, hfront | hcryptogram | hpin⟩
    · exact ⟨bytes, hfront⟩
    · have h48 : k = 48 := cryptogram_range _ hcryptogram
      omega
    · have h52 : k = 52 := pin_range _ hpin
      omega
  · rintro ⟨bytes, hfront⟩
    exact ⟨bytes, .inl hfront⟩

theorem isBitSet_cryptogram :
    isBitSet (encodedBitmap e) 48 = true ↔ ∃ bytes, (48, bytes) ∈ e.cryptogramFields := by
  rw [isBitSet_encodedBitmap (by omega), presentFields_eq]
  simp only [List.mem_append]
  constructor
  · rintro ⟨bytes, hfront | hcryptogram | hpin⟩
    · exact absurd (front_range _ hfront).2 (Nat.lt_irrefl _)
    · exact ⟨bytes, hcryptogram⟩
    · cases pin_range _ hpin
  · rintro ⟨bytes, hcryptogram⟩
    exact ⟨bytes, .inr (.inl hcryptogram)⟩

theorem isBitSet_pin {k : Nat} (hk : 48 < k ∧ k ≤ 64) : isBitSet (encodedBitmap e) k = true ↔
    ∃ bytes, (k, bytes) ∈ presentOf [pinField e] := by
  rw [isBitSet_encodedBitmap (by omega), presentFields_eq]
  simp only [List.mem_append]
  constructor
  · rintro ⟨bytes, hfront | hcryptogram | hpin⟩
    · have hlt : k < 48 := (front_range _ hfront).2
      omega
    · have h48 : k = 48 := cryptogram_range _ hcryptogram
      omega
    · exact ⟨bytes, hpin⟩
  · rintro ⟨bytes, hpin⟩
    exact ⟨bytes, .inr (.inr hpin)⟩

end

/-! ## The whole message -/

section
variable {e : UniversalPaymentEvent} {raw : Bytes}

theorem walk_front (h : Sendable e) {offset : Nat} {rest : Bytes}
    (hat : At raw offset (payload (presentOf (panField e :: sharedFields e)) ++ rest)) :
    walk (isBitSet (encodedBitmap e)) (readField raw) (List.range' 1 47) (blankEvent e.mti) offset =
      .ok (e.wireImage, offset + (payload (presentOf (panField e :: sharedFields e))).length) := by
  have hin (k : Nat) (hk : k ∈ List.range' 1 47) : 1 ≤ k ∧ k < 48 := List.mem_range'_1.mp hk
  have hwalk : walk (isBitSet (encodedBitmap e)) (readField raw) (List.range' 1 47)
      (e.wireImage.below 1) offset = .ok (e.wireImage.below 48,
        offset + (payload (presentOf (panField e :: sharedFields e))).length) := by
    refine walk_stages_append (fun k bytes hmem offset rest hat => ?_) (fun k hk hclear => ?_)
      (fun k hk => isBitSet_front (hin k hk)) (presentOf_sorted (by simp [sharedFields, panField]))
      front_range hat
    · obtain ⟨field, hfield, hpresent, rfl, rfl⟩ := mem_presentOf.mp hmem
      exact readField_written h hfield hpresent hat
    · exact below_succ e (hin k hk).2 fun field hfield hnumber =>
        absent_of_clear (isBitSet_front (hin k hk)) (fun _ hf => hf) hclear hfield hnumber
  exact hwalk

/-- The PIN block is the last field. -/
theorem walk_pin (h : Sendable e) {tx : UniversalPaymentEvent} (htx : tx.pinBlock = []) {offset : Nat}
    (hat : At raw offset (payload (presentOf [pinField e]))) :
    walk (isBitSet (encodedBitmap e)) (readField raw) (List.range' 49 16) tx offset =
      .ok ({ tx with pinBlock := e.pinBlock },
        offset + (payload (presentOf [pinField e])).length) := by
  have hin (k : Nat) (hk : k ∈ List.range' 49 16) : 48 < k ∧ k ≤ 64 := by
    have hrange := List.mem_range'_1.mp hk
    omega
  let stage (k : Nat) := if 52 < k then { tx with pinBlock := e.pinBlock } else tx
  have hwalk : walk (isBitSet (encodedBitmap e)) (readField raw) (List.range' 49 16) (stage 49)
      offset = .ok (stage 65, offset + (payload (presentOf [pinField e])).length) := by
    refine walk_stages (fun k bytes hmem offset rest hat => ?_) (fun k hk hclear => ?_)
      (fun k hk => isBitSet_pin (hin k hk)) (presentOf_sorted (List.pairwise_singleton _ _))
      (fun f hf => ?_) hat
    · obtain ⟨field, hfield, hpresent, rfl, rfl⟩ := mem_presentOf.mp hmem
      cases List.mem_singleton.mp hfield
      have hlen : e.pinBlock.length = 16 :=
        h.pinBlock.resolve_left (by simpa [pinField] using hpresent)
      have hexact : writeFixed e.pinBlock 16 48 false = e.pinBlock := writeFixed_exact hlen
      dsimp only [pinField] at hat ⊢
      rw [hexact] at hat ⊢
      have hread := readFixed_at hat
      rw [hlen] at hread
      rw [readField, hread, hlen]
      rfl
    · refine ite_succ fun hk52 => ?_
      have habsent := absent_of_clear (isBitSet_pin (hin k hk)) (fun _ hf => hf) hclear
        List.mem_cons_self hk52
      have hnil : e.pinBlock = [] := by simpa [pinField] using habsent
      rw [hnil, ← htx]
    · have h52 := pin_range f hf
      omega
  exact hwalk

/-- Up to field 48 every message is read. -/
theorem universalDecode_front (h : Sendable e) (hraw : universalEncode e = .ok raw) :
    ∃ offset, At raw offset (payload (e.cryptogramFields ++ presentOf [pinField e])) ∧
      universalDecode raw = (do
        let (tx, _) ← walk (isBitSet (encodedBitmap e)) (readField raw) (List.range' 48 17)
          e.wireImage offset
        .ok tx) := by
  have hmti : (if 4 ≤ e.mti.length then e.mti.take 4 else asBytes "0110") = e.mti := by
    rw [if_pos (Nat.le_of_eq h.mti.symm), ← h.mti, List.take_length]
  rw [universalEncode, hmti] at hraw
  cases hraw
  have hlength : (encodedBitmap e).toList.length = 8 := Vector.length_toList
  have hopens := opens h.mti hlength (payload (presentFields e))
  generalize e.mti ++ ((encodedBitmap e).toList ++ payload (presentFields e)) = raw at hopens ⊢
  have hrest := hopens.rest
  rw [presentFields_eq, payload, List.flatMap_append] at hrest
  refine ⟨_, hrest.tail, ?_⟩
  have hbits : List.range' 1 64 = List.range' 1 47 ++ List.range' 48 17 := rfl
  rw [universalDecode, if_neg hopens.long, hopens.readMti, ok_bind]
  dsimp only
  rw [hopens.readBitmap, ok_bind]
  dsimp only
  rw [ofBytes_toList, hbits, walk_append, walk_front h hrest]
  rfl

/-- What becomes of an event whose cryptogram, if it has one, is short enough. -/
theorem universalDecode_written (h : Sendable e)
    (hcryptogram : ∀ cryptogram, e.sentCryptogram = some cryptogram → len cryptogram ≤ 999)
    (hraw : universalEncode e = .ok raw) :
    universalDecode raw = (do
      let tx ← e.takeCryptogram e.wireImage
      .ok { tx with pinBlock := e.pinBlock }) := by
  obtain ⟨offset, hat, hdecode⟩ := universalDecode_front h hraw
  have hbits : List.range' 48 17 = 48 :: List.range' 49 16 := rfl
  have hset := isBitSet_cryptogram (e := e)
  rw [hdecode, hbits, walk, UniversalPaymentEvent.takeCryptogram]
  rw [payload, List.flatMap_append] at hat
  rw [UniversalPaymentEvent.cryptogramFields] at hat hset
  cases hsent : e.sentCryptogram with
  | none =>
      rw [hsent] at hat hset
      rw [if_neg (by simpa using hset), walk_pin h rfl hat]
      rfl
  | some cryptogram =>
      rw [hsent] at hat hset
      have hlen : (asBytes cryptogram).length ≤ 999 := hcryptogram cryptogram hsent
      rw [if_pos (by simpa using hset), readField, readLllvar_written hlen (by simpa using hat), ok_bind]
      dsimp only
      rw [fromUtf8Lossy_asBytes]
      cases hdata : additionalData cryptogram e.wireImage with
      | error failure => rfl
      | ok tx =>
          obtain ⟨riskScore, tavvCryptogram, rfl⟩ := additionalData_ok hdata
          have hpin : At raw (offset + (writeLllvar (asBytes cryptogram)).length)
              (payload (presentOf [pinField e])) := by
            have hend := hat.tail
            simpa [payload] using hend
          rw [ok_bind]
          dsimp only
          rw [walk_pin h rfl hpin]
          rfl

end

/-! ## The events of the format -/

/-- An event that the wire format can carry. -/
structure Representable (e : UniversalPaymentEvent) : Prop where
  mti : e.mti.length = 4
  messageClass : e.messageClass = decodedClass e.mti
  isReversal : e.isReversal = decodedReversal e.mti
  fpan : e.fpan.length ≤ 99
  processingCode : e.processingCode = "" ∨ len e.processingCode = 6
  amount : e.amount.toNat < 10 ^ 12
  stan : e.stan = "" ∨ len e.stan = 6
  localTime : e.localTime = "" ∨ len e.localTime = 6
  localDate : e.localDate = "" ∨ len e.localDate = 4
  acquirerId : e.acquirerId.length ≤ 99
  rrn : e.rrn = "" ∨ len e.rrn = 12
  responseCode : e.responseCode = "" ∨ len e.responseCode = 2
  tavvCryptogram : ∀ cryptogram, e.tavvCryptogram = some cryptogram → e.isTokenized = true ∧
    len cryptogram ≤ 999 ∧ ¬ ((asBytes "RSK:").isPrefixOf (asBytes cryptogram) ∧ 8 ≤ len cryptogram)
  pinBlock : e.pinBlock = [] ∨ e.pinBlock.length = 16
  transactionType : e.transactionType = .purchase
  dpan : e.dpan = none
  riskScore : e.riskScore = 0
  requiresInstantClearing : e.requiresInstantClearing = false
  domesticSettlementData : e.domesticSettlementData = none
  sourceAccount : e.sourceAccount = none
  destinationAccount : e.destinationAccount = none
  originalDataElements : e.originalDataElements = none
  macData : e.macData = none

theorem Representable.wireImage_eq {e : UniversalPaymentEvent} (h : Representable e) :
    { e.wireImage with tavvCryptogram := e.tavvCryptogram, pinBlock := e.pinBlock } = e := by
  obtain ⟨-, hclass, hreversal, -, hprocessingCode, -, hstan, hlocalTime, hlocalDate, -, hrrn,
    hresponseCode, -, -, htype, hdpan, hrisk, hclearing, hsettlement, hsource, hdestination,
    horiginal, hmac⟩ := h
  rw [UniversalPaymentEvent.wireImage, wireText_exact hprocessingCode, wireText_exact hstan,
    wireText_exact hlocalTime, wireText_exact hlocalDate, wireText_exact hrrn,
    wireText_exact hresponseCode]
  rcases e
  dsimp only at *
  subst htype hdpan hrisk hclearing hsettlement hsource hdestination horiginal hmac hclass hreversal
  rfl

/-- The decoder gives back the event that the encoder was given. -/
theorem universal_round_trip (e : UniversalPaymentEvent) (h : Representable e) :
    ∃ raw, universalEncode e = .ok raw ∧ universalDecode raw = .ok e := by
  obtain ⟨raw, hraw⟩ : ∃ raw, universalEncode e = .ok raw := ⟨_, rfl⟩
  refine ⟨raw, hraw, ?_⟩
  have hsendable : Sendable e := ⟨h.mti, h.fpan, h.amount, h.acquirerId, h.pinBlock⟩
  have hsent (cryptogram : String) (heq : e.sentCryptogram = some cryptogram) :
      e.tavvCryptogram = some cryptogram := by
    rw [UniversalPaymentEvent.sentCryptogram] at heq
    split at heq
    · exact heq
    · cases heq
  rw [universalDecode_written hsendable (fun cryptogram heq =>
    (h.tavvCryptogram cryptogram (hsent cryptogram heq)).2.1) hraw]
  have hall := h.wireImage_eq
  cases hcryptogram : e.tavvCryptogram with
  | none =>
      rw [hcryptogram] at hall
      have hnone : e.sentCryptogram = none := by
        rw [UniversalPaymentEvent.sentCryptogram, hcryptogram, ite_self]
      rw [UniversalPaymentEvent.takeCryptogram, hnone]
      exact congrArg Except.ok hall
  | some cryptogram =>
      obtain ⟨htokenized, -, hrisk⟩ := h.tavvCryptogram cryptogram hcryptogram
      rw [hcryptogram] at hall
      have hsome : e.sentCryptogram = some cryptogram := by
        rw [UniversalPaymentEvent.sentCryptogram, if_pos htokenized, hcryptogram]
      have htokenized' : e.wireImage.isTokenized = true := htokenized
      rw [UniversalPaymentEvent.takeCryptogram, hsome]
      dsimp only
      rw [additionalData, if_neg hrisk, if_pos htokenized']
      exact congrArg Except.ok hall

/-- A purchase of nothing, with every field but the PIN block and a cryptogram that
looks like the start of a risk score. -/
def tokenizedSample : UniversalPaymentEvent :=
  { blankEvent (asBytes "0200") with
    fpan := asBytes "4000123412341234"
    processingCode := "000000"
    stan := "000001"
    localTime := "120000"
    localDate := "1231"
    isTokenized := true
    acquirerId := asBytes "ACQ1"
    rrn := "RRN000000001"
    responseCode := "00"
    tavvCryptogram := some "RSK:" }

theorem tokenizedSample_representable : Representable tokenizedSample where
  mti := by decide
  messageClass := rfl
  isReversal := rfl
  fpan := by decide
  processingCode := by decide
  amount := by decide
  stan := by decide
  localTime := by decide
  localDate := by decide
  acquirerId := by decide
  rrn := by decide
  responseCode := by decide
  tavvCryptogram := by
    intro cryptogram hcryptogram
    cases hcryptogram
    decide
  pinBlock := by decide
  transactionType := rfl
  dpan := rfl
  riskScore := rfl
  requiresInstantClearing := rfl
  domesticSettlementData := rfl
  sourceAccount := rfl
  destinationAccount := rfl
  originalDataElements := rfl
  macData := rfl

theorem universal_round_trip_tokenized : ∃ raw, universalEncode tokenizedSample = .ok raw ∧
    universalDecode raw = .ok tokenizedSample :=
  universal_round_trip tokenizedSample tokenizedSample_representable

end Iso8583Switch
