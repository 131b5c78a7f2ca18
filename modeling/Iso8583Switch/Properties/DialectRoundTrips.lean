import Iso8583Switch.Library.LossyText
import Iso8583Switch.Properties.CodecAgreement

/-!
# The regional dialects read back what they write

As with the universal codec, a parser holds before each bit the event with the fields
below that bit, and `walk_stages` puts the fields together.  The nine fields that all
dialects write alike, and the PIN block, are proved once for both parsers.

The UK FPS dialect gets the PAN back from field 102.  Its walk is over both bitmaps,
and bit 1 stands in it as a field without bytes.
-/

namespace Iso8583Switch

open Text FieldWalk

/-! ## The events of the formats -/

/-- What both formats ask of an event. -/
structure DialectRepresentable (e : UniversalPaymentEvent) : Prop where
  mti : e.mti.length = 4
  messageClass : e.messageClass = classOfMti (fromUtf8Lossy e.mti)
  isReversal : e.isReversal = false
  processingCode : e.processingCode = "" ∨ len e.processingCode = 6
  amount : e.amount.toNat < 10 ^ 12
  stan : e.stan = "" ∨ len e.stan = 6
  localTime : e.localTime = "" ∨ len e.localTime = 6
  localDate : e.localDate = "" ∨ len e.localDate = 4
  acquirerId : e.acquirerId.length ≤ 99
  rrn : e.rrn = "" ∨ len e.rrn = 12
  responseCode : e.responseCode = "" ∨ len e.responseCode = 2
  pinBlock : e.pinBlock = [] ∨ e.pinBlock.length = 16
  transactionType : e.transactionType = .purchase
  dpan : e.dpan = none
  riskScore : e.riskScore = 0
  originalDataElements : e.originalDataElements = none
  macData : e.macData = none

structure InteracRepresentable (e : UniversalPaymentEvent) : Prop extends DialectRepresentable e where
  requiresInstantClearing : e.requiresInstantClearing = decide (e.mti = asBytes "0200")
  fpan : e.fpan.length ≤ 99
  tavvCryptogram : ∀ cryptogram, e.tavvCryptogram = some cryptogram → len cryptogram ≤ 999
  domesticSettlementData : ∀ data, e.domesticSettlementData = some data → len data ≤ 999
  sourceAccount : e.sourceAccount = none
  destinationAccount : e.destinationAccount = none

structure UkFpsRepresentable (e : UniversalPaymentEvent) : Prop extends DialectRepresentable e where
  requiresInstantClearing : e.requiresInstantClearing = false
  /-- Field 2 is not sent. -/
  fpan : e.fpan = match e.sourceAccount with
    | some account => asBytes ("UKFPS-" ++ account)
    | none => []
  sourceAccount : ∀ account, e.sourceAccount = some account → len account ≤ 99
  destinationAccount : ∀ account, e.destinationAccount = some account → len account ≤ 99
  tavvCryptogram : e.tavvCryptogram = none
  domesticSettlementData : e.domesticSettlementData = none

namespace UniversalPaymentEvent

/-- The event with the fields whose number is below a bound.  The PAN counts as the
field that it comes from. -/
def upTo (e : UniversalPaymentEvent) (panAt bound : Nat) : UniversalPaymentEvent :=
  { e with
    fpan := if panAt < bound then e.fpan else []
    processingCode := if 3 < bound then e.processingCode else ""
    amount := if 4 < bound then e.amount else 0
    stan := if 11 < bound then e.stan else ""
    localTime := if 12 < bound then e.localTime else ""
    localDate := if 13 < bound then e.localDate else ""
    isTokenized := if 22 < bound then e.isTokenized else false
    acquirerId := if 32 < bound then e.acquirerId else []
    rrn := if 37 < bound then e.rrn else ""
    responseCode := if 39 < bound then e.responseCode else ""
    tavvCryptogram := if 48 < bound then e.tavvCryptogram else none
    pinBlock := if 52 < bound then e.pinBlock else []
    domesticSettlementData := if 63 < bound then e.domesticSettlementData else none
    sourceAccount := if 102 < bound then e.sourceAccount else none
    destinationAccount := if 103 < bound then e.destinationAccount else none }

/-- The field of a number is at its default. -/
structure DefaultAt (e : UniversalPaymentEvent) (panAt k : Nat) : Prop where
  fpan : panAt = k → e.fpan = []
  processingCode : 3 = k → e.processingCode = ""
  amount : 4 = k → e.amount = 0
  stan : 11 = k → e.stan = ""
  localTime : 12 = k → e.localTime = ""
  localDate : 13 = k → e.localDate = ""
  isTokenized : 22 = k → e.isTokenized = false
  acquirerId : 32 = k → e.acquirerId = []
  rrn : 37 = k → e.rrn = ""
  responseCode : 39 = k → e.responseCode = ""
  tavvCryptogram : 48 = k → e.tavvCryptogram = none
  pinBlock : 52 = k → e.pinBlock = []
  domesticSettlementData : 63 = k → e.domesticSettlementData = none
  sourceAccount : 102 = k → e.sourceAccount = none
  destinationAccount : 103 = k → e.destinationAccount = none

/-- An event with a shared field of another. -/
def copyShared (e : UniversalPaymentEvent) (field : Nat) (tx : UniversalPaymentEvent) :
    UniversalPaymentEvent :=
  match field with
  | 3 => { tx with processingCode := e.processingCode }
  | 4 => { tx with amount := e.amount }
  | 11 => { tx with stan := e.stan }
  | 12 => { tx with localTime := e.localTime }
  | 13 => { tx with localDate := e.localDate }
  | 22 => { tx with isTokenized := e.isTokenized }
  | 32 => { tx with acquirerId := e.acquirerId }
  | 37 => { tx with rrn := e.rrn }
  | 39 => { tx with responseCode := e.responseCode }
  | 52 => { tx with pinBlock := e.pinBlock }
  | _ => tx

end UniversalPaymentEvent

/-! ## One field -/

section
variable {e : UniversalPaymentEvent} {raw rest : Bytes} {offset : Nat}

theorem readFixed_written {val : Bytes} {n : Nat} {padChar : UInt8} {padRight : Bool}
    (hval : val.length = n) (hat : At raw offset (writeFixed val n padChar padRight ++ rest)) :
    readFixed raw offset n = .ok (val, offset + (writeFixed val n padChar padRight).length) := by
  have hexact : writeFixed val n padChar padRight = val := writeFixed_exact hval
  rw [hexact] at hat ⊢
  rw [← hval]
  exact readFixed_at hat

/-- A text in a field of its own width. -/
theorem takeField_text {s : String} {n field : Nat} {padChar : UInt8} {padRight : Bool}
    (hs : s = "" ∨ len s = n) (hne : s ≠ "")
    (hat : At raw offset (writeFixed (asBytes s) n padChar padRight ++ rest))
    (tx : UniversalPaymentEvent) :
    takeField raw (.fixed n) field tx offset = .ok (assignField field (asBytes s) tx,
      offset + (writeFixed (asBytes s) n padChar padRight).length) := by
  have hread := readFixed_written (hs.resolve_left hne) hat
  rw [takeField, FieldType.read, hread]
  rfl

/-- Every parser that takes a shared field by its type gets what was written. -/
theorem takeField_shared (h : DialectRepresentable e) {field : WrittenField}
    (hfield : field ∈ sharedFields e ++ [pinField e]) (hpresent : field.present = true)
    (hat : At raw offset (field.bytes ++ rest)) (tx : UniversalPaymentEvent) :
    ∃ ftype, iso1987Dictionary field.number = some ftype ∧
      takeField raw ftype field.number tx offset =
        .ok (e.copyShared field.number tx, offset + field.bytes.length) := by
  simp only [sharedFields, pinField, List.cons_append, List.nil_append, List.mem_cons,
    List.not_mem_nil, or_false] at hfield
  rcases hfield with rfl | rfl | rfl | rfl | rfl | rfl | rfl | rfl | rfl | rfl
  · refine ⟨_, rfl, ?_⟩
    rw [takeField_text h.processingCode (of_decide_eq_true hpresent) hat, assignField,
      fromUtf8Lossy_asBytes]
    rfl
  · have hlen : len (zeroPadded 12 e.amount.toNat) = 12 := len_zeroPadded (by decide) h.amount
    have hne := zeroPadded_ne_empty (by decide) h.amount
    refine ⟨_, rfl, ?_⟩
    rw [takeField_text (.inr hlen) hne hat, assignField, fromUtf8Lossy_asBytes]
    dsimp only
    rw [parseUnsigned_zeroPadded e.amount.toNat_lt, Option.getD_some, UInt64.ofNat_toNat]
    rfl
  · refine ⟨_, rfl, ?_⟩
    rw [takeField_text h.stan (of_decide_eq_true hpresent) hat, assignField, fromUtf8Lossy_asBytes]
    rfl
  · refine ⟨_, rfl, ?_⟩
    rw [takeField_text h.localTime (of_decide_eq_true hpresent) hat, assignField,
      fromUtf8Lossy_asBytes]
    rfl
  · refine ⟨_, rfl, ?_⟩
    rw [takeField_text h.localDate (of_decide_eq_true hpresent) hat, assignField,
      fromUtf8Lossy_asBytes]
    rfl
  · have htokenized : e.isTokenized = true := hpresent
    have hentry : At raw offset (writeFixed (asBytes "071") 3 48 false ++ rest) := hat
    have hlen : len "071" = 3 := rfl
    refine ⟨_, rfl, ?_⟩
    rw [takeField_text (.inr hlen) (by decide) hentry, assignField, fromUtf8Lossy_asBytes,
      UniversalPaymentEvent.copyShared, htokenized]
    rfl
  · refine ⟨_, rfl, ?_⟩
    rw [takeField, FieldType.read, readLlvar_written h.acquirerId hat]
    rfl
  · refine ⟨_, rfl, ?_⟩
    rw [takeField_text h.rrn (of_decide_eq_true hpresent) hat, assignField, fromUtf8Lossy_asBytes]
    rfl
  · refine ⟨_, rfl, ?_⟩
    rw [takeField_text h.responseCode (of_decide_eq_true hpresent) hat, assignField,
      fromUtf8Lossy_asBytes]
    rfl
  · have hlen : e.pinBlock.length = 16 := h.pinBlock.resolve_left (by simpa using hpresent)
    refine ⟨_, rfl, ?_⟩
    rw [takeField, FieldType.read, readFixed_written hlen hat]
    rfl

/-- Both parsers take the shared fields by their type. -/
theorem readField_shared {field : Nat} {ftype : FieldType}
    (hfield : field ∈ [3, 4, 11, 12, 13, 22, 32, 37, 39, 52])
    (htype : iso1987Dictionary field = some ftype) (tx : UniversalPaymentEvent) :
    InteracDialect.readField raw field tx offset = takeField raw ftype field tx offset ∧
      UkFpsDialect.readField raw field tx offset = takeField raw ftype field tx offset := by
  simp only [List.mem_cons, List.not_mem_nil, or_false] at hfield
  rcases hfield with rfl | rfl | rfl | rfl | rfl | rfl | rfl | rfl | rfl | rfl
  all_goals
    cases htype
    exact ⟨rfl, rfl⟩

theorem number_shared {field : WrittenField} (hfield : field ∈ sharedFields e ++ [pinField e]) :
    field.number ∈ [3, 4, 11, 12, 13, 22, 32, 37, 39, 52] := by
  have hmap := List.mem_map_of_mem (f := WrittenField.number) hfield
  exact hmap

/-- Copying a shared field is the next stage. -/
theorem copyShared_upTo {panAt field : Nat} (hpan : panAt = 2 ∨ panAt = 102)
    (hfield : field ∈ [3, 4, 11, 12, 13, 22, 32, 37, 39, 52]) :
    e.copyShared field (e.upTo panAt field) = e.upTo panAt (field + 1) := by
  simp only [List.mem_cons, List.not_mem_nil, or_false] at hfield
  rcases hpan with rfl | rfl
  · rcases hfield with rfl | rfl | rfl | rfl | rfl | rfl | rfl | rfl | rfl | rfl <;> rfl
  · rcases hfield with rfl | rfl | rfl | rfl | rfl | rfl | rfl | rfl | rfl | rfl <;> rfl

theorem upTo_succ {panAt k : Nat} (h : e.DefaultAt panAt k) :
    e.upTo panAt (k + 1) = e.upTo panAt k := by
  rw [UniversalPaymentEvent.upTo, UniversalPaymentEvent.upTo, ite_succ h.fpan,
    ite_succ h.processingCode, ite_succ h.amount, ite_succ h.stan, ite_succ h.localTime,
    ite_succ h.localDate, ite_succ h.isTokenized, ite_succ h.acquirerId, ite_succ h.rrn,
    ite_succ h.responseCode, ite_succ h.tavvCryptogram, ite_succ h.pinBlock,
    ite_succ h.domesticSettlementData, ite_succ h.sourceAccount, ite_succ h.destinationAccount]

/-- A field that is not written is at its default. -/
theorem defaultAt_of_absent {panAt k : Nat}
    (hshared : ∀ field ∈ sharedFields e ++ [pinField e], field.number = k → field.present = false)
    (hfpan : panAt = k → e.fpan = []) (hcryptogram : 48 = k → e.tavvCryptogram = none)
    (hsettlement : 63 = k → e.domesticSettlementData = none)
    (hsource : 102 = k → e.sourceAccount = none)
    (hdestination : 103 = k → e.destinationAccount = none) : e.DefaultAt panAt k := by
  simp only [sharedFields, List.cons_append, List.nil_append, List.forall_mem_cons] at hshared
  obtain ⟨h3, h4, h11, h12, h13, h22, h32, h37, h39, h52, -⟩ := hshared
  constructor
  case fpan => exact hfpan
  case processingCode => exact fun hk => by simpa using h3 hk
  case amount =>
    intro hk
    have hzero := h4 hk
    rw [Bool.or_eq_false_iff, decide_eq_false_iff_not] at hzero
    simpa using hzero.1
  case stan => exact fun hk => by simpa using h11 hk
  case localTime => exact fun hk => by simpa using h12 hk
  case localDate => exact fun hk => by simpa using h13 hk
  case isTokenized => exact h22
  case acquirerId => exact fun hk => by simpa using h32 hk
  case rrn => exact fun hk => by simpa using h37 hk
  case responseCode => exact fun hk => by simpa using h39 hk
  case tavvCryptogram => exact hcryptogram
  case pinBlock => exact fun hk => by simpa [pinField] using h52 hk
  case domesticSettlementData => exact hsettlement
  case sourceAccount => exact hsource
  case destinationAccount => exact hdestination

/-! ## InteracDialect -/

theorem InteracDialect.readField_written (h : InteracRepresentable e) {field : WrittenField}
    (hfield : field ∈ InteracDialect.writtenFields e) (hpresent : field.present = true)
    (hat : At raw offset (field.bytes ++ rest)) :
    InteracDialect.readField raw field.number (e.upTo 2 field.number) offset =
      .ok (e.upTo 2 (field.number + 1), offset + field.bytes.length) := by
  have hshared (hmem : field ∈ sharedFields e ++ [pinField e]) :
      InteracDialect.readField raw field.number (e.upTo 2 field.number) offset =
        .ok (e.upTo 2 (field.number + 1), offset + field.bytes.length) := by
    have hnumber := number_shared hmem
    obtain ⟨ftype, htype, htake⟩ :=
      takeField_shared h.toDialectRepresentable hmem hpresent hat (e.upTo 2 field.number)
    rw [(readField_shared hnumber htype _).1, htake, copyShared_upTo (.inl rfl) hnumber]
  simp only [InteracDialect.writtenFields, List.mem_append, List.mem_cons, List.not_mem_nil,
    or_false] at hfield
  rcases hfield with (rfl | hmem) | rfl | rfl | rfl
  · show takeField raw .llvar 2 (e.upTo 2 2) offset = _
    rw [takeField, FieldType.read, readLlvar_written h.fpan hat]
    rfl
  · exact hshared (List.mem_append_left _ hmem)
  · obtain ⟨cryptogram, hcryptogram⟩ := Option.isSome_iff_exists.mp hpresent
    have hlen : (asBytes cryptogram).length ≤ 999 := h.tavvCryptogram cryptogram hcryptogram
    dsimp only at hat ⊢
    rw [hcryptogram, Option.getD_some] at hat ⊢
    rw [InteracDialect.readField, readLllvar_written hlen hat, ok_bind]
    dsimp only
    rw [fromUtf8Lossy_asBytes, ← hcryptogram]
    rfl
  · exact hshared (List.mem_append_right _ List.mem_cons_self)
  · obtain ⟨data, hdata⟩ := Option.isSome_iff_exists.mp hpresent
    have hlen : (asBytes data).length ≤ 999 := h.domesticSettlementData data hdata
    dsimp only at hat ⊢
    rw [hdata, Option.getD_some] at hat ⊢
    rw [InteracDialect.readField, readLllvar_written hlen hat, ok_bind]
    dsimp only
    rw [fromUtf8Lossy_asBytes, ← hdata]
    rfl

/-! ## UkFpsDialect -/

theorem UkFpsDialect.readField_written (h : UkFpsRepresentable e) {field : WrittenField}
    (hfield : field ∈ UkFpsDialect.primaryFields e ++ UkFpsDialect.accountFields e)
    (hpresent : field.present = true) (hat : At raw offset (field.bytes ++ rest)) :
    UkFpsDialect.readField raw field.number (e.upTo 102 field.number) offset =
      .ok (e.upTo 102 (field.number + 1), offset + field.bytes.length) := by
  rw [UkFpsDialect.accountFields, List.mem_append] at hfield
  simp only [List.mem_cons, List.not_mem_nil, or_false] at hfield
  rcases hfield with hmem | rfl | rfl
  · have hnumber := number_shared hmem
    obtain ⟨ftype, htype, htake⟩ :=
      takeField_shared h.toDialectRepresentable hmem hpresent hat (e.upTo 102 field.number)
    rw [(readField_shared hnumber htype _).2, htake, copyShared_upTo (.inr rfl) hnumber]
  · obtain ⟨account, haccount⟩ := Option.isSome_iff_exists.mp hpresent
    have hlen : (asBytes account).length ≤ 99 := h.sourceAccount account haccount
    have hfpan : e.fpan = asBytes ("UKFPS-" ++ account) := by rw [h.fpan, haccount]
    dsimp only at hat ⊢
    rw [haccount, Option.getD_some] at hat ⊢
    rw [UkFpsDialect.readField, readLlvar_written hlen hat, ok_bind]
    dsimp only
    -- There was no field 2.
    have hempty : (e.upTo 102 102).fpan.isEmpty = true := rfl
    rw [fromUtf8Lossy_asBytes, hempty, if_pos rfl, ← haccount, ← hfpan]
    rfl
  · obtain ⟨account, haccount⟩ := Option.isSome_iff_exists.mp hpresent
    have hlen : (asBytes account).length ≤ 99 := h.destinationAccount account haccount
    dsimp only at hat ⊢
    rw [haccount, Option.getD_some] at hat ⊢
    rw [UkFpsDialect.readField, readLlvar_written hlen hat, ok_bind]
    dsimp only
    rw [fromUtf8Lossy_asBytes, ← haccount]
    rfl

end

theorem responseMti_eq {e : UniversalPaymentEvent} (h : e.mti.length = 4) :
    responseMti e = e.mti := by
  rw [responseMti, if_pos (Nat.le_of_eq h.symm), ← h, List.take_length]

theorem isNone_of_absent {α : Type} {o : Option α} (h : o.isSome = false) : o = none := by
  cases o with
  | none => rfl
  | some a => cases h

/-! ## Whole messages -/

namespace InteracDialect

variable {e : UniversalPaymentEvent}

theorem written_range : ∀ f ∈ presentOf (writtenFields e), 1 ≤ f.1 ∧ f.1 ≤ 64 :=
  forall_presentOf (P := fun k => 1 ≤ k ∧ k ≤ 64) (by
    simp [writtenFields, sharedFields, panField, pinField])

/-- The walk reads every field that was written. -/
theorem walk_written (h : InteracRepresentable e) {raw : Bytes} {offset : Nat}
    (hat : At raw offset (payload (presentOf (writtenFields e)))) :
    walk (isBitSetIn (bitmapOf (presentOf (writtenFields e)))) (readField raw) (List.range' 1 64)
      (e.upTo 2 1) offset =
        .ok (e.upTo 2 65, offset + (payload (presentOf (writtenFields e))).length) := by
  have hsorted : (presentOf (writtenFields e)).Pairwise fun f g => f.1 < g.1 :=
    presentOf_sorted (by simp [writtenFields, sharedFields, panField, pinField])
  have hbits (k : Nat) (hk : k ∈ List.range' 1 64) := by
    have hin := List.mem_range'_1.mp hk
    exact isBitSetIn_bitmapOf (written_range (e := e)) (k := k) (by omega)
  refine walk_stages (fun k bytes hmem offset rest hat => ?_) (fun k hk hclear => ?_) hbits
    hsorted (fun f hf => ?_) hat
  · obtain ⟨field, hfield, hpresent, rfl, rfl⟩ := mem_presentOf.mp hmem
    exact readField_written h hfield hpresent hat
  · have habsent {field : WrittenField} (hfield : field ∈ writtenFields e)
        (hnumber : field.number = k) : field.present = false :=
      absent_of_clear (hbits k hk) (fun _ hf => hf) hclear hfield hnumber
    have hin := List.mem_range'_1.mp hk
    refine upTo_succ (defaultAt_of_absent (fun field hfield => habsent ?_) (fun hk2 => ?_)
      (fun hk48 => ?_) (fun hk63 => ?_) (by omega) (by omega))
    · simp only [List.mem_append, List.mem_singleton] at hfield
      simp only [writtenFields, List.mem_append, List.mem_cons]
      tauto
    · have hfield : (panField e).present = false := habsent (by simp [writtenFields]) hk2
      simpa [panField] using hfield
    · exact isNone_of_absent (habsent (List.mem_append_right _ List.mem_cons_self) hk48)
    · exact isNone_of_absent (habsent (List.mem_append_right _ (List.mem_cons_of_mem _
        (List.mem_cons_of_mem _ List.mem_cons_self))) hk63)
  · have hf' := written_range f hf
    omega

/-- The event that the walk starts from. -/
theorem upTo_start (h : InteracRepresentable e) :
    { blankEvent e.mti with
      messageClass := classOfMti (fromUtf8Lossy e.mti)
      requiresInstantClearing := fromUtf8Lossy e.mti = "0200"
      isReversal := false } = e.upTo 2 1 := by
  have hclearing : decide (fromUtf8Lossy e.mti = "0200") = e.requiresInstantClearing := by
    have hmti : fromUtf8Lossy e.mti = "0200" ↔ e.mti = asBytes "0200" :=
      fromUtf8Lossy_eq_iff rfl
    rw [h.requiresInstantClearing]
    simp only [hmti]
  obtain ⟨⟨-, hclass, hreversal, -, -, -, -, -, -, -, -, -, htype, hdpan, hrisk, horiginal, hmac⟩,
    -, -, -, -, hsource, hdestination⟩ := h
  rw [hclearing, ← hclass, UniversalPaymentEvent.upTo, blankEvent, htype, hdpan, hrisk, horiginal,
    hmac, hreversal]
  rfl

/-- And the one that it ends with. -/
theorem upTo_end (h : InteracRepresentable e) : e.upTo 2 65 = e := by
  rw [UniversalPaymentEvent.upTo, h.sourceAccount, h.destinationAccount]
  have hsource := h.sourceAccount
  have hdestination := h.destinationAccount
  rcases e
  dsimp only at hsource hdestination ⊢
  subst hsource hdestination
  rfl

end InteracDialect

/-- The Interac parser gives back the event that the response was built from. -/
theorem interac_round_trip (e : UniversalPaymentEvent) (h : InteracRepresentable e) :
    InteracDialect.parse (InteracDialect.buildResponse e) = .ok e := by
  have hopens := opens h.mti (length_bitmapOf (presentOf (InteracDialect.writtenFields e)))
    (payload (presentOf (InteracDialect.writtenFields e)))
  rw [← responseMti_eq h.mti] at hopens
  generalize hraw : InteracDialect.buildResponse e = raw
  have hraw' : responseMti e ++ (bitmapOf (presentOf (InteracDialect.writtenFields e)) ++
      payload (presentOf (InteracDialect.writtenFields e))) = raw := hraw
  rw [hraw', responseMti_eq h.mti] at hopens
  rw [InteracDialect.parse, if_neg hopens.long, hopens.readMti, ok_bind]
  dsimp only
  rw [hopens.readBitmap, ok_bind]
  dsimp only
  rw [InteracDialect.upTo_start h, InteracDialect.walk_written h hopens.rest, ok_bind,
    InteracDialect.upTo_end h]

/-- An event with a cryptogram that is no risk score and no sign of a token. -/
def interacSample : UniversalPaymentEvent :=
  { blankEvent (asBytes "0200") with
    requiresInstantClearing := true
    fpan := [0xFF]
    amount := 1
    localDate := "\u00E9\u00E9"
    tavvCryptogram := some "RSK:"
    domesticSettlementData := some "" }

theorem interac_round_trip_sample :
    InteracDialect.parse (InteracDialect.buildResponse interacSample) = .ok interacSample :=
  interac_round_trip interacSample
    { mti := by decide
      messageClass := by decide
      isReversal := rfl
      processingCode := by decide
      amount := by decide
      stan := by decide
      localTime := by decide
      localDate := by decide
      acquirerId := by decide
      rrn := by decide
      responseCode := by decide
      pinBlock := by decide
      transactionType := rfl
      dpan := rfl
      riskScore := rfl
      originalDataElements := rfl
      macData := rfl
      requiresInstantClearing := rfl
      fpan := by decide
      tavvCryptogram := by
        intro cryptogram hcryptogram
        cases hcryptogram
        decide
      domesticSettlementData := by
        intro data hdata
        cases hdata
        decide
      sourceAccount := rfl
      destinationAccount := rfl }

namespace UkFpsDialect

/-- The fields that the parser walks.  Bit 1 has no bytes. -/
def wireFields (e : UniversalPaymentEvent) : Fields :=
  (if presentOf (accountFields e) = [] then [] else [(1, [])]) ++
    (presentOf (primaryFields e) ++ presentOf (accountFields e))

variable {e : UniversalPaymentEvent}

theorem primary_range : ∀ f ∈ presentOf (primaryFields e), 2 < f.1 ∧ f.1 ≤ 64 :=
  forall_presentOf (P := fun k => 2 < k ∧ k ≤ 64) (by simp [primaryFields, sharedFields, pinField])

theorem account_range : ∀ f ∈ presentOf (accountFields e), f.1 = 102 ∨ f.1 = 103 :=
  forall_presentOf (P := fun k => k = 102 ∨ k = 103) (by simp [accountFields])

theorem mem_wireFields {k : Nat} {bytes : Bytes} : (k, bytes) ∈ wireFields e ↔
    (k = 1 ∧ bytes = [] ∧ presentOf (accountFields e) ≠ []) ∨
      (k, bytes) ∈ presentOf (primaryFields e) ∨ (k, bytes) ∈ presentOf (accountFields e) := by
  rw [wireFields, List.mem_append, List.mem_append]
  split
  next hnil => simp [hnil]
  next hne => simp [hne]

theorem payload_wireFields :
    payload (wireFields e) =
      payload (presentOf (primaryFields e) ++ presentOf (accountFields e)) := by
  rw [wireFields]
  split <;> rfl

theorem wireFields_sorted : (wireFields e).Pairwise fun f g => f.1 < g.1 := by
  have hprimary : (presentOf (primaryFields e)).Pairwise fun f g => f.1 < g.1 :=
    presentOf_sorted (by simp [primaryFields, sharedFields, pinField])
  have haccounts : (presentOf (accountFields e)).Pairwise fun f g => f.1 < g.1 :=
    presentOf_sorted (by simp [accountFields])
  rw [wireFields, List.pairwise_append, List.pairwise_append]
  refine ⟨?_, ⟨hprimary, haccounts, fun f hf g hg => ?_⟩, fun f hf g hg => ?_⟩
  · split <;> simp
  · have hle := primary_range f hf
    rcases account_range g hg with h | h <;> omega
  · have hone : f.1 = 1 := by
      split at hf
      next => cases hf
      next => rw [List.mem_singleton.mp hf]
    rcases List.mem_append.mp hg with hg | hg
    · have hle := primary_range g hg
      omega
    · rcases account_range g hg with h | h <;> omega

theorem isBitSetIn_bitmap {k : Nat} (hk : 1 ≤ k ∧ k ≤ 64) :
    isBitSetIn (bitmap e) k = true ↔ ∃ bytes, (k, bytes) ∈ wireFields e := by
  have hrange : ∀ f ∈ presentOf (primaryFields e) ++
      (presentOf (accountFields e)).map (fun _ => ((1 : Nat), ([] : Bytes))),
      1 ≤ f.1 ∧ f.1 ≤ 64 := by
    intro f hf
    rcases List.mem_append.mp hf with hf | hf
    · have hle := primary_range f hf
      omega
    · obtain ⟨_, -, rfl⟩ := List.mem_map.mp hf
      decide
  rw [bitmap, isBitSetIn_bitmapOf hrange hk]
  simp only [mem_wireFields, List.mem_append, List.mem_map, Prod.mk.injEq]
  constructor
  · rintro ⟨bytes, hmem | ⟨f, hf, hone, hnil⟩⟩
    · exact ⟨bytes, .inr (.inl hmem)⟩
    · exact ⟨bytes, .inl ⟨hone.symm, hnil.symm, List.ne_nil_of_mem hf⟩⟩
  · rintro ⟨bytes, ⟨hone, hnil, hne⟩ | hmem | hmem⟩
    · obtain ⟨f, hf⟩ := List.exists_mem_of_ne_nil _ hne
      exact ⟨bytes, .inr ⟨f, hf, hone.symm, hnil.symm⟩⟩
    · exact ⟨bytes, .inl hmem⟩
    · rcases account_range _ hmem with h | h <;> dsimp only at h <;> omega

theorem isBitSetIn_secondary {k : Nat} (hk : 64 < k ∧ k ≤ 128) :
    isBitSetIn (secondaryBitmap e) (k - 64) = true ↔ ∃ bytes, (k, bytes) ∈ wireFields e := by
  have hrange : ∀ f ∈ (presentOf (accountFields e)).map fun field => (field.1 - 64, ([] : Bytes)),
      1 ≤ f.1 ∧ f.1 ≤ 64 := by
    intro f hf
    obtain ⟨g, hg, rfl⟩ := List.mem_map.mp hf
    rcases account_range g hg with h | h <;> dsimp only <;> omega
  rw [secondaryBitmap, isBitSetIn_bitmapOf hrange (by omega)]
  simp only [mem_wireFields, List.mem_map, Prod.mk.injEq]
  constructor
  · rintro ⟨bytes, ⟨k', bytes'⟩, hmem, hnumber, -⟩
    have hsame : k' = k := by
      rcases account_range _ hmem with h | h <;> dsimp only at h hnumber <;> omega
    exact ⟨bytes', .inr (.inr (hsame ▸ hmem))⟩
  · rintro ⟨bytes, ⟨hone, -, -⟩ | hmem | hmem⟩
    · omega
    · have hle := primary_range _ hmem
      dsimp only at hle
      omega
    · exact ⟨[], _, hmem, rfl, rfl⟩

/-- The secondary bitmap, if it is sent. -/
def sentSecondary (e : UniversalPaymentEvent) : Bytes :=
  if isBitSetIn (bitmap e) 1 then secondaryBitmap e else []

theorem isPresent_iff {k : Nat} (hk : 1 ≤ k ∧ k ≤ 128) :
    isPresent (bitmap e) (sentSecondary e) k = true ↔ ∃ bytes, (k, bytes) ∈ wireFields e := by
  rw [isPresent]
  split
  next hle => exact isBitSetIn_bitmap ⟨hk.1, hle⟩
  next hgt =>
    rw [← isBitSetIn_secondary ⟨Nat.not_le.mp hgt, hk.2⟩, Bool.and_eq_true, sentSecondary]
    constructor
    · rintro ⟨hone, hset⟩
      rw [if_pos hone] at hset
      exact hset
    · intro hset
      -- A field above 64 is an account, and an account sets bit 1.
      have hone : isBitSetIn (bitmap e) 1 = true := by
        obtain ⟨bytes, hmem⟩ := (isBitSetIn_secondary ⟨Nat.not_le.mp hgt, hk.2⟩).mp hset
        rw [isBitSetIn_bitmap (by omega)]
        rcases mem_wireFields.mp hmem with ⟨hk1, -, -⟩ | hprimary | haccount
        · omega
        · have hle := primary_range _ hprimary
          dsimp only at hle
          omega
        · exact ⟨[], mem_wireFields.mpr (.inl ⟨rfl, rfl, List.ne_nil_of_mem haccount⟩)⟩
      exact ⟨hone, by rw [if_pos hone]; exact hset⟩

/-- The secondary bitmap is read if it is sent, and the fields are behind it. -/
theorem readSecondary {raw : Bytes} (hat : At raw 12 (sentSecondary e ++ payload (wireFields e))) :
    (if isBitSetIn (bitmap e) 1 then readFixed raw 12 8 else .ok ([], 12)) =
        .ok (sentSecondary e, 12 + (sentSecondary e).length) ∧
      At raw (12 + (sentSecondary e).length) (payload (wireFields e)) := by
  refine ⟨?_, hat.tail⟩
  rw [sentSecondary] at hat ⊢
  split
  next hone =>
    rw [if_pos hone] at hat
    have hread := readFixed_at hat
    rw [secondaryBitmap, length_bitmapOf] at hread
    rw [secondaryBitmap, length_bitmapOf]
    exact hread
  next => rfl

/-- The walk reads every field that was written. -/
theorem walk_written (h : UkFpsRepresentable e) {raw : Bytes} {offset : Nat}
    (hat : At raw offset (payload (wireFields e))) :
    walk (isPresent (bitmap e) (sentSecondary e)) (readField raw) (List.range' 1 128)
      (e.upTo 102 1) offset =
        .ok (e.upTo 102 129, offset + (payload (wireFields e)).length) := by
  have hbits (k : Nat) (hk : k ∈ List.range' 1 128) :
      isPresent (bitmap e) (sentSecondary e) k = true ↔ ∃ bytes, (k, bytes) ∈ wireFields e := by
    have hin := List.mem_range'_1.mp hk
    exact isPresent_iff (by omega)
  refine walk_stages (fun k bytes hmem offset rest hat => ?_) (fun k hk hclear => ?_) hbits
    wireFields_sorted (fun f hf => ?_) hat
  · rcases mem_wireFields.mp hmem with ⟨rfl, rfl, -⟩ | hprimary | haccount
    · rfl
    · obtain ⟨field, hfield, hpresent, rfl, rfl⟩ := mem_presentOf.mp hprimary
      exact readField_written h (List.mem_append_left _ hfield) hpresent hat
    · obtain ⟨field, hfield, hpresent, rfl, rfl⟩ := mem_presentOf.mp haccount
      exact readField_written h (List.mem_append_right _ hfield) hpresent hat
  · have hprimary {field : WrittenField} (hfield : field ∈ primaryFields e)
        (hnumber : field.number = k) : field.present = false :=
      absent_of_clear (hbits k hk) (fun _ hf => mem_wireFields.mpr (.inr (.inl hf))) hclear
        hfield hnumber
    have haccount {field : WrittenField} (hfield : field ∈ accountFields e)
        (hnumber : field.number = k) : field.present = false :=
      absent_of_clear (hbits k hk) (fun _ hf => mem_wireFields.mpr (.inr (.inr hf))) hclear
        hfield hnumber
    have hsource (hk102 : 102 = k) : e.sourceAccount = none :=
      isNone_of_absent (haccount List.mem_cons_self hk102)
    refine upTo_succ (defaultAt_of_absent (fun field hfield => hprimary hfield) (fun hk102 => ?_)
      (fun _ => h.tavvCryptogram) (fun _ => h.domesticSettlementData) hsource fun hk103 => ?_)
    · rw [h.fpan, hsource hk102]
    · exact isNone_of_absent (haccount (List.mem_cons_of_mem _ List.mem_cons_self) hk103)
  · obtain ⟨k, bytes⟩ := f
    rcases mem_wireFields.mp hf with ⟨rfl, -, -⟩ | hprimary | haccount
    · exact ⟨Nat.le_refl 1, by omega⟩
    · have hle := primary_range _ hprimary
      dsimp only at hle ⊢
      omega
    · rcases account_range _ haccount with hk | hk <;> dsimp only at hk ⊢ <;> omega

/-- The event that the walk starts from. -/
theorem upTo_start (h : UkFpsRepresentable e) :
    { blankEvent e.mti with
      messageClass := classOfMti (fromUtf8Lossy e.mti), isReversal := false } = e.upTo 102 1 := by
  obtain ⟨⟨-, hclass, hreversal, -, -, -, -, -, -, -, -, -, htype, hdpan, hrisk, horiginal, hmac⟩,
    hclearing, -, -, -, -, -⟩ := h
  rw [← hclass, UniversalPaymentEvent.upTo, blankEvent, htype, hdpan, hrisk, horiginal, hmac,
    hclearing, hreversal]
  rfl

/-- And the one that it ends with. -/
theorem upTo_end (e : UniversalPaymentEvent) : e.upTo 102 129 = e := rfl

end UkFpsDialect

open UkFpsDialect in
/-- The UK FPS parser gives back the event that the response was built from. -/
theorem ukFps_round_trip (e : UniversalPaymentEvent) (h : UkFpsRepresentable e) :
    UkFpsDialect.parse (UkFpsDialect.buildResponse e) = .ok e := by
  have hlength : (bitmap e).length = 8 := length_bitmapOf _
  have hopens := opens h.mti hlength (sentSecondary e ++ payload (wireFields e))
  rw [← responseMti_eq h.mti, payload_wireFields] at hopens
  generalize hraw : UkFpsDialect.buildResponse e = raw
  have hraw' : responseMti e ++ (bitmap e ++ (sentSecondary e ++
      payload (presentOf (primaryFields e) ++ presentOf (accountFields e)))) = raw := hraw
  rw [hraw', responseMti_eq h.mti, ← payload_wireFields] at hopens
  obtain ⟨hsecondary, hfields⟩ := readSecondary hopens.rest
  rw [UkFpsDialect.parse, if_neg hopens.long, hopens.readMti, ok_bind]
  dsimp only
  rw [hopens.readBitmap, ok_bind]
  dsimp only
  rw [UkFpsDialect.upTo_start h]
  split at hsecondary
  next hone =>
    rw [if_pos hone, hsecondary, ok_bind]
    dsimp only
    rw [UkFpsDialect.walk_written h hfields, ok_bind, UkFpsDialect.upTo_end]
  next hone =>
    rw [if_neg hone, hsecondary, ok_bind]
    dsimp only
    rw [UkFpsDialect.walk_written h hfields, ok_bind, UkFpsDialect.upTo_end]

/-- An event with an empty source account, and a destination account. -/
def ukFpsSample : UniversalPaymentEvent :=
  { blankEvent (asBytes "0110") with
    fpan := asBytes "UKFPS-"
    isTokenized := true
    rrn := "RRN000000001"
    sourceAccount := some ""
    destinationAccount := some "GB00-\u00E9" }

theorem ukFps_round_trip_sample :
    UkFpsDialect.parse (UkFpsDialect.buildResponse ukFpsSample) = .ok ukFpsSample :=
  ukFps_round_trip ukFpsSample
    { mti := by decide
      messageClass := by decide
      isReversal := rfl
      processingCode := by decide
      amount := by decide
      stan := by decide
      localTime := by decide
      localDate := by decide
      acquirerId := by decide
      rrn := by decide
      responseCode := by decide
      pinBlock := by decide
      transactionType := rfl
      dpan := rfl
      riskScore := rfl
      originalDataElements := rfl
      macData := rfl
      requiresInstantClearing := rfl
      fpan := by decide
      sourceAccount := by
        intro account haccount
        cases haccount
        decide
      destinationAccount := by
        intro account haccount
        cases haccount
        decide
      tavvCryptogram := rfl
      domesticSettlementData := rfl }

end Iso8583Switch
