import Iso8583Switch.Dialect.Ingress
import Iso8583Switch.Flow.Runs
import Iso8583Switch.Flow.Solo
import Iso8583Switch.Properties.ParsedEvents

/-!
# The way of a risk score

The score of a frame stands in its field 48.  The standard dialect reads it, if it fits
in a byte.  The other two dialects leave the score of the event at 0, and the engine
takes 0 for no signal.  So what decides about the risk screen is the dialect and the
size of the score, which `risk_screened_iff` puts together.
-/

namespace Iso8583Switch

open Text FieldWalk Function

/-! ## Field 48 of a frame -/

/-- Field 48, where the walk of the dialect comes to it. -/
def StandardDialect.field48 (raw : Bytes) : Except DecodeFailure (Option Bytes) := do
  let (mti, offset) ← readFixed raw 0 4
  let dict := dictionaryOf ((mti[0]?).getD 0)
  let (bitmap, offset) ← readBitmap raw 2 offset
  let tx := { blankEvent mti with isReversal := isReversal mti }
  let (_, offset) ← walk (isPresent bitmap) (readField raw bitmap dict) (List.range' 1 47) tx offset
  if isPresent bitmap 48 then
    let (data, _) ← readLllvar raw offset
    .ok (some data)
  else .ok none

def InteracDialect.field48 (raw : Bytes) : Except DecodeFailure (Option Bytes) := do
  let (mti, offset) ← readFixed raw 0 4
  let (bitmap, offset) ← readFixed raw offset 8
  let (_, offset) ← walk (isBitSetIn bitmap) (readField raw) (List.range' 1 47) (blankEvent mti) offset
  if isBitSetIn bitmap 48 then
    let (data, _) ← readLllvar raw offset
    .ok (some data)
  else .ok none

def UkFpsDialect.field48 (raw : Bytes) : Except DecodeFailure (Option Bytes) := do
  let (mti, offset) ← readFixed raw 0 4
  let (bitmap, offset) ← readFixed raw offset 8
  let (secondary, offset) ←
    if isBitSetIn bitmap 1 then readFixed raw offset 8 else .ok ([], offset)
  let (_, offset) ←
    walk (isPresent bitmap secondary) (readField raw) (List.range' 1 47) (blankEvent mti) offset
  if isPresent bitmap secondary 48 then
    let (data, _) ← readLllvar raw offset
    .ok (some data)
  else .ok none

def IngressDialect.field48 : IngressDialect → Bytes → Except DecodeFailure (Option Bytes)
  | .standard => StandardDialect.field48
  | .interac => InteracDialect.field48
  | .ukFps => UkFpsDialect.field48

/-- The text that announces a score of three digits. -/
def riskTag (n : Nat) : String := "RSK:" ++ zeroPadded 3 n ++ ":"

/-! ## The score in the event -/

/-- The score of an event whose field 48 announces `n`. -/
def scoreOf (n : Nat) : UInt8 := if n < 256 then UInt8.ofNat n else 0

theorem assignField_riskScore (field : Nat) (data : Bytes) (tx : UniversalPaymentEvent) :
    (assignField field data tx).riskScore = tx.riskScore := by
  unfold assignField
  split
  case h_7 => dsimp only; split <;> rfl
  all_goals rfl

theorem len_riskTag {n : Nat} (hn : n < 1000) : len (riskTag n) = 8 := by
  rw [riskTag, len_append, len_append, len_zeroPadded (by decide) hn]
  rfl

theorem slice_riskTag_score {n : Nat} (hn : n < 1000) (rest : String) :
    slice (riskTag n ++ rest) 4 7 = some (zeroPadded 3 n) := by
  have hslice := slice_append "RSK:" (zeroPadded 3 n) (":" ++ rest)
  rw [len_zeroPadded (by decide) hn] at hslice
  have htext : riskTag n ++ rest = "RSK:" ++ zeroPadded 3 n ++ (":" ++ rest) := by
    rw [riskTag, String.append_assoc]
  rw [htext]
  exact hslice

theorem slice_riskTag_rest {n : Nat} (hn : n < 1000) (rest : String) :
    slice (riskTag n ++ rest) 8 (len (riskTag n ++ rest)) = some rest := by
  have hslice := slice_append (riskTag n) rest ""
  rw [len_riskTag hn, String.append_empty] at hslice
  rw [len_append, len_riskTag hn]
  exact hslice

/-- The field that carries the tag sets the score. -/
theorem additionalData_riskTag {n : Nat} (hn : n < 1000) (rest : String)
    {tx tx' : UniversalPaymentEvent} (hscore : tx.riskScore = 0)
    (h : additionalData (riskTag n ++ rest) tx = .ok tx') : tx'.riskScore = scoreOf n := by
  have htagged : (asBytes "RSK:").isPrefixOf (asBytes (riskTag n ++ rest)) = true := by
    rw [List.isPrefixOf_iff_prefix, riskTag, String.append_assoc, String.append_assoc,
      asBytes_append]
    exact List.prefix_append _ _
  have hlong : 8 ≤ len (riskTag n ++ rest) := by
    rw [len_append, len_riskTag hn]
    exact Nat.le_add_right 8 _
  rw [additionalData, if_pos ⟨htagged, hlong⟩, sliceField, slice_riskTag_score hn, sliceField,
    slice_riskTag_rest hn] at h
  by_cases hfits : n < 256
  · have hparse : parseUnsigned 256 (zeroPadded 3 n) = some n := parseUnsigned_zeroPadded hfits
    simp only [hparse, bind, Except.bind, Except.ok.injEq] at h
    subst h
    rw [scoreOf, if_pos hfits]
    split
    · rfl
    · rfl
  · have hparse : parseUnsigned 256 (zeroPadded 3 n) = none := by
      have hvalue : parseUnsigned 1000 (zeroPadded 3 n) = some n := parseUnsigned_zeroPadded hn
      rw [parseUnsigned, Option.ite_none_right_eq_some] at hvalue
      rw [parseUnsigned, if_neg]
      intro hok
      rw [Option.some.inj hvalue.2] at hok
      exact hfits hok.2.2
    simp only [hparse, bind, Except.bind, Except.ok.injEq] at h
    subst h
    rw [scoreOf, if_neg hfits]
    split
    · exact hscore
    · exact hscore

/-! ## The score behind the parsers -/

theorem takeField_riskScore {raw : Bytes} {ftype : FieldType} {field : Nat}
    {tx : UniversalPaymentEvent} {offset : Nat} {p : UniversalPaymentEvent × Nat}
    (h : takeField raw ftype field tx offset = .ok p) : p.1.riskScore = tx.riskScore := by
  obtain ⟨⟨data, offset'⟩, -, h⟩ := ok_bind_eq h
  cases h
  exact assignField_riskScore field data tx

theorem StandardDialect.readField_riskScore {raw bitmap : Bytes} {dict : Nat → Option FieldType}
    {field : Nat} {tx : UniversalPaymentEvent} {offset : Nat} {p : UniversalPaymentEvent × Nat}
    (hfield : field ≠ 48) (h : readField raw bitmap dict field tx offset = .ok p) :
    p.1.riskScore = tx.riskScore := by
  unfold readField at h
  split at h
  next ftype _ =>
    obtain ⟨⟨data, offset'⟩, -, h⟩ := ok_bind_eq h
    obtain ⟨tx', hassign, h⟩ := ok_bind_eq h
    cases h
    show tx'.riskScore = tx.riskScore
    unfold assign at hassign
    split at hassign
    next => exact absurd rfl hfield
    next => cases hassign; split <;> rfl
    next => cases hassign; rfl
    next => cases hassign; split <;> rfl
    next => cases hassign; exact assignField_riskScore field data tx
  next => cases h

theorem InteracDialect.readField_riskScore {raw : Bytes} {field : Nat} {tx : UniversalPaymentEvent}
    {offset : Nat} {p : UniversalPaymentEvent × Nat} (h : readField raw field tx offset = .ok p) :
    p.1.riskScore = tx.riskScore := by
  unfold readField at h
  split at h
  case h_11 | h_13 =>
    obtain ⟨_, -, h⟩ := ok_bind_eq h
    cases h
    rfl
  case h_14 => cases h; rfl
  all_goals exact takeField_riskScore h

theorem UkFpsDialect.readField_riskScore {raw : Bytes} {field : Nat} {tx : UniversalPaymentEvent}
    {offset : Nat} {p : UniversalPaymentEvent × Nat} (h : readField raw field tx offset = .ok p) :
    p.1.riskScore = tx.riskScore := by
  unfold readField at h
  split at h
  case h_12 =>
    obtain ⟨_, -, h⟩ := ok_bind_eq h
    cases h
    dsimp only
    split
    · rfl
    · rfl
  case h_13 =>
    obtain ⟨_, -, h⟩ := ok_bind_eq h
    cases h
    rfl
  case h_14 => cases h; rfl
  all_goals exact takeField_riskScore h

/-- The other two dialects set no score. -/
theorem InteracDialect.parse_riskScore {raw : Bytes} {tx : UniversalPaymentEvent}
    (h : parse raw = .ok tx) : tx.riskScore = 0 :=
  parse_keeps (P := fun tx => tx.riskScore = 0) h (fun _ _ => rfl)
    fun _ _ _ _ hread hs => (readField_riskScore hread).trans hs

theorem UkFpsDialect.parse_riskScore {raw : Bytes} {tx : UniversalPaymentEvent}
    (h : parse raw = .ok tx) : tx.riskScore = 0 :=
  parse_keeps (P := fun tx => tx.riskScore = 0) h (fun _ _ => rfl)
    fun _ _ _ _ hread hs => (readField_riskScore hread).trans hs

/-- The walk from field 48 on. -/
theorem StandardDialect.walk_riskScore {raw bitmap data : Bytes} {dict : Nat → Option FieldType}
    {n : Nat} {ks : List Nat} {tx : UniversalPaymentEvent} {offset offset' : Nat}
    {p : UniversalPaymentEvent × Nat} (hdict : dict 48 = some .lllvar) (hn : n < 1000)
    (htag : asBytes (riskTag n) <+: data) (hscore : tx.riskScore = 0)
    (hset : isPresent bitmap 48 = true) (hread : readLllvar raw offset = .ok (data, offset'))
    (hlater : ∀ k ∈ ks, k ≠ 48)
    (h : walk (isPresent bitmap) (readField raw bitmap dict) (48 :: ks) tx offset = .ok p) :
    p.1.riskScore = scoreOf n := by
  obtain ⟨rest, rfl⟩ := htag
  rw [walk, if_pos hset] at h
  split at h
  next tx' offset'' hfield =>
    have htx' : tx'.riskScore = scoreOf n := by
      rw [readField, hdict] at hfield
      dsimp only at hfield
      obtain ⟨read, hread', hfield⟩ := ok_bind_eq hfield
      cases hread'.symm.trans hread
      obtain ⟨tx'', hassign, hfield⟩ := ok_bind_eq hfield
      cases hfield
      rw [assign, fromUtf8Lossy_asBytes_append] at hassign
      exact additionalData_riskTag hn _ hscore hassign
    exact walk_keeps (P := fun tx => tx.riskScore = scoreOf n)
      (fun k hk s offset p hread hs => (readField_riskScore (hlater k hk) hread).trans hs) h htx'
  next => cases h

theorem dictionaryOf_additionalData (version : UInt8) : dictionaryOf version 48 = some .lllvar := by
  rw [dictionaryOf]
  split
  · rfl
  · split
    · rfl
    · split
      · rfl
      · rfl

/-- The standard dialect sets the score, if it fits. -/
theorem StandardDialect.parse_riskScore {raw data : Bytes} {tx : UniversalPaymentEvent} {n : Nat}
    (hn : n < 1000) (htag : asBytes (riskTag n) <+: data) (h : parse raw = .ok tx)
    (hfield : field48 raw = .ok (some data)) : tx.riskScore = scoreOf n := by
  rw [parse] at h
  split at h
  · cases h
  obtain ⟨⟨mti, offset⟩, hmti, h⟩ := ok_bind_eq h
  obtain ⟨⟨bitmap, offset'⟩, hbitmap, h⟩ := ok_bind_eq h
  obtain ⟨p, hwalk, h⟩ := ok_bind_eq h
  cases h
  rw [field48] at hfield
  obtain ⟨_, hmti', hfield⟩ := ok_bind_eq hfield
  cases hmti'.symm.trans hmti
  obtain ⟨_, hbitmap', hfield⟩ := ok_bind_eq hfield
  cases hbitmap'.symm.trans hbitmap
  obtain ⟨⟨tx₁, offset₁⟩, hfront, hfield⟩ := ok_bind_eq hfield
  dsimp only at hfield
  split at hfield
  next hset =>
    obtain ⟨⟨bytes, offset₂⟩, hread, hfield⟩ := ok_bind_eq hfield
    obtain rfl : bytes = data := Option.some.inj (Except.ok.inj hfield)
    have hlen : 48 ≤ bitmap.length * 8 := by
      rw [isPresent, isBitSetIn] at hset
      split at hset
      next => simp at hset
      next hrange => omega
    have hsplit : List.range' 1 (bitmap.length * 8) =
        List.range' 1 47 ++ 48 :: List.range' 49 (bitmap.length * 8 - 48) := by
      have htail : 48 :: List.range' 49 (bitmap.length * 8 - 48) =
          List.range' (1 + 47) (bitmap.length * 8 - 48 + 1) := rfl
      rw [htail, List.range'_append_1]
      congr 1
      omega
    rw [hsplit, walk_append, hfront] at hwalk
    have hscore : tx₁.riskScore = 0 := walk_keeps (P := fun tx => tx.riskScore = 0)
      (fun k hk s offset p hread hs =>
        (readField_riskScore (by have := List.mem_range'_1.mp hk; omega) hread).trans hs) hfront rfl
    exact walk_riskScore (dictionaryOf_additionalData _) hn htag hscore hset hread
      (fun k hk => by have := List.mem_range'_1.mp hk; omega) hwalk
  next => cases hfield

/-- What is left of the score that a frame announces. -/
theorem IngressDialect.parse_riskScore {dialect : IngressDialect} {raw data : Bytes}
    {tx : UniversalPaymentEvent} {n : Nat} (hn : n < 1000) (htag : asBytes (riskTag n) <+: data)
    (h : dialect.parse raw = .ok tx) (hfield : dialect.field48 raw = .ok (some data)) :
    tx.riskScore = if dialect = .standard then scoreOf n else 0 := by
  cases dialect with
  | standard => exact StandardDialect.parse_riskScore hn htag h hfield
  | interac => exact InteracDialect.parse_riskScore h
  | ukFps => exact UkFpsDialect.parse_riskScore h

namespace Engine

/-! ## The screen -/

/-- The worker answers the message with RC 59 and does nothing else with it. -/
structure ScreensOut (s : Engine) (w : Nat) (tx : UniversalPaymentEvent) : Prop where
  answers : ∃ t, (s.receive w tx true).Solo w t ∧ t.ingress w = .idle ∧
    ∃ r source reply, .responded r source reply ∈ newEvents s t ∧ reply.responseCode = "59"
  guard : ∀ t, (s.receive w tx true).Solo w t → t.guard = s.guard
  inserts : ∀ t, (s.receive w tx true).Solo w t → ∀ key tx' r,
    .inserted key tx' r ∉ newEvents s t
  forwards : ∀ t, (s.receive w tx true).Solo w t → ∀ frame, .placed frame ∉ newEvents s t

variable {s t : Engine} {w : Nat} {tx tx' : UniversalPaymentEvent} {ctx : TransactionContext}

theorem Untouched.newEvents_cases (h : s.Untouched t) {e : Event} (he : e ∈ newEvents s t) :
    (∃ tx answerable, e = .received tx answerable) ∨
      ∃ r source reply, e = .responded r source reply := by
  obtain ⟨l, htrace, hl⟩ := h.trace
  rw [newEvents, htrace, List.drop_left] at he
  exact hl e he

/-- A score above the threshold screens the message out. -/
theorem screensOut_of_highRisk (hpasses : s.Passes tx tx') (hrisk : s.mem.highRisk tx' = true) :
    s.ScreensOut w tx := by
  have huntouched (t : Engine) (h : (s.receive w tx true).Solo w t) : s.Untouched t := by
    rcases solo_front h with hfront | ⟨tx'', hpasses', hlow, -⟩
    · exact hfront
    · rw [← hpasses.unique hpasses', hrisk] at hlow
      cases hlow
  refine ⟨?_, fun t h => (huntouched t h).guard, fun t h key tx' r he => ?_, fun t h frame he => ?_⟩
  · have hscreen := solo_riskPreScreen w true hpasses
    have hhigh : (s.holding w tx true (.detokenized
        { s.arrival tx true with transaction := tx' })).mem.highRisk tx' = true := hrisk
    rw [riskPreScreen_eq, if_pos hhigh] at hscreen
    refine ⟨_, hscreen, declineFront_self _ _ _ _ _, s.trace.length, .riskScreen,
      tx'.answer "0110" "59", ?_, rfl⟩
    show _ ∈ List.drop _ ((s.trace ++ [_]) ++ [_])
    rw [List.append_assoc, List.drop_left]
    exact List.mem_append_right _ (List.mem_singleton.mpr rfl)
  · rcases (huntouched t h).newEvents_cases he with ⟨_, _, heq⟩ | ⟨_, _, _, heq⟩ <;> cases heq
  · rcases (huntouched t h).newEvents_cases he with ⟨_, _, heq⟩ | ⟨_, _, _, heq⟩ <;> cases heq

/-! ## A message that passes the screen -/

/-- Nothing in the list is an answer with RC 59. -/
def NoFraud (l : List Event) : Prop :=
  ∀ r source reply, .responded r source reply ∈ l → reply.responseCode ≠ "59"

theorem noFraud_answers {responder : Option Responder} {source : Source}
    {reply : UniversalPaymentEvent} (responseCode : String) (h : reply.responseCode = responseCode)
    (hne : responseCode ≠ "59") : NoFraud (answers responder source reply) := by
  intro r source' reply' hmem
  obtain ⟨_, -, heq⟩ := mem_answers.mp hmem
  cases heq
  rw [h]
  exact hne

theorem NoFraud.append {l l' : List Event} (h : NoFraud l) (h' : NoFraud l') : NoFraud (l ++ l') :=
  fun r source reply hmem => (List.mem_append.mp hmem).elim (h r source reply) (h' r source reply)

theorem noFraud_nil : NoFraud [] := fun _ _ _ hmem => absurd hmem List.not_mem_nil

/-- Where a worker is that has inserted nothing. -/
def IngressPc.Uninserted : IngressPc → Prop
  | .screened _ | .scanning _ _ _ _ | .idle | .panicked => True
  | _ => False

/-- The message was inserted, or nothing was answered with RC 59. -/
def Unscreened (s t : Engine) (w : Nat) : Prop :=
  ∃ l, t.trace = s.trace ++ l ∧
    ((∃ key tx r, .inserted key tx r ∈ l) ∨ IngressPc.Uninserted (t.ingress w) ∧ NoFraud l)

/-- A step of a worker that has inserted nothing. -/
theorem took_unscreened {l l' : List Event} {pc : IngressPc} {u : Engine}
    (htrace : t.trace = s.trace ++ l) (hl : NoFraud l) (htook : t.Took u w pc l')
    (hpc : IngressPc.Uninserted pc) (hl' : NoFraud l') : Unscreened s u w := by
  refine ⟨l ++ l', by rw [htook.trace, htrace, List.append_assoc], .inr ⟨?_, hl.append hl'⟩⟩
  rw [htook.ingress, update_self]
  exact hpc

theorem dispatch_unscreened {l : List Event} (htrace : t.trace = s.trace ++ l) (hl : NoFraud l) :
    Unscreened s (t.dispatch w ctx) w := by
  have hdecline {source : Source} {reply : UniversalPaymentEvent} (responseCode : String)
      (hreply : reply.responseCode = responseCode) (hne : responseCode ≠ "59") :
      Unscreened s (t.declineFront w ctx source reply) w :=
    took_unscreened htrace hl (took_declineFront t w ctx source reply) trivial
      (noFraud_answers responseCode hreply hne)
  have hstay {pc : IngressPc} (hpc : IngressPc.Uninserted pc) :
      Unscreened s (t.setIngress w pc) w :=
    took_unscreened htrace hl (took_setIngress t w pc) hpc noFraud_nil
  unfold dispatch finishReversal guardEntry
  split
  · exact hdecline "00" rfl (by decide)
  · split
    · split
      · split
        · split
          · exact hstay trivial
          · exact hstay trivial
        · exact hdecline "00" rfl (by decide)
      · exact hdecline "00" rfl (by decide)
    · dsimp only
      split
      · exact hdecline "94" rfl (by decide)
      · refine ⟨l ++ [.inserted ctx.transaction.guardKey ctx.transaction ctx.responder], ?_, ?_⟩
        · show t.trace ++ [_] = _
          rw [htrace, List.append_assoc]
        · exact .inl ⟨_, _, _, List.mem_append_right _ (List.mem_singleton.mpr rfl)⟩

theorem scanStep_unscreened {l : List Event} {origStan : String} {scan : Scan}
    {marked : List Serial} {input : Input} {u : Engine} (htrace : t.trace = s.trace ++ l)
    (hl : NoFraud l) (h : t.scanStep w ctx origStan scan marked input = some u) :
    Unscreened s u w := by
  unfold scanStep at h
  split at h
  case h_1 key =>
    split at h
    · split at h <;> cases h
      unfold visitReversal
      split
      · refine took_unscreened htrace hl ⟨rfl, List.append_assoc _ _ _⟩ trivial ?_
        intro r source reply hmem
        simp at hmem
      · exact took_unscreened htrace hl (took_setIngress t w _) trivial noFraud_nil
    · cases h
  case h_2 =>
    split at h <;> cases h
    exact took_unscreened htrace hl (took_setIngress t w _) trivial noFraud_nil
  case h_3 =>
    split at h <;> cases h
    exact took_unscreened htrace hl (took_declineFront t w ctx _ _) trivial
      (noFraud_answers "00" rfl (by decide))
  case h_4 => cases h

theorem solo_unscreened {answerable : Bool}
    (h : (s.holding w tx answerable (.screened ctx)).Solo w t) : Unscreened s t w := by
  induction h with
  | start =>
      refine ⟨[.received tx answerable], rfl, .inr ⟨?_, ?_⟩⟩
      · rw [holding_self]
        trivial
      · intro r source reply hmem
        cases List.mem_singleton.mp hmem
  | @own t u input _ hbusy hstep ih =>
      obtain ⟨l, htrace, hcases⟩ := ih
      obtain ⟨pc, l', -, htook⟩ := ingressStep_path hstep
      rcases hcases with ⟨key, tx', r, hmem⟩ | ⟨hpc, hl⟩
      · refine ⟨l ++ l', by rw [htook.trace, htrace, List.append_assoc], .inl ?_⟩
        exact ⟨key, tx', r, List.mem_append_left _ hmem⟩
      · have hstep : t.ingressStep w input = some u := hstep
        cases hat : t.ingress w with
        | idle => exact absurd hat hbusy
        | panicked => simp [ingressStep, hat] at hstep
        | screened ctx' =>
            cases input with
            | run =>
                simp only [ingressStep, hat, Option.some.injEq] at hstep
                subst hstep
                exact dispatch_unscreened htrace hl
            | _ => simp [ingressStep, hat] at hstep
        | scanning ctx' origStan scan marked =>
            simp only [ingressStep, hat] at hstep
            exact scanStep_unscreened htrace hl hstep
        | _ =>
            rw [hat] at hpc
            exact hpc.elim

/-- Without a score a message is not screened out. -/
theorem not_screensOut (hpasses : s.Passes tx tx') (hrisk : s.mem.highRisk tx' = false) :
    ¬ s.ScreensOut w tx := by
  intro h
  obtain ⟨t, hrun, -, r, source, reply, hmem, hreply⟩ := h.answers
  have hlow : ¬ (s.holding w tx true (.detokenized
      { s.arrival tx true with transaction := tx' })).mem.highRisk tx' = true :=
    Bool.eq_false_iff.mp hrisk
  rcases solo_through hpasses hrun with ⟨pc, rfl⟩ | hscreened
  · rw [newEvents_holding] at hmem
    cases List.mem_singleton.mp hmem
  · rw [riskPreScreen_eq, if_neg hlow, setIngress_holding] at hscreened
    obtain ⟨l, htrace, hcases⟩ := solo_unscreened hscreened
    have hinserts := h.inserts t hrun
    rw [newEvents, htrace, List.drop_left] at hmem hinserts
    rcases hcases with ⟨key, tx₁, r₁, hins⟩ | ⟨-, hl⟩
    · exact hinserts key tx₁ r₁ hins
    · exact hl r source reply hmem hreply

/-! ## End to end -/

theorem Passes.riskScore (h : s.Passes tx tx') : tx'.riskScore = tx.riskScore := by
  obtain ⟨_, _, rfl⟩ := TspVault.detokenized_eq h.detokenized
  rfl

theorem risk_screened_iff {s : Engine} {w : Nat} {dialect : IngressDialect} {raw data : Bytes}
    {tx tx' : UniversalPaymentEvent} {n : Nat} (hparse : dialect.parse raw = .ok tx)
    (hfield : dialect.field48 raw = .ok (some data)) (hn : n < 1000)
    (htag : asBytes (riskTag n) <+: data) (hpasses : s.Passes tx tx')
    (hover : (s.mem.riskThreshold tx'.fpan).toNat < n) :
    s.ScreensOut w tx ↔ dialect = .standard ∧ n ≤ 255 := by
  have hscore := IngressDialect.parse_riskScore hn htag hparse hfield
  rw [← hpasses.riskScore] at hscore
  constructor
  · intro hscreens
    by_contra hlost
    have hzero : tx'.riskScore = 0 := by
      rw [hscore, scoreOf]
      split
      next hstandard =>
        split
        next hfits => exact absurd ⟨hstandard, by omega⟩ hlost
        next => rfl
      next => rfl
    refine not_screensOut hpasses ?_ hscreens
    rw [GlobalState.highRisk, hzero]
    rfl
  · rintro ⟨hstandard, hfits⟩
    rw [if_pos hstandard, scoreOf, if_pos (by omega)] at hscore
    refine screensOut_of_highRisk hpasses (highRisk_iff.mpr ?_)
    have hvalue : (UInt8.ofNat n).toNat = n := toNat_byte (by omega)
    rw [hscore, UInt8.lt_iff_toNat_lt, UInt8.lt_iff_toNat_lt, hvalue]
    exact ⟨Nat.lt_of_le_of_lt (Nat.zero_le _) hover, hover⟩

/-- A purchase with a score of 200.  The bits are those of the fields 2, 4, 11, 32, 37
and 48. -/
def scoredFrame : Bytes :=
  asBytes "0100" ++ [0x50, 0x20, 0x00, 0x01, 0x08, 0x01, 0x00, 0x00] ++
    asBytes "164111111111111111" ++ asBytes "000000001000" ++ asBytes "000100" ++
    asBytes "04ACQ1" ++ asBytes "RRN000000001" ++ asBytes "008RSK:200:"

/-- What the dialect of Interac makes of it. -/
def scoredPurchase : UniversalPaymentEvent :=
  { blankEvent (asBytes "0100") with
    fpan := asBytes "4111111111111111"
    amount := 1000
    stan := "000100"
    acquirerId := asBytes "ACQ1"
    rrn := "RRN000000001"
    tavvCryptogram := some "RSK:200:" }

theorem parse_scoredFrame : IngressDialect.interac.parse scoredFrame = .ok scoredPurchase := rfl

theorem field48_scoredFrame :
    IngressDialect.interac.field48 scoredFrame = .ok (some (asBytes (riskTag 200))) := rfl

theorem passes_scoredPurchase : (start 100 ∅).Passes scoredPurchase scoredPurchase :=
  ⟨rfl, rfl, by decide⟩

theorem risk_screened_iff_interac :
    (start 100 ∅).ScreensOut 0 scoredPurchase ↔ IngressDialect.interac = .standard ∧ 200 ≤ 255 :=
  risk_screened_iff parse_scoredFrame field48_scoredFrame (by decide) (List.prefix_refl _)
    passes_scoredPurchase (by decide)

/-- The score of 200 is no signal if the terminal speaks Interac. -/
theorem interac_not_screened : ¬ ∀ (s : Engine) (w : Nat) (dialect : IngressDialect)
    (raw data : Bytes) (tx tx' : UniversalPaymentEvent) (n : Nat), dialect.parse raw = .ok tx →
    dialect.field48 raw = .ok (some data) → n < 1000 → asBytes (riskTag n) <+: data →
    s.Passes tx tx' → (s.mem.riskThreshold tx'.fpan).toNat < n → s.ScreensOut w tx := by
  intro h
  have hscreens := h (start 100 ∅) 0 .interac scoredFrame _ _ _ 200 parse_scoredFrame
    field48_scoredFrame (by decide) (List.prefix_refl _) passes_scoredPurchase (by decide)
  exact not_screensOut passes_scoredPurchase (by decide) hscreens

end Engine

end Iso8583Switch
