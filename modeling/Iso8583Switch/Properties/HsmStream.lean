import Iso8583Switch.Properties.StreamFraming

/-!
# Reading the stream of the HSM

The reader calls `decode` until it gives `None` or fails.  It is called once for each
whole frame and then at most once more, so it always comes to an end.

A call can fail in three ways.  A frame that is not UTF-8 or has fewer than six bytes is an
error.  A frame in which the header or the command ends inside a character panics (`Torn`).
The reader comes to it if the frames in front of it are all messages.
-/

namespace Iso8583Switch

open Text Framing

namespace ThalesCodec

/-! ## Frames -/

/-- The frame is a message. -/
def Readable (data : Bytes) : Prop :=
  ∃ text, data = asBytes text ∧ 6 ≤ len text ∧
    isCharBoundary text 4 = true ∧ isCharBoundary text 6 = true

/-- The frame is long enough, but a character goes over the end of the header or of the
command. -/
def Torn (data : Bytes) : Prop :=
  ∃ text, data = asBytes text ∧ 6 ≤ len text ∧
    ¬ (isCharBoundary text 4 = true ∧ isCharBoundary text 6 = true)

theorem cut_ok {text : String} {a b : Nat} (hab : a ≤ b) (ha : isCharBoundary text a = true)
    (hb : isCharBoundary text b = true) : ∃ part, cut text a b = .ok part := by
  have hsome : (slice text a b).isSome = true := by
    rw [isSome_slice, decide_eq_true hab, ha, hb]
    rfl
  obtain ⟨part, hslice⟩ := Option.isSome_iff_exists.mp hsome
  exact ⟨part, by rw [cut, hslice]⟩

theorem cut_panicked {text : String} {a b : Nat}
    (h : ¬ (isCharBoundary text a = true ∧ isCharBoundary text b = true)) :
    cut text a b = .error .panicked := by
  have hnone : slice text a b = none := by
    refine Option.not_isSome_iff_eq_none.mp fun hsome => h ?_
    rw [isSome_slice, Bool.and_eq_true_iff, Bool.and_eq_true_iff] at hsome
    exact ⟨hsome.1.2, hsome.2⟩
  rw [cut, hnone]

theorem message_readable {data : Bytes} (h : Readable data) :
    ∃ item, message data = .ok item := by
  obtain ⟨text, rfl, hlong, hfour, hsix⟩ := h
  obtain ⟨header, hheader⟩ := cut_ok (Nat.zero_le 4) (isCharBoundary_zero text) hfour
  obtain ⟨command, hcommand⟩ := cut_ok (by omega) hfour hsix
  obtain ⟨payload, hpayload⟩ := cut_ok hlong hsix (isCharBoundary_len text)
  refine ⟨⟨header, command, payload⟩, ?_⟩
  rw [message, fromUtf8_asBytes]
  dsimp only
  rw [if_neg (Nat.not_lt.mpr hlong), hheader, hcommand, hpayload]
  rfl

theorem message_torn {data : Bytes} (h : Torn data) : message data = .error .panicked := by
  obtain ⟨text, rfl, hlong, htorn⟩ := h
  rw [message, fromUtf8_asBytes]
  dsimp only
  rw [if_neg (Nat.not_lt.mpr hlong)]
  by_cases hfour : isCharBoundary text 4 = true
  · obtain ⟨header, hheader⟩ := cut_ok (Nat.zero_le 4) (isCharBoundary_zero text) hfour
    rw [hheader, cut_panicked htorn]
    rfl
  · rw [cut_panicked fun hboth => hfour hboth.2]
    rfl

/-- A frame is a message, panics or is an error. -/
theorem readable_or_torn (data : Bytes) :
    Readable data ∨ Torn data ∨ ∃ e, message data = .error e ∧ e ≠ .panicked := by
  by_cases htext : asBytes (fromUtf8Lossy data) = data
  · rcases Nat.lt_or_ge (len (fromUtf8Lossy data)) 6 with hshort | hlong
    · refine .inr (.inr ⟨.invalidData "Thales message too short", ?_, ThalesFailure.noConfusion⟩)
      rw [message, fromUtf8, if_pos htext]
      exact if_pos hshort
    · by_cases hcuts : isCharBoundary (fromUtf8Lossy data) 4 = true ∧
          isCharBoundary (fromUtf8Lossy data) 6 = true
      · exact .inl ⟨_, htext.symm, hlong, hcuts⟩
      · exact .inr (.inl ⟨_, htext.symm, hlong, hcuts⟩)
  · refine .inr (.inr ⟨.invalidUtf8 data, ?_, ThalesFailure.noConfusion⟩)
    rw [message, fromUtf8, if_neg htext]

theorem readable_of_ok {data : Bytes} {item : ThalesMessage} (h : message data = .ok item) :
    Readable data := by
  rcases readable_or_torn data with hreadable | htorn | ⟨e, herror, -⟩
  · exact hreadable
  · rw [message_torn htorn] at h
    cases h
  · rw [herror] at h
    cases h

theorem torn_of_panicked {data : Bytes} (h : message data = .error .panicked) : Torn data := by
  rcases readable_or_torn data with hreadable | htorn | ⟨e, herror, hne⟩
  · obtain ⟨item, hitem⟩ := message_readable hreadable
    rw [hitem] at h
    cases h
  · exact htorn
  · rw [herror] at h
    exact absurd (Except.error.inj h) hne

/-! ## Buffers -/

/-- The calls on a buffer come to an end in time, and none of them panics. -/
def Ends (src : Bytes) : Prop :=
  ∃ n result, Calls decode src n result ∧ n ≤ (wholeFrames src).length + 1 ∧
    result ≠ .error .panicked

/-- No torn frame comes behind messages only. -/
def Whole (src : Bytes) : Prop :=
  ∀ before data after, wholeFrames src = before ++ data :: after →
    (∀ d ∈ before, Readable d) → ¬ Torn data

/-- The calls on any buffer come to an end in time. -/
theorem calls_end (src : Bytes) :
    ∃ n result, Calls decode src n result ∧ n ≤ (wholeFrames src).length + 1 := by
  rw [decode_eq]
  rcases all_or_first message (wholeFrames src) with hall | ⟨before, data, after, e, hframes,
    hbefore, herror⟩
  · exact ⟨_, _, calls_of_all hall, Nat.le_refl _⟩
  · refine ⟨_, _, calls_of_first hframes hbefore herror, ?_⟩
    rw [hframes, List.length_append]
    omega

end ThalesCodec

open ThalesCodec in
/-- The calls on a buffer come to an end without a panic if the reader comes to no torn
frame. -/
theorem hsm_stream_ends_iff (src : Bytes) : ThalesCodec.Ends src ↔ ThalesCodec.Whole src := by
  constructor
  · rintro ⟨n, result, hcalls, -, hne⟩ before data after hframes hbefore htorn
    rw [decode_eq] at hcalls
    have hpanic := calls_of_first hframes (fun d hd => message_readable (hbefore d hd))
      (message_torn htorn)
    exact hne (hcalls.unique hpanic).2
  · intro h
    obtain ⟨n, result, hcalls, hn⟩ := calls_end src
    refine ⟨n, result, hcalls, hn, ?_⟩
    rintro rfl
    rw [decode_eq] at hcalls
    rcases all_or_first message (wholeFrames src) with hall | ⟨before, data, after, e, hframes,
      hbefore, herror⟩
    · cases (hcalls.unique (calls_of_all hall)).2
    · cases (hcalls.unique (calls_of_first hframes hbefore herror)).2
      refine h before data after hframes (fun d hd => ?_) (torn_of_panicked herror)
      obtain ⟨item, hitem⟩ := hbefore d hd
      exact readable_of_ok hitem

/-- A frame of six bytes with a letter of two bytes across the end of the header. -/
theorem torn_frame_panics : ¬ ∀ src : Bytes, ThalesCodec.Ends src := by
  intro h
  obtain ⟨n, result, hcalls, -, hne⟩ := h [0, 6, 48, 48, 48, 0xC3, 0xA9, 49]
  have hsplit : splitFrame [0, 6, 48, 48, 48, 0xC3, 0xA9, 49] =
      (some [48, 48, 48, 0xC3, 0xA9, 49], []) := by decide
  have htorn : ThalesCodec.Torn [48, 48, 48, 0xC3, 0xA9, 49] :=
    ⟨"000\u00E91", by decide, by decide, by decide⟩
  rw [ThalesCodec.decode_eq] at hcalls
  exact hne (hcalls.unique (.error (framed_error hsplit (ThalesCodec.message_torn htorn)))).2

end Iso8583Switch
