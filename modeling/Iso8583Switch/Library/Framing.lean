import Iso8583Switch.Library.PrefixedLog
import Mathlib.Data.List.Induction

/-!
# Frames in a byte stream

A connection delivers a stream in chunks that know nothing of its frames.  A reader
appends each chunk to a buffer and calls its decoder until there is no whole frame
left.

A decoder reads an encoder if it takes a whole frame off the buffer, whatever is
behind it, and leaves a part of a frame alone (`Reads`).  Then the chunks do not
matter: what has been decoded is what has fully arrived (`receiveAll_arrived`) and in
the end it is everything (`receiveAll_stream`).

`u16Frame` is the frame with its length in two bytes before it, and `splitFrame` takes
one off a buffer.  A decoder that reads a frame when it is whole (`framed`) is called once
for each whole frame and then once more, unless a frame fails (`calls_of_all`,
`calls_of_first`).
-/

namespace Framing

open PrefixedLog

variable {α ε : Type}

/-! ## Decoders -/

/-- What a call gives, and the buffer that it leaves. -/
abbrev Decoder (ε α : Type) := Bytes → Except ε (Option α) × Bytes

/-- Calls until one gives `None`.  It is `none` where a call fails and where the fuel
runs out. -/
def drain (decode : Decoder ε α) : Nat → Bytes → Option (List α × Bytes)
  | 0, _ => none
  | fuel + 1, src =>
      match decode src with
      | (.ok (some item), src) => (drain decode fuel src).map fun (items, src) => (item :: items, src)
      | (.ok none, src) => some ([], src)
      | (.error _, _) => none

/-- Calls until one gives `None` or fails: how many there are, and what the last one
gives. -/
inductive Calls (decode : Decoder ε α) : Bytes → Nat → Except ε (Option α) → Prop
  | none {src rest : Bytes} : decode src = (.ok none, rest) → Calls decode src 1 (.ok none)
  | error {src rest : Bytes} {e : ε} : decode src = (.error e, rest) →
      Calls decode src 1 (.error e)
  | item {src rest : Bytes} {item : α} {n : Nat} {result : Except ε (Option α)} :
      decode src = (.ok (some item), rest) → Calls decode rest n result →
      Calls decode src (n + 1) result

theorem Calls.unique {decode : Decoder ε α} {src : Bytes} {n n' : Nat}
    {result result' : Except ε (Option α)} (h : Calls decode src n result)
    (h' : Calls decode src n' result') : n = n' ∧ result = result' := by
  induction h generalizing n' with
  | none hnone =>
      cases h' with
      | none _ => exact ⟨rfl, rfl⟩
      | error herror => rw [hnone] at herror; cases herror
      | item hitem _ => rw [hnone] at hitem; cases hitem
  | error herror =>
      cases h' with
      | none hnone => rw [herror] at hnone; cases hnone
      | error herror' => rw [herror] at herror'; cases herror'; exact ⟨rfl, rfl⟩
      | item hitem _ => rw [herror] at hitem; cases hitem
  | item hitem _ ih =>
      cases h' with
      | none hnone => rw [hitem] at hnone; cases hnone
      | error herror => rw [hitem] at herror; cases herror
      | item hitem' hrest =>
          rw [hitem] at hitem'
          cases hitem'
          obtain ⟨rfl, rfl⟩ := ih hrest
          exact ⟨rfl, rfl⟩

/-- Append a chunk to the buffer and drain it. -/
def receive (decode : Decoder ε α) (got : List α × Bytes) (chunk : Bytes) :
    Option (List α × Bytes) :=
  let src := got.2 ++ chunk
  (drain decode (src.length + 1) src).map fun (items, src) => (got.1 ++ items, src)

/-- What is decoded of some chunks, and what is left in the buffer. -/
def receiveAll (decode : Decoder ε α) (chunks : List Bytes) : Option (List α × Bytes) :=
  chunks.foldlM (receive decode) ([], [])

def stream (encode : α → Bytes) (items : List α) : Bytes := items.flatMap encode

/-- An encoder that appends to a buffer, and leaves out some items. -/
theorem foldl_append (encode : α → Bytes) (keeps : α → Bool) {append : Bytes → α → Bytes}
    (happend : ∀ dst item, append dst item = if keeps item then dst ++ encode item else dst)
    (items : List α) (dst : Bytes) :
    items.foldl append dst = dst ++ stream encode (items.filter keeps) := by
  induction items generalizing dst with
  | nil => exact (List.append_nil dst).symm
  | cons item items ih =>
      rw [List.foldl_cons, ih, happend, List.filter_cons]
      split
      · rw [List.append_assoc]
        rfl
      · rfl

/-- The decoder takes the frames of the encoder, for the items of a kind. -/
structure Reads (decode : Decoder ε α) (encode : α → Bytes) (P : α → Prop) : Prop where
  whole : ∀ item, P item → ∀ rest, decode (encode item ++ rest) = (.ok (some item), rest)
  part : ∀ item, P item → ∀ src, src <+: encode item → src.length < (encode item).length →
    decode src = (.ok none, src)
  empty : decode [] = (.ok none, [])

/-! ## Chunks -/

/-- What is left of a stream is less than its next frame. -/
def Partial (encode : α → Bytes) (residue : Bytes) : List α → Prop
  | [] => residue = []
  | item :: _ => residue.length < (encode item).length

/-- A buffer with some items decoded and others still to come. -/
structure Arrived (encode : α → Bytes) (items : List α) (src : Bytes) (decoded : List α)
    (residue : Bytes) (later : List α) : Prop where
  items_eq : items = decoded ++ later
  src_eq : src = stream encode decoded ++ residue
  residue : Partial encode residue later

section
variable {decode : Decoder ε α} {encode : α → Bytes} {P : α → Prop}

theorem Reads.length_pos (h : Reads decode encode P) {item : α} (hitem : P item) :
    0 < (encode item).length := by
  refine List.length_pos_iff.mpr fun hnil => ?_
  have hwhole := h.whole item hitem []
  rw [hnil, List.append_nil, h.empty] at hwhole
  cases hwhole

/-- Draining takes the whole frames. -/
theorem drain_arrived (h : Reads decode encode P) {items : List α} (hitems : ∀ item ∈ items, P item)
    {src : Bytes} (hsrc : src <+: stream encode items) {fuel : Nat} (hfuel : src.length < fuel) :
    ∃ decoded residue later, Arrived encode items src decoded residue later ∧
      drain decode fuel src = some (decoded, residue) := by
  obtain ⟨fuel, rfl⟩ := Nat.exists_eq_succ_of_ne_zero (Nat.ne_zero_of_lt hfuel)
  induction items generalizing src fuel with
  | nil =>
      cases List.prefix_nil.mp hsrc
      refine ⟨[], [], [], ⟨rfl, rfl, rfl⟩, ?_⟩
      rw [drain, h.empty]
  | cons item items ih =>
      have hitem := hitems item List.mem_cons_self
      rw [stream, List.flatMap_cons] at hsrc
      rcases Nat.lt_or_ge src.length (encode item).length with hpart | hwhole
      · -- The next frame has not fully arrived.
        have hprefix : src <+: encode item :=
          List.prefix_of_prefix_length_le hsrc (List.prefix_append _ _) (Nat.le_of_lt hpart)
        refine ⟨[], src, item :: items, ⟨rfl, rfl, hpart⟩, ?_⟩
        rw [drain, h.part item hitem src hprefix hpart]
      · have hprefix : encode item <+: src :=
          List.prefix_of_prefix_length_le (List.prefix_append _ _) hsrc hwhole
        obtain ⟨rest, rfl⟩ := hprefix
        have hrest : rest <+: stream encode items := (List.prefix_append_right_inj _).mp hsrc
        have hpos := h.length_pos hitem
        rw [List.length_append] at hfuel
        obtain ⟨fuel, rfl⟩ := Nat.exists_eq_succ_of_ne_zero (n := fuel) (by omega)
        obtain ⟨decoded, residue, later, harrived, hdrain⟩ :=
          ih (fun i hi => hitems i (List.mem_cons_of_mem _ hi)) hrest fuel (by omega)
        refine ⟨item :: decoded, residue, later, ⟨?_, ?_, harrived.residue⟩, ?_⟩
        · rw [harrived.items_eq, List.cons_append]
        · rw [harrived.src_eq, stream, stream, List.flatMap_cons, List.append_assoc]
        · rw [drain, h.whole item hitem rest]
          dsimp only
          rw [hdrain]
          rfl

/-- After any chunks, what has fully arrived is decoded and nothing else. -/
theorem receiveAll_arrived (h : Reads decode encode P) {items : List α}
    (hitems : ∀ item ∈ items, P item) {chunks : List Bytes}
    (hchunks : chunks.flatten <+: stream encode items) :
    ∃ decoded residue later, Arrived encode items chunks.flatten decoded residue later ∧
      receiveAll decode chunks = some (decoded, residue) := by
  induction chunks using List.reverseRecOn with
  | nil =>
      refine ⟨[], [], items, ⟨rfl, rfl, ?_⟩, rfl⟩
      cases items with
      | nil => rfl
      | cons item items => exact h.length_pos (hitems item List.mem_cons_self)
  | append_singleton chunks chunk ih =>
      rw [List.flatten_append, List.flatten_singleton] at hchunks ⊢
      obtain ⟨decoded, residue, later, harrived, hreceive⟩ :=
        ih ((List.prefix_append _ _).trans hchunks)
      -- What is in the buffer is a piece of the stream of the later items.
      have hbuffer : residue ++ chunk <+: stream encode later := by
        rw [harrived.src_eq, harrived.items_eq, stream, stream, List.flatMap_append,
          List.append_assoc] at hchunks
        exact (List.prefix_append_right_inj _).mp hchunks
      have hlater (item : α) (hmem : item ∈ later) : P item := by
        refine hitems item ?_
        rw [harrived.items_eq]
        exact List.mem_append_right _ hmem
      obtain ⟨more, residue', later', harrived', hdrain⟩ :=
        drain_arrived h hlater hbuffer (Nat.lt_succ_self _)
      refine ⟨decoded ++ more, residue', later', ⟨?_, ?_, harrived'.residue⟩, ?_⟩
      · rw [harrived.items_eq, harrived'.items_eq, List.append_assoc]
      · rw [harrived.src_eq, List.append_assoc, harrived'.src_eq, stream, stream, stream,
          List.flatMap_append, List.append_assoc]
      · rw [receiveAll] at hreceive ⊢
        rw [List.foldlM_append, hreceive, Option.bind_eq_bind, Option.bind_some, List.foldlM_cons,
          receive]
        dsimp only
        rw [hdrain]
        rfl

/-- The decoded items are as many as have fully arrived. -/
theorem Arrived.le_length {items decoded later : List α} {src residue : Bytes}
    (h : Arrived encode items src decoded residue later) {m : Nat} (hm : m ≤ items.length)
    (harrived : (stream encode (items.take m)).length ≤ src.length) : m ≤ decoded.length := by
  refine Nat.not_lt.mp fun hlt => ?_
  obtain ⟨rfl, rfl, hpartial⟩ := h
  cases later with
  | nil =>
      rw [List.append_nil] at hm
      omega
  | cons item later =>
      obtain ⟨k, rfl⟩ := Nat.exists_eq_add_of_lt hlt
      have htake : (decoded ++ item :: later).take (decoded.length + k + 1) =
          decoded ++ item :: later.take k := by
        rw [Nat.add_assoc, List.take_length_add_append, List.take_succ_cons]
      rw [htake] at harrived
      simp only [stream, List.flatMap_append, List.flatMap_cons, List.length_append] at harrived
      have hlength : residue.length < (encode item).length := hpartial
      omega

theorem Arrived.le_length_iff {items decoded later : List α} {src residue : Bytes}
    (h : Arrived encode items src decoded residue later) {m : Nat} (hm : m ≤ items.length) :
    m ≤ decoded.length ↔ (stream encode (items.take m)).length ≤ src.length := by
  refine ⟨fun hle => ?_, h.le_length hm⟩
  rw [h.items_eq, h.src_eq, List.take_append_of_le_length hle]
  obtain ⟨rest, hrest⟩ := List.take_prefix m decoded
  have hsplit : stream encode decoded = stream encode (decoded.take m) ++ stream encode rest := by
    rw [stream, stream, stream, ← List.flatMap_append, hrest]
  rw [hsplit, List.length_append, List.length_append]
  omega

/-- The whole stream is decoded, however it is cut. -/
theorem receiveAll_stream (h : Reads decode encode P) {items : List α}
    (hitems : ∀ item ∈ items, P item) {chunks : List Bytes}
    (hchunks : chunks.flatten = stream encode items) :
    receiveAll decode chunks = some (items, []) := by
  have hprefix : chunks.flatten <+: stream encode items := ⟨[], by rw [hchunks, List.append_nil]⟩
  obtain ⟨decoded, residue, later, harrived, hreceive⟩ := receiveAll_arrived h hitems hprefix
  have hle : items.length ≤ decoded.length :=
    harrived.le_length (Nat.le_refl _) (by rw [List.take_length, hchunks])
  have hlater : later = [] := by
    rw [harrived.items_eq, List.length_append] at hle
    exact List.length_eq_zero_iff.mp (by omega)
  obtain ⟨rfl, -, hpartial⟩ := harrived
  subst hlater
  cases hpartial
  rw [hreceive, List.append_nil]

end

/-! ## Frames with a length of two bytes -/

def u16Frame (bytes : Bytes) : Bytes := beBytes 2 bytes.length ++ bytes

/-- Take a frame off a buffer, if there is a whole one. -/
def splitFrame (src : Bytes) : Option Bytes × Bytes :=
  if src.length < 2 then (none, src)
  else
    let length := fromBe (src.take 2)
    if src.length < 2 + length then (none, src)
    else
      let src := src.drop 2
      (some (src.take length), src.drop length)

theorem length_u16Frame (bytes : Bytes) : (u16Frame bytes).length = 2 + bytes.length := by
  rw [u16Frame, List.length_append, length_beBytes]

theorem splitFrame_whole {bytes : Bytes} (h : bytes.length < 2 ^ 16) (rest : Bytes) :
    splitFrame (u16Frame bytes ++ rest) = (some bytes, rest) := by
  have hbe : fromBe (beBytes 2 bytes.length) = bytes.length := fromBe_beBytes (by norm_num at h ⊢; exact h)
  have htake : (u16Frame bytes ++ rest).take 2 = beBytes 2 bytes.length := by
    rw [u16Frame, List.append_assoc]
    exact List.take_left' (length_beBytes 2 _)
  have hdrop : (u16Frame bytes ++ rest).drop 2 = bytes ++ rest := by
    rw [u16Frame, List.append_assoc]
    exact List.drop_left' (length_beBytes 2 _)
  have hlength : (u16Frame bytes ++ rest).length = 2 + bytes.length + rest.length := by
    rw [List.length_append, length_u16Frame]
  rw [splitFrame, if_neg (by omega)]
  dsimp only
  rw [htake, hbe, if_neg (by omega), hdrop, List.take_left, List.drop_left]

/-- A part of a frame is left alone: its length says that it goes on. -/
theorem splitFrame_part {bytes src : Bytes} (h : bytes.length < 2 ^ 16)
    (hsrc : src <+: u16Frame bytes) (hlt : src.length < (u16Frame bytes).length) :
    splitFrame src = (none, src) := by
  rw [splitFrame]
  split
  next => rfl
  next hshort =>
    have hbe : fromBe (beBytes 2 bytes.length) = bytes.length :=
      fromBe_beBytes (by norm_num at h ⊢; exact h)
    have htake : src.take 2 = beBytes 2 bytes.length := by
      obtain ⟨rest, hrest⟩ := hsrc
      have hboth := congrArg (List.take 2) hrest
      rw [List.take_append_of_le_length (by omega), u16Frame,
        List.take_left' (length_beBytes 2 _)] at hboth
      exact hboth
    rw [length_u16Frame] at hlt
    dsimp only
    rw [htake, hbe, if_pos hlt]

/-! ## The frames of a buffer -/

theorem length_splitFrame {src frame rest : Bytes} (h : splitFrame src = (some frame, rest)) :
    rest.length < src.length := by
  rw [splitFrame] at h
  split at h
  next => cases h
  next hlong =>
    dsimp only at h
    split at h
    next => cases h
    next =>
      cases h
      rw [List.length_drop, List.length_drop]
      omega

/-- The whole frames of a buffer. -/
def wholeFrames (src : Bytes) : List Bytes :=
  match _h : splitFrame src with
  | (none, _) => []
  | (some frame, rest) => frame :: wholeFrames rest
termination_by src.length
decreasing_by exact length_splitFrame _h

theorem wholeFrames_none {src rest : Bytes} (h : splitFrame src = (none, rest)) :
    wholeFrames src = [] := by
  rw [wholeFrames]
  split
  next => rfl
  next hsome => rw [h] at hsome; cases hsome

theorem wholeFrames_some {src frame rest : Bytes} (h : splitFrame src = (some frame, rest)) :
    wholeFrames src = frame :: wholeFrames rest := by
  rw [wholeFrames]
  split
  next hnone => rw [h] at hnone; cases hnone
  next hsome => rw [h] at hsome; cases hsome; rfl

theorem splitFrame_of_nil {src : Bytes} (h : wholeFrames src = []) :
    ∃ rest, splitFrame src = (none, rest) := by
  rcases hsplit : splitFrame src with ⟨_ | frame, rest⟩
  · exact ⟨rest, rfl⟩
  · rw [wholeFrames_some hsplit] at h
    cases h

theorem splitFrame_of_cons {src frame : Bytes} {frames : List Bytes}
    (h : wholeFrames src = frame :: frames) :
    ∃ rest, splitFrame src = (some frame, rest) ∧ wholeFrames rest = frames := by
  rcases hsplit : splitFrame src with ⟨_ | first, rest⟩
  · rw [wholeFrames_none hsplit] at h
    cases h
  · rw [wholeFrames_some hsplit] at h
    cases h
    exact ⟨rest, rfl, rfl⟩

/-- A decoder that reads a frame when it is whole. -/
def framed (read : Bytes → Except ε α) : Decoder ε α := fun src =>
  match splitFrame src with
  | (none, src) => (.ok none, src)
  | (some frame, src) => ((read frame).map some, src)

section
variable {read : Bytes → Except ε α}

theorem framed_none {src rest : Bytes} (h : splitFrame src = (none, rest)) :
    framed read src = (.ok none, rest) := by
  rw [framed, h]

theorem framed_ok {src frame rest : Bytes} {item : α} (h : splitFrame src = (some frame, rest))
    (hread : read frame = .ok item) : framed read src = (.ok (some item), rest) := by
  rw [framed, h]
  dsimp only
  rw [hread]
  rfl

theorem framed_error {src frame rest : Bytes} {e : ε} (h : splitFrame src = (some frame, rest))
    (hread : read frame = .error e) : framed read src = (.error e, rest) := by
  rw [framed, h]
  dsimp only
  rw [hread]
  rfl

/-- It reads the frames of what it reads the bytes of. -/
theorem reads_framed {bytes : α → Bytes} {P : α → Prop}
    (hshort : ∀ item, P item → (bytes item).length < 2 ^ 16)
    (hread : ∀ item, P item → read (bytes item) = .ok item) :
    Reads (framed read) (fun item => u16Frame (bytes item)) P where
  whole item hitem rest := framed_ok (splitFrame_whole (hshort item hitem) rest) (hread item hitem)
  part item hitem _ hsrc hlt := framed_none (splitFrame_part (hshort item hitem) hsrc hlt)
  empty := framed_none rfl

/-- A buffer of which every whole frame can be read. -/
theorem calls_of_all {src : Bytes} (h : ∀ frame ∈ wholeFrames src, ∃ item, read frame = .ok item) :
    Calls (framed read) src ((wholeFrames src).length + 1) (.ok none) := by
  induction hframes : wholeFrames src generalizing src with
  | nil =>
      obtain ⟨rest, hsplit⟩ := splitFrame_of_nil hframes
      exact .none (framed_none hsplit)
  | cons frame frames ih =>
      rw [hframes] at h
      obtain ⟨rest, hsplit, rfl⟩ := splitFrame_of_cons hframes
      obtain ⟨item, hread⟩ := h frame List.mem_cons_self
      exact .item (framed_ok hsplit hread) (ih (fun f hf => h f (List.mem_cons_of_mem _ hf)) rfl)

/-- A buffer with a frame that fails behind others that can be read. -/
theorem calls_of_first {src frame : Bytes} {before after : List Bytes} {e : ε}
    (hframes : wholeFrames src = before ++ frame :: after)
    (hbefore : ∀ f ∈ before, ∃ item, read f = .ok item) (hread : read frame = .error e) :
    Calls (framed read) src (before.length + 1) (.error e) := by
  induction before generalizing src with
  | nil =>
      obtain ⟨rest, hsplit, -⟩ := splitFrame_of_cons hframes
      exact .error (framed_error hsplit hread)
  | cons first before ih =>
      obtain ⟨rest, hsplit, hrest⟩ := splitFrame_of_cons hframes
      obtain ⟨item, hfirst⟩ := hbefore first List.mem_cons_self
      exact .item (framed_ok hsplit hfirst)
        (ih hrest fun f hf => hbefore f (List.mem_cons_of_mem _ hf))

/-- All frames can be read, or there is a first one that fails. -/
theorem all_or_first (read : Bytes → Except ε α) (frames : List Bytes) :
    (∀ frame ∈ frames, ∃ item, read frame = .ok item) ∨
      ∃ before frame after e, frames = before ++ frame :: after ∧
        (∀ f ∈ before, ∃ item, read f = .ok item) ∧ read frame = .error e := by
  induction frames with
  | nil => exact .inl (List.forall_mem_nil _)
  | cons first frames ih =>
      cases hread : read first with
      | error e => exact .inr ⟨[], first, frames, e, rfl, List.forall_mem_nil _, hread⟩
      | ok item =>
          rcases ih with hall | ⟨before, frame, after, e, rfl, hbefore, hfails⟩
          · exact .inl (List.forall_mem_cons.mpr ⟨⟨item, hread⟩, hall⟩)
          · exact .inr ⟨first :: before, frame, after, e, rfl,
              List.forall_mem_cons.mpr ⟨⟨item, hread⟩, hbefore⟩, hfails⟩

end

end Framing
