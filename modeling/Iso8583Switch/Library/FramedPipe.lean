import Iso8583Switch.Library.Framing

/-!
# Framed connections

A connection carries items from a writer to a reader.  The writer encodes an item at the
end of its buffer.  The connection takes bytes off that buffer and brings them to the buffer
of the reader, any number at a time, and the reader calls its decoder whenever it likes.
When the connection breaks, what is on its way is lost and nothing comes behind it.

If the decoder reads the frames of the encoder, the connection is a queue: in every state
the reader has taken the first of the items that were put (`Sound.taken_initial`), and when
no bytes are left on the way it has taken all of them (`Sound.taken_eq`).
-/

namespace Framing

open PrefixedLog

variable {α ε : Type}

/-- One direction of a connection.  `put` and `taken` are histories. -/
structure Pipe (α : Type) where
  put : List α
  outBuffer : Bytes
  onWay : Bytes
  inBuffer : Bytes
  taken : List α
  broken : Bool

inductive PipeAction (α : Type) where
  | put (item : α)
  /-- The connection takes the first bytes of the writer's buffer. -/
  | transmit (n : Nat)
  /-- The first bytes on the way come to the reader's buffer. -/
  | arrive (n : Nat)
  | take
  | cut

namespace Pipe

def opened : Pipe α := ⟨[], [], [], [], [], false⟩

/-- A call of the decoder that gives an item. -/
def take (decode : Decoder ε α) (p : Pipe α) : Option (Pipe α) :=
  match decode p.inBuffer with
  | (.ok (some item), rest) => some { p with inBuffer := rest, taken := p.taken ++ [item] }
  | _ => none

def step (decode : Decoder ε α) (encode : α → Bytes) (p : Pipe α) :
    PipeAction α → Option (Pipe α)
  | .put item =>
      some { p with put := p.put ++ [item], outBuffer := p.outBuffer ++ encode item }
  | .transmit n =>
      if p.broken then none
      else some { p with onWay := p.onWay ++ p.outBuffer.take n, outBuffer := p.outBuffer.drop n }
  | .arrive n => some { p with inBuffer := p.inBuffer ++ p.onWay.take n, onWay := p.onWay.drop n }
  | .take => p.take decode
  | .cut => some { p with onWay := [], broken := true }

/-- The bytes behind what has been taken, up to where the connection broke. -/
def pending (p : Pipe α) : Bytes := p.inBuffer ++ p.onWay

/-- What has been taken, what is on its way and what is still with the writer make up what
was put. -/
structure Sound (P : α → Prop) (encode : α → Bytes) (p : Pipe α) : Prop where
  items : ∀ item ∈ p.put, P item
  taken_initial : p.taken <+: p.put
  pending_prefix : stream encode p.taken ++ p.pending <+: stream encode p.put
  whole : p.broken = false →
    stream encode p.put = stream encode p.taken ++ p.pending ++ p.outBuffer

variable {P : α → Prop} {encode : α → Bytes} {decode : Decoder ε α} {p p' : Pipe α}

theorem taken_of_step {a : PipeAction α} (ha : a ≠ .take)
    (hstep : p.step decode encode a = some p') : p'.taken = p.taken := by
  cases a with
  | put item => cases hstep; rfl
  | transmit k =>
      simp only [Pipe.step] at hstep
      split at hstep <;> cases hstep
      rfl
  | arrive k => cases hstep; rfl
  | take => exact absurd rfl ha
  | cut => cases hstep; rfl

theorem put_of_step {a : PipeAction α} (ha : ∀ item, a ≠ .put item)
    (hstep : p.step decode encode a = some p') : p'.put = p.put := by
  cases a with
  | put item => exact absurd rfl (ha item)
  | transmit k =>
      simp only [Pipe.step] at hstep
      split at hstep <;> cases hstep
      rfl
  | arrive k => cases hstep; rfl
  | take =>
      simp only [Pipe.step, Pipe.take] at hstep
      split at hstep <;> cases hstep
      rfl
  | cut => cases hstep; rfl

theorem put_of_put {item : α} (hstep : p.step decode encode (.put item) = some p') :
    p'.put = p.put ++ [item] := by
  cases hstep
  rfl

theorem sound_opened : Sound P encode (opened : Pipe α) where
  items := List.forall_mem_nil _
  taken_initial := List.prefix_refl _
  pending_prefix := List.prefix_refl _
  whole _ := rfl

theorem stream_append (items more : List α) :
    stream encode (items ++ more) = stream encode items ++ stream encode more :=
  List.flatMap_append

theorem stream_singleton (item : α) : stream encode [item] = encode item :=
  List.flatMap_singleton ..

/-- What is behind the items that were taken starts with what is in the buffer. -/
theorem Sound.later (h : Sound P encode p) :
    ∃ later, p.put = p.taken ++ later ∧ p.inBuffer <+: stream encode later := by
  obtain ⟨later, hlater⟩ := h.taken_initial
  refine ⟨later, hlater.symm, ?_⟩
  have hpending := h.pending_prefix
  rw [← hlater, stream_append] at hpending
  exact (List.prefix_append _ _).trans ((List.prefix_append_right_inj _).mp hpending)

/-- A call gives the next item, and takes its frame off the buffer. -/
theorem Sound.take_eq (hreads : Reads decode encode P) (h : Sound P encode p)
    (htake : p.take decode = some p') : ∃ item later rest, p.put = p.taken ++ item :: later ∧
      p.inBuffer = encode item ++ rest ∧
      p' = { p with inBuffer := rest, taken := p.taken ++ [item] } := by
  obtain ⟨later, hput, hbuffer⟩ := h.later
  cases later with
  | nil =>
      rw [take, List.prefix_nil.mp hbuffer, hreads.empty] at htake
      cases htake
  | cons item later =>
      have hitem : P item := h.items item (by rw [hput]; simp)
      rw [stream, List.flatMap_cons] at hbuffer
      rcases Nat.lt_or_ge p.inBuffer.length (encode item).length with hpart | hwhole
      · have hprefix := List.prefix_of_prefix_length_le hbuffer (List.prefix_append _ _)
          (Nat.le_of_lt hpart)
        rw [take, hreads.part item hitem _ hprefix hpart] at htake
        cases htake
      · obtain ⟨rest, hrest⟩ :=
          List.prefix_of_prefix_length_le (List.prefix_append _ _) hbuffer hwhole
        rw [take, ← hrest, hreads.whole item hitem rest] at htake
        cases htake
        exact ⟨item, later, rest, hput, hrest.symm, rfl⟩

theorem Sound.step (hreads : Reads decode encode P) (h : Sound P encode p) {a : PipeAction α}
    (hput : ∀ item, a = .put item → P item) (hstep : p.step decode encode a = some p') :
    Sound P encode p' := by
  cases a with
  | put item =>
      cases hstep
      refine ⟨?_, h.taken_initial.trans (List.prefix_append _ _), ?_, fun hwhole => ?_⟩
      · intro other hother
        rcases List.mem_append.mp hother with hold | hnew
        · exact h.items other hold
        · exact hput other (by rw [List.mem_singleton.mp hnew])
      · rw [stream_append]
        exact h.pending_prefix.trans (List.prefix_append _ _)
      · dsimp only
        rw [stream_append, stream_singleton, h.whole hwhole]
        simp only [pending, List.append_assoc]
  | transmit n =>
      simp only [Pipe.step] at hstep
      split at hstep <;> cases hstep
      next hopen =>
        have hwhole := h.whole (by simpa using hopen)
        have hsplit : stream encode p.put = stream encode p.taken ++
            (p.inBuffer ++ (p.onWay ++ p.outBuffer.take n)) ++ p.outBuffer.drop n := by
          rw [hwhole]
          simp only [pending, List.append_assoc, List.take_append_drop]
        exact ⟨h.items, h.taken_initial, ⟨_, hsplit.symm⟩, fun _ => hsplit⟩
  | arrive n =>
      cases hstep
      have hsame : p.inBuffer ++ p.onWay.take n ++ p.onWay.drop n = p.pending := by
        rw [pending, List.append_assoc, List.take_append_drop]
      refine ⟨h.items, h.taken_initial, ?_, fun hopen => ?_⟩
      · rw [pending, hsame]
        exact h.pending_prefix
      · rw [pending, hsame]
        exact h.whole hopen
  | take =>
      obtain ⟨item, later, rest, hlater, hbuffer, rfl⟩ := h.take_eq hreads hstep
      have hsame : stream encode (p.taken ++ [item]) ++ (rest ++ p.onWay) =
          stream encode p.taken ++ p.pending := by
        rw [stream_append, stream_singleton, pending, hbuffer]
        simp only [List.append_assoc]
      refine ⟨h.items, ⟨later, ?_⟩, ?_, fun hopen => ?_⟩
      · rw [List.append_assoc, hlater]
        rfl
      · rw [pending, hsame]
        exact h.pending_prefix
      · rw [pending, hsame]
        exact h.whole hopen
  | cut =>
      cases hstep
      refine ⟨h.items, h.taken_initial, ?_, fun hopen => by cases hopen⟩
      refine List.IsPrefix.trans ?_ h.pending_prefix
      rw [List.prefix_append_right_inj, pending, pending, List.append_nil]
      exact List.prefix_append _ _

/-- When the connection has not broken and no bytes are left that make a frame, everything
has been taken. -/
theorem Sound.taken_eq (hreads : Reads decode encode P) (h : Sound P encode p)
    (hopen : p.broken = false) (hsent : p.outBuffer = []) (harrived : p.onWay = [])
    (hdry : p.take decode = none) : p.taken = p.put := by
  obtain ⟨later, hput, -⟩ := h.later
  cases later with
  | nil => rw [hput, List.append_nil]
  | cons item later =>
      have hitem : P item := h.items item (by rw [hput]; simp)
      have hwhole := h.whole hopen
      rw [hput, stream_append, pending, hsent, harrived, List.append_nil, List.append_nil,
        List.append_cancel_left_eq, stream, List.flatMap_cons] at hwhole
      rw [take, ← hwhole, hreads.whole item hitem] at hdry
      cases hdry

end Pipe

end Framing
