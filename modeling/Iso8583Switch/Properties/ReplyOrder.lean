import Iso8583Switch.Edge.ReplyWriter
import Iso8583Switch.Properties.StreamFraming

/-!
# What the other end of a connection gets

Whatever fails, the other end takes some of the messages that were queued, in their order
and none twice (`read_sublist`).  If no feed fails it takes the first ones
(`taken_initial`), and all of them once everything has arrived (`taken_all`).
-/

namespace Iso8583Switch

open Framing

/-- Both crates read what either writes. -/
theorem CodecCrate.reads_codec (peer : CodecCrate) :
    Reads (peer.decode (ε := Empty)) codecEncode (·.length ≤ 65535) := by
  have hencode : codecEncode = u16Frame := funext codecEncode_eq
  rw [hencode]
  exact peer.reads

namespace ReplyWriter

variable {peer : CodecCrate} {w w' : ReplyWriter}

/-- The message that the task has taken off the queue. -/
def Pc.inHand : Pc → List (Nat × Bytes)
  | .feeding n msg => [(n, msg)]
  | _ => []

/-- What is still to be fed. -/
def waiting (w : ReplyWriter) : List (Nat × Bytes) := w.writer.inHand ++ w.queue

/-- No message is too long for its length field. -/
def Short (_ : ReplyWriter) (a : Action) : Prop :=
  ∀ n msg, a = .push n msg → msg.length ≤ 65535

/-- And no feed fails. -/
def Unfailing (w : ReplyWriter) (a : Action) : Prop := Short w a ∧ a.failsFeed = false

/-! ## One step -/

/-- What a step does with the messages and with the pipe. -/
inductive Move (peer : CodecCrate) (w : ReplyWriter) (a : Action) (w' : ReplyWriter) : Prop where
  | stay (hpipe : w'.pipe = w.pipe) (hfed : w'.fed = w.fed) (hwaiting : w'.waiting = w.waiting)
      (hqueued : w'.queued = w.queued)
  | wire (p : PipeAction Bytes) (hp : ∀ item, p ≠ .put item) (htake : p = .take → a = .wire .take)
      (hpipe : w.pipe.step (peer.decode (ε := Empty)) codecEncode p = some w'.pipe)
      (hfed : w'.fed = w.fed) (hwaiting : w'.waiting = w.waiting) (hqueued : w'.queued = w.queued)
  | push (n : Nat) (msg : Bytes) (ha : a = .push n msg) (hpipe : w'.pipe = w.pipe)
      (hfed : w'.fed = w.fed) (hwaiting : w'.waiting = w.waiting ++ [(n, msg)])
      (hqueued : w'.queued = w.queued ++ [(n, msg)])
  | feed (x : Nat × Bytes)
      (hpipe : w.pipe.step (peer.decode (ε := Empty)) codecEncode (.put x.2) = some w'.pipe)
      (hfed : w'.fed = w.fed ++ [x]) (hwaiting : w.waiting = x :: w'.waiting)
      (hqueued : w'.queued = w.queued)
  | lose (x : Nat × Bytes) (ha : a.failsFeed = true) (hpipe : w'.pipe = w.pipe)
      (hfed : w'.fed = w.fed) (hwaiting : w.waiting = x :: w'.waiting)
      (hqueued : w'.queued = w.queued)

theorem move_of_pipe {p : PipeAction Bytes} (hp : ∀ item, p ≠ .put item) {a : Action}
    (htake : p = .take → a = .wire .take) (hstep : w.pipeStep peer p = some w') :
    Move peer w a w' := by
  obtain ⟨pipe, hpipe, rfl⟩ := Option.map_eq_some_iff.mp hstep
  exact .wire p hp htake hpipe rfl rfl rfl

theorem move_of_turn {closed : Bool} {t : Turn} (hstep : w.taskStep peer closed t = some w') :
    Move peer w (.run closed t) w' := by
  cases t with
  | recv =>
      simp only [taskStep] at hstep
      split at hstep <;> cases hstep
      next hwriter hqueue => exact .stay rfl rfl (by simp [waiting, hwriter, hqueue, Pc.inHand]) rfl
  | hangUp =>
      simp only [taskStep] at hstep
      split at hstep
      next hwriter _ =>
        split at hstep <;> cases hstep
        exact .stay rfl rfl (by simp [waiting, hwriter, Pc.inHand]) rfl
      next => cases hstep
  | feed ok =>
      simp only [taskStep] at hstep
      split at hstep
      next n msg hwriter =>
        have hwaiting : w.waiting = (n, msg) :: w.queue := by rw [waiting, hwriter]; rfl
        cases ok with
        | true => cases hstep; exact .feed (n, msg) rfl rfl hwaiting rfl
        | false => cases hstep; exact .lose (n, msg) rfl rfl rfl hwaiting rfl
      next => cases hstep
  | tryRecv =>
      simp only [taskStep] at hstep
      split at hstep <;> cases hstep
      next hwriter hqueue => exact .stay rfl rfl (by simp [waiting, hwriter, hqueue, Pc.inHand]) rfl
      next hwriter _ => exact .stay rfl rfl (by simp [waiting, hwriter, Pc.inHand]) rfl
  | transmit k =>
      simp only [taskStep] at hstep
      split at hstep
      · exact move_of_pipe (fun _ heq => by cases heq) (fun heq => by cases heq) hstep
      · cases hstep
  | flush =>
      simp only [taskStep] at hstep
      split at hstep <;> cases hstep
      next hwriter => exact .stay rfl rfl (by simp [waiting, hwriter, Pc.inHand]) rfl

theorem move_of_step {a : Action} (hstep : w.step peer a = some w') : Move peer w a w' := by
  cases a with
  | push n msg =>
      cases hstep
      exact .push n msg rfl rfl rfl (List.append_assoc _ _ _).symm rfl
  | run closed t => exact move_of_turn hstep
  | wire p =>
      simp only [step] at hstep
      split at hstep
      · cases hstep
      · cases hstep
      next hput _ => exact move_of_pipe hput (congrArg Action.wire) hstep

theorem queued_of_step {a : Action} (hpush : ∀ n msg, a ≠ .push n msg)
    (hstep : w.step peer a = some w') : w'.queued = w.queued := by
  cases move_of_step hstep with
  | stay _ _ _ hqueued => exact hqueued
  | wire _ _ _ _ _ _ hqueued => exact hqueued
  | push n msg ha => exact absurd ha (hpush n msg)
  | feed _ _ _ _ hqueued => exact hqueued
  | lose _ _ _ _ _ hqueued => exact hqueued

/-! ## All runs -/

theorem fed_put {P : ReplyWriter → Action → Prop} (h : Reachable peer P w) :
    w.pipe.put = w.fed.map Prod.snd := by
  refine h.invariant (I := fun w => w.pipe.put = w.fed.map Prod.snd) ?_ ?_
  · rintro _ rfl
    rfl
  · rintro w w' - heq ⟨a, -, hstep⟩
    cases move_of_step hstep with
    | stay hpipe hfed => rw [hpipe, hfed, heq]
    | wire p hp _ hpipe hfed => rw [Pipe.put_of_step hp hpipe, hfed, heq]
    | push n msg _ hpipe hfed => rw [hpipe, hfed, heq]
    | feed x hpipe hfed => rw [Pipe.put_of_put hpipe, hfed, List.map_append, heq]; rfl
    | lose x _ hpipe hfed => rw [hpipe, hfed, heq]

/-- What was fed is, in its order, among what was queued, and so is what is still to be
fed. -/
theorem fed_sublist {P : ReplyWriter → Action → Prop} (h : Reachable peer P w) :
    (w.fed ++ w.waiting).Sublist w.queued := by
  refine h.invariant (I := fun w => (w.fed ++ w.waiting).Sublist w.queued) ?_ ?_
  · rintro _ rfl
    exact List.Sublist.refl _
  · rintro w w' - hsub ⟨a, -, hstep⟩
    cases move_of_step hstep with
    | stay _ hfed hwaiting hqueued => rwa [hfed, hwaiting, hqueued]
    | wire p _ _ _ hfed hwaiting hqueued => rwa [hfed, hwaiting, hqueued]
    | push n msg _ _ hfed hwaiting hqueued =>
        rw [hfed, hwaiting, hqueued, ← List.append_assoc]
        exact hsub.append_right _
    | feed x _ hfed hwaiting hqueued =>
        rwa [hfed, hqueued, List.append_assoc, List.singleton_append, ← hwaiting]
    | lose x _ _ hfed hwaiting hqueued =>
        rw [hfed, hqueued]
        rw [hwaiting] at hsub
        exact (List.Sublist.append_left (List.sublist_cons_self _ _) _).trans hsub

/-- As long as no feed fails, nothing that was queued is gone. -/
theorem queued_eq (h : Reachable peer Unfailing w) : w.queued = w.fed ++ w.waiting := by
  refine h.invariant (I := fun w => w.queued = w.fed ++ w.waiting) ?_ ?_
  · rintro _ rfl
    rfl
  · rintro w w' - heq ⟨a, hfeeds, hstep⟩
    cases move_of_step hstep with
    | stay _ hfed hwaiting hqueued => rw [hfed, hwaiting, hqueued, heq]
    | wire p _ _ _ hfed hwaiting hqueued => rw [hfed, hwaiting, hqueued, heq]
    | push n msg _ _ hfed hwaiting hqueued =>
        rw [hfed, hwaiting, hqueued, heq, List.append_assoc]
    | feed x _ hfed hwaiting hqueued =>
        rw [hfed, hqueued, heq, hwaiting, List.append_assoc]
        rfl
    | lose x ha =>
        rw [hfeeds.2] at ha
        cases ha

theorem queued_short (h : Reachable peer Short w) : ∀ x ∈ w.queued, x.2.length ≤ 65535 := by
  refine h.invariant (I := fun w => ∀ x ∈ w.queued, x.2.length ≤ 65535) ?_ ?_
  · rintro _ rfl
    exact List.forall_mem_nil _
  · rintro w w' - hshort ⟨a, ha, hstep⟩
    cases move_of_step hstep with
    | stay _ _ _ hqueued => rwa [hqueued]
    | wire _ _ _ _ _ _ hqueued => rwa [hqueued]
    | push n msg heq _ _ _ hqueued =>
        rw [hqueued]
        exact List.forall_mem_append.mpr ⟨hshort, List.forall_mem_singleton.mpr (ha n msg heq)⟩
    | feed x _ _ _ hqueued => rwa [hqueued]
    | lose x _ _ _ _ hqueued => rwa [hqueued]

theorem pipe_sound (h : Reachable peer Short w) :
    Pipe.Sound (·.length ≤ 65535) codecEncode w.pipe := by
  refine h.invariant (I := fun w => Pipe.Sound (·.length ≤ 65535) codecEncode w.pipe) ?_ ?_
  · rintro _ rfl
    exact Pipe.sound_opened
  · rintro w w' hw hsound ⟨a, -, hstep⟩
    cases move_of_step hstep with
    | stay hpipe => rwa [hpipe]
    | wire p hp _ hpipe =>
        exact hsound.step peer.reads_codec (fun item heq => absurd heq (hp item)) hpipe
    | push n msg _ hpipe => rwa [hpipe]
    | feed x hpipe _ hwaiting =>
        refine hsound.step peer.reads_codec (fun item heq => ?_) hpipe
        cases heq
        refine queued_short hw x ((fed_sublist hw).subset (List.mem_append_right _ ?_))
        rw [hwaiting]
        exact List.mem_cons_self
    | lose x _ hpipe => rwa [hpipe]

/-- The messages that the other end has taken, with their numbers. -/
def read (w : ReplyWriter) : List (Nat × Bytes) := w.fed.take w.pipe.taken.length

theorem taken_eq (h : Reachable peer Short w) : w.pipe.taken = w.read.map Prod.snd := by
  rw [read, List.map_take, ← fed_put h]
  exact List.prefix_iff_eq_take.mp (pipe_sound h).taken_initial

/-- The other end takes messages that were queued, in their order and none twice. -/
theorem read_sublist {P : ReplyWriter → Action → Prop} (h : Reachable peer P w) :
    w.read.Sublist w.queued :=
  (List.take_sublist _ _).trans ((List.sublist_append_left _ _).trans (fed_sublist h))

theorem length_taken_le (h : Reachable peer Short w) : w.pipe.taken.length ≤ w.fed.length := by
  have hlength := congrArg List.length (taken_eq h)
  rw [read, List.length_map, List.length_take] at hlength
  omega

/-- Nothing else than a call of the decoder takes a message. -/
theorem read_of_step (h : Reachable peer Short w) {a : Action} (ha : a ≠ .wire .take)
    (hstep : w.step peer a = some w') : w'.read = w.read := by
  have hsame (hpipe : w'.pipe.taken = w.pipe.taken) (hfed : w'.fed = w.fed) : w'.read = w.read := by
    rw [read, read, hpipe, hfed]
  cases move_of_step hstep with
  | stay hpipe hfed => exact hsame (congrArg Pipe.taken hpipe) hfed
  | wire p _ htake hpipe hfed =>
      exact hsame (Pipe.taken_of_step (fun heq => ha (htake heq)) hpipe) hfed
  | push n msg _ hpipe hfed => exact hsame (congrArg Pipe.taken hpipe) hfed
  | feed x hpipe hfed =>
      rw [read, read, Pipe.taken_of_step (fun heq => by cases heq) hpipe, hfed,
        List.take_append_of_le_length (length_taken_le h)]
  | lose x _ hpipe hfed => exact hsame (congrArg Pipe.taken hpipe) hfed

/-- The message that is taken next is the one that was fed next. -/
theorem read_of_take (h : Reachable peer Short w) {payload src : Bytes}
    (hdecode : peer.decode (ε := Empty) w.pipe.inBuffer = (.ok (some payload), src))
    (hstep : w.step peer (.wire .take) = some w') :
    ∃ n, w.fed[w.pipe.taken.length]? = some (n, payload) ∧ w'.read = w.read ++ [(n, payload)] := by
  have hreach' := h.step ⟨_, fun _ _ heq => (by cases heq), hstep⟩
  have htaken' := taken_eq hreach'
  obtain ⟨pipe, hpipe, rfl⟩ := Option.map_eq_some_iff.mp hstep
  rw [Pipe.step, Pipe.take, hdecode] at hpipe
  cases hpipe
  have hlength : w.pipe.taken.length + 1 ≤ w.fed.length := by
    have heq := congrArg List.length htaken'
    simp only [read, List.length_map, List.length_take, List.length_append, List.length_singleton]
      at heq
    omega
  have hnext := List.getElem?_eq_getElem hlength
  have hread : w.fed.take (w.pipe.taken ++ [payload]).length =
      w.fed.take w.pipe.taken.length ++ [w.fed[w.pipe.taken.length]] := by
    rw [List.length_append, List.length_singleton, List.take_succ_eq_append_getElem hlength]
  simp only [read] at htaken'
  rw [hread, List.map_append, ← read, ← taken_eq h] at htaken'
  have hmsg := List.append_cancel_left htaken'
  rw [List.map_singleton, List.singleton_inj] at hmsg
  refine ⟨w.fed[w.pipe.taken.length].1, ?_, ?_⟩
  · rw [hnext, hmsg]
  · rw [read, hread, hmsg]
    rfl

theorem taken_initial (h : Reachable peer Unfailing w) :
    w.pipe.taken <+: w.queued.map Prod.snd := by
  have hsound := (pipe_sound (h.relax fun _ _ hu => hu.1)).taken_initial
  rw [fed_put h] at hsound
  rw [queued_eq h, List.map_append]
  exact hsound.trans (List.prefix_append _ _)

/-- Everything has been fed and has come to the other end, which has taken all that it
can. -/
structure Delivered (peer : CodecCrate) (w : ReplyWriter) : Prop where
  fed : w.waiting = []
  sent : w.pipe.outBuffer = []
  unbroken : w.pipe.broken = false
  arrived : w.pipe.onWay = []
  dry : w.pipe.take (peer.decode (ε := Empty)) = none

theorem taken_all (h : Reachable peer Unfailing w) (hall : w.Delivered peer) :
    w.pipe.taken = w.queued.map Prod.snd := by
  rw [queued_eq h, hall.fed, List.append_nil, ← fed_put h]
  exact (pipe_sound (h.relax fun _ _ hu => hu.1)).taken_eq peer.reads_codec hall.unbroken hall.sent
    hall.arrived hall.dry

end ReplyWriter

end Iso8583Switch
