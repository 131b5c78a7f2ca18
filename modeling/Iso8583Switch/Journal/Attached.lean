import Iso8583Switch.Flow.Refinement
import Iso8583Switch.Library.History
import Iso8583Switch.Journal.Wal

/-!
# The engine and its journal thread

`Journaler::append` puts a record on a bounded channel and returns.  The journal
thread takes the records off the channel one by one and writes them to the file.
The records on their way are those that the trace of the engine lists, less those
that the thread has taken.
-/

namespace Iso8583Switch

open Text

/-- The record of an `append` that returned `Ok`. -/
def Event.record : Event → Option Transaction
  | .appended record => some record
  | _ => none

structure JournaledEngine where
  engine : Engine
  wal : Wal
  /-- How many records the journal thread has taken off its channel. -/
  taken : Nat

inductive JournaledAction where
  | engine (a : Action)
  /-- One iteration of the journal thread. -/
  | journal

namespace JournaledEngine

/-- A started engine with an empty file of any size. -/
structure Initial (s : JournaledEngine) : Prop where
  engine : s.engine.Initial
  wal : ∃ size : UInt64, s.wal = .create size.toNat
  taken : s.taken = 0

/-- What was appended, oldest first. -/
def records (s : JournaledEngine) : List Transaction := s.engine.trace.filterMap Event.record

/-- What is on the channel. -/
def queue (s : JournaledEngine) : List Transaction := s.records.drop s.taken

/-- The capacity of the channel.  An `append` on a full channel waits. -/
def channelCapacity : Nat := 50000

def step (codec : RecordCodec) (s : JournaledEngine) : JournaledAction → Option JournaledEngine
  | .engine a =>
      match s.engine.step a with
      | some t =>
          if ({ s with engine := t } : JournaledEngine).queue.length ≤ channelCapacity then
            some { s with engine := t }
          else none
      | none => none
  | .journal =>
      match s.queue with
      | tx :: _ => some { s with wal := s.wal.write (codec.encode tx), taken := s.taken + 1 }
      | [] => none

/-- A condition on the steps of the engine, and one on what the journal thread
writes. -/
def Discipline (codec : RecordCodec) (P : Engine → Action → Prop) (room : Wal → Bytes → Prop)
    (s : JournaledEngine) : JournaledAction → Prop
  | .engine a => P s.engine a
  | .journal => ∀ tx ∈ s.queue.head?, room s.wal (codec.encode tx)

instance {codec : RecordCodec} {P : Engine → Action → Prop} {room : Wal → Bytes → Prop}
    [∀ s a, Decidable (P s a)] [∀ wal encoded, Decidable (room wal encoded)] (s : JournaledEngine)
    (a : JournaledAction) : Decidable (Discipline codec P room s a) :=
  match a with
  | .engine _ => inferInstanceAs (Decidable (P _ _))
  | .journal => inferInstanceAs (Decidable (∀ tx ∈ s.queue.head?, _))

/-- The states of all runs whose steps meet the conditions. -/
abbrev Reachable (codec : RecordCodec) (P : Engine → Action → Prop) (room : Wal → Bytes → Prop) :
    JournaledEngine → Prop :=
  Transition.Reachable Initial (Transition.Steps (step codec) (Discipline codec P room))

variable {codec : RecordCodec} {P : Engine → Action → Prop} {room : Wal → Bytes → Prop}
  {s t : JournaledEngine}

theorem step_engine {a : Action} (h : s.step codec (.engine a) = some t) :
    s.engine.step a = some t.engine ∧ t.wal = s.wal ∧ t.taken = s.taken := by
  simp only [step] at h
  split at h
  next u hstep =>
    split at h
    · cases h
      exact ⟨hstep, rfl, rfl⟩
    · cases h
  next => cases h

theorem step_journal (h : s.step codec .journal = some t) :
    ∃ tx, s.records[s.taken]? = some tx ∧ s.queue.head? = some tx ∧
      t = { s with wal := s.wal.write (codec.encode tx), taken := s.taken + 1 } := by
  simp only [step] at h
  split at h
  next tx rest hqueue =>
    cases h
    have hhead : s.queue.head? = some tx := by rw [hqueue, List.head?_cons]
    exact ⟨tx, by rw [← List.head?_drop]; exact hhead, hhead, rfl⟩
  next => cases h

/-- The engine does not see its journal thread. -/
theorem Reachable.engine (h : Reachable codec P room s) : Engine.Reachable P s.engine := by
  refine h.simulate (fun s hs => hs.engine) fun s t _ ⟨a, hdisc, hstep⟩ => ?_
  cases a with
  | engine a => exact .inr ⟨a, hdisc, (step_engine hstep).1⟩
  | journal =>
      obtain ⟨tx, -, -, rfl⟩ := step_journal hstep
      exact .inl rfl

/-- No record is taken back. -/
theorem Reachable.records_append (h : Reachable codec P room s) {a : Action}
    (hstep : s.step codec (.engine a) = some t) : ∃ more, t.records = s.records ++ more := by
  obtain ⟨l, hl⟩ := Engine.step_trace_append h.engine.disowned (step_engine hstep).1
  exact ⟨l.filterMap Event.record, by rw [records, hl, List.filterMap_append]; rfl⟩

/-! ## What is in the file -/

/-- The file holds what the journal thread has taken off its channel. -/
structure Stored (codec : RecordCodec) (s : JournaledEngine) : Prop where
  holds : s.wal.Holds ((s.records.take s.taken).map codec.encode)
  taken_le : s.taken ≤ s.records.length

theorem Stored.step_engine (h : s.Stored codec) {a : Action} {more : List Transaction}
    (hstep : s.step codec (.engine a) = some t) (hmore : t.records = s.records ++ more) :
    t.Stored codec := by
  obtain ⟨-, hwal, htaken⟩ := JournaledEngine.step_engine hstep
  have hle := h.taken_le
  constructor
  · rw [hwal, htaken, hmore, List.take_append_of_le_length hle]
    exact h.holds
  · rw [htaken, hmore, List.length_append]
    omega

/-- A record that fits is stored behind the others. -/
theorem Stored.step_journal (h : s.Stored codec) (hstep : s.step codec .journal = some t)
    (hroom : ∀ tx ∈ s.queue.head?, s.wal.Fits (codec.encode tx)) : t.Stored codec := by
  obtain ⟨tx, hget, hhead, rfl⟩ := JournaledEngine.step_journal hstep
  have hwrite := Wal.write_holds (codec.encode tx) h.holds
  rw [if_pos (hroom tx hhead), ← List.map_singleton, ← List.map_append] at hwrite
  constructor
  · have htake : s.records.take (s.taken + 1) = s.records.take s.taken ++ [tx] := by
      rw [List.take_add_one, hget, Option.toList_some]
    show (s.wal.write _).Holds ((s.records.take (s.taken + 1)).map codec.encode)
    rw [htake]
    exact hwrite
  · exact History.lt_length hget

/-- As long as the file has room nothing is lost. -/
theorem Reachable.stored (h : Reachable codec P Wal.Fits s) : s.Stored codec := by
  refine h.invariant (fun s h₀ => ?_) fun s t hs hv ⟨a, hdisc, hstep⟩ => ?_
  · obtain ⟨size, hwal⟩ := h₀.wal
    constructor
    · rw [hwal, h₀.taken]
      exact Wal.create_holds _
    · rw [h₀.taken]
      exact Nat.zero_le _
  · cases a with
    | engine a =>
        obtain ⟨more, hmore⟩ := Reachable.records_append hs hstep
        exact hv.step_engine hstep hmore
    | journal => exact hv.step_journal hstep hdisc

/-- No step takes back a record, and the journal thread takes one at a time. -/
theorem Reachable.step_taken (h : Reachable codec P room s) {a : JournaledAction}
    (hstep : s.step codec a = some t) :
    s.records <+: t.records ∧ s.taken ≤ t.taken ∧ (a = .journal → t.taken = s.taken + 1) := by
  cases a with
  | engine a =>
      obtain ⟨more, hmore⟩ := h.records_append hstep
      obtain ⟨-, -, htaken⟩ := JournaledEngine.step_engine hstep
      exact ⟨⟨more, hmore.symm⟩, Nat.le_of_eq htaken.symm, fun h => by cases h⟩
  | journal =>
      obtain ⟨tx, -, -, rfl⟩ := JournaledEngine.step_journal hstep
      exact ⟨List.prefix_refl _, Nat.le_succ _, fun _ => rfl⟩

/-- The journal thread gets to every record, if it gets a turn as long as there is
something on its channel. -/
theorem drains {run : Nat → JournaledEngine} {acts : Nat → JournaledAction}
    (h : Transition.Endless Initial (step codec) (Discipline codec P room) run acts)
    (hfair : ∀ n, (run n).queue ≠ [] → ∃ m, n ≤ m ∧ acts m = .journal) (n : Nat) :
    ∃ m, n ≤ m ∧ (run n).records <+: (run m).records ∧ (run n).records.length ≤ (run m).taken := by
  have hstep (k : Nat) := Reachable.step_taken (h.reachable (n + k)) (h.step (n + k))
  have hgrowth (k : Nat) : (run n).records <+: (run (n + k)).records := by
    induction k with
    | zero => exact List.prefix_refl _
    | succ k ih => exact ih.trans (hstep k).1
  have hfair' (k : Nat) (hk : (run n).records.length - (run (n + k)).taken ≠ 0) :
      ∃ m, k ≤ m ∧ acts (n + m) = .journal := by
    have hlen := (hgrowth k).length_le
    have hqueue : (run (n + k)).queue ≠ [] := by
      rw [queue, Ne, List.drop_eq_nil_iff]
      omega
    obtain ⟨m, hm, hjournal⟩ := hfair (n + k) hqueue
    obtain ⟨j, rfl⟩ := Nat.exists_eq_add_of_le hm
    exact ⟨k + j, Nat.le_add_right k j, by rw [← Nat.add_assoc]; exact hjournal⟩
  obtain ⟨k, -, hk⟩ := Transition.Endless.drains (fun k => run (n + k)) (fun k => acts (n + k))
    (fun s => (run n).records.length - s.taken) (· = .journal) hfair'
    (fun k => Nat.sub_le_sub_left (hstep k).2.1 _)
    (fun k hjournal hk => by
      have htaken := (hstep k).2.2 hjournal
      rw [Nat.add_assoc] at htaken
      omega) 0
  exact ⟨n + k, Nat.le_add_right n k, hgrowth k, Nat.sub_eq_zero_iff_le.mp hk⟩

/-! ## Runs given as lists of actions -/

/-- A started engine beside a journal of some size. -/
def start (size : UInt64) : JournaledEngine := ⟨Engine.start 100 ∅, .create size.toNat, 0⟩

theorem start_initial (size : UInt64) : (start size).Initial :=
  ⟨Engine.start_initial 100 ∅, ⟨size, rfl⟩, rfl⟩

def after (codec : RecordCodec) (size : UInt64) (acts : List JournaledAction) : JournaledEngine :=
  (Transition.exec (step codec) (start size) acts).getD (start size)

theorem reachable_after [∀ s a, Decidable (P s a)] [∀ wal encoded, Decidable (room wal encoded)]
    {size : UInt64} {acts : List JournaledAction}
    (h : Transition.complies (step codec) (Discipline codec P room) (start size) acts = true) :
    Reachable codec P room (after codec size acts) := by
  obtain ⟨t, ht⟩ := Transition.exec_of_complies h
  rw [after, ht]
  exact Transition.Reachable.of_exec (fun _ _ => id) (.start (start_initial size)) h ht

end JournaledEngine

end Iso8583Switch
