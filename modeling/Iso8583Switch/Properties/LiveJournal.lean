import Iso8583Switch.Journal.Live
import Iso8583Switch.Library.History
import Iso8583Switch.Properties.JournalFile

/-!
# Sweeping a journal that is being written

A sweep that comes between the two stores of a record reads zeros as its payload,
cannot decode them and moves its cursor past them.  And the cursor of one file is
used on the next.  Where neither happens, what the sweeps of a file have read is a
prefix of what was written to it, and after a sweep it is all of it.
-/

namespace Iso8583Switch

open Text PrefixedLog

/-- A record that is written and then swept is read exactly once, and whatever is
read was written there. -/
structure ExactlyOnce (events : List JournalEvent) : Prop where
  counted : ∀ (i j e offset : Nat) (tx : Transaction), events[i]? = some (.written e offset tx) →
    events[j]? = some (.swept e) → i < j → events.count (.read e offset (some tx)) = 1
  genuine : ∀ (e offset : Nat) (tx : Option Transaction), .read e offset tx ∈ events →
    ∃ tx', tx = some tx' ∧ .written e offset tx' ∈ events

namespace LiveJournal

/-- What `live_journal_exactly_once` takes for granted of the codec, on a record, and what
tells the record from the end of the log. -/
structure Recordable (codec : RecordCodec) (tx : Transaction) : Prop where
  decodes : codec.decode (codec.encode tx) = some tx
  storable : Storable (codec.encode tx)

/-- No sweep between the two stores of a record, and no new file under a cursor that
has moved. -/
def Calm (codec : RecordCodec) (s : LiveJournal) : JournalAction → Prop
  | .start tx => Recordable codec tx
  | .finish => True
  | .sweep => s.pending = none
  | .restart _ => s.cursor = 0

/-! ## What was written and read in one file -/

def writtenIn (e : Nat) : JournalEvent → Option (Nat × Transaction)
  | .written e' offset tx => if e' = e then some (offset, tx) else none
  | _ => none

def readIn (e : Nat) : JournalEvent → Option (Nat × Option Transaction)
  | .read e' offset tx => if e' = e then some (offset, tx) else none
  | _ => none

theorem mem_writtenIn {events : List JournalEvent} {e offset : Nat} {tx : Transaction} :
    (offset, tx) ∈ events.filterMap (writtenIn e) ↔ .written e offset tx ∈ events := by
  rw [List.mem_filterMap]
  constructor
  · rintro ⟨event, hmem, hevent⟩
    cases event with
    | written e' offset' tx' =>
        rw [writtenIn] at hevent
        split at hevent
        next he => cases hevent; exact he ▸ hmem
        next => cases hevent
    | _ => cases hevent
  · exact fun hmem => ⟨_, hmem, if_pos rfl⟩

theorem mem_readIn {events : List JournalEvent} {e offset : Nat} {tx : Option Transaction} :
    (offset, tx) ∈ events.filterMap (readIn e) ↔ .read e offset tx ∈ events := by
  rw [List.mem_filterMap]
  constructor
  · rintro ⟨event, hmem, hevent⟩
    cases event with
    | read e' offset' tx' =>
        rw [readIn] at hevent
        split at hevent
        next he => cases hevent; exact he ▸ hmem
        next => cases hevent
    | _ => cases hevent
  · exact fun hmem => ⟨_, hmem, if_pos rfl⟩

theorem count_readIn (events : List JournalEvent) (e offset : Nat) (tx : Option Transaction) :
    events.count (.read e offset tx) = (events.filterMap (readIn e)).count (offset, tx) := by
  induction events with
  | nil => rfl
  | cons event events ih =>
      rw [List.count_cons, List.filterMap_cons, ih]
      cases event with
      | read e' offset' tx' =>
          by_cases he : e' = e
          · simp [readIn, he, List.count_cons]
          · simp [readIn, he]
      | _ => simp [readIn]

/-- A written record as it is read. -/
def asRead (record : Nat × Transaction) : Nat × Option Transaction := (record.1, some record.2)

/-- Records with the offsets that the journal thread puts them at. -/
def laidOut (codec : RecordCodec) : Nat → List Transaction → List (Nat × Transaction)
  | _, [] => []
  | offset, tx :: txs =>
      (offset, tx) :: laidOut codec (offset + (4 + (codec.encode tx).length)) txs

theorem laidOut_append (codec : RecordCodec) (offset : Nat) (txs more : List Transaction) :
    laidOut codec offset (txs ++ more) = laidOut codec offset txs ++
      laidOut codec (offset + (frames (txs.map codec.encode)).length) more := by
  induction txs generalizing offset with
  | nil => rfl
  | cons tx txs ih =>
      rw [List.cons_append, laidOut, ih, laidOut, List.map_cons, frames_cons, List.length_append,
        length_frame, List.cons_append, Nat.add_assoc]

theorem le_of_mem_laidOut {codec : RecordCodec} {offset : Nat} {txs : List Transaction}
    {record : Nat × Transaction} (h : record ∈ laidOut codec offset txs) : offset ≤ record.1 := by
  induction txs generalizing offset with
  | nil => cases h
  | cons tx txs ih =>
      rcases List.mem_cons.mp h with rfl | h
      · exact Nat.le_refl _
      · exact Nat.le_trans (Nat.le_add_right _ _) (ih h)

/-- No two records are at one offset. -/
theorem nodup_laidOut (codec : RecordCodec) (offset : Nat) (txs : List Transaction) :
    (laidOut codec offset txs).Nodup := by
  induction txs generalizing offset with
  | nil => exact List.nodup_nil
  | cons tx txs ih =>
      rw [laidOut, List.nodup_cons]
      refine ⟨fun hmem => ?_, ih _⟩
      have hle := le_of_mem_laidOut hmem
      dsimp only at hle
      omega

/-- A sweep reads the records that are laid out from its cursor on. -/
theorem readEvents_eq {codec : RecordCodec} {txs : List Transaction}
    (h : ∀ tx ∈ txs, Recordable codec tx) (e offset : Nat) :
    (readEvents codec e offset (txs.map codec.encode)).filterMap (readIn e) =
      (laidOut codec offset txs).map asRead := by
  induction txs generalizing offset with
  | nil => rfl
  | cons tx txs ih =>
      have hrest := ih (fun tx' htx' => h tx' (List.mem_cons_of_mem _ htx'))
        (offset + (4 + (codec.encode tx).length))
      have hdecode := (h tx List.mem_cons_self).decodes
      rw [readEvents] at hrest
      simp only [readEvents, List.map_cons, placed, List.filterMap_cons, readIn, hdecode, if_pos,
        laidOut, asRead]
      exact congrArg _ hrest

/-! ## The invariant -/

/-- The file holds the records, and the journal thread may be at the next one. -/
inductive Writing (codec : RecordCodec) (txs : List Transaction) :
    Wal → Option Transaction → Prop where
  | idle {wal : Wal} : wal.Holds (txs.map codec.encode) → Writing codec txs wal none
  | started {wal : Wal} {tx : Transaction} : wal.Holds (txs.map codec.encode) →
      Recordable codec tx → wal.Fits (codec.encode tx) →
      Writing codec txs (wal.storeLength (codec.encode tx)) (some tx)

theorem Writing.holds {codec : RecordCodec} {txs : List Transaction} {wal : Wal}
    (h : Writing codec txs wal none) : wal.Holds (txs.map codec.encode) := by
  cases h with
  | idle hholds => exact hholds

theorem Writing.begun {codec : RecordCodec} {txs : List Transaction} {wal : Wal} {tx : Transaction}
    (h : Writing codec txs wal (some tx)) : ∃ wal' : Wal, wal'.Holds (txs.map codec.encode) ∧
      Recordable codec tx ∧ wal'.Fits (codec.encode tx) ∧
      wal = wal'.storeLength (codec.encode tx) := by
  cases h with
  | started hholds htx hfits => exact ⟨_, hholds, htx, hfits, rfl⟩

/-- The records of the present file, of which the first `k` are read. -/
structure Tracks (codec : RecordCodec) (s : LiveJournal) (txs : List Transaction) (k : Nat) :
    Prop where
  recordable : ∀ tx ∈ txs, Recordable codec tx
  writing : Writing codec txs s.wal s.pending
  size : s.wal.mmap.length < 2 ^ 64
  le : k ≤ txs.length
  cursor : s.cursor = (frames ((txs.take k).map codec.encode)).length
  written : s.trace.filterMap (writtenIn s.epoch) = laidOut codec 0 txs
  read : s.trace.filterMap (readIn s.epoch) = (laidOut codec 0 (txs.take k)).map asRead

/-- What holds of the present file and of the files before it. -/
structure Swept (s : LiveJournal) : Prop where
  future : ∀ e, s.epoch < e →
    s.trace.filterMap (writtenIn e) = [] ∧ s.trace.filterMap (readIn e) = []
  nodup : ∀ e, (s.trace.filterMap (readIn e)).Nodup
  genuine : ∀ (e offset : Nat) (tx : Option Transaction), .read e offset tx ∈ s.trace →
    ∃ tx', tx = some tx' ∧ .written e offset tx' ∈ s.trace
  counted : ∀ (i j e offset : Nat) (tx : Transaction),
    (s.trace)[i]? = some (.written e offset tx) → (s.trace)[j]? = some (.swept e) → i < j →
      .read e offset (some tx) ∈ s.trace

theorem Swept.exactlyOnce {s : LiveJournal} (h : s.Swept) : ExactlyOnce s.trace := by
  refine ⟨fun i j e offset tx hi hj hij => ?_, h.genuine⟩
  rw [count_readIn]
  exact List.count_eq_one_of_mem (h.nodup e) (mem_readIn.mpr (h.counted i j e offset tx hi hj hij))

/-- Steps that read and sweep nothing. -/
theorem Swept.grow {s t : LiveJournal} {l : List JournalEvent} (h : s.Swept)
    (htrace : t.trace = s.trace ++ l) (hread : ∀ e, l.filterMap (readIn e) = [])
    (hswept : ∀ e, .swept e ∉ l)
    (hfuture : ∀ e, t.epoch < e → s.epoch < e ∧ l.filterMap (writtenIn e) = []) : t.Swept := by
  have hreads (e : Nat) : t.trace.filterMap (readIn e) = s.trace.filterMap (readIn e) := by
    rw [htrace, List.filterMap_append, hread, List.append_nil]
  refine ⟨fun e he => ?_, fun e => hreads e ▸ h.nodup e, fun e offset tx hmem => ?_, ?_⟩
  · obtain ⟨he', hl⟩ := hfuture e he
    rw [hreads, htrace, List.filterMap_append, hl, List.append_nil]
    exact h.future e he'
  · rw [← mem_readIn, hreads, mem_readIn] at hmem
    obtain ⟨tx', htx, hwritten⟩ := h.genuine e offset tx hmem
    exact ⟨tx', htx, htrace ▸ List.mem_append_left _ hwritten⟩
  · intro i j e offset tx hi hj hij
    rw [htrace] at hi hj ⊢
    have hj' := History.old hj (hswept e)
    have hi' : (s.trace)[i]? = some (.written e offset tx) := by
      rcases History.getElem?_append_eq_some.mp hi with hi | ⟨hle, -⟩
      · exact hi
      · exact absurd (History.lt_length hj') (by omega)
    exact List.mem_append_left _ (h.counted i j e offset tx hi' hj' hij)

/-- The invariant of a calm run. -/
def Inv (codec : RecordCodec) (s : LiveJournal) : Prop :=
  s.Swept ∧ ∃ txs k, Tracks codec s txs k

theorem Initial.inv {db : TallyDb} {s : LiveJournal} (codec : RecordCodec) (h : s.Initial db) :
    Inv codec s := by
  obtain ⟨size, hwal⟩ := h.wal
  refine ⟨⟨?_, ?_, ?_, ?_⟩, [], 0, ⟨?_, ?_, ?_, Nat.le_refl _, ?_, ?_, ?_⟩⟩
  · intro e _
    rw [h.trace]
    exact ⟨rfl, rfl⟩
  · intro e
    rw [h.trace]
    exact List.nodup_nil
  · intro e offset tx hmem
    rw [h.trace] at hmem
    cases hmem
  · intro i j e offset tx hi
    rw [h.trace] at hi
    cases hi
  · intro tx hmem
    cases hmem
  · rw [h.pending, hwal]
    exact .idle (Wal.create_holds _)
  · rw [hwal, Wal.create, List.length_replicate]
    exact size.toNat_lt
  · rw [LiveJournal.cursor, h.tally, h.cursor]
    rfl
  · rw [h.trace]
    rfl
  · rw [h.trace]
    rfl

theorem Inv.startRecord {codec : RecordCodec} {s : LiveJournal} {tx : Transaction}
    (h : Inv codec s) (hpending : s.pending = none) (htx : Recordable codec tx) :
    Inv codec (s.startRecord codec tx) := by
  obtain ⟨hswept, txs, k, ht⟩ := h
  have hw := ht.writing
  rw [hpending] at hw
  rw [LiveJournal.startRecord]
  split
  next hfits =>
    have hlen := Wal.length_storeLength hfits
    exact ⟨⟨hswept.future, hswept.nodup, hswept.genuine, hswept.counted⟩, txs, k, ht.recordable,
      .started hw.holds htx hfits, hlen ▸ ht.size, ht.le, ht.cursor, ht.written, ht.read⟩
  next => exact ⟨hswept, txs, k, ht⟩

theorem Inv.finishRecord {codec : RecordCodec} {s : LiveJournal} {tx : Transaction}
    (h : Inv codec s) (hpending : s.pending = some tx) : Inv codec (s.finishRecord codec tx) := by
  obtain ⟨hswept, txs, k, ht⟩ := h
  have hw := ht.writing
  rw [hpending] at hw
  obtain ⟨wal, hholds, htx, hfits, hwal⟩ := hw.begun
  have hoff : s.wal.offset - 4 = (frames (txs.map codec.encode)).length := by
    rw [hwal, ← hholds.offset]
    exact Nat.add_sub_cancel _ _
  have htake : (txs ++ [tx]).take k = txs.take k := List.take_append_of_le_length ht.le
  have hstored : (s.wal.storePayload (codec.encode tx)) = wal.write (codec.encode tx) := by
    rw [hwal, Wal.write, if_pos hfits]
  refine ⟨hswept.grow rfl (fun e => rfl) (fun e hmem => ?_) (fun e he => ⟨he, ?_⟩),
    txs ++ [tx], k, ⟨?_, ?_, ?_, ?_, ?_, ?_, ?_⟩⟩
  · simp at hmem
  · have hne : s.epoch ≠ e := Nat.ne_of_lt he
    simp [writtenIn, hne]
  · intro tx' hmem
    rcases List.mem_append.mp hmem with hmem | hmem
    · exact ht.recordable tx' hmem
    · exact List.mem_singleton.mp hmem ▸ htx
  · have hwrite := Wal.write_holds (codec.encode tx) hholds
    rw [if_pos hfits, ← hstored] at hwrite
    refine .idle ?_
    rw [List.map_append]
    exact hwrite
  · have hsize := ht.size
    rw [hwal, Wal.length_storeLength hfits] at hsize
    show (s.wal.storePayload (codec.encode tx)).mmap.length < 2 ^ 64
    rw [hstored, Wal.length_write]
    exact hsize
  · rw [List.length_append]
    exact Nat.le_trans ht.le (Nat.le_add_right _ _)
  · rw [htake]
    exact ht.cursor
  · have hold := ht.written
    rw [LiveJournal.finishRecord, LiveJournal.log, List.filterMap_append, laidOut_append,
      Nat.zero_add, ← hoff]
    exact congrArg₂ _ hold (by simp [writtenIn, laidOut])
  · rw [htake]
    have hold := ht.read
    rw [LiveJournal.finishRecord, LiveJournal.log, List.filterMap_append, ← hold]
    exact List.append_nil _

/-- A sweep between two records reads what is left of them and stops behind them. -/
theorem Tracks.reads {codec : RecordCodec} {s : LiveJournal} {txs : List Transaction} {k : Nat}
    (h : Tracks codec s txs k) (hpending : s.pending = none) :
    Reads s.wal.mmap s.cursor ((txs.drop k).map codec.encode)
      (frames (txs.map codec.encode)).length := by
  have hw := h.writing
  rw [hpending] at hw
  obtain ⟨n, hmmap⟩ := hw.holds.mmap
  have hstorable : ∀ record ∈ (txs.drop k).map codec.encode, Storable record := by
    intro record hmem
    obtain ⟨tx, htx, rfl⟩ := List.mem_map.mp hmem
    exact (h.recordable tx (List.mem_of_mem_drop htx)).storable
  have hreads := Reads.frames hstorable (frames ((txs.take k).map codec.encode)) n
  rw [← List.append_assoc, ← frames_append, ← List.length_append, ← frames_append,
    ← List.map_append, List.take_append_drop, ← hmmap, ← h.cursor] at hreads
  exact hreads

theorem not_mem_readEvents {codec : RecordCodec} {e cursor : Nat} {slices : List Bytes}
    {event : JournalEvent} (h : ∀ offset tx, event ≠ .read e offset tx) :
    event ∉ readEvents codec e cursor slices := by
  intro hmem
  obtain ⟨⟨offset, slice⟩, -, hevent⟩ := List.mem_map.mp hmem
  exact h _ _ hevent.symm

theorem filterMap_readEvents_eq_nil {codec : RecordCodec} {e cursor : Nat} {slices : List Bytes}
    {α : Type} {f : JournalEvent → Option α} (h : ∀ offset tx, f (.read e offset tx) = none) :
    (readEvents codec e cursor slices).filterMap f = [] := by
  rw [List.filterMap_eq_nil_iff]
  intro event hmem
  obtain ⟨⟨offset, slice⟩, -, rfl⟩ := List.mem_map.mp hmem
  exact h _ _

/-- A sweep leaves the other files alone and has read all of the present one. -/
theorem Swept.sweep {s t : LiveJournal} {l : List JournalEvent} (h : s.Swept)
    (htrace : t.trace = s.trace ++ l) (hepoch : t.epoch = s.epoch)
    (hwritten : ∀ e, l.filterMap (writtenIn e) = [])
    (hother : ∀ e, e ≠ s.epoch → l.filterMap (readIn e) = [] ∧ .swept e ∉ l)
    (hnodup : (t.trace.filterMap (writtenIn s.epoch)).Nodup)
    (hall : t.trace.filterMap (readIn s.epoch) =
      (t.trace.filterMap (writtenIn s.epoch)).map asRead) : t.Swept := by
  have hwrites (e : Nat) : t.trace.filterMap (writtenIn e) = s.trace.filterMap (writtenIn e) := by
    rw [htrace, List.filterMap_append, hwritten, List.append_nil]
  have hreads (e : Nat) (he : e ≠ s.epoch) :
      t.trace.filterMap (readIn e) = s.trace.filterMap (readIn e) := by
    rw [htrace, List.filterMap_append, (hother e he).1, List.append_nil]
  refine ⟨fun e he => ?_, fun e => ?_, fun e offset tx hmem => ?_, fun i j e offset tx hi hj hij => ?_⟩
  · rw [hepoch] at he
    rw [hwrites, hreads e (Nat.ne_of_gt he)]
    exact h.future e he
  · by_cases he : e = s.epoch
    · subst he
      rw [hall]
      refine List.Nodup.map (fun a b hab => ?_) hnodup
      rw [asRead, asRead, Prod.mk.injEq, Option.some.injEq] at hab
      exact Prod.ext hab.1 hab.2
    · rw [hreads e he]
      exact h.nodup e
  · rw [← mem_readIn] at hmem
    by_cases he : e = s.epoch
    · subst he
      rw [hall] at hmem
      obtain ⟨⟨offset', tx'⟩, hrecord, hread⟩ := List.mem_map.mp hmem
      cases hread
      exact ⟨tx', rfl, mem_writtenIn.mp hrecord⟩
    · rw [hreads e he, mem_readIn] at hmem
      obtain ⟨tx', htx, hrecord⟩ := h.genuine e offset tx hmem
      exact ⟨tx', htx, htrace ▸ List.mem_append_left _ hrecord⟩
  · have hrecord := mem_writtenIn.mpr (History.mem hi)
    rw [← mem_readIn]
    by_cases he : e = s.epoch
    · subst he
      rw [hall]
      exact List.mem_map_of_mem hrecord
    · rw [hreads e he, mem_readIn]
      rw [htrace] at hi hj
      have hj' := History.old hj (hother e he).2
      rcases History.getElem?_append_eq_some.mp hi with hi | ⟨hle, -⟩
      · exact h.counted i j e offset tx hi hj' hij
      · exact absurd (History.lt_length hj') (by omega)

theorem Inv.sweep {codec : RecordCodec} {s t : LiveJournal} (h : Inv codec s)
    (hpending : s.pending = none) (hstep : s.step codec .sweep = some t) : Inv codec t := by
  obtain ⟨hswept, txs, k, ht⟩ := h
  have hreads := ht.reads hpending
  obtain ⟨db, hsettle, hcursor⟩ := settle_cursor codec hreads ht.size
  rw [step, hsettle, settleSlices_eq hreads] at hstep
  cases hstep
  generalize hl : readEvents codec s.epoch s.cursor ((txs.drop k).map codec.encode) ++
    [JournalEvent.swept s.epoch] = l
  have hwritten (e : Nat) : l.filterMap (writtenIn e) = [] := by
    rw [← hl, List.filterMap_append, filterMap_readEvents_eq_nil fun _ _ => rfl]
    rfl
  have hread : l.filterMap (readIn s.epoch) = (laidOut codec s.cursor (txs.drop k)).map asRead := by
    rw [← hl, List.filterMap_append,
      readEvents_eq (fun tx hmem => ht.recordable tx (List.mem_of_mem_drop hmem))]
    exact List.append_nil _
  have hother (e : Nat) (he : e ≠ s.epoch) : l.filterMap (readIn e) = [] ∧ .swept e ∉ l := by
    rw [← hl]
    constructor
    · rw [List.filterMap_append, filterMap_readEvents_eq_nil fun _ _ => if_neg (Ne.symm he)]
      rfl
    · intro hmem
      rcases List.mem_append.mp hmem with hmem | hmem
      · refine not_mem_readEvents (fun offset tx heq => ?_) hmem
        cases heq
      · exact he (JournalEvent.swept.inj (List.mem_singleton.mp hmem))
  have hwrites : (s.trace ++ l).filterMap (writtenIn s.epoch) = laidOut codec 0 txs := by
    rw [List.filterMap_append, hwritten, List.append_nil, ht.written]
  have hall : (s.trace ++ l).filterMap (readIn s.epoch) = (laidOut codec 0 txs).map asRead := by
    have hsplit := laidOut_append codec 0 (txs.take k) (txs.drop k)
    rw [List.take_append_drop, Nat.zero_add, ← ht.cursor] at hsplit
    rw [List.filterMap_append, ht.read, hread, ← List.map_append, ← hsplit]
  refine ⟨hswept.sweep rfl rfl hwritten hother ?_ ?_, txs, txs.length, ht.recordable, ht.writing,
    ht.size, Nat.le_refl _, ?_, hwrites, ?_⟩
  · exact hwrites ▸ nodup_laidOut codec 0 txs
  · exact hall.trans (congrArg _ hwrites.symm)
  · rw [List.take_length]
    exact hcursor
  · rw [List.take_length]
    exact hall

/-- A new file.  Nothing is read of it yet, and the cursor is at its start. -/
theorem Inv.restart {codec : RecordCodec} {s t : LiveJournal} {size : UInt64} (h : Inv codec s)
    (hcursor : s.cursor = 0) (hstep : s.step codec (.restart size) = some t) : Inv codec t := by
  obtain ⟨hswept, -⟩ := h
  cases hstep
  obtain ⟨hwritten, hread⟩ := hswept.future (s.epoch + 1) (Nat.lt_succ_self _)
  refine ⟨hswept.grow rfl (fun e => rfl) (fun e hmem => ?_)
    (fun e he => ⟨Nat.lt_of_succ_lt he, rfl⟩), [], 0, ⟨?_, ?_, ?_, Nat.le_refl _, ?_, ?_, ?_⟩⟩
  · cases List.mem_singleton.mp hmem
  · intro tx hmem
    cases hmem
  · exact .idle (Wal.create_holds _)
  · show (List.replicate size.toNat (0 : UInt8)).length < 2 ^ 64
    rw [List.length_replicate]
    exact size.toNat_lt
  · exact hcursor
  · exact (List.filterMap_append ..).trans (hwritten.symm ▸ rfl)
  · exact (List.filterMap_append ..).trans (hread.symm ▸ rfl)

theorem Inv.step {codec : RecordCodec} {s t : LiveJournal} {a : JournalAction} (h : Inv codec s)
    (hcalm : Calm codec s a) (hstep : s.step codec a = some t) : Inv codec t := by
  cases a with
  | start tx =>
      rw [LiveJournal.step] at hstep
      split at hstep
      next hpending => cases hstep; exact h.startRecord hpending hcalm
      next => cases hstep
  | finish =>
      obtain ⟨tx, hpending, rfl⟩ := Option.map_eq_some_iff.mp hstep
      exact h.finishRecord hpending
  | sweep => exact h.sweep hcalm hstep
  | restart size => exact h.restart hcalm hstep

/-! ## The tally -/

/-- What an event adds to the tally. -/
def tallyEvent (db : TallyDb) : JournalEvent → TallyDb
  | .read _ _ (some tx) => if tx.settles then db.add tx else db
  | _ => db

/-- The tally that the decoded records amount to. -/
def tallied (db : TallyDb) (events : List JournalEvent) : TallyDb := events.foldl tallyEvent db

theorem sameTallies_tallied {db db' : TallyDb} (h : SameTallies db db')
    (events : List JournalEvent) :
    SameTallies (tallied db events) (tallied db' events) := by
  induction events generalizing db db' with
  | nil => exact h
  | cons event events ih =>
      refine ih ?_
      cases event with
      | read e offset tx =>
          cases tx with
          | none => exact h
          | some tx =>
              rw [tallyEvent, tallyEvent]
              split
              · exact h.add tx
              · exact h
      | _ => exact h

theorem tallied_append (db : TallyDb) (events more : List JournalEvent) :
    tallied db (events ++ more) = tallied (tallied db events) more := List.foldl_append

theorem tallied_readEvents (codec : RecordCodec) (db : TallyDb) (e cursor : Nat)
    (slices : List Bytes) :
    tallied db (readEvents codec e cursor slices) = slices.foldl (tallySlice codec) db := by
  induction slices generalizing db cursor with
  | nil => rfl
  | cons slice slices ih =>
      have hslice : tallyEvent db (.read e cursor (codec.decode slice)) =
          tallySlice codec db slice := by
        rw [tallySlice]
        cases codec.decode slice with
        | none => rfl
        | some tx => rfl
      have hrest := ih (tallySlice codec db slice) (cursor + (4 + slice.length))
      rw [tallied, readEvents] at hrest ⊢
      rw [placed, List.map_cons, List.foldl_cons, hslice, List.foldl_cons]
      exact hrest

/-- A sweep tallies what it decodes. -/
theorem sameTallies_settle {codec : RecordCodec} {db db' : TallyDb} {mmap : Bytes}
    {slices : List Bytes} {final : Nat}
    (hreads : Reads mmap ((db.get cursorKey).getD 0).toNat slices final)
    (h : settle codec db mmap = some db') :
    SameTallies db' (slices.foldl (tallySlice codec) db) := by
  have hstopped (hshort : mmap.length < ((db.get cursorKey).getD 0).toNat + 4)
      (hsame : settle codec db mmap = some db) :
      SameTallies db' (slices.foldl (tallySlice codec) db) := by
    obtain ⟨hnil, -⟩ := (Reads.stop (.short hshort)).unique hreads
    rw [hsame] at h
    cases h
    exact hnil ▸ fun _ _ => rfl
  by_cases hshort : mmap.length < 4
  · exact hstopped (by omega) (if_pos hshort)
  by_cases hdone : mmap.length ≤ ((db.get cursorKey).getD 0).toNat
  · refine hstopped (by omega) ?_
    rw [settle, if_neg hshort]
    exact if_pos hdone
  · rw [settle_eq codec hreads (Nat.not_lt.mp hshort) (Nat.not_le.mp hdone)] at h
    cases h
    exact fun key hkey => DashMap.get_put_ne _ _ hkey

/-- In every run, calm or not, the tally is that of the records that were read. -/
theorem Reachable.tallied {codec : RecordCodec} {db : TallyDb}
    {P : LiveJournal → JournalAction → Prop} {s : LiveJournal} (h : Reachable codec db P s) :
    SameTallies s.tally (tallied db s.trace) := by
  refine h.invariant (I := fun s => SameTallies s.tally (LiveJournal.tallied db s.trace))
    (fun s hs => ?_) fun s t _ ih ⟨a, _, hstep⟩ => ?_
  · rw [hs.tally, hs.trace]
    exact fun _ _ => rfl
  · cases a with
    | start tx =>
        rw [LiveJournal.step] at hstep
        split at hstep
        next =>
          cases hstep
          rw [LiveJournal.startRecord]
          split
          · exact ih
          · exact ih
        next => cases hstep
    | finish =>
        obtain ⟨tx, -, rfl⟩ := Option.map_eq_some_iff.mp hstep
        rw [LiveJournal.finishRecord, LiveJournal.log, tallied_append]
        exact ih
    | sweep =>
        obtain ⟨slices, final, hreads⟩ := Reads.total s.wal.mmap s.cursor
        rw [LiveJournal.step, settleSlices_eq hreads] at hstep
        split at hstep
        next tally slices' final' hsettle hslices =>
          cases hslices
          cases hstep
          have hsame := sameTallies_settle hreads hsettle
          have hsum := sameTallies_tallied ih (readEvents codec s.epoch s.cursor slices)
          rw [tallied_readEvents, ← tallied_append] at hsum
          intro key hkey
          rw [LiveJournal.log, ← List.append_assoc, tallied_append]
          exact (hsame key hkey).trans (hsum key hkey)
        next => cases hstep
    | restart size =>
        cases hstep
        rw [LiveJournal.log, tallied_append]
        exact ih

/-! ## Calm runs -/

/-- In every run in which no sweep meets a half-written record and no file is made
under a cursor that has moved, a written record is read by exactly one sweep, and the
tally is that of what was read. -/
theorem live_journal_exactly_once (codec : RecordCodec) (db : TallyDb) {s : LiveJournal}
    (h : Reachable codec db (Calm codec) s) :
    ExactlyOnce s.trace ∧ SameTallies s.tally (tallied db s.trace) := by
  refine ⟨?_, h.tallied⟩
  have hinv : Inv codec s := h.invariant (I := Inv codec) (fun s hs => hs.inv codec)
    fun s t _ ih ⟨a, hcalm, hstep⟩ => ih.step hcalm hstep
  exact hinv.1.exactlyOnce

/-! ## Two runs -/

instance (codec : RecordCodec) (tx : Transaction) : Decidable (Recordable codec tx) :=
  decidable_of_iff (codec.decode (codec.encode tx) = some tx ∧ Storable (codec.encode tx))
    ⟨fun h => ⟨h.1, h.2⟩, fun h => ⟨h.decodes, h.storable⟩⟩

instance (codec : RecordCodec) (s : LiveJournal) (a : JournalAction) :
    Decidable (Calm codec s a) := by
  cases a with
  | start tx => exact inferInstanceAs (Decidable (Recordable codec tx))
  | finish => exact inferInstanceAs (Decidable True)
  | sweep => exact inferInstanceAs (Decidable (_ = none))
  | restart size => exact inferInstanceAs (Decidable (_ = 0))

/-- The runs of `live_journal_torn`: sweeps and restarts come at any point. -/
def Recorded (codec : RecordCodec) (_ : LiveJournal) : JournalAction → Prop
  | .start tx => Recordable codec tx
  | _ => True

instance (codec : RecordCodec) (s : LiveJournal) (a : JournalAction) :
    Decidable (Recorded codec s a) := by
  cases a with
  | start tx => exact inferInstanceAs (Decidable (Recordable codec tx))
  | _ => exact inferInstanceAs (Decidable True)

/-- A journal of 48 bytes. -/
def fresh : LiveJournal := ⟨.create 48, none, ∅, 0, []⟩

theorem fresh_initial : fresh.Initial ∅ := ⟨⟨48, rfl⟩, rfl, rfl, rfl, rfl, rfl⟩

def after (codec : RecordCodec) (actions : List JournalAction) : LiveJournal :=
  (Transition.exec (step codec) fresh actions).getD fresh

theorem reachable_after {codec : RecordCodec} {P : LiveJournal → JournalAction → Prop}
    [∀ s a, Decidable (P s a)] {actions : List JournalAction}
    (h : Transition.complies (step codec) P fresh actions = true) :
    Reachable codec ∅ P (after codec actions) := by
  obtain ⟨t, ht⟩ := Transition.exec_of_complies h
  rw [after, ht]
  exact Transition.Reachable.of_exec (fun _ _ => id) (.start fresh_initial) h ht

def approvedSample : Transaction := journalSample "0100" "1" "00"

def sampleCodec : RecordCodec := .onSamples [approvedSample]

/-- An all-zero slice does not decode. -/
theorem sampleCodec_zeros (n : Nat) : sampleCodec.decode (List.replicate n 0) = none := by
  refine List.find?_eq_none.mpr fun tx hmem => ?_
  rw [List.mem_singleton.mp hmem, decide_eq_true_eq]
  intro heq
  have hten : (10 : UInt8) ∈ List.replicate n 0 := by
    rw [← heq]
    exact List.mem_cons_self
  cases List.eq_of_mem_replicate hten

/-- A record is written and then swept. -/
def calmRun : List JournalAction := [.start approvedSample, .finish, .sweep]

set_option maxRecDepth 8000 in
theorem live_journal_calm :
    (after sampleCodec calmRun).trace.count (.read 0 0 (some approvedSample)) = 1 :=
  (live_journal_exactly_once sampleCodec ∅ (reachable_after (by decide))).1.counted 0 2 0 0
    approvedSample (by decide) (by decide) (by decide)

/-- A sweep comes between the two stores of a record. -/
def tornRun : List JournalAction := [.start approvedSample, .sweep, .finish, .sweep]

set_option maxRecDepth 8000 in
/-- The record is written, and no sweep reads it. -/
theorem live_journal_torn : ¬ ∀ (codec : RecordCodec) (db : TallyDb) (s : LiveJournal),
    (∀ n, codec.decode (List.replicate (n + 1) 0) = none) → Reachable codec db (Recorded codec) s →
      ExactlyOnce s.trace := by
  intro h
  have honce := h sampleCodec ∅ (after sampleCodec tornRun) (fun n => sampleCodec_zeros _)
    (reachable_after (by decide))
  have hcount := honce.counted 2 3 0 0 approvedSample (by decide) (by decide) (by decide)
  exact absurd hcount (by decide)

end LiveJournal

end Iso8583Switch
