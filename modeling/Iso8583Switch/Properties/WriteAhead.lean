import Iso8583Switch.Journal.Attached
import Iso8583Switch.Properties.AutoReversal

/-!
# Journal first, send afterwards

A worker and an HSM task append the record of a request before they send the
request.  The reaper sends its 0420 without a record.  The journal thread writes
the records in the order in which they were appended, and it drops a record that
the file has no room for.
-/

namespace Iso8583Switch

open Text Function

/-! ## What is sent has a record -/

/-- The record has the MTI, the RRN, the PAN and the amount of the message. -/
structure Transaction.Covers (record : Transaction) (tx : UniversalPaymentEvent) : Prop where
  mti : record.mti = fromUtf8Lossy tx.mti
  rrn : record.rrn = tx.rrn
  pan : record.pan = fromUtf8Lossy tx.fpan
  amount : record.amount = tx.amount.toInt64

theorem toPb_covers (tx : UniversalPaymentEvent) : (toPb tx).Covers tx := ⟨rfl, rfl, rfl, rfl⟩

/-- What stands at position `m` has a record that was appended before. -/
def RecordedBefore (events : List Event) (m : Nat) (tx : UniversalPaymentEvent) : Prop :=
  ∃ n record, n < m ∧ events[n]? = some (.appended record) ∧ record.Covers tx

theorem RecordedBefore.grow {events : List Event} {m : Nat} {tx : UniversalPaymentEvent}
    (h : RecordedBefore events m tx) (l : List Event) : RecordedBefore (events ++ l) m tx := by
  obtain ⟨n, record, hlt, hn, hcovers⟩ := h
  exact ⟨n, record, hlt, History.kept hn, hcovers⟩

/-- The worker has appended the record. -/
def Stage.isJournaled : Stage → Bool
  | .journaled | .routed _ _ | .unrouted | .numbered _ _ | .recorded _ _ => true
  | .inserted | .failed | .debiting _ | .decided => false

namespace Engine

variable {s t : Engine} {a : Action} {l : List Event}

def Recorded (s : Engine) (tx : UniversalPaymentEvent) : Prop :=
  ∃ record, .appended record ∈ s.trace ∧ record.Covers tx

theorem Recorded.grow {tx : UniversalPaymentEvent} (h : s.Recorded tx)
    (hl : t.trace = s.trace ++ l) : t.Recorded tx := by
  obtain ⟨record, hmem, hcovers⟩ := h
  exact ⟨record, hl ▸ List.mem_append_left _ hmem, hcovers⟩

/-- What is placed now has a record that was appended before. -/
theorem Recorded.before {tx : UniversalPaymentEvent} (h : s.Recorded tx) (l : List Event) {m : Nat}
    (hm : s.trace.length ≤ m) : RecordedBefore (s.trace ++ l) m tx := by
  obtain ⟨record, hmem, hcovers⟩ := h
  obtain ⟨n, hn⟩ := List.mem_iff_getElem?.mp hmem
  have hlt := History.lt_length hn
  exact ⟨n, record, by omega, History.kept hn, hcovers⟩

/-- The requests in hand that are about to be sent, and all that was sent, have
their records. -/
structure WriteAhead (s : Engine) : Prop where
  workers : ∀ {w i key ctx stage}, s.ingress w = .carrying i key ctx stage →
    stage.isJournaled = true → s.Recorded ctx.transaction
  tasks : ∀ {i ctx destination channel}, s.hsm i = .sending ctx destination channel →
    s.Recorded ctx.transaction
  frames : ∀ {m f}, s.trace[m]? = some (.placed f) → f.origin.serial.isSome = true →
    RecordedBefore s.trace m f.transaction

/-- What the reaper times out gets no 0420 on a channel. -/
def SendsNoReversal (s : Engine) (a : Action) : Prop :=
  ∀ key rest entry ok, s.TimesOut a key rest entry ok → s.reversalSent entry ok = none

/-- A frame of the reaper is the 0420 of an entry that it times out. -/
theorem Reachable.reversal_sent {P : Engine → Action → Prop} (hs : Reachable P s)
    (hstep : s.step a = some t) (hl : t.trace = s.trace ++ l) {f : Frame} {i : Serial}
    (hmem : .placed f ∈ l) (horigin : f.origin = .reaper i) :
    ∃ key rest entry ok, s.TimesOut a key rest entry ok ∧ s.reversalSent entry ok ≠ none := by
  rcases step_flow hs.disowned hstep with heq | hmove
  · obtain rfl := List.self_eq_append_right.mp ((congrArg Flow.trace heq).symm.trans hl)
    cases hmem
  · obtain ⟨reversal, htimed⟩ := Flow.reversal_new hmove hl hmem horigin
    rcases timeouts_step hstep with hsame | ⟨key, rest, entry, ok, htimes⟩
    · exfalso
      rw [timeouts, timeouts, hl, List.filter_append, List.append_right_eq_self] at hsame
      exact List.not_mem_nil (hsame ▸ List.mem_filter.mpr ⟨htimed, rfl⟩)
    · refine ⟨key, rest, entry, ok, htimes, fun hnone => ?_⟩
      have htrace : t.trace = (s.timeOut key entry ok).trace := by
        rw [htimes.step_eq hstep]
        rfl
      rw [timeOut_trace, hnone, List.append_assoc] at htrace
      obtain rfl := List.append_cancel_left (hl.symm.trans htrace)
      simp [mem_answers, reversals] at hmem

theorem WriteAhead.keep_workers (hv : s.WriteAhead) (hstep : s.step a = some t)
    (hl : t.trace = s.trace ++ l) {w : Nat} {i : Serial} {key : String} {ctx : TransactionContext}
    {stage : Stage} (hpc : t.ingress w = .carrying i key ctx stage)
    (hstage : stage.isJournaled = true) : t.Recorded ctx.transaction := by
  by_cases ha : ∃ input, a = .ingress w input
  · obtain ⟨input, rfl⟩ := ha
    obtain ⟨pc, l', hpath, htook⟩ := ingressStep_path hstep
    obtain rfl := List.append_cancel_left (hl.symm.trans htook.trace)
    rw [htook.ingress, update_self] at hpc
    subst hpc
    generalize hpc₀ : s.ingress w = pc₀ at hpath
    cases hpath with
    | accept => cases hstage
    | @carry _ _ ctx₀ _ _ _ _ hcarry =>
        cases hcarry with
        | journal =>
            refine ⟨_, ?_, toPb_covers _⟩
            rw [hl]
            exact List.mem_append_right _ (List.mem_singleton_self _)
        | route | noRoute | record => exact (hv.workers hpc₀ rfl).grow hl
        | number =>
            obtain ⟨record, hmem, hcovers⟩ := (hv.workers hpc₀ rfl).grow hl
            exact ⟨record, hmem, hcovers.mti, hcovers.rrn, hcovers.pan, hcovers.amount⟩
        | fail | debit => cases hstage
        | @fallback _ found _ =>
            rcases stipDecision_cases found ctx₀ with ⟨profile, -, heq⟩ | ⟨rc, -, heq⟩ <;>
              rw [heq] at hstage <;> cases hstage
  · rw [step_ingress hstep fun input h => ha ⟨input, h⟩] at hpc
    exact (hv.workers hpc hstage).grow hl

theorem WriteAhead.keep_tasks (hv : s.WriteAhead) (hstep : s.step a = some t)
    (hl : t.trace = s.trace ++ l) {i : Serial} {ctx : TransactionContext}
    {destination : RouteDestination} {channel : ChannelId}
    (hpc : t.hsm i = .sending ctx destination channel) : t.Recorded ctx.transaction := by
  rcases step_hsm hstep i with ⟨input, rfl⟩ | hsame | ⟨w, key, ctx', -, hspawned⟩
  · obtain ⟨pc, l', hpath, hhsm, -, -, htrace⟩ := hsmStep_path hstep
    obtain rfl := List.append_cancel_left (hl.symm.trans htrace)
    rw [hhsm, update_self] at hpc
    rw [hpath.sending hpc] at hl
    refine ⟨_, ?_, toPb_covers _⟩
    rw [hl]
    exact List.mem_append_right _ (List.mem_singleton_self _)
  · rw [hsame] at hpc
    exact (hv.tasks hpc).grow hl
  · rw [hspawned] at hpc
    cases hpc

theorem WriteAhead.keep_frames {P : Engine → Action → Prop} (hv : s.WriteAhead)
    (hs : Reachable P s) (hstep : s.step a = some t) (hl : t.trace = s.trace ++ l)
    (hno : s.SendsNoReversal a) {m : Nat} {f : Frame} (hm : t.trace[m]? = some (.placed f))
    (horigin : f.origin.serial.isSome = true) : RecordedBefore t.trace m f.transaction := by
  rw [hl] at hm ⊢
  rcases History.getElem?_append_eq_some.mp hm with hold | ⟨hle, hnew⟩
  · exact (hv.frames hold horigin).grow l
  · have hmem : .placed f ∈ l := History.mem hnew
    have hsent (i : Serial) (hreq : f.origin.request = some i) : s.Recorded f.transaction := by
      cases step_sends hstep hl hmem hreq with
      | ingress hpc hf =>
          rw [hf]
          exact hv.workers hpc rfl
      | hsm hpc hf =>
          rw [hf]
          exact hv.tasks hpc
    cases hkind : f.origin with
    | ingress i | hsm i => exact (hsent i (by rw [hkind]; rfl)).before l hle
    | reaper i =>
        obtain ⟨key, rest, entry, ok, htimes, hsome⟩ := hs.reversal_sent hstep hl hmem hkind
        exact absurd (hno key rest entry ok htimes) hsome
    | probe =>
        rw [hkind] at horigin
        cases horigin

theorem Reachable.writeAhead (h : Reachable SendsNoReversal s) : s.WriteAhead := by
  refine h.invariant (fun s h₀ => ?_) fun s t hs hv hkeep => ?_
  · constructor <;> simp [h₀.ingress, h₀.hsm, h₀.trace]
  · obtain ⟨a, hno, hstep⟩ := hkeep
    obtain ⟨l, hl⟩ := step_trace_append (Reachable.disowned hs) hstep
    exact ⟨hv.keep_workers hstep hl, hv.keep_tasks hstep hl, hv.keep_frames hs hstep hl hno⟩

end Engine

/-! ## What was appended is stored -/

namespace JournaledEngine

/-- The record at position `k` of those that were appended is in the file. -/
def Holds (codec : RecordCodec) (s : JournaledEngine) (k : Nat) (record : Transaction) : Prop :=
  ∃ file : List Transaction, s.wal.Holds (file.map codec.encode) ∧ file[k]? = some record

/-- What a worker, an HSM task or the reaper has placed was appended before, and what was
appended is in the file from some time on, if the journal thread gets a turn as
long as there is something on its channel. -/
structure WritesAhead (codec : RecordCodec) (P : Engine → Action → Prop)
    (room : Wal → Bytes → Prop) : Prop where
  ahead : ∀ s, Reachable codec P room s → ∀ m f, s.engine.trace[m]? = some (.placed f) →
    f.origin.serial.isSome = true → RecordedBefore s.engine.trace m f.transaction
  stored : ∀ run acts,
    Transition.Endless Initial (step codec) (Discipline codec P room) run acts →
    (∀ n, (run n).queue ≠ [] → ∃ m, n ≤ m ∧ acts m = .journal) →
    ∀ n k record, (run n).records[k]? = some record →
      ∃ m, n ≤ m ∧ ∀ later, m ≤ later → (run later).Holds codec k record

variable {codec : RecordCodec} {P : Engine → Action → Prop}

/-- A record that the journal thread has taken is in the file. -/
theorem Stored.record {s : JournaledEngine} (h : s.Stored codec) {k : Nat} {record : Transaction}
    (hget : s.records[k]? = some record) (htaken : k < s.taken) : s.Holds codec k record :=
  ⟨s.records.take s.taken, h.holds, by rw [List.getElem?_take_of_lt htaken, hget]⟩

theorem eventually_stored {run : Nat → JournaledEngine} {acts : Nat → JournaledAction}
    (h : Transition.Endless Initial (step codec) (Discipline codec P Wal.Fits) run acts)
    (hfair : ∀ n, (run n).queue ≠ [] → ∃ m, n ≤ m ∧ acts m = .journal) {n k : Nat}
    {record : Transaction} (hget : (run n).records[k]? = some record) :
    ∃ m, n ≤ m ∧ ∀ later, m ≤ later → (run later).Holds codec k record := by
  obtain ⟨m, hnm, hgrowth, htaken⟩ := drains h hfair n
  refine ⟨m, hnm, fun later hlater => ?_⟩
  have hgrown : (run m).records <+: (run later).records ∧ (run m).taken ≤ (run later).taken := by
    induction hlater with
    | refl => exact ⟨List.prefix_refl _, Nat.le_refl _⟩
    | @step j hj ih =>
        have hstep := Reachable.step_taken (h.reachable j) (h.step j)
        exact ⟨ih.1.trans hstep.1, Nat.le_trans ih.2 hstep.2.1⟩
  obtain ⟨more, hmore⟩ := hgrowth.trans hgrown.1
  have hk := History.lt_length hget
  refine (Reachable.stored (h.reachable later)).record ?_ (by omega)
  rw [← hmore]
  exact History.kept hget

/-- Where the reaper sends nothing and the file has room for every record, all is
journaled first and nothing is lost. -/
theorem journaled_write_ahead (codec : RecordCodec) :
    WritesAhead codec Engine.SendsNoReversal Wal.Fits where
  ahead _ hs _ _ := hs.engine.writeAhead.frames
  stored _ _ h hfair _ _ _ := eventually_stored h hfair

/-! ## A purchase that is journaled -/

/-- The purchase is forwarded, and the journal thread takes its record. -/
def purchaseJournaled : List JournaledAction := asked.map .engine ++ [.journal]

/-- A run that goes on for ever with reloads of the routing table. -/
def purchaseRun : Nat → JournaledEngine :=
  Transition.course (step (.onSamples [])) (start 1024) purchaseJournaled

/-- The reaper does nothing. -/
def ReaperIdle (_ : Engine) : Action → Prop
  | .reaper _ => False
  | _ => True

instance (s : Engine) (a : Action) : Decidable (ReaperIdle s a) :=
  match a with
  | .reaper _ => .isFalse id
  | .tick _ | .storeStip _ | .storeCrdb _ | .storeRouter _ | .pollSanctions _ | .ingress _ _
  | .hsm _ _ | .reply _ _ | .bank _ | .probe _ _ _ => .isTrue trivial

theorem ReaperIdle.sendsNoReversal (s : Engine) (a : Action) (h : ReaperIdle s a) :
    s.SendsNoReversal a := by
  intro key rest entry ok htimes
  rw [htimes.action] at h
  exact h.elim

theorem discipline_mono {Q : Engine → Action → Prop} (hPQ : ∀ s a, P s a → Q s a)
    {room : Wal → Bytes → Prop} (s : JournaledEngine) (a : JournaledAction)
    (h : Discipline codec P room s a) : Discipline codec Q room s a := by
  cases a with
  | engine a => exact hPQ _ _ h
  | journal => exact h

theorem purchaseJournaled_complies :
    Transition.complies (step (.onSamples [])) (Discipline (.onSamples []) ReaperIdle Wal.Fits)
      (start 1024) purchaseJournaled = true := by
  decide +kernel

theorem purchaseRun_of_length_le {n : Nat} (h : purchaseJournaled.length ≤ n) :
    purchaseRun n = after (.onSamples []) 1024 purchaseJournaled := by
  obtain ⟨t, ht⟩ := Transition.exec_of_complies purchaseJournaled_complies
  rw [purchaseRun, Transition.course_of_length_le ht h, after, ht, Option.getD_some]

set_option maxRecDepth 8000 in
theorem purchaseJournaled_queue : (after (.onSamples []) 1024 purchaseJournaled).queue = [] := by
  decide

theorem purchaseRun_endless :
    Transition.Endless Initial (step (.onSamples []))
      (Discipline (.onSamples []) Engine.SendsNoReversal Wal.Fits) purchaseRun
      fun n => purchaseJournaled.getD n (.engine (.storeRouter visaRouter)) := by
  obtain ⟨t, ht⟩ := Transition.exec_of_complies purchaseJournaled_complies
  have hend : t = after (.onSamples []) 1024 purchaseJournaled := by
    rw [after, ht, Option.getD_some]
  have hqueue : t.queue = [] := by
    rw [hend]
    exact purchaseJournaled_queue
  have hrouter : t.engine.mem.router = visaRouter := by
    rw [hend]
    rfl
  have hreload : t.engine.step (.storeRouter visaRouter) = some t.engine := by
    rw [← hrouter]
    rfl
  refine Transition.Endless.of_loop (discipline_mono ReaperIdle.sendsNoReversal)
    (start_initial 1024) purchaseJournaled_complies ht ?_
    (ReaperIdle.sendsNoReversal t.engine (.storeRouter visaRouter) trivial)
  simp [step, hreload, hqueue]

/-- The journal thread gets the one turn that it needs. -/
theorem purchaseRun_fair (n : Nat) (h : (purchaseRun n).queue ≠ []) :
    ∃ m, n ≤ m ∧
      purchaseJournaled.getD m (.engine (.storeRouter visaRouter)) = .journal := by
  by_cases hn : n ≤ asked.length
  · exact ⟨asked.length, hn, rfl⟩
  · have hlast : purchaseJournaled.length = asked.length + 1 := rfl
    rw [purchaseRun_of_length_le (by omega)] at h
    exact absurd purchaseJournaled_queue h

set_option maxRecDepth 8000 in
/-- The purchase is appended before it is placed, and its record stays in the file. -/
theorem journaled_write_ahead_purchase :
    RecordedBefore (purchaseRun purchaseJournaled.length).engine.trace 5
        (purchaseFrame 1 "000000").transaction ∧
      ∃ m, ∀ later, m ≤ later →
        (purchaseRun later).Holds (.onSamples []) 0 (toPb (purchase "000100" "RRN000000001")) := by
  have hend := purchaseRun_of_length_le (Nat.le_refl purchaseJournaled.length)
  have hplaced : (purchaseRun purchaseJournaled.length).engine.trace[5]? =
      some (.placed (purchaseFrame 1 "000000")) := by
    rw [hend]
    decide
  have hrecord : (purchaseRun purchaseJournaled.length).records[0]? =
      some (toPb (purchase "000100" "RRN000000001")) := by
    rw [hend]
    decide
  have hreached := purchaseRun_endless.reachable purchaseJournaled.length
  obtain ⟨m, -, hm⟩ := (journaled_write_ahead (.onSamples [])).stored _ _ purchaseRun_endless
    purchaseRun_fair _ 0 _ hrecord
  exact ⟨(journaled_write_ahead (.onSamples [])).ahead _ hreached 5 _ hplaced rfl, m, hm⟩

/-! ## The 0420 and the full file -/

/-- The reaper sends the 0420 of a purchase that was forwarded. -/
def reversalSent : JournaledEngine := after (.onSamples []) 1024 (forwardedExpired.map .engine)

/-- A purchase is journaled into a file that is too short for it. -/
def fileFull : JournaledEngine := after (.onSamples []) 16 (beforeNumber.map .engine ++ [.journal])

set_option maxRecDepth 8000 in
/-- The 0420 of a timeout has no record, and the record of a purchase is dropped. -/
theorem journaled_write_ahead_broken :
    (¬ ∀ codec, WritesAhead codec Transition.Free fun _ _ => True) ∧
      Reachable (.onSamples []) Transition.Free (fun _ _ => True) fileFull ∧
        fileFull.records.length = 1 ∧ fileFull.taken = 1 ∧ fileFull.wal.Holds [] := by
  refine ⟨fun h => ?_, reachable_after (by decide), by decide, by decide, by decide, 16, by decide⟩
  have hplaced : reversalSent.engine.trace[8]? =
      some (.placed ⟨.reaper 1, .externalNode "MockVisaNode", 0, purchaseReversal⟩) := by decide
  obtain ⟨n, record, -, hn, hcovers⟩ := (h (.onSamples [])).ahead reversalSent
    (reachable_after (by decide)) 8 _ hplaced rfl
  have hrequests : ∀ r ∈ reversalSent.records, r.mti = "0100" := by decide
  have hmem : record ∈ reversalSent.records :=
    List.mem_filterMap.mpr ⟨_, History.mem hn, rfl⟩
  have hmti := hcovers.mti
  rw [hrequests record hmem] at hmti
  exact absurd hmti (by decide)

end JournaledEngine

end Iso8583Switch
