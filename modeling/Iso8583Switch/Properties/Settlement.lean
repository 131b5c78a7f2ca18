import Iso8583Switch.Flow.Paths
import Iso8583Switch.Flow.Responders
import Iso8583Switch.Flow.Runs
import Iso8583Switch.Journal.Attached
import Iso8583Switch.Properties.JournalFile
import Mathlib.Data.UInt

/-!
# What settlement counts

`settle` counts the records with MTI 0100 and response code 00.  The engine journals
a request as it came, the reply of the bank as it came, and the result of the STIP
fallback with MTI 0110.  So what is counted is what was approved only where the
reply of the bank has the MTI of a request and nothing else has both.
-/

namespace Iso8583Switch

open Text PrefixedLog Function

/-! ## The tally of a list of records -/

/-- An acquirer id that is neither the cursor nor a count. -/
structure PlainId (acquirerId : String) : Prop where
  notCount : ¬ "_count".toList <:+ acquirerId.toList
  notCursor : acquirerId ≠ cursorKey

instance (acquirerId : String) : Decidable (PlainId acquirerId) :=
  decidable_of_iff (¬ "_count".toList <:+ acquirerId.toList ∧ acquirerId ≠ cursorKey)
    ⟨fun h => ⟨h.1, h.2⟩, fun h => ⟨h.1, h.2⟩⟩

def Transaction.settlesFor (acquirerId : String) (tx : Transaction) : Bool :=
  tx.settles && tx.acquirerId = acquirerId

theorem countKey_suffix (acquirerId : String) : "_count".toList <:+ (countKey acquirerId).toList := by
  rw [countKey, String.toList_append]
  exact List.suffix_append _ _

theorem PlainId.ne_countKey {a : String} (h : PlainId a) (b : String) : a ≠ countKey b := by
  rintro rfl
  exact h.notCount (countKey_suffix b)

theorem countKey_ne_cursorKey (a : String) : countKey a ≠ cursorKey := by
  intro heq
  have hsuffix := countKey_suffix a
  rw [heq] at hsuffix
  exact absurd hsuffix (by decide)

theorem countKey_inj {a b : String} : countKey a = countKey b ↔ a = b := by
  constructor
  · intro h
    have hlist := congrArg String.toList h
    rw [countKey, countKey, String.toList_append, String.toList_append] at hlist
    exact String.toList_injective (List.append_cancel_right hlist)
  · exact congrArg countKey

/-! ## The records that count -/

/-- The records of a journal that a sweep counts. -/
def counted (codec : RecordCodec) (records : List Bytes) : List Transaction :=
  (records.filterMap codec.decode).filter (·.settles)

/-- Those of an acquirer. -/
def countedFor (codec : RecordCodec) (records : List Bytes) (acquirerId : String) :
    List Transaction :=
  (counted codec records).filter (·.acquirerId = acquirerId)

theorem counted_append (codec : RecordCodec) (records more : List Bytes) :
    counted codec (records ++ more) = counted codec records ++ counted codec more := by
  rw [counted, List.filterMap_append, List.filter_append]
  rfl

theorem countedFor_append (codec : RecordCodec) (records more : List Bytes) (acquirerId : String) :
    countedFor codec (records ++ more) acquirerId =
      countedFor codec records acquirerId ++ countedFor codec more acquirerId := by
  rw [countedFor, counted_append, List.filter_append]
  rfl

theorem length_countedFor_le (codec : RecordCodec) (records : List Bytes) (acquirerId : String) :
    (countedFor codec records acquirerId).length ≤ records.length :=
  (List.length_filter_le _ _).trans
    ((List.length_filter_le _ _).trans (List.length_filterMap_le _ _))

/-- A record is counted or passed over. -/
theorem counted_cons (codec : RecordCodec) (record : Bytes) (records : List Bytes) :
    (∃ tx, (∀ db, tallySlice codec db record = db.add tx) ∧
      counted codec (record :: records) = tx :: counted codec records) ∨
    ((∀ db, tallySlice codec db record = db) ∧
      counted codec (record :: records) = counted codec records) := by
  simp only [counted, List.filterMap_cons, tallySlice]
  cases codec.decode record with
  | none => exact .inr ⟨fun _ => rfl, rfl⟩
  | some tx =>
      dsimp only
      rw [List.filter_cons]
      cases hsettles : tx.settles with
      | false => exact .inr ⟨fun _ => rfl, rfl⟩
      | true => exact .inl ⟨tx, fun _ => rfl, rfl⟩

/-- Records that were encoded. -/
theorem counted_encode {codec : RecordCodec} {records : List Transaction}
    (hdecode : ∀ tx ∈ records, codec.decode (codec.encode tx) = some tx) :
    counted codec (records.map codec.encode) = records.filter (·.settles) := by
  have hall : (records.map codec.encode).filterMap codec.decode = records := by
    rw [List.filterMap_map]
    refine (List.filterMap_congr fun tx htx => ?_).trans List.filterMap_some
    exact hdecode tx htx
  rw [counted, hall]

namespace TallyDb

/-- The total and the count of an acquirer. -/
def total (db : TallyDb) (acquirerId : String) : UInt64 := (DashMap.get db acquirerId).getD 0

def count (db : TallyDb) (acquirerId : String) : UInt64 :=
  (DashMap.get db (countKey acquirerId)).getD 0

theorem total_add (db : TallyDb) (tx : Transaction) {acquirerId : String} (h : PlainId acquirerId) :
    (db.add tx).total acquirerId =
      db.total acquirerId + if tx.acquirerId = acquirerId then tx.amount.toUInt64 else 0 := by
  rw [total, add, DashMap.get_put_ne _ _ (h.ne_countKey _), DashMap.get_put]
  by_cases hacq : acquirerId = tx.acquirerId
  · rw [if_pos hacq, if_pos hacq.symm, hacq]
    rfl
  · rw [if_neg hacq, if_neg (Ne.symm hacq), UInt64.add_zero]
    rfl

theorem count_add (db : TallyDb) {tx : Transaction} (htx : PlainId tx.acquirerId)
    (acquirerId : String) :
    (db.add tx).count acquirerId =
      db.count acquirerId + if tx.acquirerId = acquirerId then 1 else 0 := by
  rw [count, add, DashMap.get_put]
  by_cases hacq : acquirerId = tx.acquirerId
  · rw [if_pos (countKey_inj.mpr hacq), if_pos hacq.symm, hacq]
    rfl
  · have hne : countKey acquirerId ≠ tx.acquirerId := (htx.ne_countKey acquirerId).symm
    rw [if_neg (fun h => hacq (countKey_inj.mp h)), DashMap.get_put_ne _ _ hne,
      if_neg (Ne.symm hacq), UInt64.add_zero]
    rfl

/-- A sweep adds up the records that count. -/
theorem foldl_tallySlice {codec : RecordCodec} {records : List Bytes}
    (hplain : ∀ tx ∈ counted codec records, PlainId tx.acquirerId) {acquirerId : String}
    (h : PlainId acquirerId) (db : TallyDb) :
    (records.foldl (tallySlice codec) db).total acquirerId =
        db.total acquirerId +
          ((countedFor codec records acquirerId).map (·.amount.toUInt64)).sum ∧
      (records.foldl (tallySlice codec) db).count acquirerId =
        db.count acquirerId + UInt64.ofNat (countedFor codec records acquirerId).length := by
  induction records generalizing db with
  | nil => exact ⟨(UInt64.add_zero _).symm, (UInt64.add_zero _).symm⟩
  | cons record records ih =>
      rw [List.foldl_cons]
      rcases counted_cons codec record records with ⟨tx, hslice, hcons⟩ | ⟨hslice, hcons⟩
      · rw [hcons, List.forall_mem_cons] at hplain
        obtain ⟨htotal, hcount⟩ := ih hplain.2 (db.add tx)
        rw [hslice, htotal, hcount, total_add db tx h, count_add db hplain.1, countedFor, countedFor,
          hcons, List.filter_cons]
        by_cases hacq : tx.acquirerId = acquirerId
        · rw [if_pos hacq, if_pos hacq, if_pos (decide_eq_true hacq), List.map_cons, List.sum_cons,
            List.length_cons, UInt64.ofNat_add, UInt64.add_assoc, UInt64.add_assoc,
            UInt64.add_comm (UInt64.ofNat _)]
          exact ⟨rfl, rfl⟩
        · rw [if_neg hacq, if_neg hacq, if_neg (by simpa using hacq), UInt64.add_zero,
            UInt64.add_zero]
          exact ⟨rfl, rfl⟩
      · rw [hcons] at hplain
        rw [hslice, countedFor, hcons]
        exact ih hplain db

end TallyDb

/-- A first sweep of a file that holds these records. -/
theorem Wal.Holds.settle {codec : RecordCodec} {wal : Wal} {records : List Transaction}
    (h : wal.Holds (records.map codec.encode))
    (hstorable : ∀ tx ∈ records, Storable (codec.encode tx)) :
    ∃ db, Iso8583Switch.settle codec ∅ wal.mmap = some db ∧ ∀ {key : String}, key ≠ cursorKey →
      db.get key = ((records.map codec.encode).foldl (tallySlice codec) ∅).get key := by
  by_cases hshort : wal.mmap.length < 4
  · have hnone : records = [] := by
      have hoffset := h.offset
      rw [h.offset_short hshort] at hoffset
      exact List.map_eq_nil_iff.mp (frames_eq_nil hoffset.symm)
    refine ⟨∅, if_pos hshort, fun _ => ?_⟩
    rw [hnone]
    rfl
  · have hreads := h.reads fun record hmem => by
      obtain ⟨tx, htx, rfl⟩ := List.mem_map.mp hmem
      exact hstorable tx htx
    have hzero : (((∅ : TallyDb).get cursorKey).getD 0).toNat = 0 := by
      rw [DashMap.get_empty]
      rfl
    refine ⟨_, settle_eq codec (by rw [hzero]; exact hreads) (Nat.not_lt.mp hshort)
      (by rw [hzero]; omega), fun hkey => DashMap.get_put_ne _ _ hkey⟩

/-! ## What the engine approves -/

/-- The instance that an event approves: the reply of the bank that its client gets
has response code 00, or the STIP fallback decides so. -/
def Event.approves : Event → Option Serial
  | .responded _ (.bank i _) reply => if reply.responseCode = "00" then some i else none
  | .decided i responseCode => if responseCode = "00" then some i else none
  | _ => none

/-- An event that neither approves nor is counted. -/
def Event.uncounted (e : Event) : Bool :=
  e.approves.isNone && match e.record with
    | some record => !record.settles
    | none => true

theorem uncounted_answers {responder : Option Responder} {source : Source}
    {reply : UniversalPaymentEvent} (h : ∀ i packet, source ≠ .bank i packet) {e : Event}
    (he : e ∈ answers responder source reply) : e.uncounted = true := by
  obtain ⟨r, -, rfl⟩ := mem_answers.mp he
  cases source with
  | bank i packet => exact absurd rfl (h i packet)
  | compliance | detokenizer | riskScreen | echo | duplicate | reversal | unrouted | decision
  | reaper => rfl

theorem uncounted_appended {record : Transaction} (h : record.settles = false) :
    (Event.appended record).uncounted = true := by
  simp [Event.uncounted, Event.approves, Event.record, h]

theorem uncounted_decided {i : Serial} {responseCode : String} (h : responseCode ≠ "00") :
    (Event.decided i responseCode).uncounted = true := by
  simp [Event.uncounted, Event.approves, Event.record, h]

theorem approves_of_uncounted {e : Event} (h : e.uncounted = true) : e.approves = none := by
  rw [Event.uncounted, Bool.and_eq_true, Option.isNone_iff_eq_none] at h
  exact h.1

theorem settlesFor_of_uncounted {record : Transaction} {acquirerId : String}
    (h : (Event.appended record).uncounted = true) : record.settlesFor acquirerId = false := by
  simp only [Event.uncounted, Event.record, Bool.and_eq_true, Bool.not_eq_true'] at h
  rw [Transaction.settlesFor, h.2, Bool.false_and]

/-- The record of a reply settles if the reply answers the client with response code
00, and then for the acquirer and the amount of the request.  It does not settle
otherwise. -/
def bankSettles (entry : ActiveTransaction) (packet : Packet) : Bool :=
  if entry.responder.isSome && packet.transaction.responseCode = "00" then
    packet.transaction.mti = "0100" &&
      packet.transaction.acquirerId = entry.transactionData.acquirerId &&
      packet.transaction.amount = entry.transactionData.amount
  else !packet.transaction.settles

namespace Engine

/-- No request that is journaled settles, the fallback approves nothing, and the
replies of the bank settle as they should. -/
def settlesApprovals (s : Engine) : Action → Bool
  | .ingress w (.outcome ok) =>
      match s.ingress w with
      | .carrying _ _ ctx .inserted => !(ok && !ctx.needsHsm && (toPb ctx.transaction).settles)
      | .carrying _ _ ctx .decided => ctx.transaction.responseCode ≠ "00"
      | _ => true
  | .hsm i (.outcome true) =>
      match s.hsm i with
      | .checked ctx true _ => !(toPb ctx.transaction).settles
      | _ => true
  | .reply w (.outcome true) =>
      match s.repliers w with
      | .translated packet key =>
          match s.guard.get key with
          | some entry => entry.state = .reversed || bankSettles entry packet
          | none => true
      | _ => true
  | _ => true

/-- The transactions of an acquirer that were approved, with their requests. -/
structure Approvals (s : Engine) (acquirerId : String)
    (approved : List (Serial × UniversalPaymentEvent)) : Prop where
  once : (approved.map Prod.fst).Nodup
  mem_iff : ∀ i tx, (i, tx) ∈ approved ↔ (∃ key responder, s.flow.Inserted i key tx responder) ∧
    (∃ e ∈ s.trace, e.approves = some i) ∧ fromUtf8Lossy tx.acquirerId = acquirerId

/-- What was appended, oldest first. -/
def appended (s : Engine) : List Transaction := s.trace.filterMap Event.record

/-- What is counted is what was approved. -/
structure Counted (s : Engine) : Prop where
  decided : ∀ {w i key ctx}, s.ingress w = .carrying i key ctx .decided →
    ctx.transaction.mti = asBytes "0110"
  stip : ∀ i, .decided i "00" ∉ s.trace
  settled : ∀ acquirerId, ∃ approved, s.Approvals acquirerId approved ∧
    (s.appended.filter (·.settlesFor acquirerId)).map (·.amount.toUInt64) =
      approved.map (·.2.amount)

/-- An open transaction whose client gets the approval of the bank. -/
structure BankApproves (s : Engine) (packet : Packet) (key : String) (entry : ActiveTransaction)
    (r : Responder) : Prop where
  guard : s.guard.get key = some entry
  responder : entry.responder = some r
  mti : packet.transaction.mti = "0100"
  responseCode : packet.transaction.responseCode = "00"
  acquirerId : packet.transaction.acquirerId = entry.transactionData.acquirerId
  amount : packet.transaction.amount = entry.transactionData.amount

section Step

variable {s t : Engine} {a : Action} {l : List Event}

theorem settles_stip {tx : UniversalPaymentEvent} (h : tx.mti = asBytes "0110") :
    (toPb tx).settles = false := by
  have hmti : (toPb tx).mti = "0110" := by
    show fromUtf8Lossy tx.mti = "0110"
    rw [h, fromUtf8Lossy_asBytes]
  rw [Transaction.settles, hmti]
  rfl

theorem uncounted_carry {w : Nat} {i : Serial} {key : String} {ctx : TransactionContext} {stage : Stage}
    {input : Input} {pc : IngressPc} (hv : s.Counted)
    (hcond : s.settlesApprovals (.ingress w input) = true)
    (hpc : s.ingress w = .carrying i key ctx stage) (hpath : CarryPath s i key ctx input stage pc l) :
    ∀ e ∈ l, e.uncounted = true := by
  intro e he
  cases hpath with
  | task | unjournaled | route | noRoute | record | fallback | debit => cases he
  | journal hneeds =>
      rw [settlesApprovals, hpc] at hcond
      rw [List.mem_singleton.mp he]
      exact uncounted_appended (by simpa [hneeds] using hcond)
  | number => rw [List.mem_singleton.mp he]; rfl
  | decline hl =>
      obtain ⟨_, _, -, he⟩ := hl e he
      exact uncounted_answers (by simp) he
  | send =>
      simp only [List.mem_cons, List.not_mem_nil, or_false] at he
      rcases he with rfl | rfl <;> rfl
  | fail => rw [List.mem_singleton.mp he]; rfl
  | undecided =>
      rw [settlesApprovals, hpc] at hcond
      rw [List.mem_singleton.mp he]
      exact uncounted_decided (of_decide_eq_true hcond)
  | decide =>
      rw [settlesApprovals, hpc] at hcond
      simp only [List.mem_cons] at he
      rcases he with rfl | rfl | he
      · exact uncounted_decided (of_decide_eq_true hcond)
      · exact uncounted_appended (settles_stip (hv.decided hpc))
      · exact uncounted_answers (by simp) he

theorem uncounted_ingress {w : Nat} {input : Input} {pc : IngressPc} (hv : s.Counted)
    (hcond : s.settlesApprovals (.ingress w input) = true)
    (hpath : IngressPath s input (s.ingress w) pc l) :
    ∀ e ∈ l, e.uncounted = true := by
  intro e he
  generalize hpc : s.ingress w = pc₀ at hpath
  cases hpath with
  | panic | clear | plain | detokenize | screen | reverse | pass => cases he
  | receive | accept => rw [List.mem_singleton.mp he]; rfl
  | answer reply hfront =>
      refine uncounted_answers (fun i packet heq => ?_) he
      subst heq
      cases hfront
  | mark =>
      simp only [List.mem_cons, List.not_mem_nil, or_false] at he
      rcases he with rfl | rfl <;> rfl
  | carry hcarry => exact uncounted_carry hv hcond hpc hcarry e he
  | evict hl =>
      obtain ⟨i, rfl⟩ := hl e he
      rfl

theorem uncounted_task {i : Serial} {input : Input} {pc : HsmPc}
    (hcond : s.settlesApprovals (.hsm i input) = true) (hpath : TaskPath s i input (s.hsm i) pc l) :
    ∀ e ∈ l, e.uncounted = true := by
  intro e he
  generalize hpc : s.hsm i = pc₀ at hpath
  cases hpath with
  | route | verifyMac | verifyPin | translatePin | resolve | unjournaled | fail => cases he
  | decline =>
      rcases List.mem_cons.mp he with rfl | he
      · rfl
      · exact uncounted_answers (by simp) he
  | journal | drop =>
      rw [settlesApprovals, hpc] at hcond
      rw [List.mem_singleton.mp he]
      exact uncounted_appended (by simpa using hcond)
  | send => rw [List.mem_singleton.mp he]; rfl

theorem uncounted_ofReaper {e : Event} (h : e.ofReaper = true) : e.uncounted = true := by
  unfold Event.ofReaper at h
  split at h
  · rfl
  · rfl
  · rfl
  · rfl
  · cases h

/-- What a reply worker notes is not counted, or it is an approval. -/
theorem uncounted_reply {w : Nat} {input : Input} {pc : ReplyPc}
    (hcond : s.settlesApprovals (.reply w input) = true)
    (hpath : ReplyPath s input (s.repliers w) pc l) :
    (∀ e ∈ l, e.uncounted = true) ∨ ∃ packet key entry r, s.BankApproves packet key entry r ∧
      l = [.handled packet (some entry.serial), .appended packet.transaction,
        .responded r (.bank entry.serial packet) (approval packet)] := by
  generalize hpc : s.repliers w = pc₀ at hpath
  cases hpath with
  | translate => exact .inl (by simp)
  | completeUnjournaled | discard =>
      refine .inl fun e he => ?_
      rw [List.mem_singleton.mp he]
      rfl
  | evict hl =>
      refine .inl fun e he => ?_
      obtain ⟨i, rfl⟩ := hl e he
      rfl
  | @complete packet key entry hget hstate =>
      rw [settlesApprovals, hpc] at hcond
      simp only [hget, Bool.or_eq_true, decide_eq_true_eq] at hcond
      have hbank := hcond.resolve_left hstate
      rw [bankSettles] at hbank
      simp only [Bool.and_eq_true, decide_eq_true_eq] at hbank
      split at hbank
      next happroved =>
        obtain ⟨r, hr⟩ := Option.isSome_iff_exists.mp happroved.1
        obtain ⟨⟨hmti, hacq⟩, hamount⟩ := by
          simpa only [Bool.and_eq_true, decide_eq_true_eq] using hbank
        refine .inr ⟨packet, key, entry, r, ⟨hget, hr, hmti, happroved.2, hacq, hamount⟩, ?_⟩
        rw [hr]
        rfl
      next hother =>
        refine .inl fun e he => ?_
        simp only [List.mem_cons] at he
        rcases he with rfl | rfl | he
        · rfl
        · exact uncounted_appended (by simpa using hbank)
        · obtain ⟨r, hr, rfl⟩ := mem_answers.mp he
          have hcode : packet.transaction.responseCode ≠ "00" := fun hcode =>
            hother ⟨by rw [hr]; rfl, hcode⟩
          have happroval : (approval packet).responseCode = packet.transaction.responseCode := rfl
          simp [Event.uncounted, Event.approves, Event.record, happroval, hcode]

theorem uncounted_step (hv : s.Counted) (hcond : s.settlesApprovals a = true)
    (hstep : s.step a = some t)
    (hl : t.trace = s.trace ++ l) :
    (∀ e ∈ l, e.uncounted = true) ∨ ∃ packet key entry r, s.BankApproves packet key entry r ∧
      l = [.handled packet (some entry.serial), .appended packet.transaction,
        .responded r (.bank entry.serial packet) (approval packet)] := by
  cases step_path hstep hl with
  | ingress hpath => exact .inl (uncounted_ingress hv hcond hpath)
  | hsm hpath => exact .inl (uncounted_task hcond hpath)
  | reaper hreaper => exact .inl fun e he => uncounted_ofReaper (hreaper e he)
  | reply hpath => exact uncounted_reply hcond hpath
  | bank | probe => exact .inl (by simp [Event.uncounted, Event.approves, Event.record])
  | silent => exact .inl fun _ he => absurd he List.not_mem_nil

/-! ## Every step -/

theorem Counted.keep_decided (hv : s.Counted) (hstep : s.step a = some t) {w : Nat} {i : Serial}
    {key : String} {ctx : TransactionContext} (hpc : t.ingress w = .carrying i key ctx .decided) :
    ctx.transaction.mti = asBytes "0110" := by
  by_cases ha : ∃ input, a = .ingress w input
  · obtain ⟨input, rfl⟩ := ha
    obtain ⟨pc, l, hpath, htook⟩ := ingressStep_path hstep
    rw [htook.ingress, update_self] at hpc
    generalize s.ingress w = pc₀ at hpath
    cases hpath with
    | @carry _ _ ctx₀ _ _ _ _ hcarry =>
        cases hcarry with
        | @fallback _ found _ =>
            simp only [IngressPc.carrying.injEq] at hpc
            obtain ⟨-, -, rfl, hstage⟩ := hpc
            rcases stipDecision_cases found ctx₀ with ⟨profile, -, heq⟩ | ⟨rc, -, heq⟩
            · rw [heq] at hstage
              cases hstage
            · rw [heq]
              rfl
        | debit => cases hpc; rfl
        | task | unjournaled | journal | route | noRoute | number | decline | record | send | fail
        | undecided | decide => cases hpc
    | receive | panic | answer | clear | plain | detokenize | screen | reverse | mark | pass | accept
    | evict => cases hpc
  · rw [step_ingress hstep fun input h => ha ⟨input, h⟩] at hpc
    exact hv.decided hpc

/-- What is approved was inserted, with the responder that the approval went to. -/
theorem approves_inserted {P : Engine → Action → Prop} (hs : Reachable P s) (hv : s.Counted)
    {e : Event} (he : e ∈ s.trace) {i : Serial} (happroves : e.approves = some i) :
    ∃ r source reply key tx, e = .responded r source reply ∧ s.flow.Inserted i key tx (some r) := by
  cases e with
  | responded r source reply =>
      cases source with
      | bank j packet =>
          simp only [Event.approves, Option.ite_none_right_eq_some, Option.some.injEq] at happroves
          obtain ⟨-, rfl⟩ := happroves
          obtain ⟨key, tx, hi⟩ := hs.flow_free.owned.sent_serial he rfl
          exact ⟨r, _, reply, key, tx, rfl, hi⟩
      | _ => cases happroves
  | decided j responseCode =>
      simp only [Event.approves, Option.ite_none_right_eq_some, Option.some.injEq] at happroves
      obtain ⟨rfl, -⟩ := happroves
      exact absurd he (hv.stip j)
  | _ => cases happroves

/-- A request that was inserted now is not approved yet. -/
theorem Counted.inserted_old {P : Engine → Action → Prop} (hs : Reachable P s) (hv : s.Counted)
    {e : Event} (he : e ∈ s.trace) {i : Serial} (happroves : e.approves = some i)
    (hl : t.trace = s.trace ++ l) {tx : UniversalPaymentEvent} :
    (∃ key responder, t.flow.Inserted i key tx responder) ↔
      ∃ key responder, s.flow.Inserted i key tx responder := by
  have hgrow : t.flow.trace = s.flow.trace ++ l := hl
  obtain ⟨r, _, _, key, tx', -, hi⟩ := approves_inserted hs hv he happroves
  constructor
  · rintro ⟨key', responder, hi'⟩
    obtain ⟨rfl, rfl, rfl⟩ := hi'.unique (hi.grow hgrow)
    exact ⟨_, _, hi⟩
  · rintro ⟨key', responder, hi'⟩
    exact ⟨key', responder, hi'.grow hgrow⟩

/-- A step without an approval and without a record that counts. -/
theorem Counted.keep_uncounted {P : Engine → Action → Prop} (hs : Reachable P s) (hv : s.Counted)
    (hl : t.trace = s.trace ++ l) (huncounted : ∀ e ∈ l, e.uncounted = true) (acquirerId : String) :
    ∃ approved, t.Approvals acquirerId approved ∧
      (t.appended.filter (·.settlesFor acquirerId)).map (·.amount.toUInt64) =
        approved.map (·.2.amount) := by
  obtain ⟨approved, happrovals, hsum⟩ := hv.settled acquirerId
  have happroved (i : Serial) :
      (∃ e ∈ t.trace, e.approves = some i) ↔ ∃ e ∈ s.trace, e.approves = some i := by
    rw [hl]
    constructor
    · rintro ⟨e, he, happroves⟩
      rcases List.mem_append.mp he with he | he
      · exact ⟨e, he, happroves⟩
      · rw [approves_of_uncounted (huncounted e he)] at happroves
        cases happroves
    · rintro ⟨e, he, happroves⟩
      exact ⟨e, List.mem_append_left _ he, happroves⟩
  refine ⟨approved, ⟨happrovals.once, fun i tx => ?_⟩, ?_⟩
  · rw [happrovals.mem_iff, happroved]
    constructor
    · rintro ⟨hi, ⟨e, he, happroves⟩, hacq⟩
      exact ⟨(hv.inserted_old hs he happroves hl).mpr hi, ⟨e, he, happroves⟩, hacq⟩
    · rintro ⟨hi, ⟨e, he, happroves⟩, hacq⟩
      exact ⟨(hv.inserted_old hs he happroves hl).mp hi, ⟨e, he, happroves⟩, hacq⟩
  · have hnone : (l.filterMap Event.record).filter (·.settlesFor acquirerId) = [] := by
      rw [List.filter_eq_nil_iff]
      intro record hmem
      obtain ⟨e, he, hrecord⟩ := List.mem_filterMap.mp hmem
      cases e with
      | appended record' =>
          cases hrecord
          rw [settlesFor_of_uncounted (huncounted _ he)]
          exact Bool.false_ne_true
      | _ => cases hrecord
    rw [appended, hl, List.filterMap_append, List.filter_append, hnone, List.append_nil]
    exact hsum

/-- The approval of the bank for an open transaction. -/
theorem Counted.keep_approval {P : Engine → Action → Prop} (hs : Reachable P s) (hv : s.Counted)
    {packet : Packet} {key : String} {entry : ActiveTransaction} {r : Responder}
    (h : s.BankApproves packet key entry r)
    (hl : t.trace = s.trace ++ [.handled packet (some entry.serial), .appended packet.transaction,
      .responded r (.bank entry.serial packet) (approval packet)]) (acquirerId : String) :
    ∃ approved, t.Approvals acquirerId approved ∧
      (t.appended.filter (·.settlesFor acquirerId)).map (·.amount.toUInt64) =
        approved.map (·.2.amount) := by
  obtain ⟨approved, happrovals, hsum⟩ := hv.settled acquirerId
  obtain ⟨tx, r₀, hacc⟩ := hs.flow_free.accounted h.guard
  obtain ⟨tx', hi⟩ := hs.flow_free.inserted_responder h.guard h.responder
  obtain ⟨-, rfl, rfl⟩ := hacc.inserted.unique hi
  have hgrow : t.flow.trace = s.flow.trace ++ _ := hl
  -- The client has not been answered yet.
  have hfresh : ∀ e ∈ s.trace, e.approves ≠ some entry.serial := by
    intro e he happroves
    obtain ⟨r', source, reply, key', tx', rfl, hi'⟩ := approves_inserted hs hv he happroves
    obtain ⟨-, -, hr⟩ := hi.unique hi'
    cases hr
    exact hs.flow_free.owned.entry_unsent h.guard h.responder ⟨source, reply, he⟩
  have happroves : (Event.responded r (.bank entry.serial packet) (approval packet)).approves =
      some entry.serial := if_pos h.responseCode
  have hacq : packet.transaction.acquirerId = fromUtf8Lossy tx.acquirerId := by
    rw [h.acquirerId, hacc.transactionData]
    rfl
  have hamount : packet.transaction.amount.toUInt64 = tx.amount := by
    rw [h.amount, hacc.transactionData]
    exact UInt64.toUInt64_toInt64 tx.amount
  have hsettles : packet.transaction.settles = true := by
    rw [Transaction.settles, h.mti, h.responseCode]
    rfl
  have hfilter : t.appended.filter (·.settlesFor acquirerId) =
      s.appended.filter (·.settlesFor acquirerId) ++
        if fromUtf8Lossy tx.acquirerId = acquirerId then [packet.transaction] else [] := by
    rw [appended, hl, List.filterMap_append, List.filter_append]
    congr 1
    show [packet.transaction].filter _ = _
    rw [List.filter_singleton, Transaction.settlesFor, hsettles, hacq, Bool.true_and]
    by_cases hacq : fromUtf8Lossy tx.acquirerId = acquirerId
    · rw [decide_eq_true hacq, if_pos hacq]
      rfl
    · rw [decide_eq_false hacq, if_neg hacq]
      rfl
  refine ⟨approved ++ if fromUtf8Lossy tx.acquirerId = acquirerId then [(entry.serial, tx)] else [],
    ⟨?_, fun j tx' => ?_⟩, ?_⟩
  · rw [List.map_append, List.nodup_append']
    refine ⟨happrovals.once, ?_, ?_⟩
    · split <;> simp
    · intro j hj hnew
      obtain ⟨⟨j', tx''⟩, hmem, rfl⟩ := List.mem_map.mp hj
      obtain ⟨-, ⟨e, he, happroves'⟩, -⟩ := (happrovals.mem_iff _ _).mp hmem
      split at hnew
      · rw [List.map_singleton, List.mem_singleton] at hnew
        exact hfresh e he (happroves'.trans (congrArg some hnew))
      · cases hnew
  · rw [List.mem_append, happrovals.mem_iff]
    constructor
    · rintro (⟨hinserted, ⟨e, he, happroves'⟩, hacq'⟩ | hnew)
      · refine ⟨(hv.inserted_old hs he happroves' hl).mpr hinserted, ⟨e, ?_, happroves'⟩, hacq'⟩
        rw [hl]
        exact List.mem_append_left _ he
      · split at hnew
        next hacq' =>
          rw [List.mem_singleton, Prod.mk.injEq] at hnew
          obtain ⟨rfl, rfl⟩ := hnew
          refine ⟨⟨key, some r, hi.grow hgrow⟩, ⟨_, ?_, happroves⟩, hacq'⟩
          rw [hl]
          simp
        next => cases hnew
    · rintro ⟨⟨key', responder, hi'⟩, ⟨e, he, happroves'⟩, hacq'⟩
      rw [hl, List.mem_append] at he
      rcases he with he | he
      · exact .inl ⟨(hv.inserted_old hs he happroves' hl).mp ⟨key', responder, hi'⟩,
          ⟨e, he, happroves'⟩, hacq'⟩
      · simp only [List.mem_cons, List.not_mem_nil, or_false] at he
        rcases he with rfl | rfl | rfl
        · cases happroves'
        · cases happroves'
        · rw [happroves, Option.some.injEq] at happroves'
          subst happroves'
          obtain ⟨-, rfl, -⟩ := hi'.unique (hi.grow hgrow)
          exact .inr (by rw [if_pos hacq', List.mem_singleton])
  · rw [hfilter, List.map_append, List.map_append, hsum]
    congr 1
    split
    · rw [List.map_singleton, List.map_singleton, hamount]
    · rfl

theorem Counted.step {P : Engine → Action → Prop} (hs : Reachable P s) (hv : s.Counted)
    (hcond : s.settlesApprovals a = true) (hstep : s.step a = some t) : t.Counted := by
  obtain ⟨l, hl⟩ := step_trace_append hs.disowned hstep
  have hstip (h : ∀ i, .decided i "00" ∉ l) (i : Serial) : .decided i "00" ∉ t.trace := by
    rw [hl, List.mem_append, not_or]
    exact ⟨hv.stip i, h i⟩
  rcases uncounted_step hv hcond hstep hl with huncounted | ⟨packet, key, entry, r, happroves, rfl⟩
  · refine ⟨hv.keep_decided hstep, hstip fun i hmem => ?_, hv.keep_uncounted hs hl huncounted⟩
    have := approves_of_uncounted (huncounted _ hmem)
    cases this
  · exact ⟨hv.keep_decided hstep, hstip (by simp), hv.keep_approval hs happroves hl⟩

end Step

theorem Reachable.counted {s : Engine} (h : Reachable (fun s a => s.settlesApprovals a = true) s) :
    s.Counted := by
  refine h.invariant (fun s h₀ => ?_) fun s t hs hv hkeep => ?_
  · refine ⟨fun hpc => ?_, by simp [h₀.trace], fun acquirerId => ⟨[], ⟨by simp, ?_⟩, ?_⟩⟩
    · rw [h₀.ingress] at hpc
      cases hpc
    · simp [h₀.trace]
    · simp [appended, h₀.trace]
  · obtain ⟨a, hcond, hstep⟩ := hkeep
    exact hv.step hs hcond hstep

end Engine

/-! ## What a sweep counts -/

/-- The total and the count of an acquirer are those of its transactions that were
approved, each taken once. -/
def Settles (s : Engine) (db : TallyDb) (acquirerId : String) : Prop :=
  ∃ approved, s.Approvals acquirerId approved ∧
    db.total acquirerId = (approved.map (·.2.amount)).sum ∧
    db.count acquirerId = UInt64.ofNat approved.length

/-- What a codec and the acquirer ids of the records must be like. -/
structure Legible (codec : RecordCodec) (record : Transaction) : Prop where
  decodes : codec.decode (codec.encode record) = some record
  storable : Storable (codec.encode record)
  plainId : PlainId record.acquirerId

instance (codec : RecordCodec) (record : Transaction) : Decidable (Legible codec record) :=
  decidable_of_iff (codec.decode (codec.encode record) = some record ∧
      Storable (codec.encode record) ∧ PlainId record.acquirerId)
    ⟨fun h => ⟨h.1, h.2.1, h.2.2⟩, fun h => ⟨h.1, h.2, h.3⟩⟩

/-- A sweep of the whole journal counts what was approved. -/
theorem settlement_counts_approvals (codec : RecordCodec) {s : JournaledEngine}
    (hs : JournaledEngine.Reachable codec (fun s a => s.settlesApprovals a = true) Wal.Fits s)
    (hwritten : s.queue = []) (hrecords : ∀ record ∈ s.records, Legible codec record) :
    ∃ db, settle codec ∅ s.wal.mmap = some db ∧
      ∀ acquirerId, PlainId acquirerId → Settles s.engine db acquirerId := by
  have hstored := hs.stored
  have hall : s.records.take s.taken = s.records :=
    List.take_of_length_le (List.drop_eq_nil_iff.mp hwritten)
  have hholds := hstored.holds
  rw [hall] at hholds
  obtain ⟨db, hdb, hget⟩ := hholds.settle fun record hmem => (hrecords record hmem).storable
  refine ⟨db, hdb, fun acquirerId hplain => ?_⟩
  obtain ⟨approved, happrovals, hsum⟩ := hs.engine.counted.settled acquirerId
  have hcounted := counted_encode fun record hmem => (hrecords record hmem).decodes
  have hfor : countedFor codec (s.records.map codec.encode) acquirerId =
      s.records.filter (·.settlesFor acquirerId) := by
    rw [countedFor, hcounted, List.filter_filter]
    exact List.filter_congr fun tx _ => Bool.and_comm _ _
  have hplains : ∀ tx ∈ counted codec (s.records.map codec.encode), PlainId tx.acquirerId := by
    intro tx htx
    rw [hcounted] at htx
    exact (hrecords tx (List.mem_of_mem_filter htx)).plainId
  obtain ⟨htotal, hcount⟩ := TallyDb.foldl_tallySlice hplains hplain ∅
  rw [hfor] at htotal hcount
  have hempty : TallyDb.total ∅ acquirerId = 0 ∧ TallyDb.count ∅ acquirerId = 0 := ⟨rfl, rfl⟩
  rw [hempty.1, UInt64.zero_add] at htotal
  rw [hempty.2, UInt64.zero_add] at hcount
  refine ⟨approved, happrovals, ?_, ?_⟩
  · rw [TallyDb.total, hget hplain.notCursor]
    exact htotal.trans (congrArg List.sum hsum)
  · rw [TallyDb.count, hget (countKey_ne_cursorKey acquirerId)]
    refine hcount.trans (congrArg UInt64.ofNat ?_)
    have hlen := congrArg List.length hsum
    rw [List.length_map, List.length_map] at hlen
    exact hlen

/-! ## The approval of a purchase -/

/-- The purchase, with no response code yet. -/
def openPurchase : UniversalPaymentEvent :=
  { purchase "000100" "RRN000000001" with responseCode := "" }

/-- The bank approves it, in a reply with some MTI. -/
def bankApproval (mti : String) : Packet :=
  ⟨{ toPb { openPurchase with stan := "000000" } with mti := mti, responseCode := "00" }, some 5⟩

def approvalCodec (mti : String) : RecordCodec :=
  .onSamples [toPb openPurchase, (bankApproval mti).transaction]

/-- The purchase goes to the bank and back, and the journal thread writes both
records. -/
def approvedPurchase (mti : String) : JournaledEngine :=
  .after (approvalCodec mti) 192
    ((.storeRouter visaRouter :: (accept 0 openPurchase ++ forward 0 true ++
      bankAnswer 0 (bankApproval mti))).map .engine ++ [.journal, .journal])

set_option maxRecDepth 16000 in
theorem settlement_counts_request_mti :
    ∃ db, settle (approvalCodec "0100") ∅ (approvedPurchase "0100").wal.mmap = some db ∧
      ∀ acquirerId, PlainId acquirerId → Settles (approvedPurchase "0100").engine db acquirerId :=
  settlement_counts_approvals (approvalCodec "0100") (JournaledEngine.reachable_after (by decide))
    (by decide) (by decide)

set_option maxRecDepth 16000 in
/-- The bank approves the purchase with a 0110, and the sweep counts nothing. -/
theorem settlement_misses_approval : ¬ ∀ (codec : RecordCodec) (s : JournaledEngine) (db : TallyDb),
    JournaledEngine.Reachable codec Transition.Free (fun _ _ => True) s → s.queue = [] →
    (∀ record ∈ s.records, Legible codec record) → settle codec ∅ s.wal.mmap = some db →
      ∀ acquirerId, PlainId acquirerId → Settles s.engine db acquirerId := by
  intro h
  have hcount : (settle (approvalCodec "0110") ∅ (approvedPurchase "0110").wal.mmap).map
      (·.count "ACQ1") = some 0 := by decide
  obtain ⟨db, hdb, hzero⟩ := Option.map_eq_some_iff.mp hcount
  obtain ⟨approved, happrovals, -, hlength⟩ := h (approvalCodec "0110") (approvedPurchase "0110") db
    (JournaledEngine.reachable_after (by decide)) (by decide) (by decide) hdb "ACQ1" (by decide)
  have hmem : (1, openPurchase) ∈ approved :=
    (happrovals.mem_iff 1 openPurchase).mpr
      ⟨⟨openPurchase.guardKey, some 0, by decide⟩, by decide, by decide⟩
  have hone : ∀ e ∈ (approvedPurchase "0110").engine.trace, e.approves = none ∨ e.approves = some 1 := by
    decide
  have hall : ∀ i ∈ approved.map Prod.fst, i = 1 := by
    intro i hi
    obtain ⟨⟨i, tx⟩, hmem, rfl⟩ := List.mem_map.mp hi
    obtain ⟨-, ⟨e, he, happroves⟩, -⟩ := (happrovals.mem_iff i tx).mp hmem
    rcases hone e he with hnone | hsome
    · rw [hnone] at happroves
      cases happroves
    · exact (Option.some.inj (hsome.symm.trans happroves)).symm
  have hle := happrovals.once
  rw [List.eq_replicate_of_mem hall, List.nodup_replicate, List.length_map] at hle
  have hpos : 0 < approved.length := List.length_pos_of_mem hmem
  have hlen : approved.length = 1 := by omega
  rw [hzero, hlen] at hlength
  exact absurd hlength (by decide)

end Iso8583Switch
