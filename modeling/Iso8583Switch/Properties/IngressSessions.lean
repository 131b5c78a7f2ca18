import Iso8583Switch.Edge.SessionTurns
import Iso8583Switch.Library.History
import Iso8583Switch.Properties.CodecAgreement
import Iso8583Switch.Properties.ReplyOrder

/-!
# What becomes of the frames of a terminal

`Place` is where a frame is: its task, its oneshot channel, the contexts that the core got
for it and the replies that were queued for it.  `Move` has one case for each way in which
a step moves a frame, and `Course` lists the places that a frame can come to.

The message of every dialect is short enough for its length field, so the terminal reads
what the writer task feeds (`ReplyWriter`).
-/

namespace Iso8583Switch

open Text Function Framing FieldWalk History

namespace EdgeIngress

/-! ## The messages of the dialects are short -/

section
variable {written more : List WrittenField} {b : Nat}

theorem length_writeVar (digits cap : Nat) (hdigits : 0 < digits) (hcap : cap < 10 ^ digits)
    (val : Bytes) : (writeVar digits cap val).length ≤ digits + cap := by
  rw [writeVar]
  split
  · exact Nat.zero_le _
  next hshort =>
    have hlen := len_zeroPadded hdigits (n := val.length) (by omega)
    rw [List.length_append, length_asBytes, hlen]
    omega

theorem length_payload_le (h : ∀ field ∈ written, field.bytes.length ≤ b) :
    (payload (presentOf written)).length ≤ written.length * b := by
  induction written with
  | nil => exact Nat.zero_le _
  | cons field written ih =>
      have hrest := ih fun f hf => h f (List.mem_cons_of_mem _ hf)
      have hfirst := h field List.mem_cons_self
      rw [presentOf, List.filter_cons, List.length_cons, Nat.succ_mul]
      split
      · rw [List.map_cons, payload, List.flatMap_cons, List.length_append]
        dsimp only
        rw [presentOf, payload] at hrest
        omega
      · rw [presentOf] at hrest
        omega

theorem length_responseMti (tx : UniversalPaymentEvent) : (responseMti tx).length = 4 := by
  rw [responseMti]
  split
  next hlong => rw [List.length_take, Nat.min_eq_left hlong]
  · rfl

theorem length_writeLlvar (val : Bytes) : (writeLlvar val).length ≤ 1002 :=
  Nat.le_trans (length_writeVar 2 99 (by decide) (by decide) val) (by decide)

theorem length_writeLllvar (val : Bytes) : (writeLllvar val).length ≤ 1002 :=
  length_writeVar 3 999 (by decide) (by decide) val

theorem length_sharedField (tx : UniversalPaymentEvent) :
    ∀ field ∈ sharedFields tx, field.bytes.length ≤ 1002 := by
  simp [sharedFields, length_writeFixed, length_writeLlvar]

theorem length_buildResponse (dialect : IngressDialect) (tx : UniversalPaymentEvent) :
    (dialect.buildResponse tx).length ≤ 65535 := by
  have hshared := length_sharedField tx
  have hpan : (panField tx).bytes.length ≤ 1002 := length_writeLlvar _
  have hpin : (pinField tx).bytes.length ≤ 1002 := by simp [pinField, length_writeFixed]
  cases dialect with
  | standard =>
      have hpayload : (payload (presentOf (StandardDialect.writtenFields tx))).length ≤ 12 * 1002 :=
        length_payload_le (List.forall_mem_append.mpr
          ⟨List.forall_mem_cons.mpr ⟨hpan, hshared⟩, by simp [length_writeLllvar, hpin]⟩)
      rw [IngressDialect.buildResponse, StandardDialect.buildResponse, List.length_append,
        List.length_append, length_bitmapOf, length_responseMti]
      omega
  | interac =>
      have hpayload : (payload (presentOf (InteracDialect.writtenFields tx))).length ≤ 13 * 1002 :=
        length_payload_le (List.forall_mem_append.mpr
          ⟨List.forall_mem_cons.mpr ⟨hpan, hshared⟩, by simp [length_writeLllvar, hpin]⟩)
      rw [IngressDialect.buildResponse, InteracDialect.buildResponse, List.length_append,
        List.length_append, length_bitmapOf, length_responseMti]
      omega
  | ukFps =>
      have hpayload : (payload (presentOf (UkFpsDialect.primaryFields tx ++
          UkFpsDialect.accountFields tx))).length ≤ 12 * 1002 :=
        length_payload_le (List.forall_mem_append.mpr
          ⟨List.forall_mem_append.mpr ⟨hshared, by simp [hpin]⟩,
            by simp [UkFpsDialect.accountFields, length_writeLlvar]⟩)
      rw [IngressDialect.buildResponse, UkFpsDialect.buildResponse, ← presentOf_append,
        List.length_append, List.length_append, List.length_append, length_responseMti,
        UkFpsDialect.bitmap, length_bitmapOf]
      split
      · rw [UkFpsDialect.secondaryBitmap, length_bitmapOf]
        omega
      · rw [List.length_nil]
        omega

end

variable {dialect : IngressDialect} {s s' : Session} {n : Nat}

/-! ## Where a frame is -/

/-- What the reader makes of a frame that has been read. -/
def Session.accepted (s : Session) (dialect : IngressDialect) (n : Nat) :
    Option UniversalPaymentEvent :=
  s.requests.taken[n]?.bind fun payload => (dialect.parse payload).toOption

def Session.contextsOf (s : Session) (n : Nat) : List TransactionContext :=
  under s.contexts n

def Session.repliesTo (s : Session) (n : Nat) : List Bytes := under s.replies.queued n

structure Place where
  accepted : Option UniversalPaymentEvent
  task : TaskPc
  oneshot : Oneshot
  contexts : List TransactionContext
  replies : List Bytes

def Session.place (s : Session) (dialect : IngressDialect) (n : Nat) : Place :=
  ⟨s.accepted dialect n, s.tasks n, s.oneshots n, s.contextsOf n, s.repliesTo n⟩

/-- What a step does to a frame. -/
inductive Move (dialect : IngressDialect) (s : Session) (n : Nat) : Place → Place → Prop where
  | stay (p : Place) : Move dialect s n p p
  | spawn {pc o cs rs} (tx : UniversalPaymentEvent) :
      Move dialect s n ⟨none, pc, o, cs, rs⟩ ⟨some tx, .sending tx, o, cs, rs⟩
  | handOver {e o cs rs} (tx : UniversalPaymentEvent) :
      Move dialect s n ⟨e, .sending tx, o, cs, rs⟩ ⟨e, .selecting tx, o, cs ++ [requestOf n tx], rs⟩
  | refuse {e o cs rs} (tx : UniversalPaymentEvent) (h : s.coreOpen = false) :
      Move dialect s n ⟨e, .sending tx, o, cs, rs⟩ ⟨e, .ended, o, cs, rs⟩
  | takeResponse {e cs rs} (tx responseTx : UniversalPaymentEvent) :
      Move dialect s n ⟨e, .selecting tx, .answered responseTx, cs, rs⟩
        ⟨e, .replying (dialect.buildResponse responseTx), .answered responseTx, cs, rs⟩
  | takeDropped {e cs rs} (tx : UniversalPaymentEvent) :
      Move dialect s n ⟨e, .selecting tx, .dropped, cs, rs⟩ ⟨e, .ended, .dropped, cs, rs⟩
  | takeNotice {e o cs rs} (tx : UniversalPaymentEvent) (h : s.reading = false) :
      Move dialect s n ⟨e, .selecting tx, o, cs, rs⟩ ⟨e, .reversing tx, o, cs, rs⟩
  | reply {e o cs rs} (isoOut : Bytes) :
      Move dialect s n ⟨e, .replying isoOut, o, cs, rs⟩ ⟨e, .ended, o, cs, rs ++ [isoOut]⟩
  | reverse {e o cs rs} (tx : UniversalPaymentEvent) :
      Move dialect s n ⟨e, .reversing tx, o, cs, rs⟩ ⟨e, .ended, o, cs ++ [reversalOf tx], rs⟩
  | giveUp {e o cs rs} (tx : UniversalPaymentEvent) (h : s.coreOpen = false) :
      Move dialect s n ⟨e, .reversing tx, o, cs, rs⟩ ⟨e, .ended, o, cs, rs⟩
  | respond {e pc ctx cs rs} (responseTx : UniversalPaymentEvent) (h : ctx ∈ cs) :
      Move dialect s n ⟨e, pc, .held, cs, rs⟩ ⟨e, pc, .answered responseTx, cs, rs⟩
  | forget {e pc ctx cs rs} (h : ctx ∈ cs) :
      Move dialect s n ⟨e, pc, .held, cs, rs⟩ ⟨e, pc, .dropped, cs, rs⟩

/-- The places that a frame can come to. -/
inductive Course (dialect : IngressDialect) (s : Session) (n : Nat) : Place → Prop where
  | absent : Course dialect s n ⟨none, .absent, .held, [], []⟩
  | sending (tx : UniversalPaymentEvent) :
      Course dialect s n ⟨some tx, .sending tx, .held, [], []⟩
  | refused (tx : UniversalPaymentEvent) (h : s.coreOpen = false) :
      Course dialect s n ⟨some tx, .ended, .held, [], []⟩
  | selecting (tx : UniversalPaymentEvent) (o : Oneshot) :
      Course dialect s n ⟨some tx, .selecting tx, o, [requestOf n tx], []⟩
  | forgotten (tx : UniversalPaymentEvent) :
      Course dialect s n ⟨some tx, .ended, .dropped, [requestOf n tx], []⟩
  | replying (tx responseTx : UniversalPaymentEvent) :
      Course dialect s n ⟨some tx, .replying (dialect.buildResponse responseTx),
        .answered responseTx, [requestOf n tx], []⟩
  | replied (tx responseTx : UniversalPaymentEvent) :
      Course dialect s n ⟨some tx, .ended, .answered responseTx, [requestOf n tx],
        [dialect.buildResponse responseTx]⟩
  | reversing (tx : UniversalPaymentEvent) (o : Oneshot) (h : s.reading = false) :
      Course dialect s n ⟨some tx, .reversing tx, o, [requestOf n tx], []⟩
  | reversed (tx : UniversalPaymentEvent) (o : Oneshot) (h : s.reading = false) :
      Course dialect s n ⟨some tx, .ended, o, [requestOf n tx, reversalOf tx], []⟩
  | unreversed (tx : UniversalPaymentEvent) (o : Oneshot) (h : s.reading = false)
      (hcore : s.coreOpen = false) :
      Course dialect s n ⟨some tx, .ended, o, [requestOf n tx], []⟩

/-- What no step takes back. -/
structure Later (s s' : Session) : Prop where
  reading : s.reading = false → s'.reading = false
  coreOpen : s.coreOpen = false → s'.coreOpen = false

theorem Course.later {p : Place} (h : Course dialect s n p) (hlater : Later s s') :
    Course dialect s' n p := by
  cases h with
  | absent => exact .absent
  | sending tx => exact .sending tx
  | refused tx hcore => exact .refused tx (hlater.coreOpen hcore)
  | selecting tx o => exact .selecting tx o
  | forgotten tx => exact .forgotten tx
  | replying tx responseTx => exact .replying tx responseTx
  | replied tx responseTx => exact .replied tx responseTx
  | reversing tx o hreading => exact .reversing tx o (hlater.reading hreading)
  | reversed tx o hreading => exact .reversed tx o (hlater.reading hreading)
  | unreversed tx o hreading hcore =>
      exact .unreversed tx o (hlater.reading hreading) (hlater.coreOpen hcore)

/-- A frame stays on its course. -/
theorem Course.move {p p' : Place} (h : Course dialect s n p) (hmove : Move dialect s n p p') :
    Course dialect s n p' := by
  cases hmove with
  | stay => exact h
  | spawn tx => cases h; exact .sending tx
  | handOver tx => cases h; exact .selecting tx .held
  | refuse tx hcore => cases h; exact .refused tx hcore
  | takeResponse tx responseTx => cases h; exact .replying tx responseTx
  | takeDropped tx => cases h; exact .forgotten tx
  | takeNotice tx hreading => cases h; exact .reversing tx _ hreading
  | reply isoOut => cases h; exact .replied _ _
  | reverse tx => cases h with | reversing _ _ hreading => exact .reversed tx _ hreading
  | giveUp tx hcore =>
      cases h with | reversing _ _ hreading => exact .unreversed tx _ hreading hcore
  | respond responseTx hctx =>
      cases h with
      | absent => cases hctx
      | sending => cases hctx
      | refused => cases hctx
      | selecting tx => exact .selecting tx _
      | reversing tx _ hreading => exact .reversing tx _ hreading
      | reversed tx _ hreading => exact .reversed tx _ hreading
      | unreversed tx _ hreading hcore => exact .unreversed tx _ hreading hcore
  | forget hctx =>
      cases h with
      | absent => cases hctx
      | sending => cases hctx
      | refused => cases hctx
      | selecting tx => exact .selecting tx _
      | reversing tx _ hreading => exact .reversing tx _ hreading
      | reversed tx _ hreading => exact .reversed tx _ hreading
      | unreversed tx _ hreading hcore => exact .unreversed tx _ hreading hcore

/-! ## What a step does to the frames -/

namespace Session

theorem place_setTask_self (pc : TaskPc) :
    (s.setTask n pc).place dialect n = { s.place dialect n with task := pc } := by
  simp only [place, setTask, update_self]
  rfl

theorem place_setTask_of_ne {m : Nat} (h : m ≠ n) (pc : TaskPc) :
    (s.setTask n pc).place dialect m = s.place dialect m := by
  simp only [place, setTask, update_of_ne h]
  rfl

theorem place_send_of_ne {m : Nat} (h : m ≠ n) (ctx : TransactionContext) :
    (s.send n ctx).place dialect m = s.place dialect m := by
  rw [send]
  split
  · simp only [place, contextsOf, under_snoc_of_ne _ h]
    rfl
  · rfl

theorem place_send_self (hcore : s.coreOpen = true) (ctx : TransactionContext) :
    (s.send n ctx).place dialect n =
      { s.place dialect n with contexts := s.contextsOf n ++ [ctx] } := by
  rw [send, if_pos hcore]
  simp only [place, contextsOf, under_snoc_self]
  rfl

theorem mem_of_handedOver (h : s.handedOver n = true) : ∃ ctx, ctx ∈ s.contextsOf n := by
  obtain ⟨⟨m, ctx⟩, hmem, hboth⟩ := List.any_eq_true.mp h
  simp only [Bool.and_eq_true, decide_eq_true_eq] at hboth
  obtain ⟨rfl, -⟩ := hboth
  exact ⟨ctx, mem_under.mpr hmem⟩

theorem place_reply_self (isoOut : Bytes) :
    ({ s.setTask n .ended with replies := s.replies.push n isoOut } : Session).place dialect n =
      { s.place dialect n with task := .ended, replies := s.repliesTo n ++ [isoOut] } := by
  simp only [place, setTask, update_self, repliesTo, ReplyWriter.push, under_snoc_self]
  rfl

/-- A step of the task of a frame moves that frame. -/
theorem move_of_task (hturn : TaskTurn dialect s n s') :
    Move dialect s n (s.place dialect n) (s'.place dialect n) := by
  cases hturn with
  | handOver tx htask hcore =>
      rw [place_setTask_self, place_send_self hcore, place, htask]
      exact .handOver tx
  | refuse tx htask hcore =>
      rw [place_setTask_self, place, htask]
      exact .refuse tx hcore
  | takeResponse tx responseTx htask honeshot =>
      rw [place_setTask_self, place, htask, honeshot]
      exact .takeResponse tx responseTx
  | takeDropped tx htask honeshot =>
      rw [place_setTask_self, place, htask, honeshot]
      exact .takeDropped tx
  | takeNotice tx htask hreading =>
      rw [place_setTask_self, place, htask]
      exact .takeNotice tx hreading
  | reply isoOut htask =>
      rw [place_reply_self, place, htask]
      exact .reply isoOut
  | reverse tx htask =>
      rw [place_setTask_self]
      cases hcore : s.coreOpen with
      | true =>
          rw [place_send_self hcore, place, htask]
          exact .reverse tx
      | false =>
          rw [send, if_neg (by simp [hcore]), place, htask]
          exact .giveUp tx hcore

/-- And no other. -/
theorem place_of_task (hturn : TaskTurn dialect s n s') {m : Nat} (h : m ≠ n) :
    s'.place dialect m = s.place dialect m := by
  cases hturn with
  | handOver => rw [place_setTask_of_ne h, place_send_of_ne h]
  | refuse => rw [place_setTask_of_ne h]
  | takeResponse => rw [place_setTask_of_ne h]
  | takeDropped => rw [place_setTask_of_ne h]
  | takeNotice => rw [place_setTask_of_ne h]
  | reply =>
      simp only [place, setTask, update_of_ne h, repliesTo, ReplyWriter.push,
        under_snoc_of_ne _ h]
      rfl
  | reverse => rw [place_setTask_of_ne h, place_send_of_ne h]

theorem accepted_next (s : Session) (dialect : IngressDialect) :
    s.accepted dialect s.requests.taken.length = none := by
  rw [accepted, List.getElem?_eq_none (Nat.le_refl _), Option.bind_none]

theorem place_receive_self (payload src : Bytes) :
    (s.receive payload src).place dialect s.requests.taken.length =
      { s.place dialect s.requests.taken.length with
        accepted := (dialect.parse payload).toOption } := by
  simp only [place, accepted, receive, List.getElem?_concat_length, Option.bind_some]
  rfl

theorem place_receive_of_ne {m : Nat} (h : m ≠ s.requests.taken.length) (payload src : Bytes) :
    (s.receive payload src).place dialect m = s.place dialect m := by
  have hsame : (s.requests.taken ++ [payload])[m]? = s.requests.taken[m]? := by
    rcases Nat.lt_or_ge m s.requests.taken.length with hlt | hge
    · rw [List.getElem?_append_left hlt]
    · rw [List.getElem?_eq_none hge, List.getElem?_eq_none (by simp; omega)]
  simp only [place, accepted, receive, hsame]
  rfl

theorem move_of_spawn {payload src : Bytes} {tx : UniversalPaymentEvent}
    (hparse : dialect.parse payload = .ok tx) (m : Nat) :
    Move dialect s m (s.place dialect m) (((s.receive payload src).setTask
      s.requests.taken.length (.sending tx)).place dialect m) := by
  have hnone := s.accepted_next dialect
  rcases eq_or_ne m s.requests.taken.length with rfl | hne
  · rw [place_setTask_self, place_receive_self, hparse, place, hnone]
    exact .spawn tx
  · rw [place_setTask_of_ne hne, place_receive_of_ne hne]
    exact .stay _

theorem move_of_reject {payload src : Bytes} {failure : DecodeFailure} {reading : Bool}
    (hparse : dialect.parse payload = .error failure) (m : Nat) :
    Move dialect s m (s.place dialect m)
      (({ s.receive payload src with reading } : Session).place dialect m) := by
  have hnone := s.accepted_next dialect
  have hsame : ({ s.receive payload src with reading } : Session).place dialect m =
      (s.receive payload src).place dialect m := rfl
  rw [hsame]
  rcases eq_or_ne m s.requests.taken.length with rfl | hne
  · rw [place_receive_self, hparse, place, hnone]
    exact .stay _
  · rw [place_receive_of_ne hne]
    exact .stay _

/-- What the core does with a responder. -/
theorem place_oneshots (o : Oneshot) (m : Nat) :
    ({ s with oneshots := update s.oneshots n o } : Session).place dialect m =
      if m = n then { s.place dialect m with oneshot := o } else s.place dialect m := by
  split
  next heq =>
    rw [heq]
    simp only [place, update_self]
    rfl
  next hne =>
    simp only [place, update_of_ne hne]
    rfl

theorem move_of_oneshot {o : Oneshot} (h : s.handedOver n = true) (hheld : s.oneshots n = .held)
    (ho : o ≠ .held) (m : Nat) : Move dialect s m (s.place dialect m)
      (({ s with oneshots := update s.oneshots n o } : Session).place dialect m) := by
  rw [place_oneshots]
  split
  next heq =>
    obtain ⟨ctx, hctx⟩ := mem_of_handedOver h
    rw [heq, place, hheld]
    cases o with
    | held => exact absurd rfl ho
    | answered responseTx => exact .respond responseTx hctx
    | dropped => exact .forget hctx
  next => exact .stay _

/-- The bytes on their way are not in the place of a frame. -/
theorem place_replies {r : ReplyWriter.Action} {replies : ReplyWriter}
    (hpush : ∀ n msg, r ≠ .push n msg) (hreply : s.replies.step .edgeIngress r = some replies)
    (m : Nat) : ({ s with replies } : Session).place dialect m = s.place dialect m := by
  simp only [place, repliesTo, ReplyWriter.queued_of_step hpush hreply]
  rfl

theorem place_requests {requests : Pipe Bytes} (h : requests.taken = s.requests.taken) (m : Nat) :
    ({ s with requests } : Session).place dialect m = s.place dialect m := by
  simp only [place, accepted, h]
  rfl

end Session

/-- A step of the connection moves every frame by one move, or leaves it. -/
theorem move_of_step {a : SessionAction} (hstep : s.step dialect a = some s') (m : Nat) :
    Move dialect s m (s.place dialect m) (s'.place dialect m) := by
  cases step_effect hstep with
  | requests p _ htake hpipe =>
      rw [Session.place_requests (Pipe.taken_of_step htake hpipe)]
      exact .stay _
  | spawned payload src tx _ hparse => exact Session.move_of_spawn hparse m
  | rejected payload src failure reading _ hparse _ => exact Session.move_of_reject hparse m
  | close => exact .stay _
  | task n hturn =>
      rcases eq_or_ne m n with rfl | hne
      · exact Session.move_of_task hturn
      · rw [Session.place_of_task hturn hne]
        exact .stay _
  | oneshot n o hhanded hheld ho => exact Session.move_of_oneshot hhanded hheld ho m
  | coreEnds => exact .stay _
  | replies r hpush _ hreply =>
      rw [Session.place_replies hpush hreply]
      exact .stay _

/-! ## What becomes of a frame -/

theorem later_of_step {a : SessionAction} (hstep : s.step dialect a = some s') : Later s s' := by
  cases step_effect hstep with
  | requests => exact ⟨id, id⟩
  | spawned => exact ⟨id, id⟩
  | rejected _ _ _ _ _ _ hreading => exact ⟨hreading, id⟩
  | close => exact ⟨fun _ => rfl, id⟩
  | task n hturn =>
      obtain ⟨tasks, contexts, replies, rfl⟩ := hturn.frame
      exact ⟨id, id⟩
  | oneshot => exact ⟨id, id⟩
  | coreEnds => exact ⟨id, fun _ => rfl⟩
  | replies => exact ⟨id, id⟩

/-- Every frame is on its course. -/
theorem on_course {P : Session → SessionAction → Prop} (h : Session.Reachable dialect P s)
    (n : Nat) : Course dialect s n (s.place dialect n) := by
  refine h.invariant (I := fun s => Course dialect s n (s.place dialect n)) ?_ ?_
  · rintro _ rfl
    exact .absent
  · rintro s s' - hcourse ⟨a, -, hstep⟩
    exact (hcourse.move (move_of_step hstep n)).later (later_of_step hstep)

/-- A frame that is accepted brings the core one request, and a reversal of it at most, and
the terminal one reply at most, which is the response of the core.  There is no reply
beside a reversal, and no reversal before the reader has ended.  When its task has ended
there is one of them, unless the core has dropped the responder or has itself ended. -/
theorem frames_settle_once (h : Session.Reachable dialect Transition.Free s) (n : Nat) :
    (s.accepted dialect n = none → s.contextsOf n = [] ∧ s.repliesTo n = []) ∧
    ∀ tx, s.accepted dialect n = some tx →
      s.contextsOf n <+: [requestOf n tx, reversalOf tx] ∧
      (s.repliesTo n = [] ∨ s.contextsOf n = [requestOf n tx] ∧ ∃ responseTx,
        s.oneshots n = .answered responseTx ∧
          s.repliesTo n = [dialect.buildResponse responseTx]) ∧
      (reversalOf tx ∈ s.contextsOf n → s.reading = false) ∧
      (s.tasks n = .ended → s.coreOpen = true → s.repliesTo n ≠ [] ∨
        reversalOf tx ∈ s.contextsOf n ∨ s.oneshots n = .dropped) := by
  have hcourse := on_course h n
  have hother (tx : UniversalPaymentEvent) : reversalOf tx ≠ requestOf n tx := fun heq => by
    cases congrArg TransactionContext.responder heq
  rw [Session.place] at hcourse
  generalize s.accepted dialect n = accepted, s.tasks n = task, s.oneshots n = oneshot,
    s.contextsOf n = contexts, s.repliesTo n = replies at hcourse ⊢
  refine ⟨fun hnone => ?_, fun tx hsome => ?_⟩
  · subst hnone
    cases hcourse
    exact ⟨rfl, rfl⟩
  · subst hsome
    cases hcourse with
    | sending => simp
    | refused _ hcore => simp [hcore]
    | selecting => simp [hother]
    | forgotten => simp [hother]
    | replying => simp [hother]
    | replied => simp [hother]
    | reversing => simp [hother]
    | reversed _ _ hreading => simp [hother, hreading]
    | unreversed _ _ _ hcore => simp [hother, hcore]

/-- A message without fields. -/
def emptyMessage : Bytes := asBytes "0800" ++ List.replicate 8 0

/-- It is sent and read, and its context is handed to the core. -/
def handOverRun : List SessionAction :=
  [.request emptyMessage, .uplink (.transmit 14), .uplink (.arrive 14), .read, .task 0 .handOver]

/-- The socket drops before the core answers. -/
def dropRun : List SessionAction :=
  handOverRun ++ [.close, .task 0 .takeNotice, .task 0 .reverse]

theorem frames_settle_once_drop :
    (Transition.ran (Session.step .standard) .new dropRun).contextsOf 0 <+:
      [requestOf 0 (blankEvent (asBytes "0800")), reversalOf (blankEvent (asBytes "0800"))] :=
  ((frames_settle_once (Transition.Reachable.ran_of_complies (P := Transition.Free) (fun _ _ => id) rfl
    (by decide)) 0).2 (blankEvent (asBytes "0800")) rfl).1

/-! ## The two directions of the connection -/

/-- What a step does to the direction of the requests. -/
theorem requests_of_step {a : SessionAction} (hstep : s.step dialect a = some s') :
    s'.requests = s.requests ∨ ∃ p : PipeAction Bytes,
      (∀ item, p = .put item → item.length ≤ 65535) ∧
      s.requests.step (decode (ε := Empty)) codecEncode p = some s'.requests := by
  have htake (payload src : Bytes)
      (hdecode : decode (ε := Empty) s.requests.inBuffer = (.ok (some payload), src)) :
      s.requests.step (decode (ε := Empty)) codecEncode .take =
        some (s.receive payload src).requests := by
    rw [Pipe.step, Pipe.take, hdecode]
    rfl
  cases step_effect hstep with
  | requests p hput _ hpipe => exact .inr ⟨p, hput, hpipe⟩
  | spawned payload src _ hdecode =>
      exact .inr ⟨.take, fun item heq => (by cases heq), htake payload src hdecode⟩
  | rejected payload src _ _ hdecode =>
      exact .inr ⟨.take, fun item heq => (by cases heq), htake payload src hdecode⟩
  | close => exact .inl rfl
  | task n hturn =>
      obtain ⟨tasks, contexts, replies, rfl⟩ := hturn.frame
      exact .inl rfl
  | oneshot => exact .inl rfl
  | coreEnds => exact .inl rfl
  | replies => exact .inl rfl

theorem requests_sound {P : Session → SessionAction → Prop}
    (h : Session.Reachable dialect P s) : Pipe.Sound (·.length ≤ 65535) codecEncode s.requests := by
  refine h.invariant
    (I := fun s => Pipe.Sound (·.length ≤ 65535) codecEncode s.requests) ?_ ?_
  · rintro _ rfl
    exact Pipe.sound_opened
  · rintro s s' - hsound ⟨a, -, hstep⟩
    rcases requests_of_step hstep with hsame | ⟨p, hput, hpipe⟩
    · rwa [hsame]
    · exact hsound.step CodecCrate.edgeIngress.reads_codec hput hpipe

/-- What a step does to the other. -/
theorem replies_of_step {a : SessionAction} (hstep : s.step dialect a = some s') :
    s'.replies = s.replies ∨ ∃ r : ReplyWriter.Action,
      (∀ n msg, r = .push n msg → s.tasks n = .replying msg) ∧
      (r.failsFeed = true → a.failsFeed = true) ∧
      s.replies.step .edgeIngress r = some s'.replies := by
  cases step_effect hstep with
  | requests => exact .inl rfl
  | spawned => exact .inl rfl
  | rejected => exact .inl rfl
  | close => exact .inl rfl
  | task n hturn =>
      rcases hturn.replies with hsame | ⟨isoOut, htask, hpush⟩
      · exact .inl hsame
      · refine .inr ⟨.push n isoOut, fun m msg heq => ?_, fun hfails => (by cases hfails), ?_⟩
        · cases heq
          exact htask
        · rw [hpush]
          rfl
  | oneshot => exact .inl rfl
  | coreEnds => exact .inl rfl
  | replies r hpush hfails hreply =>
      exact .inr ⟨r, fun m msg heq => absurd heq (hpush m msg), fun h => hfails ▸ h, hreply⟩

/-- A task that replies has the response of the core, which is short. -/
theorem replying_short {P : Session → SessionAction → Prop}
    (h : Session.Reachable dialect P s) {msg : Bytes} (htask : s.tasks n = .replying msg) :
    msg.length ≤ 65535 := by
  have hcourse := on_course h n
  rw [Session.place, htask] at hcourse
  generalize s.accepted dialect n = accepted, s.oneshots n = oneshot,
    s.contextsOf n = contexts, s.repliesTo n = replies at hcourse
  cases hcourse
  exact length_buildResponse dialect _

/-- The writer task of a connection, with what is around it left out. -/
theorem replies_reachable {P : Session → SessionAction → Prop} {Q : ReplyWriter →
    ReplyWriter.Action → Prop} (hQ : ∀ s a r, P s a → (r.failsFeed = true → a.failsFeed = true) →
      ReplyWriter.Short s.replies r → Q s.replies r) (h : Session.Reachable dialect P s) :
    ReplyWriter.Reachable .edgeIngress Q s.replies := by
  refine h.simulate (f := Session.replies) ?_ ?_
  · rintro _ rfl
    rfl
  · rintro s s' hs ⟨a, ha, hstep⟩
    rcases replies_of_step hstep with hsame | ⟨r, hpush, hfails, hreply⟩
    · exact .inl hsame
    · exact .inr ⟨r, hQ s a r ha hfails fun n msg heq => replying_short hs (hpush n msg heq), hreply⟩

theorem replies_short {P : Session → SessionAction → Prop} (h : Session.Reachable dialect P s) :
    ReplyWriter.Reachable .edgeIngress ReplyWriter.Short s.replies :=
  replies_reachable (fun _ _ _ _ _ hshort => hshort) h

/-! ## What the terminal reads -/

/-- A reply is the response of the core to its frame. -/
theorem reply_is_response {P : Session → SessionAction → Prop}
    (h : Session.Reachable dialect P s) {msg : Bytes} (hmsg : (n, msg) ∈ s.replies.queued) :
    (∃ tx, s.accepted dialect n = some tx) ∧ s.repliesTo n = [msg] ∧
      ∃ responseTx, s.oneshots n = .answered responseTx ∧
        msg = dialect.buildResponse responseTx := by
  have hcourse := on_course h n
  have hmem : msg ∈ s.repliesTo n := mem_under.mpr hmsg
  rw [Session.place] at hcourse
  generalize s.accepted dialect n = accepted, s.tasks n = task, s.oneshots n = oneshot,
    s.contextsOf n = contexts, s.repliesTo n = replies at hcourse hmem ⊢
  cases hcourse with
  | replied tx responseTx =>
      cases List.mem_singleton.mp hmem
      exact ⟨⟨tx, rfl⟩, rfl, responseTx, rfl, rfl⟩
  | absent => cases hmem
  | sending => cases hmem
  | refused => cases hmem
  | selecting => cases hmem
  | forgotten => cases hmem
  | replying => cases hmem
  | reversing => cases hmem
  | reversed => cases hmem
  | unreversed => cases hmem

theorem nodup_replied {P : Session → SessionAction → Prop}
    (h : Session.Reachable dialect P s) : (s.replies.queued.map Prod.fst).Nodup :=
  nodup_of_under fun _ _ hmem => (reply_is_response h hmem).2.1

/-- What the core has answered to a frame, in the dialect of the terminal. -/
def Session.responseTo (s : Session) (dialect : IngressDialect) (n : Nat) : Option Bytes :=
  match s.oneshots n with
  | .answered responseTx => some (dialect.buildResponse responseTx)
  | _ => none

/-- However the tasks and the socket go on, the reader gets the first of the frames that the
terminal has sent, and the terminal takes the responses of the core to some of them, none
twice, in the order in which they were queued. -/
theorem terminal_reads_responses (h : Session.Reachable dialect Transition.Free s) :
    s.requests.taken <+: s.requests.put ∧ ∃ frames : List Nat, frames.Nodup ∧
      frames.Sublist (s.replies.queued.map Prod.fst) ∧
      (∀ n ∈ frames, ∃ tx, s.accepted dialect n = some tx) ∧
      s.replies.pipe.taken.map some = frames.map (s.responseTo dialect) := by
  refine ⟨(requests_sound h).taken_initial, ?_⟩
  have hread := ReplyWriter.read_sublist (replies_short h)
  have htaken := ReplyWriter.taken_eq (replies_short h)
  refine ⟨s.replies.read.map Prod.fst, (nodup_replied h).sublist (hread.map _), hread.map _, ?_, ?_⟩
  · intro n hn
    obtain ⟨⟨m, msg⟩, hmem, rfl⟩ := List.mem_map.mp hn
    exact (reply_is_response h (hread.subset hmem)).1
  · rw [htaken, List.map_map, List.map_map]
    refine List.map_congr_left fun x hx => ?_
    obtain ⟨-, -, responseTx, honeshot, hmsg⟩ := reply_is_response h (hread.subset hx)
    simp only [Function.comp_apply, Session.responseTo, honeshot, hmsg]

/-- The core answers with the event itself, and the terminal reads the answer. -/
def answerRun : List SessionAction :=
  handOverRun ++ [.respond 0 (blankEvent (asBytes "0800")), .task 0 .takeResponse, .task 0 .reply,
    .writer .recv, .writer (.feed true), .writer .tryRecv, .writer (.transmit 14), .writer .flush,
    .downlink (.arrive 14), .downlink .take]

theorem terminal_reads_responses_answer :
    (Transition.ran (Session.step .standard) .new answerRun).requests.taken <+: [emptyMessage] :=
  (terminal_reads_responses (Transition.Reachable.ran_of_complies (P := Transition.Free) (fun _ _ => id) rfl
    (by decide))).1

/-- No feed fails. -/
def FeedsSucceed (_ : Session) (a : SessionAction) : Prop := a.failsFeed = false

instance (s : Session) (a : SessionAction) : Decidable (FeedsSucceed s a) :=
  inferInstanceAs (Decidable (_ = _))

/-- As long as no feed fails, the terminal takes the queued responses from the first on, and
all of them once everything has been fed and has arrived. -/
theorem responses_arrive (h : Session.Reachable dialect FeedsSucceed s) :
    s.replies.pipe.taken <+: s.replies.queued.map Prod.snd ∧
    (s.replies.Delivered .edgeIngress →
      s.replies.pipe.taken = s.replies.queued.map Prod.snd) := by
  have hreplies : ReplyWriter.Reachable .edgeIngress ReplyWriter.Unfailing s.replies := by
    refine replies_reachable (fun s a r ha hfails hshort => ⟨hshort, ?_⟩) h
    cases hr : r.failsFeed with
    | false => rfl
    | true =>
        have hfeeds : a.failsFeed = false := ha
        rw [hfails hr] at hfeeds
        cases hfeeds
  exact ⟨ReplyWriter.taken_initial hreplies, ReplyWriter.taken_all hreplies⟩

theorem responses_arrive_answer :
    (Transition.ran (Session.step .standard) .new answerRun).replies.pipe.taken = [emptyMessage] :=
  (responses_arrive (Transition.Reachable.ran_of_complies (P := FeedsSucceed) (fun _ _ => id) rfl
    (by decide))).2 ⟨rfl, rfl, rfl, rfl, rfl⟩

end EdgeIngress

end Iso8583Switch
