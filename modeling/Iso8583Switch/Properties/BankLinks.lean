import Iso8583Switch.Library.History
import Iso8583Switch.Properties.BankAnswers
import Iso8583Switch.Properties.IngressSessions

/-!
# What comes back over a connection to a bank

The tasks of the bank answer in any order, and both directions of the connection may lose
their ends.  `FrameAt` says where a frame is at the bank, and what is delivered to the
`bank_reply` channel is what comes back for a context that was sent, once at most for each
(`delivered_once`).
-/

namespace Iso8583Switch

open Text Function Framing History

/-! ## What a step changes -/

namespace BankLink

abbrev Reachable (P : BankLink → LinkAction → Prop) : BankLink → Prop :=
  Transition.Reachable (· = opened) (Transition.Steps step P)

variable {l l' : BankLink} {n : Nat}

/-- The frame that the bank takes next. -/
def accepted (l : BankLink) (payload src : Bytes) : BankLink :=
  { l with bank := { l.bank with requests :=
    { l.bank.requests with inBuffer := src, taken := l.bank.requests.taken ++ [payload] } } }

def setTask (l : BankLink) (n : Nat) (pc : MockBank.TaskPc) : BankLink :=
  { l with bank := l.bank.setTask n pc }

inductive Effect (l : BankLink) (a : LinkAction) : BankLink → Prop where
  | feed {requests : Pipe Bytes} (tx : UniversalPaymentEvent) (hfeed : a = .feed tx)
      (hpipe : l.bank.requests.step (EdgeIngress.decode (ε := Empty)) codecEncode
        (.put (connexEncode tx)) = some requests) :
      Effect l a { l with sent := l.sent ++ [tx], bank := { l.bank with requests } }
  | uplink {requests : Pipe Bytes} (p : PipeAction Bytes) (hput : ∀ item, p ≠ .put item)
      (htake : p ≠ .take)
      (hpipe : l.bank.requests.step (EdgeIngress.decode (ε := Empty)) codecEncode p =
        some requests) :
      Effect l a { l with bank := { l.bank with requests } }
  | accept (payload src : Bytes)
      (hdecode : EdgeIngress.decode (ε := Empty) l.bank.requests.inBuffer =
        (.ok (some payload), src)) :
      Effect l a ((l.accepted payload src).setTask l.bank.requests.taken.length (.spawned payload))
  | close (reading reading' : Bool) :
      Effect l a { l with reading, bank := { l.bank with reading := reading' } }
  | answer (n : Nat) (payload encoded : Bytes) (htask : l.bank.tasks n = .spawned payload)
      (hanswer : MockBank.answer payload = some encoded) : Effect l a (l.setTask n (.queuing encoded))
  | drop (n : Nat) (payload : Bytes) (htask : l.bank.tasks n = .spawned payload)
      (hanswer : MockBank.answer payload = none) : Effect l a (l.setTask n .ended)
  | queue {replies : ReplyWriter} (n : Nat) (encoded : Bytes)
      (htask : l.bank.tasks n = .queuing encoded)
      (hreply : l.bank.replies.step .edgeEgress (.push n encoded) = some replies) :
      Effect l a { l with bank := { l.bank.setTask n .ended with replies } }
  | downlink {replies : ReplyWriter} (r : ReplyWriter.Action) (hpush : ∀ n msg, r ≠ .push n msg)
      (htake : r ≠ .wire .take) (hreply : l.bank.replies.step .edgeEgress r = some replies) :
      Effect l a { l with bank := { l.bank with replies } }
  | deliver {replies : ReplyWriter} (payload src : Bytes)
      (hdecode : EdgeEgress.decode (ε := Empty) l.bank.replies.pipe.inBuffer =
        (.ok (some payload), src))
      (hreply : l.bank.replies.step .edgeEgress (.wire .take) = some replies) :
      Effect l a (({ l with bank := { l.bank with replies } } : BankLink).received l.nextFrame payload)

theorem step_effect {a : LinkAction} (hstep : l.step a = some l') : Effect l a l' := by
  cases a with
  | feed tx =>
      rw [step, uplinkStep] at hstep
      obtain ⟨requests, hpipe, rfl⟩ := Option.map_eq_some_iff.mp hstep
      exact .feed tx rfl hpipe
  | uplink p =>
      simp only [step] at hstep
      split at hstep
      · cases hstep
      · cases hstep
      next hput htake =>
        obtain ⟨requests, hpipe, rfl⟩ := Option.map_eq_some_iff.mp hstep
        exact .uplink p hput htake hpipe
  | accept =>
      obtain ⟨bank, haccept, rfl⟩ := Option.map_eq_some_iff.mp hstep
      rw [MockBank.accept] at haccept
      split at haccept <;> cases haccept
      next payload src _ hdecode => exact .accept payload src hdecode
  | hangUp =>
      simp only [step] at hstep
      split at hstep <;> cases hstep
      exact .close l.reading false
  | reply n =>
      obtain ⟨bank, hreply, rfl⟩ := Option.map_eq_some_iff.mp hstep
      rw [MockBank.reply] at hreply
      split at hreply
      next payload htask =>
        split at hreply <;> cases hreply
        next encoded hanswer => exact .answer n payload encoded htask hanswer
        next hanswer => exact .drop n payload htask hanswer
      next => cases hreply
  | queue n =>
      obtain ⟨bank, hqueue, rfl⟩ := Option.map_eq_some_iff.mp hstep
      rw [MockBank.queue] at hqueue
      split at hqueue
      next encoded htask =>
        split at hqueue <;> cases hqueue
        exact .queue n encoded htask rfl
      next => cases hqueue
  | writer t =>
      obtain ⟨replies, hreply, rfl⟩ := Option.map_eq_some_iff.mp hstep
      exact .downlink _ (fun _ _ heq => by cases heq) (fun heq => by cases heq) hreply
  | downlink p =>
      simp only [step] at hstep
      split at hstep
      · cases hstep
      next htake =>
        obtain ⟨replies, hreply, rfl⟩ := Option.map_eq_some_iff.mp hstep
        refine .downlink _ (fun _ _ heq => by cases heq) (fun heq => ?_) hreply
        cases heq
        exact absurd rfl htake
  | deliver =>
      simp only [step, deliverStep] at hstep
      split at hstep
      next payload src _ hdecode =>
        obtain ⟨m, hdown, rfl⟩ := Option.map_eq_some_iff.mp hstep
        obtain ⟨replies, hreply, rfl⟩ := Option.map_eq_some_iff.mp hdown
        exact .deliver payload src hdecode hreply
      next => cases hstep
  | close =>
      simp only [step] at hstep
      split at hstep <;> cases hstep
      exact .close false l.bank.reading

/-! ## Where a frame is at the bank -/

/-- The frame that was taken, its task, and the answers that were queued for it. -/
inductive Course : Option Bytes → MockBank.TaskPc → List Bytes → Prop where
  | absent : Course none .absent []
  | spawned (payload : Bytes) : Course (some payload) (.spawned payload) []
  | queuing (payload encoded : Bytes) (h : MockBank.answer payload = some encoded) :
      Course (some payload) (.queuing encoded) []
  | silent (payload : Bytes) (h : MockBank.answer payload = none) : Course (some payload) .ended []
  | queued (payload encoded : Bytes) (h : MockBank.answer payload = some encoded) :
      Course (some payload) .ended [encoded]

/-- Every frame is on its course. -/
def OnCourse (l : BankLink) (n : Nat) : Prop :=
  Course l.bank.requests.taken[n]? (l.bank.tasks n) (under l.bank.replies.queued n)

theorem OnCourse.of_eq {l l' : BankLink} (h : l.OnCourse n)
    (htaken : l'.bank.requests.taken = l.bank.requests.taken) (htasks : l'.bank.tasks = l.bank.tasks)
    (hqueued : l'.bank.replies.queued = l.bank.replies.queued) : l'.OnCourse n := by
  rw [OnCourse, htaken, htasks, hqueued]
  exact h

theorem received_bank (l : BankLink) (n : Nat) (payload : Bytes) :
    (l.received n payload).bank = l.bank := by
  rw [received]
  split <;> rfl

theorem received_sent (l : BankLink) (n : Nat) (payload : Bytes) :
    (l.received n payload).sent = l.sent := by
  rw [received]
  split <;> rfl

/-- A step delivers one answer at most. -/
theorem delivered_of_step {a : LinkAction} (hstep : l.step a = some l') :
    l'.delivered = l.delivered ∨ ∃ d, l'.delivered = l.delivered ++ [d] := by
  cases step_effect hstep with
  | deliver payload src =>
      rw [received]
      split
      next pbTx _ => exact .inr ⟨(l.nextFrame, pbTx), rfl⟩
      next => exact .inl rfl
  | feed | uplink | accept | close | answer | drop | queue | downlink => exact .inl rfl

theorem sent_of_feed {tx : UniversalPaymentEvent} (hstep : l.step (.feed tx) = some l') :
    l'.sent = l.sent ++ [tx] := by
  rw [step, uplinkStep] at hstep
  obtain ⟨requests, -, rfl⟩ := Option.map_eq_some_iff.mp hstep
  rfl

theorem sent_of_step {a : LinkAction} (ha : ∀ tx, a ≠ .feed tx) (hstep : l.step a = some l') :
    l'.sent = l.sent := by
  cases step_effect hstep with
  | feed tx hfeed => exact absurd hfeed (ha tx)
  | deliver => rw [received_sent]
  | uplink | accept | close | answer | drop | queue | downlink => rfl

theorem OnCourse.step (h : ∀ n, l.OnCourse n) {a : LinkAction} (hstep : l.step a = some l')
    (n : Nat) : l'.OnCourse n := by
  have hn := h n
  cases step_effect hstep with
  | feed tx _ hpipe => exact hn.of_eq (Pipe.taken_of_step (fun heq => by cases heq) hpipe) rfl rfl
  | uplink p _ htake hpipe => exact hn.of_eq (Pipe.taken_of_step htake hpipe) rfl rfl
  | accept payload src =>
      rw [OnCourse] at hn ⊢
      dsimp only [setTask, accepted, MockBank.setTask]
      rcases eq_or_ne n l.bank.requests.taken.length with rfl | hne
      · rw [List.getElem?_eq_none (Nat.le_refl _)] at hn
        generalize l.bank.tasks l.bank.requests.taken.length = pc,
          under l.bank.replies.queued l.bank.requests.taken.length = answers at hn ⊢
        cases hn
        rw [List.getElem?_concat_length, update_self]
        exact .spawned payload
      · rw [update_of_ne hne]
        rcases Nat.lt_or_ge n l.bank.requests.taken.length with hlt | hge
        · rwa [List.getElem?_append_left hlt]
        · rw [List.getElem?_eq_none hge] at hn
          rwa [List.getElem?_eq_none (by simp; omega)]
  | close => exact hn.of_eq rfl rfl rfl
  | answer m payload encoded htask hanswer =>
      rw [OnCourse] at hn ⊢
      dsimp only [setTask, MockBank.setTask]
      rcases eq_or_ne n m with rfl | hne
      · rw [htask] at hn
        generalize l.bank.requests.taken[n]? = frame,
          under l.bank.replies.queued n = answers at hn ⊢
        cases hn
        rw [update_self]
        exact .queuing payload encoded hanswer
      · rwa [update_of_ne hne]
  | drop m payload htask hanswer =>
      rw [OnCourse] at hn ⊢
      dsimp only [setTask, MockBank.setTask]
      rcases eq_or_ne n m with rfl | hne
      · rw [htask] at hn
        generalize l.bank.requests.taken[n]? = frame,
          under l.bank.replies.queued n = answers at hn ⊢
        cases hn
        rw [update_self]
        exact .silent payload hanswer
      · rwa [update_of_ne hne]
  | queue m encoded htask hreply =>
      cases hreply
      rw [OnCourse] at hn ⊢
      dsimp only [MockBank.setTask, ReplyWriter.push]
      rcases eq_or_ne n m with rfl | hne
      · rw [htask] at hn
        rw [under_snoc_self, update_self]
        generalize l.bank.requests.taken[n]? = frame,
          under l.bank.replies.queued n = answers at hn ⊢
        cases hn with
        | queuing payload _ hanswer => exact .queued payload encoded hanswer
      · rwa [under_snoc_of_ne _ hne, update_of_ne hne]
  | downlink r hpush _ hreply => exact hn.of_eq rfl rfl (ReplyWriter.queued_of_step hpush hreply)
  | deliver payload src _ hreply =>
      have hqueued := ReplyWriter.queued_of_step (fun _ _ heq => by cases heq) hreply
      rw [OnCourse, received_bank]
      exact hn.of_eq rfl rfl hqueued

theorem Reachable.onCourse {P : BankLink → LinkAction → Prop} (h : Reachable P l) (n : Nat) :
    l.OnCourse n := by
  refine h.invariant (I := fun l => ∀ n, l.OnCourse n) ?_ ?_ n
  · rintro _ rfl n
    exact .absent
  · rintro l l' - hl ⟨a, -, hstep⟩
    exact OnCourse.step hl hstep

/-! ## The two directions of the connection -/

theorem length_connexEncode (e : UniversalPaymentEvent) : (connexEncode e).length ≤ 65535 := by
  rw [connexEncode, StandardDialect.buildResponse_eq]
  exact EdgeIngress.length_buildResponse .standard e

theorem length_answer {payload encoded : Bytes} (h : MockBank.answer payload = some encoded) :
    encoded.length ≤ 65535 := by
  rw [MockBank.answer] at h
  split at h
  next tx _ =>
    rw [MockBank.processBankRules] at h
    obtain ⟨response, -, hencoded⟩ := Option.bind_eq_some_iff.mp h
    cases hencoded
    exact length_connexEncode response
  next => cases h

/-- The contexts that were fed are encoded in the direction to the bank. -/
structure Outbound (l : BankLink) : Prop where
  put : l.bank.requests.put = l.sent.map connexEncode
  sound : Pipe.Sound (·.length ≤ 65535) codecEncode l.bank.requests

theorem Outbound.step (h : l.Outbound) {a : LinkAction} (hstep : l.step a = some l') :
    l'.Outbound := by
  have hreads := CodecCrate.edgeIngress.reads_codec
  cases step_effect hstep with
  | feed tx _ hpipe =>
      refine ⟨?_, h.sound.step hreads (fun item heq => ?_) hpipe⟩
      · rw [Pipe.put_of_put hpipe, h.put, List.map_append]
        rfl
      · cases heq
        exact length_connexEncode tx
  | uplink p hput _ hpipe =>
      refine ⟨?_, h.sound.step hreads (fun item heq => absurd heq (hput item)) hpipe⟩
      rw [Pipe.put_of_step hput hpipe]
      exact h.put
  | accept payload src hdecode =>
      refine ⟨h.put, h.sound.step hreads (a := .take) (fun item heq => by cases heq) ?_⟩
      have hdecode' : CodecCrate.edgeIngress.decode (ε := Empty) l.bank.requests.inBuffer =
          (.ok (some payload), src) := hdecode
      rw [Pipe.step, Pipe.take, hdecode']
      rfl
  | close => exact ⟨h.put, h.sound⟩
  | answer => exact ⟨h.put, h.sound⟩
  | drop => exact ⟨h.put, h.sound⟩
  | queue => exact ⟨h.put, h.sound⟩
  | downlink => exact ⟨h.put, h.sound⟩
  | deliver =>
      refine ⟨?_, ?_⟩
      · rw [received_bank, received]
        split <;> exact h.put
      · rw [received_bank]
        exact h.sound

theorem Reachable.outbound {P : BankLink → LinkAction → Prop} (h : Reachable P l) : l.Outbound := by
  refine h.invariant ?_ fun l l' _ hl ⟨a, _, hstep⟩ => hl.step hstep
  rintro _ rfl
  exact ⟨rfl, Pipe.sound_opened⟩

/-- The writer of the bank, with what is around it left out. -/
theorem Reachable.replies {P : BankLink → LinkAction → Prop} (h : Reachable P l) :
    ReplyWriter.Reachable .edgeEgress ReplyWriter.Short l.bank.replies := by
  refine h.simulate (f := fun l => l.bank.replies) ?_ ?_
  · rintro _ rfl
    rfl
  · rintro l l' hl ⟨a, -, hstep⟩
    cases step_effect hstep with
    | feed => exact .inl rfl
    | uplink => exact .inl rfl
    | accept => exact .inl rfl
    | close => exact .inl rfl
    | answer => exact .inl rfl
    | drop => exact .inl rfl
    | queue n encoded htask hreply =>
        refine .inr ⟨_, fun m msg heq => ?_, hreply⟩
        cases heq
        have hcourse := Reachable.onCourse hl n
        rw [OnCourse, htask] at hcourse
        generalize l.bank.requests.taken[n]? = frame,
          under l.bank.replies.queued n = answers at hcourse
        cases hcourse with
        | queuing payload _ hanswer => exact length_answer hanswer
    | downlink r hpush _ hreply =>
        exact .inr ⟨r, fun m msg heq => absurd heq (hpush m msg), hreply⟩
    | deliver payload src _ hreply =>
        rw [received_bank]
        exact .inr ⟨_, fun m msg heq => (by cases heq), hreply⟩

/-! ## What is delivered -/

/-- An answer as it is delivered. -/
def delivery (x : Nat × Bytes) : Option (Nat × Transaction) :=
  (readReply x.2).map fun pbTx => (x.1, pbTx)

theorem Reachable.delivered_eq {P : BankLink → LinkAction → Prop} (h : Reachable P l) :
    l.delivered = l.bank.replies.read.filterMap delivery := by
  refine h.invariant
    (I := fun l => l.delivered = l.bank.replies.read.filterMap delivery) ?_ ?_
  · rintro _ rfl
    rfl
  · rintro l l' hl heq ⟨a, -, hstep⟩
    cases step_effect hstep with
    | feed => exact heq
    | uplink => exact heq
    | accept => exact heq
    | close => exact heq
    | answer => exact heq
    | drop => exact heq
    | queue n encoded htask hreply => cases hreply; exact heq
    | downlink r _ htake hreply =>
        dsimp only
        rw [ReplyWriter.read_of_step (Reachable.replies hl) htake hreply]
        exact heq
    | deliver payload src hdecode hreply =>
        obtain ⟨n, hnext, hread⟩ := ReplyWriter.read_of_take (Reachable.replies hl) hdecode hreply
        rw [received_bank, hread, List.filterMap_append, ← heq]
        have hframe : l.nextFrame = n := by rw [nextFrame, hnext]; rfl
        rw [received, hframe]
        cases hpb : readReply payload with
        | none => simp [delivery, hpb]
        | some pbTx => simp [delivery, hpb]

/-- A delivery has the number of its answer. -/
theorem numbers_sublist (answers : List (Nat × Bytes)) :
    ((answers.filterMap delivery).map Prod.fst).Sublist (answers.map Prod.fst) := by
  induction answers with
  | nil => exact .slnil
  | cons x answers ih =>
      rw [List.map_cons, List.filterMap_cons]
      cases hdelivery : delivery x with
      | none => exact ih.cons _
      | some p =>
          obtain ⟨pbTx, -, rfl⟩ := Option.map_eq_some_iff.mp hdelivery
          exact ih.cons_cons _

/-- A frame is answered once, and with the bank's answer to it. -/
theorem Reachable.answer_queued {P : BankLink → LinkAction → Prop} (h : Reachable P l) {msg : Bytes}
    (hmem : (n, msg) ∈ l.bank.replies.queued) : under l.bank.replies.queued n = [msg] ∧
      ∃ payload, l.bank.requests.taken[n]? = some payload ∧ MockBank.answer payload = some msg := by
  have hcourse := Reachable.onCourse h n
  have hunder := mem_under.mpr hmem
  rw [OnCourse] at hcourse
  generalize l.bank.requests.taken[n]? = frame, l.bank.tasks n = pc,
    under l.bank.replies.queued n = answers at hcourse hunder ⊢
  cases hcourse with
  | queued payload encoded hanswer =>
      cases List.mem_singleton.mp hunder
      exact ⟨rfl, payload, rfl, hanswer⟩
  | absent => cases hunder
  | spawned => cases hunder
  | queuing => cases hunder
  | silent => cases hunder

theorem Reachable.delivered_nodup {P : BankLink → LinkAction → Prop} (h : Reachable P l) :
    (l.delivered.map Prod.fst).Nodup := by
  have hnodup : (l.bank.replies.queued.map Prod.fst).Nodup :=
    nodup_of_under fun n msg hmem => (Reachable.answer_queued h hmem).1
  rw [Reachable.delivered_eq h]
  exact hnodup.sublist
    ((numbers_sublist _).trans ((ReplyWriter.read_sublist (Reachable.replies h)).map _))

theorem Reachable.roundTrip_of_mem {P : BankLink → LinkAction → Prop} (h : Reachable P l)
    {pbTx : Transaction} (hmem : (n, pbTx) ∈ l.delivered) :
    ∃ tx, l.sent[n]? = some tx ∧ MockBank.roundTrip tx = some pbTx := by
  rw [Reachable.delivered_eq h] at hmem
  obtain ⟨⟨m, msg⟩, hread, hdelivery⟩ := List.mem_filterMap.mp hmem
  obtain ⟨_, hpb, heq⟩ := Option.map_eq_some_iff.mp hdelivery
  cases heq
  have hqueued := (ReplyWriter.read_sublist (Reachable.replies h)).subset hread
  obtain ⟨-, payload, htaken, hanswer⟩ := Reachable.answer_queued h hqueued
  obtain ⟨hput, hsound⟩ := Reachable.outbound h
  obtain ⟨later, hlater⟩ := hsound.taken_initial
  have hsent := kept (l := later) htaken
  rw [hlater, hput, List.getElem?_map] at hsent
  obtain ⟨tx, htx, rfl⟩ := Option.map_eq_some_iff.mp hsent
  refine ⟨tx, htx, ?_⟩
  rw [MockBank.roundTrip, hanswer]
  exact hpb

/-- What is delivered is what comes back for a context that was sent, and once at most for
each, whatever becomes of the connection and in whatever order the bank answers. -/
theorem delivered_once (h : Reachable Transition.Free l) :
    (l.delivered.map Prod.fst).Nodup ∧ ∀ p ∈ l.delivered, ∃ tx, l.sent[p.1]? = some tx ∧
      MockBank.roundTrip tx = some p.2 :=
  ⟨Reachable.delivered_nodup h, fun _ hmem => Reachable.roundTrip_of_mem h hmem⟩

/-- Two echo tests, of which the second is answered first. -/
def swappedRun : List LinkAction :=
  [.feed (blankEvent (asBytes "0800")), .feed (blankEvent (asBytes "0800")), .uplink (.transmit 500),
   .uplink (.arrive 500), .accept, .accept, .reply 0, .reply 1, .queue 1, .queue 0, .writer .recv,
   .writer (.feed true), .writer .tryRecv, .writer (.feed true), .writer .tryRecv,
   .writer (.transmit 500), .writer .flush, .downlink (.arrive 500), .deliver, .deliver]

theorem delivered_once_swapped :
    (Transition.ran step opened swappedRun).delivered.map Prod.fst = [1, 0] ∧
      ((Transition.ran step opened swappedRun).delivered.map Prod.fst).Nodup :=
  ⟨by decide +kernel, (delivered_once (Transition.Reachable.ran_of_complies (P := Transition.Free)
    (fun _ _ => id) rfl (by decide +kernel))).1⟩

end BankLink

end Iso8583Switch
