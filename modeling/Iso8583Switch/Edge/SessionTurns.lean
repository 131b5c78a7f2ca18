import Iso8583Switch.Edge.IngressServer

/-!
# What a step of a connection changes

`TaskTurn` and `Effect` have one case for each way in which the task of a frame and the
connection as a whole go on.
-/

namespace Iso8583Switch

open Text Function Framing

namespace EdgeIngress

variable {dialect : IngressDialect} {s s' : Session} {n : Nat}

/-- The context of a request. -/
def requestOf (n : Nat) (tx : UniversalPaymentEvent) : TransactionContext := ⟨tx, some n⟩

/-- And that of its reversal. -/
def reversalOf (tx : UniversalPaymentEvent) : TransactionContext := ⟨socketDropReversal tx, none⟩

/-! ## The steps of a task -/

/-- A step of the task of frame `n`. -/
inductive TaskTurn (dialect : IngressDialect) (s : Session) (n : Nat) : Session → Prop where
  | handOver (tx : UniversalPaymentEvent) (htask : s.tasks n = .sending tx)
      (hcore : s.coreOpen = true) :
      TaskTurn dialect s n ((s.send n (requestOf n tx)).setTask n (.selecting tx))
  | refuse (tx : UniversalPaymentEvent) (htask : s.tasks n = .sending tx)
      (hcore : s.coreOpen = false) : TaskTurn dialect s n (s.setTask n .ended)
  | takeResponse (tx responseTx : UniversalPaymentEvent) (htask : s.tasks n = .selecting tx)
      (honeshot : s.oneshots n = .answered responseTx) :
      TaskTurn dialect s n (s.setTask n (.replying (dialect.buildResponse responseTx)))
  | takeDropped (tx : UniversalPaymentEvent) (htask : s.tasks n = .selecting tx)
      (honeshot : s.oneshots n = .dropped) : TaskTurn dialect s n (s.setTask n .ended)
  | takeNotice (tx : UniversalPaymentEvent) (htask : s.tasks n = .selecting tx)
      (hreading : s.reading = false) : TaskTurn dialect s n (s.setTask n (.reversing tx))
  | reply (isoOut : Bytes) (htask : s.tasks n = .replying isoOut) :
      TaskTurn dialect s n { s.setTask n .ended with replies := s.replies.push n isoOut }
  | reverse (tx : UniversalPaymentEvent) (htask : s.tasks n = .reversing tx) :
      TaskTurn dialect s n ((s.send n (reversalOf tx)).setTask n .ended)

theorem taskStep_turn {t : TaskAction} (hstep : s.taskStep dialect n t = some s') :
    TaskTurn dialect s n s' := by
  cases t with
  | handOver =>
      simp only [Session.taskStep] at hstep
      split at hstep
      next tx htask =>
        split at hstep <;> cases hstep
        next hcore => exact .handOver tx htask hcore
        next hcore => exact .refuse tx htask (by simpa using hcore)
      next => cases hstep
  | takeResponse =>
      simp only [Session.taskStep] at hstep
      split at hstep <;> cases hstep
      next tx responseTx htask honeshot => exact .takeResponse tx responseTx htask honeshot
      next tx htask honeshot => exact .takeDropped tx htask honeshot
  | takeNotice =>
      simp only [Session.taskStep] at hstep
      split at hstep
      next tx htask =>
        split at hstep <;> cases hstep
        next hreading => exact .takeNotice tx htask (by simpa using hreading)
      next => cases hstep
  | reply =>
      simp only [Session.taskStep] at hstep
      split at hstep
      next isoOut htask =>
        split at hstep <;> cases hstep
        exact .reply isoOut htask
      next => cases hstep
  | reverse =>
      simp only [Session.taskStep] at hstep
      split at hstep <;> cases hstep
      next tx htask => exact .reverse tx htask

/-- The tasks leave the reader alone. -/
theorem TaskTurn.frame (hturn : TaskTurn dialect s n s') :
    ∃ tasks contexts replies, s' = { s with tasks, contexts, replies } := by
  have hsend (ctx : TransactionContext) : ∃ contexts, s.send n ctx = { s with contexts } := by
    rw [Session.send]
    split
    · exact ⟨_, rfl⟩
    · exact ⟨s.contexts, rfl⟩
  cases hturn with
  | handOver tx =>
      obtain ⟨contexts, heq⟩ := hsend (requestOf n tx)
      rw [heq]
      exact ⟨_, _, _, rfl⟩
  | refuse => exact ⟨_, _, _, rfl⟩
  | takeResponse => exact ⟨_, _, _, rfl⟩
  | takeDropped => exact ⟨_, _, _, rfl⟩
  | takeNotice => exact ⟨_, _, _, rfl⟩
  | reply => exact ⟨_, _, _, rfl⟩
  | reverse tx =>
      obtain ⟨contexts, heq⟩ := hsend (reversalOf tx)
      rw [heq]
      exact ⟨_, _, _, rfl⟩

/-- The only replies that they queue are their own. -/
theorem TaskTurn.replies (hturn : TaskTurn dialect s n s') : s'.replies = s.replies ∨
    ∃ isoOut, s.tasks n = .replying isoOut ∧ s'.replies = s.replies.push n isoOut := by
  have hsend (ctx : TransactionContext) : (s.send n ctx).replies = s.replies := by
    rw [Session.send]
    split <;> rfl
  cases hturn with
  | handOver tx => exact .inl (hsend (requestOf n tx))
  | refuse => exact .inl rfl
  | takeResponse => exact .inl rfl
  | takeDropped => exact .inl rfl
  | takeNotice => exact .inl rfl
  | reply isoOut htask => exact .inr ⟨isoOut, htask, rfl⟩
  | reverse tx => exact .inl (hsend (reversalOf tx))

/-! ## The steps of a connection -/

def SessionAction.failsFeed : SessionAction → Bool
  | .writer t => t.failsFeed
  | _ => false

/-- What a step changes. -/
inductive Effect (dialect : IngressDialect) (s : Session) (a : SessionAction) : Session → Prop where
  | requests {requests : Pipe Bytes} (p : PipeAction Bytes)
      (hput : ∀ item, p = .put item → item.length ≤ 65535) (htake : p ≠ .take)
      (hpipe : s.requests.step (decode (ε := Empty)) codecEncode p = some requests)
      (hrequest : ∀ payload, p = .put payload → a = .request payload) :
      Effect dialect s a { s with requests }
  | spawned (payload src : Bytes) (tx : UniversalPaymentEvent)
      (hdecode : decode (ε := Empty) s.requests.inBuffer = (.ok (some payload), src))
      (hparse : dialect.parse payload = .ok tx) :
      Effect dialect s a
        ((s.receive payload src).setTask s.requests.taken.length (.sending tx))
  | rejected (payload src : Bytes) (failure : DecodeFailure) (reading : Bool)
      (hdecode : decode (ε := Empty) s.requests.inBuffer = (.ok (some payload), src))
      (hparse : dialect.parse payload = .error failure)
      (hreading : s.reading = false → reading = false) :
      Effect dialect s a { s.receive payload src with reading }
  | close : Effect dialect s a { s with reading := false }
  | task {s' : Session} (n : Nat) (hturn : TaskTurn dialect s n s') : Effect dialect s a s'
  | oneshot (n : Nat) (o : Oneshot) (hhanded : s.handedOver n = true)
      (hheld : s.oneshots n = .held) (ho : o ≠ .held) :
      Effect dialect s a { s with oneshots := update s.oneshots n o }
  | coreEnds : Effect dialect s a { s with coreOpen := false }
  | replies {replies : ReplyWriter} (r : ReplyWriter.Action) (hpush : ∀ n msg, r ≠ .push n msg)
      (hfails : r.failsFeed = a.failsFeed)
      (hreply : s.replies.step .edgeIngress r = some replies) :
      Effect dialect s a { s with replies }

theorem step_effect {a : SessionAction} (hstep : s.step dialect a = some s') :
    Effect dialect s a s' := by
  cases a with
  | request payload =>
      simp only [Session.step] at hstep
      split at hstep
      next hshort =>
        obtain ⟨requests, hpipe, rfl⟩ := Option.map_eq_some_iff.mp hstep
        refine .requests (.put payload) (fun item heq => ?_) (fun heq => by cases heq) hpipe
          fun item heq => ?_
        · cases heq
          exact hshort
        · cases heq
          rfl
      next => cases hstep
  | uplink p =>
      simp only [Session.step] at hstep
      split at hstep
      · cases hstep
      · cases hstep
      next hput htake =>
        obtain ⟨requests, hpipe, rfl⟩ := Option.map_eq_some_iff.mp hstep
        exact .requests p (fun item heq => absurd heq (hput item)) htake hpipe
          fun payload heq => absurd heq (hput payload)
  | read =>
      simp only [Session.step, Session.readStep] at hstep
      split at hstep
      next payload src _ hdecode =>
        split at hstep <;> cases hstep
        next tx hparse => exact .spawned payload src tx hdecode hparse
        next e hparse => exact .rejected payload src _ s.reading hdecode hparse id
        next hparse => exact .rejected payload src _ false hdecode hparse fun _ => rfl
      next => cases hstep
  | close =>
      simp only [Session.step] at hstep
      split at hstep <;> cases hstep
      exact .close
  | task n t => exact .task n (taskStep_turn hstep)
  | respond n responseTx =>
      simp only [Session.step] at hstep
      split at hstep <;> cases hstep
      next hhanded hheld => exact .oneshot n _ hhanded hheld fun heq => by cases heq
  | forget n =>
      simp only [Session.step] at hstep
      split at hstep <;> cases hstep
      next hhanded hheld => exact .oneshot n _ hhanded hheld fun heq => by cases heq
  | coreEnds => cases hstep; exact .coreEnds
  | writer t =>
      obtain ⟨replies, hreply, rfl⟩ := Option.map_eq_some_iff.mp hstep
      exact .replies (.run s.hungUp t) (fun _ _ heq => by cases heq) rfl hreply
  | downlink p =>
      obtain ⟨replies, hreply, rfl⟩ := Option.map_eq_some_iff.mp hstep
      exact .replies (.wire p) (fun _ _ heq => by cases heq) rfl hreply

end EdgeIngress

end Iso8583Switch
