import Iso8583Switch.Edge.UpstreamClient

/-!
# What a step of the client changes

What a writer task has before it stays there, or the socket takes it, or the step
drops it (`Connection.pending_step`).  `Effect` has one case for each way in which a
step changes the client and its store; a step keeps the row of every key under which
it neither inserts nor removes, and the sweeper removes only what has been written.
-/

namespace Iso8583Switch

open Text Function

def WriterPc.inHand : WriterPc → List Outgoing
  | .feeding _ payload => [payload]
  | _ => []

namespace Connection

/-- What a writer task that is still running has before it. -/
def pending (conn : Connection) : List Taken :=
  match conn.writer with
  | .ended => []
  | writer => (writer.inHand ++ (conn.queue ++ conn.sinkBuffer)).map Outgoing.taken

/-- What a step of the writer task drops. -/
def dropped (conn : Connection) : WriterAction → List Taken
  | .feed false =>
      match conn.writer with
      | .feeding true payload => [payload.taken]
      | _ => conn.pending
  | .hangUp => conn.sinkBuffer.map Outgoing.taken
  | _ => []

end Connection

variable {codec : RecordCodec} {s s' : Egress} {conn conn' : Connection} {t : Taken}

/-! ## The writer task -/

theorem Connection.pending_of_running (conn : Connection) (h : conn.writer ≠ .ended) :
    conn.pending =
      (conn.writer.inHand ++ (conn.queue ++ conn.sinkBuffer)).map Outgoing.taken := by
  rw [pending]
  split
  next heq => exact absurd heq h
  next => rfl

theorem Connection.mem_pending_push (h : conn.writer ≠ .ended) (payload : Outgoing) :
    t ∈ (conn.push payload).pending ↔ t = payload.taken ∨ t ∈ conn.pending := by
  rw [pending_of_running (conn.push payload) h, pending_of_running conn h]
  simp only [push, List.map_append, List.map_cons, List.map_nil, List.mem_append,
    List.mem_singleton]
  tauto

/-- What was before a writer task is still there, or the socket has taken it, or the
step has dropped it. -/
theorem Connection.pending_step {closed : Bool} {w : WriterAction} {sent : List Outgoing}
    (h : conn.step closed w = some (conn', sent)) :
    t ∈ conn.pending ↔ t ∈ conn'.pending ∨ t ∈ sent.map Outgoing.taken ∨ t ∈ conn.dropped w := by
  cases w with
  | recv =>
      simp only [step] at h
      split at h <;> cases h
      next hwriter hqueue => simp [pending, dropped, hwriter, hqueue, WriterPc.inHand]
  | hangUp =>
      simp only [step] at h
      split at h
      next hwriter hqueue =>
        split at h <;> cases h
        simp [pending, dropped, gone, hwriter, hqueue, WriterPc.inHand]
      next => cases h
  | feed ok =>
      simp only [step] at h
      split at h
      next extra payload hwriter =>
        cases ok with
        | true =>
            cases h
            simp only [pending, dropped, hwriter, WriterPc.inHand, List.map_append, List.map_cons,
              List.map_nil, List.nil_append, List.mem_append, List.mem_singleton, List.not_mem_nil]
            tauto
        | false =>
            cases extra with
            | true =>
                cases h
                simp only [pending, dropped, hwriter, WriterPc.inHand, List.map_append,
                  List.map_cons, List.map_nil, List.nil_append, List.mem_append,
                  List.mem_singleton, List.not_mem_nil]
                tauto
            | false =>
                cases h
                simp [pending, dropped, gone, hwriter]
      next => cases h
  | tryRecv =>
      simp only [step] at h
      split at h <;> cases h
      next hwriter hqueue => simp [pending, dropped, hwriter, hqueue, WriterPc.inHand]
      next hwriter hqueue => simp [pending, dropped, hwriter, hqueue, WriterPc.inHand]
  | transmit =>
      simp only [step] at h
      split at h
      next payload rest hbuffer =>
        split at h
        next huses =>
          have hrunning : conn.writer ≠ .ended := by
            intro hended
            rw [hended] at huses
            cases huses
          cases h
          rw [pending_of_running conn hrunning, hbuffer,
            pending_of_running { conn with sinkBuffer := rest } hrunning]
          simp only [dropped, List.map_append, List.map_cons, List.map_nil, List.mem_append,
            List.mem_cons, List.not_mem_nil]
          tauto
        next => cases h
      next => cases h
  | flush ok =>
      simp only [step] at h
      split at h
      next hwriter =>
        split at h <;> cases h
        simp [pending, dropped, hwriter, WriterPc.inHand]
      next => cases h

/-! ## The store -/

/-- The key under which a save inserts. -/
def Taken.savedAt (t : Taken) (inserted : Bool) : Option String :=
  if t.isAdvice && inserted then some t.safKey else none

def SweepPc.nextRemoval : SweepPc → Option (String × Taken)
  | .removing (entry :: _) => some entry
  | _ => none

namespace Egress

/-- The key under which a step inserts. -/
def savedAt (s : Egress) : EgressAction → Option String
  | .main (.takeOffline tx inserted) => (s.client.context tx).savedAt inserted
  | .dispatch k inserted =>
      match s.client.tasks[k]? with
      | some (n, t) =>
          if (s.client.connections n).writer = .ended then t.savedAt inserted else none
      | none => none
  | _ => none

/-- The key that a step removes, with what the sweep has written there. -/
def removed (s : Egress) : EgressAction → Option (String × Taken)
  | .sweep (.remove true) => s.client.sweeper.nextRemoval
  | _ => none

/-- The contexts that a step drops. -/
def dropped (s : Egress) : EgressAction → List Taken
  | .main (.takeOffline tx false) => [s.client.context tx]
  | .dispatch k false =>
      match s.client.tasks[k]? with
      | some (n, t) => if (s.client.connections n).writer = .ended then [t] else []
      | none => []
  | .writer n w => (s.client.connections n).dropped w
  | _ => []

end Egress

theorem SafDb.get_save {db : SafDb} {inserted : Bool} {key : String}
    (h : t.savedAt inserted ≠ some key) : (db.save codec t inserted).get key = db.get key := by
  rw [Taken.savedAt] at h
  rw [save]
  split
  next hcond =>
    rw [if_pos hcond] at h
    exact DashMap.get_put_ne _ _ fun heq => h (congrArg some heq.symm)
  next => rfl

theorem SafDb.get_save_self (codec : RecordCodec) (db : SafDb) (h : t.isAdvice = true) :
    ∃ row, (db.save codec t true).get t.safKey = some row ∧ row.taken = t := by
  rw [save, h]
  exact ⟨_, DashMap.get_put_self _ _ _, rfl⟩

/-! ## The sweeper -/

namespace SweepPc

def inHand : SweepPc → List Outgoing
  | .writing _ payload _ _ => [payload]
  | _ => []

def keysToRemove : SweepPc → List (String × Taken)
  | .iterating _ keysToRemove | .writing _ _ _ keysToRemove | .removing keysToRemove => keysToRemove
  | .sleeping | .panicked => []

theorem mem_keysToRemove_of_next {pc : SweepPc} {entry : String × Taken}
    (h : pc.nextRemoval = some entry) : entry ∈ pc.keysToRemove := by
  cases pc with
  | removing keys =>
      cases keys with
      | nil => cases h
      | cons first rest =>
          cases h
          exact List.mem_cons_self
  | _ => cases h

end SweepPc

/-- What a sweep does: it takes the rows that it visits in hand, writes what it has in
hand, and is to remove what it has written. -/
structure SweepEffect (s : Egress) (a : SweepAction) (sweeper : SweepPc) (sent : List Outgoing) :
    Prop where
  writes : sent ⊆ s.client.sweeper.inHand
  inHand : ∀ payload ∈ sweeper.inHand, payload ∈ s.client.sweeper.inHand ∨
    ∃ key row, a = .visit key ∧ s.safDb.get key = some row ∧ payload.taken = row.taken
  keys : ∀ entry ∈ sweeper.keysToRemove,
    entry ∈ s.client.sweeper.keysToRemove ∨ entry.2 ∈ sent.map Outgoing.taken

/-! ## What a step does -/

namespace Egress

/-- What a step changes, with what it relies on. -/
inductive Effect (codec : RecordCodec) (s : Egress) : EgressAction → Egress → Prop where
  | move {a : MainAction} {pc : MainPc} :
      Effect codec s (.main a) { s with client := { s.client with main := pc } }
  | connect :
      Effect codec s (.main .connect) { s with client :=
        { s.client.setConnection s.client.opened .opened with
          main := .connected s.client.opened
          opened := s.client.opened + 1 } }
  | take {tx : UniversalPaymentEvent} {n : Nat} :
      Effect codec s (.main (.take tx)) { s with client :=
        { s.client.take tx with tasks := s.client.tasks ++ [(n, s.client.context tx)] } }
  | takeOffline {tx : UniversalPaymentEvent} {inserted : Bool} :
      Effect codec s (.main (.takeOffline tx inserted))
        { client := { s.client.take tx with main := .connecting }
          safDb := s.safDb.save codec (s.client.context tx) inserted }
  | save {k n : Nat} {t : Taken} {inserted : Bool} : s.client.tasks[k]? = some (n, t) →
      (s.client.connections n).writer = .ended →
      Effect codec s (.dispatch k inserted)
        { client := { s.client with tasks := s.client.tasks.eraseIdx k }
          safDb := s.safDb.save codec t inserted }
  | send {k n : Nat} {t : Taken} {inserted : Bool} : s.client.tasks[k]? = some (n, t) →
      (s.client.connections n).writer ≠ .ended →
      Effect codec s (.dispatch k inserted)
        { s with client := s.client.send k n ⟨t, connexEncode t.transaction⟩ }
  | write {n : Nat} {w : WriterAction} {conn : Connection} {sent : List Outgoing} :
      (s.client.connections n).step (s.client.closed n) w = some (conn, sent) →
      Effect codec s (.writer n w) { s with client :=
        { s.client.setConnection n conn with written := s.client.written ++ sent } }
  | sweep {a : SweepAction} {sweeper : SweepPc} {sent : List Outgoing} :
      SweepEffect s a sweeper sent →
      Effect codec s (.sweep a) { s with client :=
        { s.client with sweeper, written := s.client.written ++ sent } }
  | remove {key : String} {t : Taken} {rest : List (String × Taken)} :
      s.client.sweeper = .removing ((key, t) :: rest) →
      Effect codec s (.sweep (.remove true))
        { client := { s.client with sweeper := .removing rest }, safDb := s.safDb.remove key }

theorem main_effect {a : MainAction} (h : s.mainStep codec a = some s') :
    Effect codec s (.main a) s' := by
  cases a with
  | connect =>
      simp only [mainStep] at h
      split at h <;> cases h
      exact .connect
  | take tx =>
      simp only [mainStep] at h
      split at h <;> cases h
      exact .take
  | takeOffline tx inserted =>
      simp only [mainStep] at h
      split at h <;> cases h
      exact .takeOffline
  | connectError | nodelayError | idle | disconnect =>
      simp only [mainStep] at h
      split at h <;> cases h
      exact .move

theorem dispatch_effect {k : Nat} {inserted : Bool}
    (h : s.dispatchStep codec k inserted = some s') : Effect codec s (.dispatch k inserted) s' := by
  simp only [dispatchStep] at h
  split at h
  next htask =>
    split at h
    next hended =>
      cases h
      exact .save htask hended
    next hrunning =>
      split at h <;> cases h
      exact .send htask hrunning
  next => cases h

/-- A sweep that writes nothing, and keeps its keys or some of them. -/
theorem silent_effect {a : SweepAction} (sweeper : SweepPc)
    (hinHand : ∀ payload ∈ sweeper.inHand, payload ∈ s.client.sweeper.inHand ∨
      ∃ key row, a = .visit key ∧ s.safDb.get key = some row ∧ payload.taken = row.taken)
    (hkeys : sweeper.keysToRemove ⊆ s.client.sweeper.keysToRemove) :
    Effect codec s (.sweep a) { s with client := { s.client with sweeper } } := by
  have heffect : SweepEffect s a sweeper [] :=
    ⟨List.nil_subset _, hinHand, fun _ hmem => .inl (hkeys hmem)⟩
  have hsweep : Effect codec s (.sweep a) _ := .sweep heffect
  rw [List.append_nil] at hsweep
  exact hsweep

theorem sweep_effect {a : SweepAction} (h : s.sweepStep codec a = some s') :
    Effect codec s (.sweep a) s' := by
  cases a with
  | visit key =>
      simp only [sweepStep] at h
      split at h
      next visited keys row hsweeper hget =>
        have hkeys : keys ⊆ s.client.sweeper.keysToRemove := by
          rw [hsweeper]
          exact List.Subset.refl _
        split at h
        · cases h
        · split at h <;> cases h
          next payload hpayload =>
            obtain ⟨pb, _, rfl⟩ := Option.map_eq_some_iff.mp hpayload
            refine silent_effect (.writing key _ visited keys) ?_ hkeys
            intro payload hmem
            cases List.mem_singleton.mp hmem
            exact .inr ⟨key, row, rfl, hget, rfl⟩
          next =>
            exact silent_effect (.iterating (key :: visited) keys) (List.forall_mem_nil _) hkeys
      next => cases h
  | writeAll ok =>
      simp only [sweepStep] at h
      split at h
      next key payload visited keys hsweeper =>
        have hkeys : keys ⊆ s.client.sweeper.keysToRemove := by
          rw [hsweeper]
          exact List.Subset.refl _
        split at h <;> cases h
        · refine .sweep ⟨?_, List.forall_mem_nil _, ?_⟩
          · rw [hsweeper]
            exact List.Subset.refl _
          · intro entry hmem
            rcases List.mem_append.mp hmem with hold | hnew
            · exact .inl (hkeys hold)
            · cases List.mem_singleton.mp hnew
              exact .inr List.mem_cons_self
        · exact silent_effect (.iterating (key :: visited) keys) (List.forall_mem_nil _) hkeys
      next => cases h
  | finish =>
      simp only [sweepStep] at h
      split at h <;> cases h
      next visited keys hsweeper =>
        refine silent_effect (.removing keys) (List.forall_mem_nil _) ?_
        rw [hsweeper]
        exact List.Subset.refl _
  | remove ok =>
      simp only [sweepStep] at h
      split at h
      next =>
        cases h
        exact silent_effect .sleeping (List.forall_mem_nil _) (List.nil_subset _)
      next key t rest hsweeper =>
        cases h
        cases ok with
        | true => exact .remove hsweeper
        | false =>
            refine silent_effect (.removing rest) (List.forall_mem_nil _) ?_
            rw [hsweeper]
            exact List.subset_cons_self _ _
      next => cases h
  | connect =>
      simp only [sweepStep] at h
      split at h <;> cases h
      exact silent_effect (.iterating [] []) (List.forall_mem_nil _) (List.nil_subset _)
  | nodelayError =>
      simp only [sweepStep] at h
      split at h <;> cases h
      exact silent_effect .panicked (List.forall_mem_nil _) (List.nil_subset _)

theorem step_effect {a : EgressAction} (h : s.step codec a = some s') : Effect codec s a s' := by
  cases a with
  | main a => exact main_effect h
  | dispatch k inserted => exact dispatch_effect h
  | writer n w =>
      obtain ⟨_, hconn, rfl⟩ := Option.map_eq_some_iff.mp h
      exact .write hconn
  | sweep a => exact sweep_effect h

/-! ## What becomes of the store and of the sweeper's keys -/

/-- A step keeps every row, unless it inserts or removes under its key. -/
theorem get_step {a : EgressAction} (key : String) (h : Effect codec s a s') :
    s.savedAt a = some key ∨ (∃ t, s.removed a = some (key, t)) ∨
      s'.safDb.get key = s.safDb.get key := by
  cases h with
  | @takeOffline tx inserted =>
      by_cases hsaved : (s.client.context tx).savedAt inserted = some key
      · exact .inl hsaved
      · exact .inr (.inr (SafDb.get_save hsaved))
  | @save k n t inserted htask hended =>
      simp only [savedAt, htask, if_pos hended]
      by_cases hsaved : t.savedAt inserted = some key
      · exact .inl hsaved
      · exact .inr (.inr (SafDb.get_save hsaved))
  | @remove k t rest hsweeper =>
      simp only [removed, hsweeper, SweepPc.nextRemoval]
      rcases eq_or_ne key k with rfl | hne
      · exact .inr (.inl ⟨t, rfl⟩)
      · exact .inr (.inr (DashMap.get_remove_ne _ hne))
  | move | connect | take | send | write | sweep => exact .inr (.inr rfl)

end Egress

def UpstreamClient.delivered (c : UpstreamClient) : List Taken := c.written.map Outgoing.taken

/-- The sweeper removes only what has been written. -/
def UpstreamClient.Swept (c : UpstreamClient) : Prop :=
  ∀ entry ∈ c.sweeper.keysToRemove, entry.2 ∈ c.delivered

theorem Egress.mem_keys_of_removed {a : EgressAction} {entry : String × Taken}
    (h : s.removed a = some entry) : entry ∈ s.client.sweeper.keysToRemove := by
  cases a with
  | sweep a =>
      cases a with
      | remove ok =>
          cases ok with
          | true => exact SweepPc.mem_keysToRemove_of_next h
          | false => cases h
      | _ => cases h
  | _ => cases h

theorem Egress.swept_step {a : EgressAction} (h : Effect codec s a s') (hs : s.client.Swept) :
    s'.client.Swept := by
  cases h with
  | write =>
      intro entry hmem
      rw [UpstreamClient.delivered, List.map_append]
      exact List.mem_append_left _ (hs entry hmem)
  | sweep heffect =>
      intro entry hmem
      rw [UpstreamClient.delivered, List.map_append]
      rcases heffect.keys entry hmem with hold | hnew
      · exact List.mem_append_left _ (hs entry hold)
      · exact List.mem_append_right _ hnew
  | remove hsweeper =>
      intro entry hmem
      refine hs entry ?_
      rw [hsweeper]
      exact List.mem_cons_of_mem _ hmem
  | move | connect | take | takeOffline | save | send => exact hs

end Iso8583Switch
