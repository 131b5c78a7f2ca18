import Iso8583Switch.Edge.Places

/-!
# What becomes of an advice

An advice that was taken from `rx` is with a task, before a writer task that runs, in
the store, or written.  `LosesNone` is the discipline under which it stays so: no step
drops an advice, an insert replaces only what has been written, and nobody replaces a
row between the write of the sweep and the removal.
-/

namespace Iso8583Switch

open Text Function Transition

namespace Egress

/-- Where an advice may be. -/
inductive Keeps (s : Egress) (t : Taken) : Prop where
  | dispatching {n : Nat} : (n, t) ∈ s.client.tasks → Keeps s t
  | queued {n : Nat} : t ∈ (s.client.connections n).pending → Keeps s t
  | stored {key : String} {row : SafRow} : s.safDb.get key = some row → row.taken = t → Keeps s t
  | written : t ∈ s.client.delivered → Keeps s t

def NoneLost (s : Egress) : Prop := ∀ t ∈ s.client.taken, t.isAdvice = true → s.Keeps t

/-- What is under the key has been written, or is no advice of this run. -/
def Replaceable (s : Egress) (key : String) : Prop :=
  ∀ row ∈ s.safDb.get key, row.taken ∈ s.client.taken → row.taken ∈ s.client.delivered

/-- What is under the key is what the sweep has written. -/
def Unreplaced (s : Egress) (entry : String × Taken) : Prop :=
  ∀ row ∈ s.safDb.get entry.1, row.taken = entry.2

structure LosesNone (s : Egress) (a : EgressAction) : Prop where
  drops : ∀ t ∈ s.dropped a, t.isAdvice = false
  inserts : ∀ key ∈ s.savedAt a, s.Replaceable key
  removes : ∀ entry ∈ s.removed a, s.Unreplaced entry

variable {codec : RecordCodec} {s s' : Egress} {t : Taken}

/-! ## The places of an advice -/

/-- What stays with the client is kept, and so is what is stored. -/
theorem Keeps.stay {a : EgressAction} (h : Effect codec s a s') (hswept : s.client.Swept)
    (hsafe : s.LosesNone a) (ht : t ∈ s.client.taken) (hk : s.Keeps t)
    (htasks : ∀ n, (n, t) ∈ s.client.tasks → (n, t) ∈ s'.client.tasks)
    (hpending : ∀ n, t ∈ (s.client.connections n).pending → t ∈ (s'.client.connections n).pending)
    (hdelivered : s.client.delivered ⊆ s'.client.delivered) : s'.Keeps t := by
  cases hk with
  | dispatching htask => exact .dispatching (htasks _ htask)
  | queued ht => exact .queued (hpending _ ht)
  | @stored key row hget hrow =>
      rcases get_step key h with hsaved | ⟨t', hremoved⟩ | hsame
      · have hwritten := hsafe.inserts key hsaved row hget (hrow ▸ ht)
        exact .written (hdelivered (hrow ▸ hwritten))
      · have hown : row.taken = t' := hsafe.removes _ hremoved row hget
        have hwritten : t' ∈ s.client.delivered := hswept _ (mem_keys_of_removed hremoved)
        exact .written (hdelivered (hrow ▸ hown ▸ hwritten))
      · exact .stored (hsame.trans hget) hrow
  | written hwritten => exact .written (hdelivered hwritten)

/-- An advice that a save does not drop is in the store afterwards. -/
theorem keeps_saved {inserted : Bool} (hdropped : inserted = false → t.isAdvice = false)
    (hadvice : t.isAdvice = true) (hstore : s'.safDb = s.safDb.save codec t inserted) :
    s'.Keeps t := by
  cases inserted with
  | true =>
      obtain ⟨row, hget, hrow⟩ := SafDb.get_save_self codec s.safDb hadvice
      exact .stored (hstore ▸ hget) hrow
  | false =>
      rw [hdropped rfl] at hadvice
      cases hadvice

/-- All tasks but one are left when it is done. -/
theorem task_stays {tasks : List (Nat × Taken)} {k n m : Nat} {t' : Taken}
    (hk : tasks[k]? = some (n, t')) (hne : t ≠ t') (hmem : (m, t) ∈ tasks) :
    (m, t) ∈ tasks.eraseIdx k := by
  obtain ⟨i, hi⟩ := List.mem_iff_getElem?.mp hmem
  refine List.mem_eraseIdx_iff_getElem?.mpr ⟨i, ?_, hi⟩
  intro heq
  rw [heq, hk] at hi
  cases hi
  exact hne rfl

theorem delivered_subset (written sent : List Outgoing) :
    written.map Outgoing.taken ⊆ (written ++ sent).map Outgoing.taken := by
  rw [List.map_append]
  exact List.subset_append_left _ _

/-! ## The steps -/

/-- No connection is there before it is opened. -/
def Fresh (s : Egress) : Prop := ∀ n, s.client.opened ≤ n → s.client.connections n = .gone

theorem gone_stays {closed : Bool} {w : WriterAction} : Connection.gone.step closed w = none := by
  cases w <;> rfl

theorem fresh_step {a : EgressAction} (h : Effect codec s a s') (hs : s.Fresh) : s'.Fresh := by
  cases h with
  | connect =>
      intro n hn
      have hother : n ≠ s.client.opened := Nat.ne_of_gt hn
      simp only [UpstreamClient.setConnection, update_of_ne hother]
      exact hs n (Nat.le_of_succ_le hn)
  | @send k n t inserted _ hrunning =>
      intro m hm
      have hother : m ≠ n := by
        intro heq
        rw [← heq, hs m hm] at hrunning
        exact hrunning rfl
      simp only [UpstreamClient.send, UpstreamClient.setConnection, update_of_ne hother]
      exact hs m hm
  | @write n w conn sent hconn =>
      intro m hm
      have hother : m ≠ n := by
        intro heq
        rw [← heq, hs m hm, gone_stays] at hconn
        cases hconn
      simp only [UpstreamClient.setConnection, update_of_ne hother]
      exact hs m hm
  | move | take | takeOffline | save | sweep | remove => exact hs

/-- The task of a context that finds the writer running. -/
theorem send_keeps (codec : RecordCodec) {k n : Nat} {t' : Taken} {inserted : Bool}
    (htask : s.client.tasks[k]? = some (n, t'))
    (hrunning : (s.client.connections n).writer ≠ .ended) (hswept : s.client.Swept)
    (hsafe : s.LosesNone (.dispatch k inserted)) (ht : t ∈ s.client.taken) (hk : s.Keeps t) :
    Keeps { s with client := s.client.send k n ⟨t', connexEncode t'.transaction⟩ } t := by
  rcases eq_or_ne t t' with rfl | hne
  · refine .queued (n := n) ?_
    simp only [UpstreamClient.send, UpstreamClient.setConnection, update_self]
    exact (Connection.mem_pending_push hrunning _).mpr (.inl rfl)
  · have heffect : Effect codec s (.dispatch k inserted) _ := .send htask hrunning
    refine hk.stay heffect hswept hsafe ht (fun m => task_stays htask hne)
      (fun m hpending => ?_) (List.Subset.refl _)
    simp only [UpstreamClient.send, UpstreamClient.setConnection, update_apply]
    split
    next heq => exact (Connection.mem_pending_push hrunning _).mpr (.inr (heq ▸ hpending))
    next => exact hpending

/-- What a writer task has before it is still there, or written. -/
theorem write_keeps (codec : RecordCodec) {n : Nat} {w : WriterAction} {conn : Connection}
    {sent : List Outgoing}
    (hconn : (s.client.connections n).step (s.client.closed n) w = some (conn, sent))
    (hswept : s.client.Swept) (hsafe : s.LosesNone (.writer n w)) (ht : t ∈ s.client.taken)
    (hadvice : t.isAdvice = true) (hk : s.Keeps t) :
    Keeps { s with client :=
      { s.client.setConnection n conn with written := s.client.written ++ sent } } t := by
  by_cases hsent : t ∈ sent.map Outgoing.taken
  · refine .written ?_
    rw [UpstreamClient.delivered, List.map_append]
    exact List.mem_append_right _ hsent
  · have heffect : Effect codec s (.writer n w) _ := .write hconn
    refine hk.stay heffect hswept hsafe ht (fun _ => id) (fun m hpending => ?_)
      (delivered_subset _ _)
    simp only [UpstreamClient.setConnection, update_apply]
    split
    next heq =>
      rw [heq] at hpending
      rcases (Connection.pending_step hconn).mp hpending with hstays | htaken | hdropped
      · exact hstays
      · exact absurd htaken hsent
      · rw [hsafe.drops t hdropped] at hadvice
        cases hadvice
    next => exact hpending

theorem step_keeps {a : EgressAction} (h : Effect codec s a s') (hfresh : s.Fresh)
    (hswept : s.client.Swept) (hsafe : s.LosesNone a) (hs : s.NoneLost) : s'.NoneLost := by
  intro t ht hadvice
  have hstay := fun ht => (hs t ht hadvice).stay h hswept hsafe ht
  cases h with
  | connect =>
      refine hstay ht (fun _ => id) (fun n hpending => ?_) (List.Subset.refl _)
      have hother : n ≠ s.client.opened := by
        intro heq
        rw [hfresh n heq.ge] at hpending
        cases hpending
      simp only [UpstreamClient.setConnection, update_of_ne hother]
      exact hpending
  | take =>
      rcases List.mem_append.mp ht with ht | ht
      · exact hstay ht (fun _ => List.mem_append_left _) (fun _ => id) (List.Subset.refl _)
      · cases List.mem_singleton.mp ht
        exact .dispatching (List.mem_append_right _ List.mem_cons_self)
  | takeOffline =>
      rcases List.mem_append.mp ht with ht | ht
      · exact hstay ht (fun _ => id) (fun _ => id) (List.Subset.refl _)
      · cases List.mem_singleton.mp ht
        refine keeps_saved (fun hfailed => hsafe.drops _ ?_) hadvice rfl
        rw [hfailed]
        exact List.mem_cons_self
  | @save k n t' inserted htask hended =>
      rcases eq_or_ne t t' with rfl | hne
      · refine keeps_saved (fun hfailed => hsafe.drops _ ?_) hadvice rfl
        simp only [hfailed, dropped, htask, if_pos hended]
        exact List.mem_cons_self
      · exact hstay ht (fun m => task_stays htask hne) (fun _ => id) (List.Subset.refl _)
  | send htask hrunning => exact send_keeps codec htask hrunning hswept hsafe ht (hs t ht hadvice)
  | write hconn => exact write_keeps codec hconn hswept hsafe ht hadvice (hs t ht hadvice)
  | sweep => exact hstay ht (fun _ => id) (fun _ => id) (delivered_subset _ _)
  | move | remove => exact hstay ht (fun _ => id) (fun _ => id) (List.Subset.refl _)

/-! ## All runs -/

theorem fresh {P : Egress → EgressAction → Prop} (hs : Egress.Reachable codec P s) : s.Fresh := by
  refine hs.invariant (fun s hs n _ => ?_) fun s t _ ih ⟨a, _, hstep⟩ =>
    fresh_step (step_effect hstep) ih
  obtain ⟨host, next, hclient, _⟩ := hs
  rw [hclient]
  rfl

theorem swept {P : Egress → EgressAction → Prop} (hs : Egress.Reachable codec P s) :
    s.client.Swept := by
  refine hs.invariant (fun s hs entry hmem => ?_) fun s t _ ih ⟨a, _, hstep⟩ =>
    swept_step (step_effect hstep) ih
  obtain ⟨host, next, hclient, _⟩ := hs
  rw [hclient] at hmem
  cases hmem

/-- In every run whose steps lose none, every advice that was taken is with a task,
before a running writer task, in the store, or written. -/
theorem none_lost (hs : Egress.Reachable codec LosesNone s) : s.NoneLost := by
  refine hs.invariant (fun s hs t ht => ?_) fun s t hreach ih ⟨a, hsafe, hstep⟩ =>
    step_keeps (step_effect hstep) (fresh hreach) (swept hreach) hsafe ih
  obtain ⟨host, next, hclient, _⟩ := hs
  rw [hclient] at ht
  cases ht

/-! ## Two runs -/

instance (s : Egress) (key : String) : Decidable (s.Replaceable key) :=
  inferInstanceAs (Decidable (∀ row ∈ s.safDb.get key, _ → _))

instance (s : Egress) (entry : String × Taken) : Decidable (s.Unreplaced entry) :=
  inferInstanceAs (Decidable (∀ row ∈ s.safDb.get entry.1, _))

instance (s : Egress) (a : EgressAction) : Decidable (s.LosesNone a) :=
  decidable_of_iff ((∀ t ∈ s.dropped a, t.isAdvice = false) ∧
      (∀ key ∈ s.savedAt a, s.Replaceable key) ∧ ∀ entry ∈ s.removed a, s.Unreplaced entry)
    ⟨fun ⟨hd, hi, hr⟩ => ⟨hd, hi, hr⟩, fun h => ⟨h.drops, h.inserts, h.removes⟩⟩

def advice (stan : String) : UniversalPaymentEvent :=
  { blankEvent (asBytes "0420") with
    fpan := asBytes "4111111111111111"
    amount := 1000
    stan := stan
    rrn := "RRN_SAF_XXX"
    acquirerId := asBytes "Acq" }

def adviceCodec : RecordCodec := .onSamples [toPb (advice "888"), toPb (advice "889")]

/-- The client of the Visa node with an empty store. -/
def start : Egress := ⟨.new "127.0.0.1:9188" 0, ∅⟩

theorem start_initial : Initial start :=
  ⟨_, _, rfl, fun key row hget => by rw [start, DashMap.get_empty] at hget; cases hget⟩

/-- The first advice is stored and swept, and the second one is sent. -/
def storedAndSwept : List EgressAction :=
  [.main .connectError, .main (.takeOffline (advice "888") true),
    .main .connect, .main (.take (advice "889")), .dispatch 0 false,
    .writer 0 .recv, .writer 0 (.feed true), .writer 0 .tryRecv, .writer 0 .transmit,
    .writer 0 (.flush true),
    .sweep .connect, .sweep (.visit "888-RRN_SAF_XXX"), .sweep (.writeAll true), .sweep .finish,
    .sweep (.remove true)]

theorem storedAndSwept_reachable :
    Egress.Reachable adviceCodec LosesNone (ran (step adviceCodec) start storedAndSwept) :=
  .ran_of_complies (P := LosesNone) (fun _ _ => id) start_initial (by decide)

theorem none_lost_storedAndSwept :
    (ran (step adviceCodec) start storedAndSwept).NoneLost ∧
      (ran (step adviceCodec) start storedAndSwept).client.taken.length = 2 :=
  ⟨none_lost storedAndSwept_reachable, by decide⟩

/-- The bank hangs up before the sink is flushed, and the writer task ends with the
advice in the buffer of the sink. -/
def hungUp : List EgressAction :=
  [.main .connect, .main (.take (advice "888")), .dispatch 0 false,
    .writer 0 .recv, .writer 0 (.feed true), .writer 0 .tryRecv, .writer 0 (.flush false),
    .main .disconnect, .writer 0 .hangUp]

theorem hungUp_loses :
    ¬ ∀ codec s, Egress.Reachable codec Free s → s.NoneLost := by
  intro h
  have hreach : Egress.Reachable adviceCodec Free (ran (step adviceCodec) start hungUp) :=
    .ran_of_complies (P := Free) (fun _ _ => id) start_initial (by decide)
  have hkeeps := h adviceCodec _ hreach (start.client.context (advice "888")) List.mem_cons_self
    (by decide)
  cases hkeeps with
  | dispatching htask => cases htask
  | @queued n hpending =>
      cases n with
      | zero => cases hpending
      | succ n => cases hpending
  | stored hget => cases hget
  | written hwritten => cases hwritten

end Egress

end Iso8583Switch
