import Iso8583Switch.Daemon.EgressClients
import Iso8583Switch.Properties.StoreAndForward

/-!
# Whose bank a stored advice goes to

The keys of the shared store do not say which client has stored a row.  `KeepsApart` is
the discipline under which this does no harm: a sweep meets no row of the other client,
and a row is replaced or removed only when its own host has got it.
-/

namespace Iso8583Switch

open Text Function Transition

/-- The key whose row the sweeper takes. -/
def EgressAction.visited : EgressAction → Option String
  | .sweep (.visit key) => some key
  | _ => none

/-- All that a client has is its own. -/
structure UpstreamClient.Own (c : UpstreamClient) (host : String) : Prop where
  name : c.host = host
  tasks : ∀ task ∈ c.tasks, task.2.host = host
  pending : ∀ n, ∀ t ∈ (c.connections n).pending, t.host = host
  sweeping : ∀ payload ∈ c.sweeper.inHand, payload.taken.host = host
  delivered : ∀ t ∈ c.delivered, t.host = host

namespace EgressClients

/-- Each client writes to its host what it has taken itself. -/
def WrittenHome (d : EgressClients) : Prop :=
  ∀ bank, ∀ t ∈ (d.client bank).delivered, t.host = bank.host

/-- The context has been written to the host of the client that took it. -/
def DeliveredHome (d : EgressClients) (t : Taken) : Prop :=
  ∃ bank, t.host = bank.host ∧ t ∈ (d.client bank).delivered

/-- What a step takes out of the store has been written to the host of its client. -/
def TakesDelivered (d d' : EgressClients) : Prop :=
  ∀ key row, d.safDb.get key = some row → d'.safDb.get key ≠ some row → d.DeliveredHome row.taken

structure KeepsApart (d : EgressClients) (p : Bank × EgressAction) : Prop where
  visits : ∀ key ∈ p.2.visited, ∀ row ∈ d.safDb.get key, row.taken.host = p.1.host
  inserts : ∀ key ∈ (d.view p.1).savedAt p.2, ∀ row ∈ d.safDb.get key, d.DeliveredHome row.taken
  removes : ∀ entry ∈ (d.view p.1).removed p.2, ∀ row ∈ d.safDb.get entry.1,
    row.taken = entry.2 ∨ d.DeliveredHome row.taken

end EgressClients

variable {codec : RecordCodec} {s s' : Egress} {host : String}

/-! ## One client -/

namespace UpstreamClient.Own

theorem new (host : String) (next : Nat) : (UpstreamClient.new host next).Own host where
  name := rfl
  tasks := List.forall_mem_nil _
  pending _ := List.forall_mem_nil _
  sweeping := List.forall_mem_nil _
  delivered := List.forall_mem_nil _

theorem send_step {k n : Nat} {t : Taken} (htask : s.client.tasks[k]? = some (n, t))
    (hrunning : (s.client.connections n).writer ≠ .ended) (hs : s.client.Own host) :
    (s.client.send k n ⟨t, connexEncode t.transaction⟩).Own host := by
  refine ⟨hs.name, fun task hmem => hs.tasks task (List.mem_of_mem_eraseIdx hmem),
    fun m u hu => ?_, hs.sweeping, hs.delivered⟩
  simp only [UpstreamClient.send, setConnection, update_apply] at hu
  split at hu
  · rcases (Connection.mem_pending_push hrunning _).mp hu with hnew | hold
    · rw [hnew]
      exact hs.tasks (n, t) (List.mem_of_getElem? htask)
    · exact hs.pending n u hold
  · exact hs.pending m u hu

theorem write_step {n : Nat} {w : WriterAction} {conn : Connection} {sent : List Outgoing}
    (hconn : (s.client.connections n).step (s.client.closed n) w = some (conn, sent))
    (hs : s.client.Own host) :
    UpstreamClient.Own
      { s.client.setConnection n conn with written := s.client.written ++ sent } host := by
  refine ⟨hs.name, hs.tasks, fun m t ht => ?_, hs.sweeping, fun t ht => ?_⟩
  · simp only [setConnection, update_apply] at ht
    split at ht
    · exact hs.pending n t ((Connection.pending_step hconn).mpr (.inl ht))
    · exact hs.pending m t ht
  · rw [UpstreamClient.delivered, List.map_append, List.mem_append] at ht
    rcases ht with hold | hsent
    · exact hs.delivered t hold
    · exact hs.pending n t ((Connection.pending_step hconn).mpr (.inr (.inl hsent)))

/-- The sweeper has in hand what it visits, and writes what it has in hand. -/
theorem sweep_step {a : SweepAction} {sweeper : SweepPc} {sent : List Outgoing}
    (heffect : SweepEffect s a sweeper sent)
    (hvisits : ∀ key, a = .visit key → ∀ row ∈ s.safDb.get key, row.taken.host = host)
    (hs : s.client.Own host) :
    UpstreamClient.Own { s.client with sweeper, written := s.client.written ++ sent } host := by
  refine ⟨hs.name, hs.tasks, hs.pending, fun payload hmem => ?_, fun t ht => ?_⟩
  · rcases heffect.inHand payload hmem with hold | ⟨key, row, ha, hget, htaken⟩
    · exact hs.sweeping payload hold
    · rw [htaken]
      exact hvisits key ha row hget
  · rw [UpstreamClient.delivered, List.map_append, List.mem_append] at ht
    rcases ht with hold | hsent
    · exact hs.delivered t hold
    · obtain ⟨payload, hmem, rfl⟩ := List.mem_map.mp hsent
      exact hs.sweeping payload (heffect.writes hmem)

/-- A client that visits no row of another one has nothing of another one. -/
theorem step {a : EgressAction} (h : Egress.Effect codec s a s')
    (hvisits : ∀ key ∈ a.visited, ∀ row ∈ s.safDb.get key, row.taken.host = host)
    (hs : s.client.Own host) : s'.client.Own host := by
  cases h with
  | connect =>
      refine ⟨hs.name, hs.tasks, fun n t ht => ?_, hs.sweeping, hs.delivered⟩
      simp only [setConnection, update_apply] at ht
      split at ht
      · cases ht
      · exact hs.pending n t ht
  | take =>
      refine ⟨hs.name, fun task hmem => ?_, hs.pending, hs.sweeping, hs.delivered⟩
      rcases List.mem_append.mp hmem with hold | hnew
      · exact hs.tasks task hold
      · cases List.mem_singleton.mp hnew
        exact hs.name
  | save =>
      exact ⟨hs.name, fun task hmem => hs.tasks task (List.mem_of_mem_eraseIdx hmem), hs.pending,
        hs.sweeping, hs.delivered⟩
  | send htask hrunning => exact hs.send_step htask hrunning
  | write hconn => exact hs.write_step hconn
  | sweep heffect => exact hs.sweep_step heffect fun key ha => hvisits key (by rw [ha]; rfl)
  | remove =>
      exact ⟨hs.name, hs.tasks, hs.pending, List.forall_mem_nil _, hs.delivered⟩
  | move | takeOffline => exact ⟨hs.name, hs.tasks, hs.pending, hs.sweeping, hs.delivered⟩

end UpstreamClient.Own

/-! ## Both clients -/

namespace EgressClients

open Egress (advice adviceCodec)

variable {d d' : EgressClients} {p : Bank × EgressAction}

/-- Each client has only what is its own, and removes only what it has written. -/
def Apart (d : EgressClients) : Prop :=
  ∀ bank, (d.client bank).Own bank.host ∧ (d.client bank).Swept

theorem apart_initial (hd : d.Initial) : d.Apart := by
  obtain ⟨next, hclient, _⟩ := hd
  intro bank
  rw [hclient bank]
  exact ⟨.new bank.host next, List.forall_mem_nil _⟩

theorem Apart.step (h : d.step codec p = some d') (hp : d.KeepsApart p) (hd : d.Apart) :
    d'.Apart := by
  obtain ⟨s, hstep, rfl⟩ := Option.map_eq_some_iff.mp h
  have heffect := Egress.step_effect hstep
  intro bank
  simp only [update_apply]
  split
  next heq =>
    obtain ⟨hown, hswept⟩ := hd p.1
    rw [heq]
    exact ⟨hown.step heffect hp.visits, Egress.swept_step heffect hswept⟩
  next => exact hd bank

theorem apart (hd : EgressClients.Reachable codec KeepsApart d) : d.Apart := by
  refine hd.invariant (fun d hd => apart_initial hd) fun d d' _ ih hdd' => ?_
  obtain ⟨p, hp, hstep⟩ := hdd'
  exact ih.step hstep hp

theorem takes_delivered (h : d.step codec p = some d') (hp : d.KeepsApart p) (hd : d.Apart) :
    d.TakesDelivered d' := by
  obtain ⟨s, hstep, rfl⟩ := Option.map_eq_some_iff.mp h
  intro key row hget hgone
  rcases Egress.get_step key (Egress.step_effect hstep) with hsaved | ⟨t, hremoved⟩ | hsame
  · exact hp.inserts key hsaved row hget
  · rcases hp.removes _ hremoved row hget with hown | hhome
    · -- The sweep has written it, and it has written only what is its own client's.
      obtain ⟨hclient, hswept⟩ := hd p.1
      have hwritten : t ∈ (d.client p.1).delivered :=
        hswept _ (Egress.mem_keys_of_removed hremoved)
      rw [hown]
      exact ⟨p.1, hclient.delivered t hwritten, hwritten⟩
    · exact hhome
  · exact absurd (hsame.trans hget) hgone

/-- In every run that keeps the clients apart, each client writes only its own advices,
and none is taken out of the store before its client has written it. -/
theorem stored_advices_home (hd : EgressClients.Reachable codec KeepsApart d) :
    d.WrittenHome ∧
      ∀ p d', d.KeepsApart p → d.step codec p = some d' → d.TakesDelivered d' :=
  ⟨fun bank => (apart hd bank).1.delivered,
    fun _ _ hp hstep => takes_delivered hstep hp (apart hd)⟩

/-! ## Two runs -/

instance (d : EgressClients) (t : Taken) : Decidable (d.DeliveredHome t) :=
  decidable_of_iff
    ((t.host = Bank.visa.host ∧ t ∈ (d.client .visa).delivered) ∨
      (t.host = Bank.mastercard.host ∧ t ∈ (d.client .mastercard).delivered))
    ⟨fun h => h.elim (fun h => ⟨.visa, h⟩) (fun h => ⟨.mastercard, h⟩), fun ⟨bank, h⟩ => by
      cases bank with
      | visa => exact .inl h
      | mastercard => exact .inr h⟩

instance (d : EgressClients) (p : Bank × EgressAction) : Decidable (d.KeepsApart p) :=
  decidable_of_iff
    ((∀ key ∈ p.2.visited, ∀ row ∈ d.safDb.get key, row.taken.host = p.1.host) ∧
      (∀ key ∈ (d.view p.1).savedAt p.2, ∀ row ∈ d.safDb.get key, d.DeliveredHome row.taken) ∧
      ∀ entry ∈ (d.view p.1).removed p.2, ∀ row ∈ d.safDb.get entry.1,
        row.taken = entry.2 ∨ d.DeliveredHome row.taken)
    ⟨fun ⟨hv, hi, hr⟩ => ⟨hv, hi, hr⟩, fun h => ⟨h.visits, h.inserts, h.removes⟩⟩

/-- Both clients at their start, with an empty store. -/
def start : EgressClients := ⟨fun bank => .new bank.host 0, ∅⟩

theorem start_initial : Initial start :=
  ⟨0, fun _ => rfl, fun key row hget => by rw [start, DashMap.get_empty] at hget; cases hget⟩

def store (bank : Bank) (stan : String) : List (Bank × EgressAction) :=
  [(bank, .main .connectError), (bank, .main (.takeOffline (advice stan) true))]

/-- A sweep that finds one row. -/
def sweepOne (bank : Bank) (key : String) : List (Bank × EgressAction) :=
  [(bank, .sweep .connect), (bank, .sweep (.visit key)), (bank, .sweep (.writeAll true)),
    (bank, .sweep .finish), (bank, .sweep (.remove true))]

/-- The client that has stored an advice comes first. -/
def ownSweeps : List (Bank × EgressAction) :=
  store .visa "888" ++ sweepOne .visa "888-RRN_SAF_XXX" ++ store .mastercard "889" ++
    sweepOne .mastercard "889-RRN_SAF_XXX"

theorem ownSweeps_reachable :
    EgressClients.Reachable adviceCodec KeepsApart (ran (step adviceCodec) start ownSweeps) :=
  .ran_of_complies (P := KeepsApart) (fun _ _ => id) start_initial (by decide)

theorem stored_advices_home_ownSweeps :
    (ran (step adviceCodec) start ownSweeps).WrittenHome ∧
      ((ran (step adviceCodec) start ownSweeps).client .visa).delivered.length = 1 :=
  ⟨(stored_advices_home ownSweeps_reachable).1, by decide⟩

/-- The other client comes first. -/
def foreignSweep : List (Bank × EgressAction) :=
  store .visa "888" ++ sweepOne .mastercard "888-RRN_SAF_XXX"

/-- The advice of the Visa client goes to the Mastercard host, and is gone. -/
theorem foreignSweep_misdelivers :
    ¬ ∀ codec d, EgressClients.Reachable codec Free d → d.WrittenHome ∧
      ∀ p d', d.step codec p = some d' → d.TakesDelivered d' := by
  intro h
  have hreach :
      EgressClients.Reachable adviceCodec Free (ran (step adviceCodec) start foreignSweep) :=
    .ran_of_complies (P := Free) (fun _ _ => id) start_initial (by decide)
  have hhost := (h adviceCodec _ hreach).1 .mastercard ⟨Bank.visa.host, 0, advice "888"⟩
    List.mem_cons_self
  revert hhost
  decide

end EgressClients

end Iso8583Switch
