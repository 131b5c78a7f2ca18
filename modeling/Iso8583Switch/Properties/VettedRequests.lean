import Iso8583Switch.Daemon.SecuredEngine
import Iso8583Switch.Properties.ForwardingGate
import Iso8583Switch.Properties.HsmVerdicts

/-!
# Requests and what the HSM has said of them

A task makes its calls on a client that all tasks share, and the HSM answers them in any
order.  A step of the whole is one of the engine or one of the client, so a run of it is a
chronicle of the engine and a conversation of the client (`Vetting.chronicled`,
`Vetting.talks`).  What ties them together is that the call of a task was made with what the
task has in its hands (`Vetting.asked`).

A request that is forwarded has passed its own checks, and one that a task declines has
failed one of its own (`requests_vetted`).
-/

namespace Iso8583Switch

open Text Function Transition

/-! ## The task of an instance -/

/-- The task has not come to its call yet. -/
def HsmPc.before : Check → HsmPc → Bool
  | _, .absent | _, .spawned _ | .pin, .awaitingMac _ _ => true
  | _, _ => false

theorem Check.call_inj {i j : Serial} {check check' : Check} (h : check.call i = check'.call j) :
    i = j ∧ check = check' := by
  have h : @Eq Nat (check.call i) (check'.call j) := h
  cases check <;> cases check' <;> simp only [call] at h
  · exact ⟨Nat.eq_of_mul_eq_mul_left Nat.two_pos h, rfl⟩
  · omega
  · omega
  · exact ⟨Nat.eq_of_mul_eq_mul_left Nat.two_pos (Nat.add_right_cancel h), rfl⟩

namespace Engine

variable {s t u : Engine} {i : Serial} {input : Input} {pc pc' : HsmPc} {check : Check}
  {request : HsmRequest}

theorem before_of_calling (h : pc.calling = some (check, request)) : pc.before check = false := by
  cases pc with
  | awaitingMac ctx route =>
      obtain ⟨mac, -, heq⟩ := Option.map_eq_some_iff.mp h
      cases heq
      rfl
  | awaitingPin ctx route macValid => cases route <;> cases h <;> rfl
  | absent | spawned | resolving | checked | sending | finished => cases h

/-- Behind its MAC the task may have its PIN to ask for. -/
theorem afterMac_later (ctx : TransactionContext) (route : HsmRoute) (macValid : Bool) :
    (∀ check, (afterMac ctx route macValid).before check = false) ∧
      ∀ request, (afterMac ctx route macValid).calling ≠ some (.mac, request) := by
  cases route with
  | internalCrdb pvv =>
      simp only [afterMac]
      split
      · exact ⟨fun check => by cases check <;> rfl, fun request h => by cases h⟩
      · split <;> exact ⟨fun check => by cases check <;> rfl, fun request h => by cases h⟩
  | externalNode node failover =>
      simp only [afterMac]
      split
      · split <;> exact ⟨fun check => by cases check <;> rfl, fun request h => by cases h⟩
      · exact ⟨fun check => by cases check <;> rfl, fun request h => by cases h⟩

/-- Behind its PIN it has no more calls to make. -/
theorem afterPin_later (h : (∃ ctx route, pc = .resolving ctx route) ∨
    ∃ ctx target valid, pc = .checked ctx valid target) :
    (∀ check, pc.before check = false) ∧ pc.calling = none := by
  rcases h with ⟨ctx, route, rfl⟩ | ⟨ctx, target, valid, rfl⟩ <;>
    exact ⟨fun check => by cases check <;> rfl, rfl⟩

theorem afterVerifyPin_cases (ctx : TransactionContext) (route : HsmRoute) (macValid : Bool)
    (result : Option Bool) :
    (∃ ctx' route', afterVerifyPin ctx route macValid result = .resolving ctx' route') ∨
      ∃ ctx' target valid,
        afterVerifyPin ctx route macValid result = .checked ctx' valid target := by
  unfold afterVerifyPin
  split
  · split
    · exact .inr ⟨_, _, _, rfl⟩
    · exact .inl ⟨_, _, rfl⟩
  · exact .inr ⟨_, _, _, rfl⟩

theorem afterTranslatePin_cases (ctx : TransactionContext) (route : HsmRoute)
    (result : Option String) :
    (∃ ctx' route', afterTranslatePin ctx route result = .resolving ctx' route') ∨
      ∃ ctx' target valid, afterTranslatePin ctx route result = .checked ctx' valid target := by
  unfold afterTranslatePin
  split
  · exact .inl ⟨_, _, rfl⟩
  · exact .inr ⟨_, _, _, rfl⟩

/-- A task comes to a call once. -/
theorem TaskTurn.later (hturn : s.TaskTurn i input pc pc' u) (hbefore : pc.before check = false) :
    pc'.before check = false ∧ pc'.calling.map Prod.fst ≠ some check := by
  have hpast (h : (∀ check, pc'.before check = false) ∧ pc'.calling = none) :
      pc'.before check = false ∧ pc'.calling.map Prod.fst ≠ some check :=
    ⟨h.1 check, by rw [h.2]; simp⟩
  cases hturn with
  | route => cases check <;> cases hbefore
  | @verifyMac ctx route result =>
      cases check with
      | mac =>
          obtain ⟨hbefore', hcalling⟩ := afterMac_later ctx route (result == some true)
          refine ⟨hbefore' .mac, fun h => ?_⟩
          obtain ⟨⟨check, request⟩, hcall, rfl⟩ := Option.map_eq_some_iff.mp h
          exact hcalling request hcall
      | pin => cases hbefore
  | verifyPin => exact hpast (afterPin_later (afterVerifyPin_cases _ _ _ _))
  | translatePin => exact hpast (afterPin_later (afterTranslatePin_cases _ _ _))
  | resolve => exact hpast (afterPin_later (.inr ⟨_, _, _, rfl⟩))
  | journal | decline | drop | unjournaled | send | fail =>
      exact hpast ⟨fun check => by cases check <;> rfl, rfl⟩

/-! ## Contexts without a task -/

/-- No task has run yet for a context that a worker may still send. -/
structure Unspawned (s : Engine) : Prop where
  fresh : ∀ i, s.trace.length ≤ i → s.hsm i = .absent
  carried : ∀ w c, s.flow.carried w = some c → s.hsm c.serial = .absent

theorem hsmStep_absent (h : s.hsm i = .absent) : s.hsmStep i input = none := by
  rw [hsmStep.eq_def, h]

/-- A task is started for a context that a worker has. -/
theorem Unspawned.spawned {w : Nat} {key : String} {ctx : TransactionContext} (hs : s.Unspawned)
    (hpc : s.ingress w = .carrying i key ctx .inserted) : s.hsm i = .absent :=
  hs.carried w ⟨i, key, ctx.transaction, none⟩ (by rw [flow_carried, hpc]; rfl)

theorem Reachable.unspawned {P : Engine → Action → Prop} (hs : Reachable P s) : s.Unspawned := by
  refine hs.invariant (fun s hinit => ?_) fun s t hs ih ⟨a, hP, hstep⟩ => ?_
  · constructor <;> intros <;> rw [Initial.hsm hinit]
  have hheld : s.flow.Held := (Reachable.flow_free hs).held
  have hnext : t.flow.Held := (Reachable.flow_free (hs.step ⟨a, hP, hstep⟩)).held
  obtain ⟨l, hl⟩ := step_trace_append (Reachable.disowned hs) hstep
  have hstays (i : Serial) (habsent : s.hsm i = .absent)
      (hspawn : ∀ ctx, t.hsm i ≠ .spawned ctx) : t.hsm i = .absent := by
    rcases step_hsm hstep i with ⟨input, rfl⟩ | hsame | ⟨w, key, ctx, -, hspawned⟩
    · rw [step, hsmStep_absent habsent] at hstep
      cases hstep
    · rw [hsame, habsent]
    · exact absurd hspawned (hspawn ctx)
  constructor
  · intro i hi
    have hold : s.trace.length ≤ i := by
      rw [hl, List.length_append] at hi
      omega
    refine hstays i (ih.fresh i hold) fun ctx hspawned => ?_
    rcases step_hsm hstep i with ⟨input, rfl⟩ | hsame | ⟨w, key, ctx', hpc, -⟩
    · rw [step, hsmStep_absent (ih.fresh i hold)] at hstep
      cases hstep
    · rw [hsame, ih.fresh i hold] at hspawned
      cases hspawned
    · have hcarried : s.flow.carried w = some ⟨i, key, ctx'.transaction, none⟩ := by
        rw [flow_carried, hpc]
        rfl
      exact absurd (hheld.carried_lt hcarried) (Nat.not_lt.mpr hold)
  · intro w c hc
    refine hstays c.serial ?_ fun ctx hspawned => ?_
    · rcases step_flow (Reachable.disowned hs) hstep with heq | hmove
      · exact ih.carried w c (heq ▸ hc)
      · rcases hmove.carried_cases hc with hold | ⟨tx, r, rfl, -, -⟩ | ⟨c₀, e, hold, -, rfl, -⟩
        · exact ih.carried w c hold
        · exact ih.fresh _ (Nat.le_refl _)
        · exact ih.carried w c₀ hold
    · have htask := hnext.carried_task hc
      rw [flow_tasks, hspawned] at htask
      cases htask

end Engine

/-! ## The chronicle and the conversation of a run -/

/-- The steps of the whole, each with the state that it was taken in. -/
abbrev Rounds := List (SecuredEngine × SecuredAction)

namespace Rounds

/-- The steps of the engine among them. -/
def engine (h : Rounds) : Chronicle :=
  h.filterMap fun x => (x.1.moves x.2).map fun a => (x.1.engine, a)

/-- The requests of the calls so far. -/
def requests (h : Rounds) : CallId → Option HsmRequest :=
  h.foldl (fun begun x =>
    match x.1.exchanges x.2 with
    | some a => x.1.client.noteRequest a begun
    | none => begun) fun _ => none

/-- The task of the instance has taken the value of the call that it had made, and this is what
the HSM makes of the request. -/
def Returned (h : Rounds) (i : Serial) (check : Check) (request : HsmRequest) (v : HsmVerdict) :
    Prop :=
  ∃ z, (z, .take i) ∈ h ∧ (z.engine.hsm i).calling = some (check, request) ∧
    z.client.calls (check.call i) = .finished (.ok v) ∧ MockHsm.verdict request = some v

/-- The call that the task of the instance had made has ended with an error. -/
def Failed (h : Rounds) (i : Serial) : Prop :=
  ∃ z check request error, (z, .take i) ∈ h ∧
    (z.engine.hsm i).calling = some (check, request) ∧
    z.client.calls (check.call i) = .finished (.error error)

theorem requests_concat (h : Rounds) (x : SecuredEngine × SecuredAction) :
    requests (h ++ [x]) =
      match x.1.exchanges x.2 with
      | some a => x.1.client.noteRequest a h.requests
      | none => h.requests := by
  rw [requests, List.foldl_append]
  rfl

end Rounds

namespace SecuredEngine

variable {z z' : SecuredEngine} {a : SecuredAction} {p : SecuredEngine × Rounds} {i : Serial}
  {check : Check} {request : HsmRequest}

/-- The HSM is the mock, and no header is inserted that is in use. -/
def InOrder (z : SecuredEngine) (a : SecuredAction) : Prop :=
  ∀ b, z.exchanges a = some b → z.client.InsertsUnused b ∧ z.client.AnsweredByMock b

/-- The runs of the engine with its client, and their steps. -/
abbrev Vetting : SecuredEngine × Rounds → Prop :=
  Noted (fun z => ∃ engine : Engine, engine.Initial ∧ z = connected engine) step
    (fun z a => [(z, a)]) fun p a => p.1.InOrder a

/-- A step of the whole is one of the engine or one of the client. -/
theorem step_cases (hstep : z.step a = some z') :
    (∃ b, z.moves a = some b ∧ z.exchanges a = none ∧ z.engine.step b = some z'.engine ∧
        z'.client = z.client) ∨
      ∃ b, z.exchanges a = some b ∧ z.moves a = none ∧ z.client.step b = some z'.client ∧
        z'.engine = z.engine := by
  cases a with
  | engine | take =>
      obtain ⟨e, he, rfl⟩ := Option.map_eq_some_iff.mp hstep
      obtain ⟨b, hb, he⟩ := Option.bind_eq_some_iff.mp he
      exact .inl ⟨b, hb, rfl, he, rfl⟩
  | client | call =>
      obtain ⟨c, hc, rfl⟩ := Option.map_eq_some_iff.mp hstep
      obtain ⟨b, hb, hc⟩ := Option.bind_eq_some_iff.mp hc
      exact .inr ⟨b, hb, rfl, hc, rfl⟩

theorem Vetting.chronicled (hp : Vetting p) : Engine.Chronicled (p.1.engine, p.2.engine) := by
  change Engine.Chronicled (SecuredEngine.engine p.1, partOf SecuredEngine.engine moves p.2)
  refine Noted.part ?_ (fun z z' a hstep => ?_) hp
  · rintro z ⟨engine, hinit, rfl⟩
    exact hinit
  · rcases step_cases hstep with ⟨b, hb, -, hengine, -⟩ | ⟨b, -, hnone, -, hsame⟩
    · exact .inr ⟨b, hb, hengine⟩
    · exact .inl ⟨hnone, hsame⟩

theorem Vetting.talks (hp : Vetting p) : HsmClient.Talks (p.1.client, p.2.requests) := by
  refine hp.simulate (f := fun p => (p.1.client, Rounds.requests p.2)) ?_
    fun q q' _ ⟨a, horder, hnoted⟩ => ?_
  · rintro ⟨z, h⟩ ⟨⟨engine, -, rfl⟩, rfl⟩
    exact ⟨rfl, rfl⟩
  · obtain ⟨hstep, hnotes⟩ := noting_eq_some hnoted
    rw [hnotes, Rounds.requests_concat]
    rcases step_cases hstep with ⟨b, -, hnone, -, hsame⟩ | ⟨b, hb, -, hclient, -⟩
    · left
      rw [hnone, hsame]
    · right
      obtain ⟨hunused, hmock⟩ := horder b hb
      refine ⟨b, ⟨hunused, hmock⟩, ?_⟩
      rw [tracking, hclient, hb]
      rfl

/-! ## The calls of a task -/

/-- A call that was made is the one that its task is at, or behind it. -/
def Asked (s : Engine) (begun : CallId → Option HsmRequest) : Prop :=
  ∀ i check request, begun (Check.call i check) = some request →
    (s.hsm i).before check = false ∧
      ∀ request', (s.hsm i).calling = some (check, request') → request' = request

theorem noteRequest_of_client {b : HsmClient.HsmAction} (begun : CallId → Option HsmRequest)
    (h : z.exchanges (.client b) = some b) : z.client.noteRequest b begun = begun := by
  cases b with
  | begin => cases h
  | insert | dispatch | write | answer | read | readError | send | receive | lose | timeout
  | remove => rfl

theorem Asked.move {b : Action} {begun : CallId → Option HsmRequest} {s t : Engine}
    (hs : Asked s begun) (hunspawned : s.Unspawned) (hstep : s.step b = some t) :
    Asked t begun := by
  intro i check request hbegun
  obtain ⟨hbefore, hsame⟩ := hs i check request hbegun
  rcases Engine.step_hsm hstep i with ⟨input, rfl⟩ | heq | ⟨w, key, ctx, hpc, -⟩
  · obtain ⟨pc, u, hturn, rfl⟩ := Engine.hsmStep_turn hstep
    obtain ⟨hbefore', hcalling⟩ := hturn.later hbefore
    rw [Engine.setHsm_self]
    exact ⟨hbefore', fun request' hcall => absurd (by rw [hcall]; rfl) hcalling⟩
  · rw [heq]
    exact ⟨hbefore, hsame⟩
  · -- A task that is started has made no call.
    rw [hunspawned.spawned hpc] at hbefore
    cases check <;> cases hbefore

theorem Asked.call {begun : CallId → Option HsmRequest} {s : Engine} (hs : Asked s begun)
    (hcalling : (s.hsm i).calling = some (check, request)) :
    Asked s (update begun (check.call i) (some request)) := by
  intro j check' request' hbegun
  rw [update_apply] at hbegun
  split at hbegun
  next heq =>
    cases hbegun
    obtain ⟨rfl, rfl⟩ := Check.call_inj heq
    refine ⟨Engine.before_of_calling hcalling, fun request'' hcall => ?_⟩
    rw [hcalling] at hcall
    cases hcall
    rfl
  next => exact hs j check' request' hbegun

theorem Vetting.asked (hp : Vetting p) : Asked p.1.engine p.2.requests := by
  refine hp.invariant (I := fun p => Asked p.1.engine (Rounds.requests p.2)) ?_
    fun q q' hq ih ⟨a, _, hnoted⟩ => ?_
  · rintro ⟨z, h⟩ ⟨-, rfl⟩ i check request hbegun
    cases hbegun
  · obtain ⟨hstep, hnotes⟩ := noting_eq_some hnoted
    rw [hnotes, Rounds.requests_concat]
    rcases step_cases hstep with ⟨b, -, hnone, hengine, -⟩ | ⟨b, hb, -, -, hsame⟩
    · rw [hnone]
      have hreach : Engine.Reachable Free q.1.engine :=
        Noted.state (fun _ _ _ => trivial) (Vetting.chronicled hq)
      exact ih.move hreach.unspawned hengine
    · rw [hsame, hb]
      cases a with
      | engine | take => cases hb
      | client c =>
          obtain rfl : c = b := by cases c <;> cases hb <;> rfl
          dsimp only
          rw [noteRequest_of_client _ hb]
          exact ih
      | call i =>
          obtain ⟨⟨check, request⟩, hcalling, rfl⟩ := Option.map_eq_some_iff.mp hb
          exact ih.call hcalling

/-- What a task takes is the result of its own call: a value, which is what the HSM makes of
what the task has in its hands, or an error. -/
theorem Vetting.taken (hp : Vetting p) {u : Engine} {input : Input}
    (hmem : (u, .hsm i input) ∈ p.2.engine)
    (htakes : (Action.hsm i input).takesResult = true) :
    ∃ check request, (u.hsm i).calling = some (check, request) ∧
      ((∃ v, input = request.returned (.ok v) ∧ p.2.Returned i check request v) ∨
        ∃ error, input = request.returned (.error error) ∧ p.2.Failed i) := by
  obtain ⟨⟨z, a⟩, hround, hmoves⟩ := List.mem_filterMap.mp hmem
  obtain ⟨b, hb, heq⟩ := Option.map_eq_some_iff.mp hmoves
  cases heq
  cases a with
  | engine c =>
      rw [moves] at hb
      split at hb <;> cases hb
      next hplain => exact absurd htakes hplain
  | client | call => cases hb
  | take j =>
      simp only [moves] at hb
      split at hb
      next check request hcalling =>
        split at hb <;> cases hb
        next result hfinished =>
          refine ⟨check, request, hcalling, ?_⟩
          cases result with
          | error error =>
              exact .inr ⟨error, rfl, z, check, request, error, hround, hcalling, hfinished⟩
          | ok v =>
              refine .inl ⟨v, rfl, z, hround, hcalling, hfinished, ?_⟩
              obtain ⟨earlier, later, hsplit⟩ := List.append_of_mem hround
              have hbefore : Vetting (z, earlier) := hp.before hsplit
              have hfits := (HsmClient.conversing (Vetting.talks hbefore)).calls (check.call i)
              rw [hfinished] at hfits
              obtain ⟨request', hbegun, hverdict⟩ := hfits
              obtain ⟨-, hsame⟩ := Vetting.asked hbefore i check request' hbegun
              rw [hsame request hcalling]
              exact hverdict
      next => cases hb

end SecuredEngine

/-! ## Why a task declines -/

namespace Chronicle

/-- The task of an instance has come to its decline. -/
def Declined (h : Chronicle) (i : Serial) : Prop :=
  ∃ u ctx target, (u, .hsm i .run) ∈ h ∧ u.hsm i = .checked ctx false target

/-- What a task declines the request for. -/
inductive Refused (h : Chronicle) (i : Serial) (tx : UniversalPaymentEvent) : Prop where
  | noCard {u : Engine} {ctx : TransactionContext} {failover : Option String} :
      (u, .hsm i .run) ∈ h → u.hsm i = .spawned ctx → ctx.transaction = tx →
      u.mem.router.find tx.fpan = some ⟨.internalCrdb, failover⟩ →
      u.mem.crdb.cards.get (fromUtf8Lossy tx.fpan) = none → Refused h i tx
  | mac {u : Engine} {ctx : TransactionContext} {route : HsmRoute} {result : Option Bool} :
      (u, .hsm i (.verifiedMac result)) ∈ h → u.hsm i = .awaitingMac ctx route →
      ctx.transaction = tx → result ≠ some true → Refused h i tx
  | pin {u : Engine} {ctx : TransactionContext} {pvv : String} {macValid : Bool}
      {result : Option Bool} : h.CardFound i tx pvv → (u, .hsm i (.verifiedPin result)) ∈ h →
      u.hsm i = .awaitingPin ctx (.internalCrdb pvv) macValid → ctx.transaction = tx →
      result ≠ some true → Refused h i tx
  | translation {u : Engine} {ctx : TransactionContext} {node : String} {failover : Option String}
      {macValid : Bool} : (u, .hsm i (.translatedPin none)) ∈ h →
      u.hsm i = .awaitingPin ctx (.externalNode node failover) macValid → ctx.transaction = tx →
      Refused h i tx

/-- What a task knows that is about to decline. -/
def Doubts (h : Chronicle) (i : Serial) (tx : UniversalPaymentEvent) : HsmPc → Prop
  | .awaitingPin _ (.internalCrdb _) macValid => macValid = false → h.Refused i tx
  | .checked _ false _ => h.Refused i tx
  | _ => True

variable {h more : Chronicle} {i : Serial} {tx : UniversalPaymentEvent} {ctx : TransactionContext}
  {route : HsmRoute}

theorem Refused.grow (hrefused : h.Refused i tx) : Refused (h ++ more) i tx := by
  cases hrefused with
  | noCard hmem hpc htx hfind hget =>
      exact .noCard (List.mem_append_left _ hmem) hpc htx hfind hget
  | mac hmem hpc htx hresult => exact .mac (List.mem_append_left _ hmem) hpc htx hresult
  | pin hcard hmem hpc htx hresult =>
      exact .pin hcard.grow (List.mem_append_left _ hmem) hpc htx hresult
  | translation hmem hpc htx => exact .translation (List.mem_append_left _ hmem) hpc htx

theorem Doubts.grow {pc : HsmPc} (hdoubts : h.Doubts i tx pc) : Doubts (h ++ more) i tx pc := by
  unfold Doubts at hdoubts ⊢
  split at hdoubts
  · exact fun hinvalid => (hdoubts hinvalid).grow
  · exact hdoubts.grow
  · trivial

theorem doubts_afterMac {macValid : Bool} (hrefused : macValid = false → h.Refused i tx) :
    h.Doubts i tx (Engine.afterMac ctx route macValid) := by
  unfold Engine.afterMac
  dsimp only
  split
  · split
    · exact hrefused
    · split
      · trivial
      next hinvalid => exact hrefused (Bool.not_eq_true _ ▸ hinvalid)
  · split
    · split <;> trivial
    next hinvalid => exact hrefused (Bool.not_eq_true _ ▸ hinvalid)

theorem doubts_hsmRoute {u : Engine} (htx : ctx.transaction = tx) (hpc : u.hsm i = .spawned ctx)
    (hmem : (u, .hsm i .run) ∈ h) : h.Doubts i tx (Engine.hsmRoute u.mem ctx) := by
  have hbefore (route : HsmRoute) : h.Doubts i tx (Engine.beforeMac ctx route) := by
    unfold Engine.beforeMac
    split
    · trivial
    · exact doubts_afterMac Bool.noConfusion
  subst htx
  unfold Engine.hsmRoute
  split
  next route hfind =>
    obtain ⟨destination, failover⟩ := route
    cases destination with
    | internalCrdb =>
        dsimp only
        split
        · exact hbefore _
        next hget => exact .noCard hmem hpc rfl hfind hget
    | externalNode node => exact hbefore _
  · trivial

theorem doubts_afterVerifyPin {u : Engine} {pvv : String} {macValid : Bool} {result : Option Bool}
    (htx : ctx.transaction = tx) (hcard : h.CardFound i tx pvv)
    (hrefused : macValid = false → h.Refused i tx)
    (hpc : u.hsm i = .awaitingPin ctx (.internalCrdb pvv) macValid)
    (hmem : (u, .hsm i (.verifiedPin result)) ∈ h) :
    h.Doubts i tx (Engine.afterVerifyPin ctx (.internalCrdb pvv) macValid result) := by
  unfold Engine.afterVerifyPin
  split
  next success =>
    split
    next hbad =>
      cases hsuccess : success with
      | false => exact .pin hcard hmem hpc htx (by simp [hsuccess])
      | true =>
          rw [hsuccess] at hbad
          exact hrefused (by simpa using hbad)
    · trivial
  · exact .pin hcard hmem hpc htx (by simp)

theorem doubts_afterTranslatePin {u : Engine} {node : String} {failover : Option String}
    {macValid : Bool} {result : Option String} (htx : ctx.transaction = tx)
    (hpc : u.hsm i = .awaitingPin ctx (.externalNode node failover) macValid)
    (hmem : (u, .hsm i (.translatedPin result)) ∈ h) :
    h.Doubts i tx (Engine.afterTranslatePin ctx (.externalNode node failover) result) := by
  unfold Engine.afterTranslatePin
  split
  · trivial
  · exact .translation hmem hpc htx

/-- A step of the task. -/
theorem Doubts.step {s : Engine} {input : Input} {pc pc' : HsmPc} {l : List Event}
    (hdoubts : h.Doubts i tx pc) (hhandles : h.Handles i tx pc) (hpc : s.hsm i = pc)
    (hpath : TaskPath s i input pc pc' l) :
    Doubts (h ++ [(s, .hsm i input)]) i tx pc' := by
  have hmem : (s, Action.hsm i input) ∈ h ++ [(s, .hsm i input)] := by simp
  cases hpath with
  | route => exact doubts_hsmRoute hhandles hpc hmem
  | verifyMac result =>
      refine doubts_afterMac fun hinvalid => .mac hmem hpc hhandles.1 ?_
      rwa [beq_eq_false_iff_ne] at hinvalid
  | verifyPin =>
      obtain ⟨htx, hcard, -⟩ := hhandles
      exact doubts_afterVerifyPin htx hcard.grow (fun hinvalid => (hdoubts hinvalid).grow) hpc hmem
  | translatePin => exact doubts_afterTranslatePin hhandles.1 hpc hmem
  | resolve | journal | decline | unjournaled | drop | send | fail => trivial

end Chronicle

namespace Engine

variable {p : Engine × Chronicle} {i : Serial}

/-- A task declines the request of its instance, and for a reason. -/
structure Reasoned (p : Engine × Chronicle) : Prop where
  tasks : ∀ i key tx r, p.1.flow.Inserted i key tx r → p.2.Doubts i tx (p.1.hsm i)
  declined : ∀ i, p.2.Declined i → ∃ key tx r, p.1.flow.Inserted i key tx r ∧ p.2.Refused i tx

theorem Chronicled.handles (hp : Chronicled p) (hpc : p.1.hsm i ≠ .absent) :
    ∃ key tx r, p.1.flow.Inserted i key tx r ∧ p.2.Handles i tx (p.1.hsm i) := by
  obtain ⟨w, tx₀, tx, since, haccepted, hhandles⟩ := (Chronicled.gated hp).tasks i hpc
  obtain ⟨r, hi⟩ := haccepted.inserted
  exact ⟨_, tx, r, hi, hhandles⟩

theorem Reasoned.step {t : Engine} {a : Action} (hp : Chronicled p) (hv : Reasoned p)
    (hstep : p.1.step a = some t) : Reasoned (t, p.2 ++ [(p.1, a)]) := by
  have hreach : Reachable Transition.Free p.1 := Transition.Noted.state (fun _ _ _ => trivial) hp
  obtain ⟨l, hl⟩ := step_trace_append hreach.disowned hstep
  have hgrow : t.flow.trace = p.1.flow.trace ++ l := hl
  constructor
  · intro i key tx r hi
    rcases step_hsm hstep i with ⟨input, rfl⟩ | hsame | ⟨w, key', ctx, -, hspawned⟩
    · obtain ⟨pc, l', hpath, hhsm, -⟩ := hsmStep_path hstep
      have hbefore : p.1.hsm i ≠ .absent := by
        intro habsent
        rw [habsent] at hpath
        cases hpath
      obtain ⟨key', tx', r', hi', hhandles⟩ := Chronicled.handles hp hbefore
      obtain ⟨-, rfl, -⟩ := (hi'.grow hgrow).unique hi
      dsimp only
      rw [hhsm, update_self]
      exact (hv.tasks i key' tx' r' hi').step hhandles rfl hpath
    · dsimp only
      rw [hsame]
      by_cases hlt : i < p.1.trace.length
      · rw [Flow.Inserted, hgrow, flow_trace, List.getElem?_append_left hlt] at hi
        exact (hv.tasks i key tx r hi).grow
      · rw [(Reachable.unspawned hreach).fresh i (Nat.not_lt.mp hlt)]
        trivial
    · dsimp only
      rw [hspawned]
      trivial
  · rintro i ⟨u, ctx, target, hmem, hpc⟩
    rcases List.mem_append.mp hmem with hold | hnew
    · obtain ⟨key, tx, r, hi, hrefused⟩ := hv.declined i ⟨u, ctx, target, hold, hpc⟩
      exact ⟨key, tx, r, hi.grow hgrow, hrefused.grow⟩
    · cases List.mem_singleton.mp hnew
      obtain ⟨key, tx, r, hi, -⟩ :=
        Chronicled.handles hp (i := i) (by rw [hpc]; exact HsmPc.noConfusion)
      have hdoubts := hv.tasks i key tx r hi
      rw [hpc] at hdoubts
      exact ⟨key, tx, r, hi.grow hgrow, Chronicle.Refused.grow hdoubts⟩

theorem Chronicled.reasoned (hp : Chronicled p) : Reasoned p := by
  refine hp.invariant (I := Reasoned) (fun q hq => ?_) fun q q' hq hv ⟨a, _, hnoted⟩ => ?_
  · obtain ⟨hinit, hempty⟩ := hq
    constructor
    · intro i key tx r _
      rw [Initial.hsm hinit]
      trivial
    · rintro i ⟨u, ctx, target, hmem, -⟩
      rw [hempty] at hmem
      cases hmem
  · obtain ⟨hstep, hnotes⟩ := Transition.noting_eq_some hnoted
    obtain ⟨t, h⟩ := q'
    obtain rfl : h = q.2 ++ [_] := hnotes
    exact Reasoned.step hq hv hstep

end Engine

/-! ## What a call can return -/

namespace MockHsm

theorem verdict_interpret {v : HsmVerdict} {request : HsmRequest} (h : verdict request = some v) :
    ∃ resp, request.interpret resp = .ok v := by
  obtain ⟨msg, -, h⟩ := Option.bind_eq_some_iff.mp h
  obtain ⟨resp, -, h⟩ := Option.bind_eq_some_iff.mp h
  cases hresult : request.interpret resp with
  | error => rw [hresult] at h; cases h
  | ok v' =>
      rw [hresult] at h
      cases h
      exact ⟨resp, hresult⟩

theorem verdict_verifyPin {pinBlock pan pvv : String} {v : HsmVerdict}
    (h : verdict (.verifyPin pinBlock pan pvv) = some v) : ∃ ok, v = .success ok := by
  obtain ⟨resp, hresp⟩ := verdict_interpret h
  simp only [HsmRequest.interpret] at hresp
  split at hresp
  · cases hresp; exact ⟨true, rfl⟩
  · split at hresp <;> cases hresp
    exact ⟨false, rfl⟩

theorem verdict_translatePin {pinBlock pan : String} {v : HsmVerdict}
    (h : verdict (.translatePin pinBlock pan) = some v) : ∃ block, v = .translated block := by
  obtain ⟨resp, hresp⟩ := verdict_interpret h
  simp only [HsmRequest.interpret] at hresp
  split at hresp <;> cases hresp
  exact ⟨_, rfl⟩

/-- The mock has no bad MAC. -/
theorem verdict_verifyMac {mac pan : String} {v : HsmVerdict}
    (h : verdict (.verifyMac mac pan) = some v) : v = .success true :=
  decision_of_verdict (by trivial) h

end MockHsm

/-! ## Every run -/

namespace Rounds

variable {h : Rounds} {i : Serial} {tx sent : UniversalPaymentEvent}
  {destination : RouteDestination}

/-- What the HSM has said of a request that is forwarded, in the calls of its own task. -/
structure Vetted (h : Rounds) (i : Serial) (tx sent : UniversalPaymentEvent)
    (destination : RouteDestination) : Prop where
  mac : ∀ mac, tx.macData = some mac →
    h.Returned i .mac (.verifyMac mac (fromUtf8Lossy tx.fpan)) (.success true)
  verified : tx.pinBlock ≠ [] → destination = .internalCrdb → sent.pinBlock = tx.pinBlock ∧
    ∃ pvv, h.engine.CardFound i tx pvv ∧
      h.Returned i .pin (.verifyPin (fromUtf8Lossy tx.pinBlock) (fromUtf8Lossy tx.fpan) pvv)
        (.success true) ∧
      (len pvv = 4 → pvv ≠ "9999")
  translated : tx.pinBlock ≠ [] → ∀ node, destination = .externalNode node →
    ∃ block, sent.pinBlock = asBytes block ∧
      h.Returned i .pin (.translatePin (fromUtf8Lossy tx.pinBlock) (fromUtf8Lossy tx.fpan))
        (.translated block) ∧
      (len (fromUtf8Lossy tx.pinBlock) = 16 →
        block = MockHsm.reversed (fromUtf8Lossy tx.pinBlock))
  noPin : tx.pinBlock = [] → sent.pinBlock = []

/-- Why a request is declined. -/
inductive Unvetted (h : Rounds) (i : Serial) (tx : UniversalPaymentEvent) : Prop where
  /-- The route that the task has looked up is internal, and the card is not in the database. -/
  | noCard {u : Engine} {ctx : TransactionContext} {failover : Option String} :
      (u, .hsm i .run) ∈ h.engine → u.hsm i = .spawned ctx → ctx.transaction = tx →
      u.mem.router.find tx.fpan = some ⟨.internalCrdb, failover⟩ →
      u.mem.crdb.cards.get (fromUtf8Lossy tx.fpan) = none → Unvetted h i tx
  /-- The HSM has taken the PIN of the request for a bad one. -/
  | badPin {pvv : String} : h.engine.CardFound i tx pvv →
      h.Returned i .pin (.verifyPin (fromUtf8Lossy tx.pinBlock) (fromUtf8Lossy tx.fpan) pvv)
        (.success false) →
      (len pvv = 4 → pvv = "9999") → Unvetted h i tx
  /-- A call of the task has ended with an error. -/
  | failed : h.Failed i → Unvetted h i tx

end Rounds

namespace SecuredEngine

open Chronicle

variable {p : SecuredEngine × Rounds} {i : Serial} {tx sent : UniversalPaymentEvent}

theorem Vetting.macVerified (hp : Vetting p) (hmac : p.2.engine.MacVerified i tx) {mac : String}
    (htx : tx.macData = some mac) :
    p.2.Returned i .mac (.verifyMac mac (fromUtf8Lossy tx.fpan)) (.success true) := by
  obtain ⟨u, ctx, route, hmem, hpc, rfl⟩ := hmac
  obtain ⟨check, request, hcalling, hresult⟩ := hp.taken hmem rfl
  rw [hpc, HsmPc.calling, htx] at hcalling
  cases hcalling
  rcases hresult with ⟨v, -, hreturned⟩ | ⟨error, hinput, -⟩
  · obtain ⟨z, -, -, -, hverdict⟩ := id hreturned
    rwa [MockHsm.verdict_verifyMac hverdict] at hreturned
  · cases hinput

theorem Vetting.pinVerified (hp : Vetting p) {pvv : String}
    (hpin : p.2.engine.PinVerified i tx pvv) :
    p.2.Returned i .pin (.verifyPin (fromUtf8Lossy tx.pinBlock) (fromUtf8Lossy tx.fpan) pvv)
      (.success true) := by
  obtain ⟨u, ctx, macValid, hmem, hpc, rfl⟩ := hpin
  obtain ⟨check, request, hcalling, hresult⟩ := hp.taken hmem rfl
  rw [hpc] at hcalling
  cases hcalling
  rcases hresult with ⟨v, hinput, hreturned⟩ | ⟨error, hinput, -⟩
  · obtain ⟨z, -, -, -, hverdict⟩ := id hreturned
    obtain ⟨ok, rfl⟩ := MockHsm.verdict_verifyPin hverdict
    cases hinput
    exact hreturned
  · cases hinput

theorem Vetting.pinTranslated (hp : Vetting p) {block : String}
    (hpin : p.2.engine.PinTranslated i tx block) :
    p.2.Returned i .pin (.translatePin (fromUtf8Lossy tx.pinBlock) (fromUtf8Lossy tx.fpan))
      (.translated block) := by
  obtain ⟨u, ctx, node, failover, macValid, hmem, hpc, rfl⟩ := hpin
  obtain ⟨check, request, hcalling, hresult⟩ := hp.taken hmem rfl
  rw [hpc] at hcalling
  cases hcalling
  rcases hresult with ⟨v, hinput, hreturned⟩ | ⟨error, hinput, -⟩
  · obtain ⟨z, -, -, -, hverdict⟩ := id hreturned
    obtain ⟨block', rfl⟩ := MockHsm.verdict_translatePin hverdict
    cases hinput
    exact hreturned
  · cases hinput

theorem Vetting.vetted (hp : Vetting p) {destination : RouteDestination}
    (hpassed : p.2.engine.Passed i tx sent destination) : p.2.Vetted i tx sent destination where
  mac mac htx := hp.macVerified (hpassed.mac (by rw [htx]; rfl)) htx
  verified hpin := by
    rintro rfl
    obtain ⟨hsent, pvv, hcard, hverified⟩ := hpassed.pin hpin
    have hreturned := hp.pinVerified hverified
    obtain ⟨z, -, -, -, hverdict⟩ := id hreturned
    refine ⟨hsent, pvv, hcard, hreturned, fun hlen heq => ?_⟩
    have hdecision := MockHsm.decision_of_verdict (by exact hlen) hverdict
    simp [MockHsm.decision, heq] at hdecision
  translated hpin node := by
    rintro rfl
    obtain ⟨block, hsent, htranslated⟩ := hpassed.pin hpin
    have hreturned := hp.pinTranslated htranslated
    obtain ⟨z, -, -, -, hverdict⟩ := id hreturned
    refine ⟨block, hsent, hreturned, fun hlen => ?_⟩
    have hdecision := MockHsm.decision_of_verdict (by exact hlen) hverdict
    exact HsmVerdict.translated.inj hdecision
  noPin := hpassed.noPin

theorem Vetting.unvetted (hp : Vetting p) (hrefused : p.2.engine.Refused i tx) :
    p.2.Unvetted i tx := by
  cases hrefused with
  | noCard hmem hpc htx hfind hget => exact .noCard hmem hpc htx hfind hget
  | @mac u ctx route result hmem hpc htx hbad =>
      obtain ⟨check, request, hcalling, hresult⟩ := hp.taken hmem rfl
      rcases hresult with ⟨v, hinput, z, -, -, -, hverdict⟩ | ⟨error, -, hfailed⟩
      · rw [hpc] at hcalling
        obtain ⟨mac, -, heq⟩ := Option.map_eq_some_iff.mp hcalling
        cases heq
        rw [MockHsm.verdict_verifyMac hverdict] at hinput
        cases hinput
        exact absurd rfl hbad
      · exact .failed hfailed
  | @pin u ctx pvv macValid result hcard hmem hpc htx hbad =>
      obtain ⟨check, request, hcalling, hresult⟩ := hp.taken hmem rfl
      rcases hresult with ⟨v, hinput, hreturned⟩ | ⟨error, -, hfailed⟩
      · rw [hpc] at hcalling
        cases hcalling
        obtain ⟨z, -, -, -, hverdict⟩ := id hreturned
        obtain ⟨ok, rfl⟩ := MockHsm.verdict_verifyPin hverdict
        cases hinput
        cases ok with
        | true => exact absurd rfl hbad
        | false =>
            subst htx
            refine .badPin hcard hreturned fun hlen => ?_
            have hdecision := MockHsm.decision_of_verdict (by exact hlen) hverdict
            simpa [MockHsm.decision] using hdecision
      · exact .failed hfailed
  | @translation u ctx node failover macValid hmem hpc htx =>
      obtain ⟨check, request, hcalling, hresult⟩ := hp.taken hmem rfl
      rcases hresult with ⟨v, hinput, z, -, -, -, hverdict⟩ | ⟨error, -, hfailed⟩
      · rw [hpc] at hcalling
        cases hcalling
        obtain ⟨block, rfl⟩ := MockHsm.verdict_translatePin hverdict
        cases hinput
      · exact .failed hfailed

/-- Whatever other tasks ask for and whenever the HSM answers, a request that is forwarded has
passed its own checks, and a request that is declined has failed one of its own. -/
theorem requests_vetted (hp : Vetting p) (i : Serial) :
    (∀ f, .placed f ∈ p.1.engine.trace → f.origin.request = some i →
      ∃ key tx r, p.1.engine.flow.Inserted i key tx r ∧
        p.2.Vetted i tx f.transaction f.destination) ∧
    (p.2.engine.Declined i →
      ∃ key tx r, p.1.engine.flow.Inserted i key tx r ∧ p.2.Unvetted i tx) := by
  have hchronicled := Vetting.chronicled hp
  constructor
  · intro f hplaced hreq
    obtain ⟨w, tx₀, tx, since, hgate⟩ :=
      (Engine.Chronicled.gated hchronicled).frames f i hplaced hreq
    obtain ⟨r, hi⟩ := hgate.accepted.inserted
    exact ⟨_, tx, r, hi, Vetting.vetted hp hgate.passed⟩
  · intro hdeclined
    obtain ⟨key, tx, r, hi, hrefused⟩ :=
      (Engine.Chronicled.reasoned hchronicled).declined i hdeclined
    exact ⟨key, tx, r, hi, Vetting.unvetted hp hrefused⟩

/-! ## A purchase with a PIN and a MAC -/

/-- No header is inserted, and the mock answers. -/
def quiet (z : SecuredEngine) (a : SecuredAction) : Bool :=
  match z.exchanges a with
  | some b => z.client.replies b
  | none => true

theorem inOrder_of_quiet (p : SecuredEngine × Rounds) (a : SecuredAction)
    (h : p.1.quiet a = true) : p.1.InOrder a := by
  intro b hb
  rw [quiet, hb] at h
  have hconversation := HsmClient.inConversation_of_replies (p.1.client, fun _ => none) b h
  exact ⟨hconversation.unused, hconversation.mock⟩

theorem inOrder_insert {z : SecuredEngine} {c : CallId} (h : z.client.InsertsUnused (.insert c)) :
    z.InOrder (.client (.insert c)) := by
  rintro b ⟨⟩
  exact ⟨h, fun _ _ _ _ ha => by cases ha⟩

def sealedPurchase : UniversalPaymentEvent :=
  { pinPurchase with pinBlock := asBytes "1234567890ABCDEF", macData := some "0011223344556677" }

/-- From the terminal to the header of the MAC call. -/
def macHeaded : List SecuredAction :=
  (.storeRouter visaRouter :: accept 0 sealedPurchase).map .engine ++
    [.engine (.ingress 0 (.outcome true)), .engine (.hsm 1 .run), .call 1]

/-- The HSM answers one call, and the task takes the result. -/
def answered (c : CallId) (command payload : String) : List SecuredAction :=
  [.client (.dispatch c), .client (.write true), .client (.answer 0 command payload), .client .read,
    .client .send, .client (.receive c), .take 1]

/-- From the resolved route to the egress channel. -/
def sealedSent : List SecuredAction :=
  [.engine (.hsm 1 .run), .engine (.hsm 1 (.outcome true)), .engine (.hsm 1 (.outcome true))]

def macAnswered : List SecuredAction :=
  macHeaded ++ [.client (.insert 2)] ++ (answered 2 "M1" "00" ++ [.call 1])

def sealedForwarded : List SecuredAction :=
  macAnswered ++ [.client (.insert 3)] ++ (answered 3 "CB" "00FEDCBA0987654321" ++ sealedSent)

abbrev vetting (actions : List SecuredAction) : SecuredEngine × Rounds :=
  ran (noting step fun z a => [(z, a)]) (connected (Engine.start 100 ∅), []) actions

set_option maxRecDepth 8000 in
theorem vetting_sealed : Vetting (vetting sealedForwarded) := by
  have hheaded : Vetting (vetting macHeaded) :=
    Reachable.ran_of_complies (P := fun p a => p.1.quiet a = true) inOrder_of_quiet
      ⟨⟨_, Engine.start_initial 100 ∅, rfl⟩, rfl⟩ (by decide +kernel)
  have hfirst := hheaded.ran_step (a := SecuredAction.client (.insert 2)) (by decide +kernel)
    (inOrder_insert (HsmClient.insertsUnused_of_quiet rfl rfl fun c' hholds => by
      rcases c' with _ | _ | _ | c' <;> cases hholds)) (by decide +kernel)
  have hmac : Vetting (vetting macAnswered) :=
    hfirst.ran_append (P := fun p a => p.1.quiet a = true) inOrder_of_quiet (by decide +kernel)
      (by decide +kernel)
  have hsecond := hmac.ran_step (a := SecuredAction.client (.insert 3)) (by decide +kernel)
    (inOrder_insert (HsmClient.insertsUnused_of_quiet rfl rfl fun c' hholds => by
      rcases c' with _ | _ | _ | _ | c' <;> cases hholds)) (by decide +kernel)
  exact hsecond.ran_append (P := fun p a => p.1.quiet a = true) inOrder_of_quiet
    (by decide +kernel) (by decide +kernel)

/-- The frame that the bank gets. -/
def sealedFrame : Frame :=
  ⟨.hsm 1, .externalNode "MockVisaNode", 0,
    { sealedPurchase with pinBlock := asBytes "FEDCBA0987654321" }⟩

set_option maxRecDepth 8000 in
theorem requests_vetted_sealed :
    ∃ key tx r, (vetting sealedForwarded).1.engine.flow.Inserted 1 key tx r ∧
      (vetting sealedForwarded).2.Vetted 1 tx sealedFrame.transaction sealedFrame.destination :=
  (requests_vetted vetting_sealed 1).1 sealedFrame (by decide +kernel) rfl

end SecuredEngine

end Iso8583Switch
