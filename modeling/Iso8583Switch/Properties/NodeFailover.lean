import Iso8583Switch.Library.Versioned
import Iso8583Switch.Properties.EchoedAnswers
import Iso8583Switch.Properties.ForwardingGate

/-!
# Routing by the health of the nodes

The network manager probes the nodes and notes the outcome, and the workers and the HSM
tasks read the notes when they choose a channel.  So a node is down for them if its last
probe so far has failed (`Selects`), and what they forward goes to a node that is not, the
primary of the route before its failover (`forwarded_by_health`).  The choice and the send
are steps apart, and a probe in between comes too late.

The engine starts with a channel for each of the two banks and with none for the internal
card database, and no step adds a channel.
-/

namespace Iso8583Switch

open Text Function Versioned

def Action.probed : Action → Option (String × Bool)
  | .probe node _ ok => some (node, ok)
  | _ => none

/-- What an action puts into the shared memory. -/
def Action.stored (a : Action) (g : GlobalState) : GlobalState :=
  match a with
  | .storeStip stip => { g with stip }
  | .storeCrdb crdb => { g with crdb }
  | .storeRouter router => { g with router }
  | .probe node _ ok => { g with nodeHealth := g.nodeHealth.put node ok }
  | _ => g

/-- The channels that the engine starts with. -/
def bankChannels : DashMap String ChannelId :=
  (DashMap.put ∅ "MockVisaNode" 0).put "MockMastercardNode" 1

namespace Chronicle

variable {h more : Chronicle} {x : Engine × Action} {fpan : Bytes} {primary node : String}
  {failover : Option String}

/-! ## The choice of a node -/

/-- The outcome of the last probe of a node. -/
def health (h : Chronicle) : String → Option Bool :=
  lastFor Prod.fst Prod.snd (h.filterMap fun x => x.2.probed)

theorem health_concat (h : Chronicle) (x : Engine × Action) (node : String) :
    health (h ++ [x]) node = match x.2.probed with
      | some (probed, ok) => if probed = node then some ok else h.health node
      | none => h.health node := by
  rw [health, List.filterMap_append]
  cases hprobed : x.2.probed with
  | none => simp [hprobed, health]
  | some probe => simp [hprobed, lastFor_concat, health]

/-- A node that has not been probed counts as up. -/
def Up (h : Chronicle) (node : String) : Prop := h.health node ≠ some false

/-- The node that is chosen. -/
inductive Selects (h : Chronicle) (primary : String) : Option String → String → Prop where
  | primary (failover : Option String) : h.Up primary → Selects h primary failover primary
  | failover {node : String} : h.health primary = some false → h.Up node →
      Selects h primary (some node) node

/-- The run has taken this step in `u`, after `before`. -/
def Took (h before : Chronicle) (u : Engine) (a : Action) : Prop := before ++ [(u, a)] <+: h

/-- The HSM task of the instance has looked up its PAN, and this was the route. -/
def HasRoute (h : Chronicle) (i : Serial) (fpan : Bytes) (primary : String)
    (failover : Option String) : Prop :=
  ∃ before u ctx, h.Took before u (.hsm i .run) ∧ u.hsm i = .spawned ctx ∧
    ctx.transaction.fpan = fpan ∧ u.mem.router.find fpan = some ⟨.externalNode primary, failover⟩

/-- A node has been chosen for the request of the instance, by the probes before the choice.
A worker looks up the route in the same step, and a task has done it before. -/
inductive Chosen (h : Chronicle) (i : Serial) (fpan : Bytes) :
    RouteDestination → ChannelId → Prop where
  | worker {before : Chronicle} {u : Engine} {w : Nat} {key : String} {ctx : TransactionContext}
      {primary node : String} {failover : Option String} {channel : ChannelId} :
      h.Took before u (.ingress w .run) → u.ingress w = .carrying i key ctx .journaled →
      ctx.transaction.fpan = fpan →
      u.mem.router.find fpan = some ⟨.externalNode primary, failover⟩ →
      before.Selects primary failover node → bankChannels.get node = some channel →
      Chosen h i fpan (.externalNode node) channel
  | task {before : Chronicle} {u : Engine} {ctx : TransactionContext} {primary node : String}
      {failover : Option String} {channel : ChannelId} :
      h.Took before u (.hsm i .run) → u.hsm i = .resolving ctx (.externalNode primary failover) →
      before.HasRoute i fpan primary failover →
      before.Selects primary failover node → bankChannels.get node = some channel →
      Chosen h i fpan (.externalNode node) channel

/-- A router and the probes so far leave a request without a channel. -/
inductive NoChannel (h : Chronicle) (router : BinTrie) (tx : UniversalPaymentEvent) : Prop where
  | unforwarded : GlobalState.routable tx.messageClass = false → NoChannel h router tx
  | noRoute : router.find tx.fpan = none → NoChannel h router tx
  | internal {failover : Option String} :
      router.find tx.fpan = some ⟨.internalCrdb, failover⟩ → NoChannel h router tx
  | down {primary : String} {failover : Option String} :
      router.find tx.fpan = some ⟨.externalNode primary, failover⟩ →
      (∀ node, h.Selects primary failover node → bankChannels.get node = none) →
      NoChannel h router tx

/-- The worker of the instance has looked for a channel for its request, and there was none. -/
def Unroutable (h : Chronicle) (i : Serial) (tx : UniversalPaymentEvent) : Prop :=
  ∃ before u w key ctx, h.Took before u (.ingress w .run) ∧
    u.ingress w = .carrying i key ctx .journaled ∧ ctx.transaction = tx ∧
    before.NoChannel u.mem.router tx

/-- A worker that has found no channel has answered the client of the entry that was under
the key of its request by then, instance `j`. -/
def DeclinedUnrouted (h : Chronicle) (r : Responder) (j : Serial) (reply : UniversalPaymentEvent) :
    Prop :=
  ∃ before u w i key ctx entry, h.Took before u (.ingress w .run) ∧
    u.ingress w = .carrying i key ctx .unrouted ∧ before.Unroutable i ctx.transaction ∧
    reply = ctx.transaction.answer "0110" "05" ∧
    u.guard.get key = some entry ∧ entry.serial = j ∧ entry.responder = some r

theorem took_self (h : Chronicle) (u : Engine) (a : Action) : Took (h ++ [(u, a)]) h u a :=
  List.prefix_rfl

theorem Took.grow {before : Chronicle} {u : Engine} {a : Action} (htook : h.Took before u a) :
    Took (h ++ more) before u a :=
  List.IsPrefix.trans htook (List.prefix_append h more)

theorem HasRoute.grow {i : Serial} (hroute : h.HasRoute i fpan primary failover) :
    HasRoute (h ++ more) i fpan primary failover := by
  obtain ⟨before, u, ctx, htook, hfound⟩ := hroute
  exact ⟨before, u, ctx, htook.grow, hfound⟩

theorem Chosen.grow {i : Serial} {destination : RouteDestination} {channel : ChannelId}
    (hchosen : h.Chosen i fpan destination channel) :
    Chosen (h ++ more) i fpan destination channel := by
  cases hchosen with
  | worker htook hpc hfpan hfind hselects hchannel =>
      exact .worker htook.grow hpc hfpan hfind hselects hchannel
  | task htook hpc hroute hselects hchannel => exact .task htook.grow hpc hroute hselects hchannel

theorem Unroutable.grow {i : Serial} {tx : UniversalPaymentEvent} (hnone : h.Unroutable i tx) :
    Unroutable (h ++ more) i tx := by
  obtain ⟨before, u, w, key, ctx, htook, hfound⟩ := hnone
  exact ⟨before, u, w, key, ctx, htook.grow, hfound⟩

theorem DeclinedUnrouted.grow {r : Responder} {j : Serial} {reply : UniversalPaymentEvent}
    (hdeclined : h.DeclinedUnrouted r j reply) : DeclinedUnrouted (h ++ more) r j reply := by
  obtain ⟨before, u, w, i, key, ctx, entry, htook, hfound⟩ := hdeclined
  exact ⟨before, u, w, i, key, ctx, entry, htook.grow, hfound⟩

/-- The shared memory is as the probes have left it. -/
structure Seen (h : Chronicle) (g : GlobalState) : Prop where
  health : ∀ node, g.nodeHealth.get node = h.health node
  channels : g.egressChannels = bankChannels

theorem Seen.isOnline {g : GlobalState} (hseen : h.Seen g) :
    g.isOnline node = true ↔ h.Up node := by
  rw [GlobalState.isOnline, hseen.health, Up]
  rcases h.health node with _ | _ | _ <;> simp

theorem Seen.selects {g : GlobalState} (hseen : h.Seen g) :
    g.selectNode primary failover = some node ↔ h.Selects primary failover node := by
  rw [GlobalState.selectNode.eq_def]
  constructor
  · intro hselect
    split at hselect
    next hup =>
      cases hselect
      exact .primary failover (hseen.isOnline.mp hup)
    next hdown =>
      have hdown : h.health primary = some false := not_not.mp (mt hseen.isOnline.mpr hdown)
      split at hselect
      next f =>
        split at hselect <;> cases hselect
        next hup => exact .failover hdown (hseen.isOnline.mp hup)
      next => cases hselect
  · intro hselects
    cases hselects with
    | primary _ hup => rw [if_pos (hseen.isOnline.mpr hup)]
    | failover hdown hup =>
        rw [if_neg fun honline => hseen.isOnline.mp honline hdown]
        dsimp only
        rw [if_pos (hseen.isOnline.mpr hup)]

/-- No channel is found for the internal card database. -/
theorem Seen.internal {g : GlobalState} (hseen : h.Seen g) :
    g.channelFor .internalCrdb failover = none := by
  rw [GlobalState.channelFor, hseen.channels]
  rfl

theorem Seen.channelFor_eq_some {g : GlobalState} (hseen : h.Seen g) {destination : RouteDestination}
    {channel : ChannelId}
    (hfor : g.channelFor (.externalNode primary) failover = some (destination, channel)) :
    ∃ node, h.Selects primary failover node ∧ destination = .externalNode node ∧
      bankChannels.get node = some channel := by
  rw [GlobalState.channelFor] at hfor
  split at hfor
  next node hselect =>
    obtain ⟨ch, hget, heq⟩ := Option.map_eq_some_iff.mp hfor
    cases heq
    exact ⟨node, hseen.selects.mp hselect, rfl, hseen.channels ▸ hget⟩
  next => cases hfor

theorem Seen.channelFor_eq_none {g : GlobalState} (hseen : h.Seen g)
    (hfor : g.channelFor (.externalNode primary) failover = none) (node : String)
    (hselects : h.Selects primary failover node) : bankChannels.get node = none := by
  rw [GlobalState.channelFor, hseen.selects.mpr hselects] at hfor
  rw [← hseen.channels]
  exact Option.map_eq_none_iff.mp hfor

/-! ## What the workers and the tasks have chosen -/

/-- What a worker has found for its context. -/
def Guides (h : Chronicle) : IngressPc → Prop
  | .carrying i _ ctx (.routed destination channel)
  | .carrying i _ ctx (.numbered destination channel)
  | .carrying i _ ctx (.recorded destination channel) =>
      h.Chosen i ctx.transaction.fpan destination channel
  | .carrying i _ ctx .unrouted => h.Unroutable i ctx.transaction
  | _ => True

/-- What the task of an instance has found for its context. -/
def GuidesTask (h : Chronicle) (i : Serial) : HsmPc → Prop
  | .awaitingMac ctx (.externalNode node failover)
  | .awaitingPin ctx (.externalNode node failover) _
  | .resolving ctx (.externalNode node failover) => h.HasRoute i ctx.transaction.fpan node failover
  | .checked ctx _ (some (destination, channel)) =>
      h.Chosen i ctx.transaction.fpan destination channel
  | .sending ctx destination channel => h.Chosen i ctx.transaction.fpan destination channel
  | _ => True

theorem Guides.grow {pc : IngressPc} (hpc : h.Guides pc) : Guides (h ++ more) pc := by
  unfold Guides at hpc ⊢
  split at hpc
  · exact hpc.grow
  · exact hpc.grow
  · exact hpc.grow
  · exact hpc.grow
  · trivial

theorem GuidesTask.grow {i : Serial} {pc : HsmPc} (hpc : h.GuidesTask i pc) :
    GuidesTask (h ++ more) i pc := by
  unfold GuidesTask at hpc ⊢
  split at hpc
  · exact hpc.grow
  · exact hpc.grow
  · exact hpc.grow
  · exact hpc.grow
  · exact hpc.grow
  · trivial

section
variable {s : Engine} {w : Nat} {i : Serial} {key : String} {ctx : TransactionContext}

/-- The worker looks up the route of its request and chooses a channel. -/
theorem Seen.chosen (hseen : h.Seen s.mem) (hpc : s.ingress w = .carrying i key ctx .journaled)
    {destination : RouteDestination} {channel : ChannelId}
    (htarget : s.mem.targetEgress ctx.transaction = some (destination, channel)) :
    Chosen (h ++ [(s, .ingress w .run)]) i ctx.transaction.fpan destination channel := by
  rw [GlobalState.targetEgress] at htarget
  split at htarget
  next =>
    split at htarget
    next route hfind =>
      obtain ⟨d, failover⟩ := route
      cases d with
      | internalCrdb => rw [hseen.internal] at htarget; cases htarget
      | externalNode primary =>
          obtain ⟨node, hselects, rfl, hchannel⟩ := hseen.channelFor_eq_some htarget
          exact .worker (took_self h s _) hpc rfl hfind hselects hchannel
    next => cases htarget
  next => cases htarget

/-- Or it finds none. -/
theorem Seen.unroutable (hseen : h.Seen s.mem) (hpc : s.ingress w = .carrying i key ctx .journaled)
    (htarget : s.mem.targetEgress ctx.transaction = none) :
    Unroutable (h ++ [(s, .ingress w .run)]) i ctx.transaction := by
  refine ⟨h, s, w, key, ctx, took_self h s _, hpc, rfl, ?_⟩
  rw [GlobalState.targetEgress] at htarget
  split at htarget
  next =>
    split at htarget
    next route hfind =>
      obtain ⟨d, failover⟩ := route
      cases d with
      | internalCrdb => exact .internal hfind
      | externalNode primary => exact .down hfind (hseen.channelFor_eq_none htarget)
    next hfind => exact .noRoute hfind
  next hclass => exact .unforwarded (Bool.not_eq_true _ ▸ hclass)

/-- The task chooses a channel for the route that it has looked up. -/
theorem Seen.targetCh (hseen : h.Seen s.mem) {route : HsmRoute} (hpc : s.hsm i = .resolving ctx route)
    (hroute : h.GuidesTask i (.resolving ctx route)) :
    GuidesTask (h ++ [(s, .hsm i .run)]) i (.checked ctx true (Engine.targetCh s.mem route)) := by
  cases htarget : Engine.targetCh s.mem route with
  | none => trivial
  | some target =>
      obtain ⟨destination, channel⟩ := target
      cases route with
      | internalCrdb pvv =>
          rw [Engine.targetCh, hseen.internal] at htarget
          cases htarget
      | externalNode primary failover =>
          obtain ⟨node, hselects, rfl, hchannel⟩ := hseen.channelFor_eq_some htarget
          exact Chosen.task (took_self h s _) hpc hroute hselects hchannel

end

end Chronicle

/-! ## The steps of the engine -/

namespace Engine

variable {s t : Engine} {w : Nat} {h : Chronicle}

/-- What a step does to the shared memory, the translation of STANs apart. -/
theorem step_mem {a : Action} (hstep : s.step a = some t) :
    ∃ nat counter, t.mem = { a.stored s.mem with stanNat := nat, stanCounter := counter } := by
  cases a with
  | ingress w input =>
      by_cases hpc : ∃ i key ctx destination channel,
          s.ingress w = .carrying i key ctx (.routed destination channel)
      · obtain ⟨i, key, ctx, destination, channel, hpc⟩ := hpc
        obtain ⟨-, rfl⟩ := ingressStep_routed hpc hstep
        exact ⟨_, _, rfl⟩
      · rw [ingressStep_mem (fun i key ctx destination channel hrouted =>
          hpc ⟨i, key, ctx, destination, channel, hrouted⟩) hstep]
        exact ⟨_, _, rfl⟩
  | hsm i input => rw [hsmStep_mem hstep]; exact ⟨_, _, rfl⟩
  | reaper input => obtain ⟨nat, hmem⟩ := reaperStep_mem hstep; rw [hmem]; exact ⟨_, _, rfl⟩
  | reply w input => obtain ⟨nat, hmem⟩ := replyStep_mem hstep; rw [hmem]; exact ⟨_, _, rfl⟩
  | probe node secs ok =>
      obtain ⟨channel, -, rfl⟩ := Option.map_eq_some_iff.mp hstep
      unfold probe
      dsimp only
      split <;> exact ⟨_, _, rfl⟩
  | bank | tick | storeStip | storeCrdb | storeRouter | pollSanctions =>
      cases hstep
      exact ⟨_, _, rfl⟩

/-- Only a probe changes the health, and nothing changes the channels. -/
theorem step_nodes {a : Action} (hstep : s.step a = some t) :
    t.mem.egressChannels = s.mem.egressChannels ∧
      t.mem.nodeHealth = match a.probed with
        | some (node, ok) => s.mem.nodeHealth.put node ok
        | none => s.mem.nodeHealth := by
  obtain ⟨nat, counter, hmem⟩ := step_mem hstep
  rw [hmem]
  cases a <;> exact ⟨rfl, rfl⟩

theorem seen_step {a : Action} (hseen : h.Seen s.mem) (hstep : s.step a = some t) :
    Chronicle.Seen (h ++ [(s, a)]) t.mem := by
  obtain ⟨hchannels, hhealth⟩ := step_nodes hstep
  refine ⟨fun node => ?_, hchannels.trans hseen.channels⟩
  rw [hhealth, Chronicle.health_concat]
  dsimp only
  cases a.probed with
  | none => exact hseen.health node
  | some probe =>
      rw [DashMap.get_put, hseen.health]
      exact if_congr eq_comm rfl rfl

section
variable {i : Serial} {key : String} {ctx : TransactionContext} {input : Input}

theorem guides_carry {stage : Stage} {pc : IngressPc} (hseen : h.Seen s.mem)
    (hpc : s.ingress w = .carrying i key ctx stage) (hguides : h.Guides (.carrying i key ctx stage))
    (hturn : s.CarryTurn i key ctx input stage pc t) :
    Chronicle.Guides (h ++ [(s, .ingress w input)]) pc := by
  cases hturn with
  | route htarget => exact hseen.chosen hpc htarget
  | noRoute htarget => exact hseen.unroutable hpc htarget
  | number => exact Chronicle.Chosen.grow hguides
  | record => exact Chronicle.Chosen.grow hguides
  | recordNowhere => exact Chronicle.Chosen.grow hguides
  | @fallback ok found _ =>
      rcases stipDecision_cases found ctx with ⟨_, -, heq⟩ | ⟨_, -, heq⟩
      · rw [heq]
        trivial
      · rw [heq]
        trivial
  | spawn | lose | journal | unjournaled | decline | declineNobody | send | fail | debit | decide
  | undecided => trivial

theorem guides_ingress {pc pc' : IngressPc} (hseen : h.Seen s.mem) (hpc : s.ingress w = pc)
    (hguides : h.Guides pc) (hturn : s.IngressTurn input pc pc' t) :
    Chronicle.Guides (h ++ [(s, .ingress w input)]) pc' := by
  cases hturn with
  | carry hturn => exact guides_carry hseen hpc hguides hturn
  | receive | answer | clear | binPanic | plain | detokenize | dpanPanic | screen | reverse
  | dataPanic | mark | pass | skip | accept | evict => trivial

/-- The calls of the HSM leave the route of a task alone. -/
theorem guidesTask_afterMac {route : HsmRoute} (hroute : h.GuidesTask i (.resolving ctx route))
    (macValid : Bool) : h.GuidesTask i (afterMac ctx route macValid) := by
  unfold afterMac
  cases route with
  | internalCrdb pvv =>
      dsimp only
      split
      · trivial
      · split <;> trivial
  | externalNode node failover =>
      dsimp only
      split
      · split
        · exact hroute
        · exact hroute
      · trivial

theorem guidesTask_hsmRoute (hpc : s.hsm i = .spawned ctx) :
    Chronicle.GuidesTask (h ++ [(s, .hsm i .run)]) i (hsmRoute s.mem ctx) := by
  have hbefore {route : HsmRoute}
      (hroute : Chronicle.GuidesTask (h ++ [(s, .hsm i .run)]) i (.resolving ctx route)) :
      Chronicle.GuidesTask (h ++ [(s, .hsm i .run)]) i (beforeMac ctx route) := by
    unfold beforeMac
    split
    · cases route with
      | internalCrdb => trivial
      | externalNode => exact hroute
    · exact guidesTask_afterMac hroute true
  unfold hsmRoute
  split
  next route hfind =>
    obtain ⟨d, failover⟩ := route
    cases d with
    | internalCrdb =>
        dsimp only
        split
        · exact hbefore trivial
        · trivial
    | externalNode node => exact hbefore ⟨h, s, ctx, Chronicle.took_self h s _, hpc, rfl, hfind⟩
  next => trivial

theorem guides_hsm {pc pc' : HsmPc} (hseen : h.Seen s.mem) (hpc : s.hsm i = pc)
    (hguides : h.GuidesTask i pc) (hturn : s.TaskTurn i input pc pc' t) :
    Chronicle.GuidesTask (h ++ [(s, .hsm i input)]) i pc' := by
  have hgrown : Chronicle.GuidesTask (h ++ [(s, .hsm i input)]) i pc := hguides.grow
  cases hturn with
  | route => exact guidesTask_hsmRoute hpc
  | @verifyMac ctx route result =>
      refine guidesTask_afterMac ?_ _
      cases route with
      | internalCrdb => trivial
      | externalNode => exact hgrown
  | verifyPin result =>
      unfold afterVerifyPin
      split
      · split <;> trivial
      · trivial
  | translatePin result =>
      unfold afterTranslatePin
      split
      · exact hgrown
      · trivial
  | resolve => exact hseen.targetCh hpc hguides
  | journal => exact hgrown
  | decline | drop | unjournaled | send | fail => trivial

end

/-! ## All runs -/

/-- The runs from the start of the engine, with their chronicles. -/
abbrev Started : Engine × Chronicle → Prop :=
  Transition.Noted (fun s => ∃ timeoutMs stipDb, s = start timeoutMs stipDb) step
    (fun s a => [(s, a)]) fun _ _ => True

structure Routed (p : Engine × Chronicle) : Prop where
  seen : p.2.Seen p.1.mem
  workers : ∀ w, p.2.Guides (p.1.ingress w)
  tasks : ∀ i, p.2.GuidesTask i (p.1.hsm i)
  frames : ∀ f i, .placed f ∈ p.1.trace → f.origin.request = some i →
    p.2.Chosen i f.transaction.fpan f.destination f.channel
  declines : ∀ r j reply, .responded r (.unrouted j) reply ∈ p.1.trace →
    p.2.DeclinedUnrouted r j reply

variable {p : Engine × Chronicle} {a : Action} {l : List Event}

theorem Started.chronicled (hp : Started p) : Chronicled p := by
  obtain ⟨q, ⟨⟨timeoutMs, stipDb, hstart⟩, hempty⟩, hrun⟩ := hp
  exact ⟨q, ⟨hstart ▸ start_initial timeoutMs stipDb, hempty⟩, hrun⟩

theorem Started.reachable (hp : Started p) : Reachable Transition.Free p.1 :=
  hp.chronicled.state fun _ _ _ => trivial

theorem routed_start (timeoutMs : Nat) (stipDb : DashMap Bytes (Option CardProfile)) :
    Routed (start timeoutMs stipDb, []) where
  seen := ⟨fun _ => rfl, rfl⟩
  workers _ := trivial
  tasks _ := trivial
  frames _ _ hmem := by cases hmem
  declines _ _ _ hmem := by cases hmem

theorem Routed.keep_worker (hp : Routed p) (hstep : p.1.step a = some t) (w : Nat) :
    Chronicle.Guides (p.2 ++ [(p.1, a)]) (t.ingress w) := by
  by_cases ha : ∃ input, a = .ingress w input
  · obtain ⟨input, rfl⟩ := ha
    obtain ⟨pc, u, hturn, rfl⟩ := ingressStep_turn hstep
    have hpc : (u.setIngress w pc).ingress w = pc := update_self ..
    rw [hpc]
    exact guides_ingress hp.seen rfl (hp.workers w) hturn
  · rw [step_ingress hstep fun input heq => ha ⟨input, heq⟩]
    exact (hp.workers w).grow

theorem Routed.keep_task (hp : Routed p) (hstep : p.1.step a = some t) (i : Serial) :
    Chronicle.GuidesTask (p.2 ++ [(p.1, a)]) i (t.hsm i) := by
  rcases step_hsm hstep i with ⟨input, rfl⟩ | hsame | ⟨_, _, ctx, -, hspawned⟩
  · obtain ⟨pc, u, hturn, rfl⟩ := hsmStep_turn hstep
    have hpc : (u.setHsm i pc).hsm i = pc := update_self ..
    rw [hpc]
    exact guides_hsm hp.seen rfl (hp.tasks i) hturn
  · rw [hsame]
    exact (hp.tasks i).grow
  · rw [hspawned]
    trivial

theorem Routed.keep_frame (hp : Routed p) (hstep : p.1.step a = some t)
    (hl : t.trace = p.1.trace ++ l) {f : Frame} {i : Serial} (hmem : .placed f ∈ t.trace)
    (hreq : f.origin.request = some i) :
    Chronicle.Chosen (p.2 ++ [(p.1, a)]) i f.transaction.fpan f.destination f.channel := by
  rw [hl, List.mem_append] at hmem
  rcases hmem with hold | hnew
  · exact (hp.frames f i hold hreq).grow
  · cases step_sends hstep hl hnew hreq with
    | @ingress w key ctx hpc hf =>
        have hguides := hp.workers w
        rw [hpc] at hguides
        rw [hf]
        exact hguides.grow
    | @hsm ctx hpc hf =>
        have hguides := hp.tasks i
        rw [hpc] at hguides
        rw [hf]
        exact hguides.grow

theorem Routed.keep_decline (hp : Routed p) (hstep : p.1.step a = some t)
    (hl : t.trace = p.1.trace ++ l) {r : Responder} {j : Serial} {reply : UniversalPaymentEvent}
    (hmem : .responded r (.unrouted j) reply ∈ t.trace) :
    Chronicle.DeclinedUnrouted (p.2 ++ [(p.1, a)]) r j reply := by
  rw [hl, List.mem_append] at hmem
  rcases hmem with hold | hnew
  · exact (hp.declines r j reply hold).grow
  · obtain ⟨w, i, key, ctx, entry, rfl, hpc, hreply, hget, hresponder, hserial⟩ :=
      unrouted_of_step hstep hl hnew
    have hguides := hp.workers w
    rw [hpc] at hguides
    exact ⟨p.2, p.1, w, i, key, ctx, entry, Chronicle.took_self p.2 p.1 _, hpc, hguides, hreply,
      hget, hserial, hresponder⟩

theorem Started.routed (hp : Started p) : Routed p := by
  refine hp.invariant ?_ fun q q' hq hv ⟨a, _, hnoted⟩ => ?_
  · rintro ⟨s, h⟩ ⟨⟨timeoutMs, stipDb, rfl⟩, rfl⟩
    exact routed_start timeoutMs stipDb
  obtain ⟨hstep, hnotes⟩ := Transition.noting_eq_some hnoted
  obtain ⟨l, hl⟩ := step_trace_append (Started.reachable hq).disowned hstep
  obtain ⟨t, h⟩ := q'
  obtain rfl : h = q.2 ++ [_] := hnotes
  exact ⟨seen_step hv.seen hstep, hv.keep_worker hstep, hv.keep_task hstep,
    fun f i => hv.keep_frame hstep hl, fun r j reply => hv.keep_decline hstep hl⟩

/-- Every request that is forwarded goes to the node that its own worker or task has chosen
for it: the primary of the route that it has found, unless the last probe before the choice
had failed, and then the failover, unless that had failed too.  A client is answered for want
of a route only by a worker whose own look-up has found none, or only nodes that were down or
that no bank is behind. -/
theorem forwarded_by_health (hp : Started p) :
    (∀ f i, .placed f ∈ p.1.trace → f.origin.request = some i →
      p.2.Chosen i f.transaction.fpan f.destination f.channel) ∧
    ∀ r j reply, .responded r (.unrouted j) reply ∈ p.1.trace → p.2.DeclinedUnrouted r j reply :=
  ⟨hp.routed.frames, hp.routed.declines⟩

/-- Cards with a leading 4, with a failover. -/
def failoverRouter : BinTrie :=
  BinTrie.new.insert (asBytes "4") ⟨.externalNode "MockVisaNode", some "MockMastercardNode"⟩

/-- The first purchase comes when one bank is down, and the second when both are. -/
def outage : List Action :=
  [.storeRouter failoverRouter, .probe "MockVisaNode" 0 false] ++
    accept 0 (purchase "000100" "RRN000000001") ++ forward 0 true ++
    [.probe "MockMastercardNode" 60 false] ++ accept 0 (purchase "000101" "RRN000000002") ++
    [.ingress 0 (.outcome true), .ingress 0 .run, .ingress 0 .run]

set_option maxRecDepth 8000 in
theorem forwarded_by_health_outage :
    (chronicled outage).2.Chosen 1 (asBytes "4111111111111111")
        (.externalNode "MockMastercardNode") 1 ∧
      (chronicled outage).2.DeclinedUnrouted 6 7
        ((purchase "000101" "RRN000000002").answer "0110" "05") := by
  have hp : Started (chronicled outage) :=
    Transition.Noted.of_complies ⟨100, ∅, rfl⟩ (by decide +kernel)
  have hframe : .placed ⟨.ingress 1, .externalNode "MockMastercardNode", 1,
      { purchase "000100" "RRN000000001" with stan := "000000" }⟩ ∈
        (chronicled outage).1.trace := by
    decide +kernel
  have hdecline : .responded 6 (.unrouted 7)
      ((purchase "000101" "RRN000000002").answer "0110" "05") ∈ (chronicled outage).1.trace := by decide +kernel
  exact ⟨(forwarded_by_health hp).1 _ 1 hframe rfl, (forwarded_by_health hp).2 _ _ _ hdecline⟩

end Engine

end Iso8583Switch
