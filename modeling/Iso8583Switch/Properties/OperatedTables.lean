import Iso8583Switch.Daemon.Operated
import Iso8583Switch.Properties.LiveVersions
import Iso8583Switch.Properties.NodeFailover
import Iso8583Switch.Properties.Publishing

/-!
# Requests and the tables of the operators

A table of the switch is the one of the last post that has been delivered, and a post has
the rows that were live when its SELECT was done (`Serving`).  A run keeps its steps, each
with the state that it was taken in, so that what a worker or a task has looked up is
carried back to rows of the control plane (`forwarded_by_tables`).

* A SELECT that fails is published as an empty table, and this is what the router is
  compiled from and what the thresholds are looked up in.
* Rows that were changed after the SELECT, or by a request that failed, do not count.
-/

namespace Iso8583Switch

open Text Versioned LongestPrefix ControlPlane

/-- What a post brings of each kind that the workers look up. -/
def Post.routeRows : Post → Option (List Iso8583Switch.RouteRow)
  | .routes rows => some rows
  | _ => none

def Post.stipRules : Post → Option (DashMap String StipRule)
  | .stip rules => some rules
  | _ => none

/-- The steps of the switch and its control plane, each with the state that it was taken in. -/
abbrev Operations := List (Operated × OperatedAction)

namespace Operations

variable {json : Float → Float} {h more : Operations} {fpan : Bytes}
  {destination : RouteDestination}
  {failover : Option String} {β : Type}

/-- The steps of the engine among them. -/
def engine (h : Operations) : Chronicle :=
  h.filterMap fun x => (x.1.stores x.2).map fun a => (x.1.engine, a)

/-- The engine has taken this step in `u`, after `before`. -/
def Took (h before : Operations) (u : Engine) (b : Action) : Prop :=
  ∃ y, before ++ [y] <+: h ∧ y.1.engine = u ∧ y.1.stores y.2 = some b

/-- A step of the engine is a step of the whole. -/
theorem took_of_engine {before : Chronicle} {u : Engine} {b : Action}
    (htook : h.engine.Took before u b) :
    ∃ earlier, h.Took earlier u b ∧ engine earlier = before := by
  obtain ⟨later, hlater⟩ := htook
  have hpart : Transition.partOf Operated.engine Operated.stores h = before ++ (u, b) :: later := by
    rw [← List.singleton_append, ← List.append_assoc]
    exact hlater.symm
  obtain ⟨earlier, y, after, hsplit, hbefore, hengine, hstores⟩ := Transition.partOf_split hpart
  exact ⟨earlier, ⟨y, ⟨after, by simp [hsplit]⟩, hengine, hstores⟩, hbefore⟩

/-! ## The tables in force -/

def deliveredPost (x : Operated × OperatedAction) : Option Post :=
  match x.2 with
  | .deliver k => x.1.posts[k]?
  | _ => none

/-- What the last post of a kind has brought. -/
def inForce (kind : Post → Option β) (h : Operations) : Option β :=
  (h.filterMap fun x => (deliveredPost x).bind kind).getLast?

theorem inForce_concat (kind : Post → Option β) (h : Operations) (x : Operated × OperatedAction) :
    inForce kind (h ++ [x]) = ((deliveredPost x).bind kind).or (h.inForce kind) := by
  rw [inForce, List.filterMap_append, List.getLast?_append]
  cases hx : (deliveredPost x).bind kind with
  | none => simp [hx, inForce]
  | some value => simp [hx]

/-- A handler has sent this post, for the rows of that time. -/
def Sent (json : Float → Float) (h : Operations) (post : Post) : Prop :=
  ∃ y table failure, (y, .publish table failure) ∈ h ∧ post = table.post json y.tables failure

theorem Sent.grow {post : Post} (hsent : h.Sent json post) : Sent json (h ++ more) post := by
  obtain ⟨y, table, failure, hmem, heq⟩ := hsent
  exact ⟨y, table, failure, List.mem_append_left _ hmem, heq⟩

/-- The routing table in force is made of these rows: they were live in the SELECT. -/
def RoutesFrom (h : Operations) (rows : List ControlPlane.RouteRow) : Prop :=
  h.inForce Post.routeRows = some (rows.map ControlPlane.RouteRow.payload) ∧
    ∃ y, (y, .publish .routes none) ∈ h ∧
      rows = y.tables.routingRules.filter ControlPlane.RouteRow.isLive

/-- The last row of the longest bin in the table has this route. -/
def Routes (h : Operations) (fpan : Bytes) (route : Route) : Prop :=
  ∃ rows bin, h.RoutesFrom rows ∧
    LongestBin (rows.map ControlPlane.RouteRow.payload) fpan bin ∧
    LastRow (rows.map ControlPlane.RouteRow.payload) bin route

/-- The PAN has no route: no table has come, or that of a SELECT that has failed, or no row of
the table has a bin of the PAN. -/
inductive NoRoute (h : Operations) (fpan : Bytes) : Prop where
  | unpublished : h.inForce Post.routeRows = none → NoRoute h fpan
  | failed {y : Operated} {failure : String} : (y, .publish .routes (some failure)) ∈ h →
      h.inForce Post.routeRows = some [] → NoRoute h fpan
  | unmatched {rows : List ControlPlane.RouteRow} : h.RoutesFrom rows →
      (∀ row ∈ rows, row.payload.route.isSome → ¬ asBytes row.binPrefix <+: fpan) → NoRoute h fpan

/-- The rules in force are made of these rows.  There are none before the first post. -/
inductive RulesFrom (h : Operations) : List StipRuleRow → Prop where
  | start : h.inForce Post.stipRules = none → RulesFrom h []
  | published {y : Operated} {failure : Option String} : (y, .publish .stip failure) ∈ h →
      h.inForce Post.stipRules = some (stipEngine
        (unwrapOrDefault (fetchAll StipRuleRow.isLive y.tables.stipRules failure))) →
      RulesFrom h (unwrapOrDefault (fetchAll StipRuleRow.isLive y.tables.stipRules failure))

/-- The limit of the last row of the network. -/
def riskLimit (rows : List StipRuleRow) (fpan : Bytes) : UInt8 :=
  ((lastFor StipRuleRow.networkId StipRuleRow.rule rows (GlobalState.networkId fpan)).map
    StipRule.maxRiskScore).getD 100

/-! ## What the workers and the tasks have looked up -/

/-- When the HSM task of the instance looked up its PAN, the table in force gave this route. -/
def RoutedBy (h : Operations) (i : Serial) (fpan : Bytes) (primary : String)
    (failover : Option String) : Prop :=
  ∃ lookup u ctx, h.Took lookup u (.hsm i .run) ∧ u.hsm i = .spawned ctx ∧
    ctx.transaction.fpan = fpan ∧ lookup.Routes fpan ⟨.externalNode primary, failover⟩

/-- A node has been chosen for the request of the instance: of the route that the table in
force gave at the look-up, and by the probes before the choice. -/
inductive ChosenBy (h : Operations) (i : Serial) (fpan : Bytes) :
    RouteDestination → ChannelId → Prop where
  | worker {lookup : Operations} {u : Engine} {w : Nat} {key : String} {ctx : TransactionContext}
      {primary node : String} {failover : Option String} {channel : ChannelId} :
      h.Took lookup u (.ingress w .run) → u.ingress w = .carrying i key ctx .journaled →
      ctx.transaction.fpan = fpan → lookup.Routes fpan ⟨.externalNode primary, failover⟩ →
      lookup.engine.Selects primary failover node → bankChannels.get node = some channel →
      ChosenBy h i fpan (.externalNode node) channel
  | task {choice : Operations} {u : Engine} {ctx : TransactionContext} {primary node : String}
      {failover : Option String} {channel : ChannelId} :
      h.Took choice u (.hsm i .run) → u.hsm i = .resolving ctx (.externalNode primary failover) →
      choice.RoutedBy i fpan primary failover →
      choice.engine.Selects primary failover node → bankChannels.get node = some channel →
      ChosenBy h i fpan (.externalNode node) channel

/-- The iteration that has accepted the instance has tested its risk score, and the score was
within the limit of the rules that were in force at the test. -/
def ScreenedBy (h : Operations) (i : Serial) (tx : UniversalPaymentEvent) : Prop :=
  ∃ w tx₀ accepted v screened u rows, h.Took accepted v (.ingress w .run) ∧ v.trace.length = i ∧
    v.guard.get tx₀.guardKey = none ∧ accepted.Took screened u (.ingress w .run) ∧
    accepted.engine.Last w screened.engine u .run ∧ screened.engine.Detokenized w tx₀ tx ∧
    screened.RulesFrom rows ∧ (tx.riskScore = 0 ∨ tx.riskScore ≤ riskLimit rows tx.fpan)

/-- The table in force leaves a request without a channel: no row for the PAN, or only one of
the card database, or one of nodes that are down or that no bank is behind. -/
inductive NoChannel (h : Operations) (tx : UniversalPaymentEvent) : Prop where
  | unforwarded : GlobalState.routable tx.messageClass = false → NoChannel h tx
  | noRoute : h.NoRoute tx.fpan → NoChannel h tx
  | internal {failover : Option String} : h.Routes tx.fpan ⟨.internalCrdb, failover⟩ →
      NoChannel h tx
  | down {primary : String} {failover : Option String} :
      h.Routes tx.fpan ⟨.externalNode primary, failover⟩ →
      (∀ node, h.engine.Selects primary failover node → bankChannels.get node = none) →
      NoChannel h tx

/-- When the worker of the instance looked for a channel, the table in force left it without. -/
def UnroutedBy (h : Operations) (i : Serial) (tx : UniversalPaymentEvent) : Prop :=
  ∃ lookup u w key ctx, h.Took lookup u (.ingress w .run) ∧
    u.ingress w = .carrying i key ctx .journaled ∧ ctx.transaction = tx ∧ lookup.NoChannel tx

/-- A worker that was left without a channel has answered the client of the entry that was
under the key of its request by then, instance `j`. -/
def DeclinedBy (h : Operations) (r : Responder) (j : Serial) (reply : UniversalPaymentEvent) :
    Prop :=
  ∃ decline u w i key ctx entry, h.Took decline u (.ingress w .run) ∧
    u.ingress w = .carrying i key ctx .unrouted ∧ decline.UnroutedBy i ctx.transaction ∧
    reply = ctx.transaction.answer "0110" "05" ∧
    u.guard.get key = some entry ∧ entry.serial = j ∧ entry.responder = some r

end Operations

/-! ## The tables of the engine -/

structure Operated.Serving (json : Float → Float) (p : Operated × Operations) : Prop where
  router : p.1.engine.mem.router = compileRoutes ((p.2.inForce Post.routeRows).getD [])
  rules : p.1.engine.mem.stip = ⟨(p.2.inForce Post.stipRules).getD ∅⟩
  posts : ∀ post ∈ p.1.posts, p.2.Sent json post
  routesSent : ∀ rows, p.2.inForce Post.routeRows = some rows → p.2.Sent json (.routes rows)
  rulesSent : ∀ rules, p.2.inForce Post.stipRules = some rules → p.2.Sent json (.stip rules)

namespace Operated

open Operations

variable {json : Float → Float} {z z' : Operated} {p : Operated × Operations} {a : OperatedAction}

/-- The runs from the start of the switch and its control plane, with their steps. -/
abbrev Operating (json : Float → Float) : Operated × Operations → Prop :=
  Transition.Noted (fun z => ∃ tables timeoutMs stipDb, z = start tables timeoutMs stipDb)
    (step json) (fun z a => [(z, a)]) fun _ _ => True

/-- A step of the whole is a step of the engine or leaves it alone. -/
theorem step_engine (hstep : z.step json a = some z') :
    (z.stores a = none ∧ z'.engine = z.engine) ∨
      ∃ b, z.stores a = some b ∧ z.engine.step b = some z'.engine := by
  cases a with
  | request | publish =>
      cases hstep
      exact .inl ⟨rfl, rfl⟩
  | deliver k =>
      rw [step] at hstep
      split at hstep
      · cases hstep
      · obtain ⟨e, he, rfl⟩ := Option.map_eq_some_iff.mp hstep
        exact .inr (Option.bind_eq_some_iff.mp he)
  | engine b =>
      obtain ⟨e, he, rfl⟩ := Option.map_eq_some_iff.mp hstep
      exact .inr (Option.bind_eq_some_iff.mp he)

/-- Only a handler sends a post. -/
theorem step_posts (hstep : z.step json a = some z') {post : Post} (hmem : post ∈ z'.posts) :
    post ∈ z.posts ∨ ∃ table failure, a = .publish table failure ∧
      post = table.post json z.tables failure := by
  cases a with
  | request =>
      cases hstep
      exact .inl hmem
  | publish table failure =>
      cases hstep
      rcases List.mem_append.mp hmem with hold | hnew
      · exact .inl hold
      · exact .inr ⟨table, failure, rfl, List.mem_singleton.mp hnew⟩
  | deliver k =>
      rw [step] at hstep
      split at hstep
      · cases hstep
      · obtain ⟨e, -, rfl⟩ := Option.map_eq_some_iff.mp hstep
        exact .inl hmem
  | engine b =>
      obtain ⟨e, -, rfl⟩ := Option.map_eq_some_iff.mp hstep
      exact .inl hmem

/-- A step of the whole brings a table into force just if the engine stores it. -/
theorem stored_eq {b : Action} (hb : z.stores a = some b) (g : GlobalState) :
    (b.stored g).router = (((deliveredPost (z, a)).bind Post.routeRows).map compileRoutes).getD
      g.router ∧
    (b.stored g).stip = (((deliveredPost (z, a)).bind Post.stipRules).map StipEngine.mk).getD
      g.stip := by
  cases a with
  | request | publish => cases hb
  | deliver k =>
      obtain ⟨post, hpost, rfl⟩ := Option.map_eq_some_iff.mp hb
      have hdelivered : deliveredPost (z, .deliver k) = some post := hpost
      rw [hdelivered, Option.bind_some]
      cases post <;> exact ⟨rfl, rfl⟩
  | engine b' => cases b' <;> cases hb <;> exact ⟨rfl, rfl⟩

/-- A step that is none of the engine delivers no post. -/
theorem deliveredPost_eq_none (hb : z.stores a = none) :
    deliveredPost (z, a) = none := by
  cases a with
  | request | publish | engine => rfl
  | deliver k => exact Option.map_eq_none_iff.mp hb

theorem Operating.started (hp : Operating json p) : Engine.Started (p.1.engine, p.2.engine) := by
  change Engine.Started (Operated.engine p.1, Transition.partOf Operated.engine stores p.2)
  refine Transition.Noted.part ?_ (fun z z' a hstep => by exact step_engine hstep) hp
  rintro z ⟨tables, timeoutMs, stipDb, rfl⟩
  exact ⟨timeoutMs, stipDb, rfl⟩

theorem serving_start (tables : Tables) (timeoutMs : Nat)
    (stipDb : DashMap Bytes (Option CardProfile)) :
    Serving json (start tables timeoutMs stipDb, []) where
  router := rfl
  rules := rfl
  posts _ hmem := by cases hmem
  routesSent _ hin := by cases hin
  rulesSent _ hin := by cases hin

/-- A table that is in force after a step was sent before. -/
theorem sent_inForce {β : Type} {kind : Post → Option β} {make : β → Post} {h : Operations}
    (hmake : ∀ post value, kind post = some value → post = make value)
    (hposts : ∀ post ∈ z.posts, h.Sent json post)
    (hsent : ∀ value, h.inForce kind = some value → h.Sent json (make value)) {value : β}
    (hin : Operations.inForce kind (h ++ [(z, a)]) = some value) :
    Operations.Sent json (h ++ [(z, a)]) (make value) := by
  rw [inForce_concat, Option.or_eq_some_iff] at hin
  rcases hin with hnow | ⟨-, hbefore⟩
  · obtain ⟨post, hpost, hkind⟩ := Option.bind_eq_some_iff.mp hnow
    rw [← hmake post value hkind]
    refine Sent.grow (hposts post ?_)
    unfold deliveredPost at hpost
    split at hpost
    · exact List.mem_of_getElem? hpost
    · cases hpost
  · exact (hsent value hbefore).grow

theorem Serving.step (hp : Serving json p) (hstep : p.1.step json a = some z') :
    Serving json (z', p.2 ++ [(p.1, a)]) where
  router := by
    rw [inForce_concat]
    rcases step_engine hstep with ⟨hnone, hsame⟩ | ⟨b, hb, hengine⟩
    · rw [deliveredPost_eq_none hnone, Option.bind_none, Option.none_or, hsame]
      exact hp.router
    · obtain ⟨nat, counter, hmem⟩ := Engine.step_mem hengine
      rw [hmem]
      dsimp only
      rw [(stored_eq hb _).1, hp.router]
      cases (deliveredPost (p.1, a)).bind Post.routeRows <;> rfl
  rules := by
    rw [inForce_concat]
    rcases step_engine hstep with ⟨hnone, hsame⟩ | ⟨b, hb, hengine⟩
    · rw [deliveredPost_eq_none hnone, Option.bind_none, Option.none_or, hsame]
      exact hp.rules
    · obtain ⟨nat, counter, hmem⟩ := Engine.step_mem hengine
      rw [hmem]
      dsimp only
      rw [(stored_eq hb _).2, hp.rules]
      cases (deliveredPost (p.1, a)).bind Post.stipRules <;> rfl
  posts := by
    intro post hmem
    rcases step_posts hstep hmem with hold | ⟨table, failure, rfl, heq⟩
    · exact (hp.posts post hold).grow
    · exact ⟨p.1, table, failure, List.mem_append_right _ List.mem_cons_self, heq⟩
  routesSent rows hin := by
    refine sent_inForce (fun post value hkind => ?_) hp.posts hp.routesSent hin
    cases post <;> cases hkind
    rfl
  rulesSent rules hin := by
    refine sent_inForce (fun post value hkind => ?_) hp.posts hp.rulesSent hin
    cases post <;> cases hkind
    rfl

theorem Operating.serving (hp : Operating json p) : Serving json p := by
  refine hp.invariant ?_ fun q q' _ hv ⟨a, _, hnoted⟩ => ?_
  · rintro ⟨z, h⟩ ⟨⟨tables, timeoutMs, stipDb, rfl⟩, rfl⟩
    exact serving_start tables timeoutMs stipDb
  · obtain ⟨hstep, hnotes⟩ := Transition.noting_eq_some hnoted
    obtain ⟨z', h⟩ := q'
    obtain rfl : h = q.2 ++ [_] := hnotes
    exact hv.step hstep

/-! ## What a look-up finds -/

namespace Serving

variable {fpan : Bytes} {route : Route}

/-- The router is that of rows that were live in a SELECT, or there are no rows in it. -/
theorem find_eq (hp : Serving json p) (fpan : Bytes) :
    (∃ rows, p.2.RoutesFrom rows ∧ p.1.engine.mem.router.find fpan =
      longest (lastAt (validRows (rows.map ControlPlane.RouteRow.payload))) fpan) ∨
    p.1.engine.mem.router.find fpan = none := by
  rw [hp.router, BinTrie.find_eq, routeAt_compileRoutes]
  have hempty : longest (lastAt (validRows [])) fpan = none := longest_eq_none.mpr fun _ _ => rfl
  cases hin : p.2.inForce Post.routeRows with
  | none => exact .inr hempty
  | some rows =>
      obtain ⟨y, table, failure, hmem, heq⟩ := hp.routesSent rows hin
      cases table with
      | crdb | stip => cases heq
      | routes =>
          cases failure with
          | some failure =>
              cases heq
              exact .inr hempty
          | none =>
              cases heq
              exact .inl ⟨_, ⟨hin, y, hmem, rfl⟩, rfl⟩

theorem routes (hp : Serving json p) (hfind : p.1.engine.mem.router.find fpan = some route) :
    p.2.Routes fpan route := by
  rcases hp.find_eq fpan with ⟨rows, hrows, heq⟩ | hnone
  · rw [heq] at hfind
    obtain ⟨bin, hbin⟩ := exists_isLongest_of_eq_some hfind
    rw [longest_of_isLongest hbin, lastAt_eq_some] at hfind
    exact ⟨rows, bin, hrows, longestBin_iff.mpr hbin, hfind⟩
  · rw [hnone] at hfind
    cases hfind

theorem noRoute (hp : Serving json p) (hfind : p.1.engine.mem.router.find fpan = none) :
    p.2.NoRoute fpan := by
  cases hin : p.2.inForce Post.routeRows with
  | none => exact .unpublished hin
  | some payloads =>
      obtain ⟨y, table, failure, hmem, heq⟩ := hp.routesSent payloads hin
      cases table with
      | crdb | stip => cases heq
      | routes =>
          cases failure with
          | some failure =>
              cases heq
              exact .failed hmem hin
          | none =>
              cases heq
              refine .unmatched ⟨hin, y, hmem, rfl⟩ fun row hrow hsome hbegins => ?_
              rw [hp.router, hin, Option.getD_some, BinTrie.find_eq, routeAt_compileRoutes,
                longest_eq_none] at hfind
              obtain ⟨route, hroute⟩ := Option.isSome_iff_exists.mp hsome
              have hvalid := mem_validRows.mpr
                ⟨row.payload, List.mem_map_of_mem hrow, rfl, hroute⟩
              have hnone := hfind _ hbegins
              rw [← Option.not_isSome_iff_eq_none] at hnone
              exact hnone (lastAt_isSome.mpr ⟨_, hvalid, rfl⟩)

/-- A threshold is that of the rules in force. -/
theorem riskLimit (hp : Serving json p) (fpan : Bytes) :
    ∃ rows, p.2.RulesFrom rows ∧
      p.1.engine.mem.riskThreshold fpan = Operations.riskLimit rows fpan := by
  rw [GlobalState.riskThreshold, hp.rules]
  cases hin : p.2.inForce Post.stipRules with
  | none => exact ⟨[], .start hin, by rw [Option.getD_none, DashMap.get_empty]; rfl⟩
  | some rules =>
      obtain ⟨y, table, failure, hmem, heq⟩ := hp.rulesSent rules hin
      cases table with
      | crdb | routes => cases heq
      | stip =>
          cases heq
          refine ⟨_, .published hmem hin, ?_⟩
          rw [Option.getD_some, stipEngine_get]
          rfl

end Serving

/-! ## All runs -/

/-- The tables that a step of the engine has read. -/
theorem Operating.serving_at (hp : Operating json p) {before : Operations} {u : Engine} {b : Action}
    (htook : p.2.Took before u b) :
    ∃ y, y.engine = u ∧ Operating json (y, before) ∧ Serving json (y, before) := by
  obtain ⟨y, ⟨later, hlater⟩, hengine, -⟩ := htook
  have hsplit : p.2 = before ++ y :: later := by
    rw [← hlater, List.append_assoc, List.singleton_append]
  have hbefore : Operating json (y.1, before) := hp.before hsplit
  exact ⟨y.1, hengine, hbefore, hbefore.serving⟩

/-- What a worker or a task has found in the router is what the table in force says. -/
theorem Operating.routes_at (hp : Operating json p) {before : Operations} {u : Engine} {b : Action}
    (htook : p.2.Took before u b) {fpan : Bytes} {route : Route}
    (hfind : u.mem.router.find fpan = some route) : before.Routes fpan route := by
  obtain ⟨y, rfl, -, hserving⟩ := hp.serving_at htook
  exact hserving.routes hfind

variable {fpan : Bytes} {i : Serial}

theorem Operating.routedBy (hp : Operating json p) {primary : String} {failover : Option String}
    (hroute : p.2.engine.HasRoute i fpan primary failover) :
    p.2.RoutedBy i fpan primary failover := by
  obtain ⟨before, u, ctx, htook, hpc, hfpan, hfind⟩ := hroute
  obtain ⟨lookup, hstep, -⟩ := took_of_engine htook
  exact ⟨lookup, u, ctx, hstep, hpc, hfpan, hp.routes_at hstep hfind⟩

theorem Operating.chosenBy (hp : Operating json p) {destination : RouteDestination}
    {channel : ChannelId} (hchosen : p.2.engine.Chosen i fpan destination channel) :
    p.2.ChosenBy i fpan destination channel := by
  cases hchosen with
  | worker htook hpc hfpan hfind hselects hchannel =>
      obtain ⟨lookup, hstep, rfl⟩ := took_of_engine htook
      exact .worker hstep hpc hfpan (hp.routes_at hstep hfind) hselects hchannel
  | task htook hpc hroute hselects hchannel =>
      obtain ⟨choice, hstep, rfl⟩ := took_of_engine htook
      obtain ⟨y, -, hchoice, -⟩ := hp.serving_at hstep
      exact .task hstep hpc (hchoice.routedBy hroute) hselects hchannel

theorem Operating.screenedBy (hp : Operating json p) {w : Nat} {tx₀ tx : UniversalPaymentEvent}
    {since : Chronicle} (hadmitted : p.2.engine.Admitted w i tx₀ tx since) :
    p.2.ScreenedBy i tx := by
  obtain ⟨before, v, hsplit, ⟨before', u, hlast, hdetokenized, hrisk⟩, hserial, hvacant⟩ := hadmitted
  have haccept : p.2.engine.Took before v (.ingress w .run) := ⟨since, by simp [hsplit]⟩
  obtain ⟨accepted, hstep, rfl⟩ := took_of_engine haccept
  obtain ⟨y, -, haccepted, -⟩ := hp.serving_at hstep
  obtain ⟨others, hothers, -⟩ := id hlast
  have htest : accepted.engine.Took before' u (.ingress w .run) := ⟨others, by simp [hothers]⟩
  obtain ⟨screened, hstep', rfl⟩ := took_of_engine htest
  obtain ⟨y', rfl, -, hserving⟩ := haccepted.serving_at hstep'
  obtain ⟨rows, hrows, hlimit⟩ := hserving.riskLimit tx.fpan
  exact ⟨w, tx₀, accepted, v, screened, _, rows, hstep, hserial, hvacant, hstep', hlast,
    hdetokenized, hrows, hlimit ▸ hrisk⟩

theorem Operating.unroutedBy (hp : Operating json p) {tx : UniversalPaymentEvent}
    (hunroutable : p.2.engine.Unroutable i tx) : p.2.UnroutedBy i tx := by
  obtain ⟨before, u, w, key, ctx, htook, hpc, htx, hnone⟩ := hunroutable
  obtain ⟨lookup, hstep, rfl⟩ := took_of_engine htook
  refine ⟨lookup, u, w, key, ctx, hstep, hpc, htx, ?_⟩
  cases hnone with
  | unforwarded hclass => exact .unforwarded hclass
  | noRoute hfind =>
      obtain ⟨y, rfl, -, hserving⟩ := hp.serving_at hstep
      exact .noRoute (hserving.noRoute hfind)
  | internal hfind => exact .internal (hp.routes_at hstep hfind)
  | down hfind hdown => exact .down (hp.routes_at hstep hfind) hdown

theorem Operating.declinedBy (hp : Operating json p) {r : Responder} {j : Serial}
    {reply : UniversalPaymentEvent} (hdeclined : p.2.engine.DeclinedUnrouted r j reply) :
    p.2.DeclinedBy r j reply := by
  obtain ⟨before, u, w, i, key, ctx, entry, htook, hpc, hunroutable, hrest⟩ := hdeclined
  obtain ⟨decline, hstep, rfl⟩ := took_of_engine htook
  obtain ⟨y, -, hdecline, -⟩ := hp.serving_at hstep
  exact ⟨decline, u, w, i, key, ctx, entry, hstep, hpc, hdecline.unroutedBy hunroutable, hrest⟩

/-- What a request has passed, and where it went, is decided by rows that were live in the
SELECT of the last post of their table that had been delivered before the step of its own
worker or task that looked them up. -/
theorem forwarded_by_tables (hp : Operating json p) :
    (∀ f i, .placed f ∈ p.1.engine.trace → f.origin.request = some i →
      p.2.ChosenBy i f.transaction.fpan f.destination f.channel ∧
        ∃ tx, p.2.ScreenedBy i tx ∧
          f.transaction = { tx with stan := f.transaction.stan, pinBlock := f.transaction.pinBlock }) ∧
    ∀ r j reply, .responded r (.unrouted j) reply ∈ p.1.engine.trace → p.2.DeclinedBy r j reply := by
  have hrouted := hp.started.routed
  refine ⟨fun f i hmem hreq => ⟨hp.chosenBy (hrouted.frames f i hmem hreq), ?_⟩,
    fun r j reply hmem => hp.declinedBy (hrouted.declines r j reply hmem)⟩
  obtain ⟨w, tx₀, tx, since, hgate⟩ := hp.started.chronicled.gated.frames f i hmem hreq
  exact ⟨tx, hp.screenedBy hgate.accepted.admitted, hgate.passed.same⟩

/-- A route and a limit for Visa.  Other cards have no route. -/
def visaTables : Tables :=
  ⟨[], [⟨1, "VISA", "OFFLINE", 500, 80, 1, true⟩],
    [⟨some 1, "4", "ExternalNode", some "MockVisaNode", none, 1, true⟩]⟩

def riskyPurchase : UniversalPaymentEvent :=
  { purchase "000100" "RRN000000001" with riskScore := 75 }

def mastercardPurchase : UniversalPaymentEvent :=
  { purchase "000101" "RRN000000002" with fpan := asBytes "5555666677778888" }

/-- The route of Visa changes after the SELECT.  A SELECT that fails is overtaken. -/
def rerouted : List OperatedAction :=
  [.publish .stip none, .publish .routes (some "database is locked"), .publish .routes none,
    .request true (.updateRoute 1 ⟨"ExternalNode", some "MockMastercardNode", none⟩),
    .deliver 0, .deliver 1, .deliver 2] ++
    (accept 0 riskyPurchase ++ forward 0 true ++ accept 0 mastercardPurchase ++
      [Action.ingress 0 (.outcome true), .ingress 0 .run, .ingress 0 .run]).map .engine

def operating (actions : List OperatedAction) : Operated × Operations :=
  Transition.noted (step id) (fun z a => [(z, a)]) (start visaTables 100 ∅) actions

set_option maxRecDepth 8000 in
theorem forwarded_by_tables_rerouted :
    ((operating rerouted).2.ChosenBy 1 riskyPurchase.fpan (.externalNode "MockVisaNode") 0 ∧
      ∃ tx, (operating rerouted).2.ScreenedBy 1 tx ∧
        { riskyPurchase with stan := "000000" } = { tx with stan := "000000", pinBlock := [] }) ∧
    (operating rerouted).2.DeclinedBy 6 7 (mastercardPurchase.answer "0110" "05") := by
  have hp : Operating id (operating rerouted) :=
    Transition.Noted.of_complies ⟨visaTables, 100, ∅, rfl⟩ (by decide +kernel)
  have hframe : .placed ⟨.ingress 1, .externalNode "MockVisaNode", 0,
      { riskyPurchase with stan := "000000" }⟩ ∈ (operating rerouted).1.engine.trace := by
    decide +kernel
  have hdecline : .responded 6 (.unrouted 7) (mastercardPurchase.answer "0110" "05") ∈
      (operating rerouted).1.engine.trace := by decide +kernel
  exact ⟨(forwarded_by_tables hp).1 _ 1 hframe rfl, (forwarded_by_tables hp).2 _ _ _ hdecline⟩

end Operated

end Iso8583Switch
