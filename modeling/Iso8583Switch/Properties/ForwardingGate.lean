import Iso8583Switch.Flow.Paths
import Iso8583Switch.Flow.Runs

/-!
# The gates in front of an egress channel

What a request has passed when it is placed on an egress channel.  The answers of
the shared memory and of the HSM are gone by then, so a run keeps its chronicle:
every action, with the state that it was taken in.  One iteration of an ingress
worker checks the request and inserts it in the guard.  The same iteration places
it, or hands it to the HSM task, which verifies the MAC and the PIN.
-/

namespace Iso8583Switch

open Text Function

/-- The actions of a run, each with the state that it was taken in. -/
abbrev Chronicle := List (Engine × Action)

namespace Chronicle

/-! ## One iteration of a worker -/

/-- The last step of worker `w`, taken in `u` after `before`. -/
def Last (h : Chronicle) (w : Nat) (before : Chronicle) (u : Engine) (input : Input) : Prop :=
  ∃ others, h = before ++ (u, .ingress w input) :: others ∧
    ∀ x ∈ others, ∀ input', x.2 ≠ .ingress w input'

/-- The worker has taken a context from the ingress channel. -/
def Received (h : Chronicle) (w : Nat) (tx₀ : UniversalPaymentEvent) : Prop :=
  ∃ before u answerable, h.Last w before u (.receive tx₀ answerable)

/-- The BIN of the PAN as received is not blocked. -/
def Cleared (h : Chronicle) (w : Nat) (tx₀ : UniversalPaymentEvent) : Prop :=
  ∃ before u, h.Last w before u .run ∧ Received before w tx₀ ∧
    u.compliance.evaluate tx₀ = some false

end Chronicle

/-- The request after detokenization: a token has been replaced by the PAN that
the vault has for it. -/
inductive TspVault.Resolves (vault : TspVault) (tx₀ : UniversalPaymentEvent) :
    UniversalPaymentEvent → Prop where
  | plain : tx₀.isTokenized = false → vault.Resolves tx₀ tx₀
  | token {realFpan : String} : tx₀.isTokenized = true →
      vault.detokenize (fromUtf8Lossy tx₀.fpan) = some realFpan →
      vault.Resolves tx₀
        { tx₀ with fpan := asBytes realFpan, dpan := some (fromUtf8Lossy tx₀.fpan) }

namespace Chronicle

def Detokenized (h : Chronicle) (w : Nat) (tx₀ tx : UniversalPaymentEvent) : Prop :=
  ∃ before u, h.Last w before u .run ∧ Cleared before w tx₀ ∧ u.mem.tspVault.Resolves tx₀ tx

/-- The risk score is not above the threshold for the network of the PAN. -/
def Screened (h : Chronicle) (w : Nat) (tx₀ tx : UniversalPaymentEvent) : Prop :=
  ∃ before u, h.Last w before u .run ∧ Detokenized before w tx₀ tx ∧
    (tx.riskScore = 0 ∨ tx.riskScore ≤ u.mem.riskThreshold tx.fpan)

/-- The worker has inserted the key of the request, as instance `i`.  The rest of
the run so far is `since`. -/
def Admitted (h : Chronicle) (w : Nat) (i : Serial) (tx₀ tx : UniversalPaymentEvent)
    (since : Chronicle) : Prop :=
  ∃ before u, h = before ++ (u, .ingress w .run) :: since ∧ Screened before w tx₀ tx ∧
    u.trace.length = i ∧ u.guard.get tx₀.guardKey = none

/-- The worker has not begun another iteration. -/
def SameIteration (h : Chronicle) (w : Nat) : Prop :=
  ∀ x ∈ h, ∀ tx answerable, x.2 ≠ .ingress w (.receive tx answerable)

/-! ## The calls of the HSM task -/

/-- `verify_mac` returned `Ok(true)` for the request. -/
def MacVerified (h : Chronicle) (i : Serial) (tx : UniversalPaymentEvent) : Prop :=
  ∃ u ctx route, (u, .hsm i (.verifiedMac (some true))) ∈ h ∧
    u.hsm i = .awaitingMac ctx route ∧ ctx.transaction = tx

/-- A MAC, if there is one, was verified. -/
def MacPassed (h : Chronicle) (i : Serial) (tx : UniversalPaymentEvent) : Prop :=
  tx.macData.isSome = true → h.MacVerified i tx

/-- The task looked for the card of the PAN, and it was in the CRDB. -/
def CardFound (h : Chronicle) (i : Serial) (tx : UniversalPaymentEvent) (pvv : String) : Prop :=
  ∃ u ctx cardRecord, (u, .hsm i .run) ∈ h ∧ u.hsm i = .spawned ctx ∧ ctx.transaction = tx ∧
    u.mem.crdb.cards.get (fromUtf8Lossy tx.fpan) = some cardRecord ∧ cardRecord.pvv = pvv

/-- `verify_pin` returned `Ok(true)` for the request and the PVV. -/
def PinVerified (h : Chronicle) (i : Serial) (tx : UniversalPaymentEvent) (pvv : String) : Prop :=
  ∃ u ctx macValid, (u, .hsm i (.verifiedPin (some true))) ∈ h ∧
    u.hsm i = .awaitingPin ctx (.internalCrdb pvv) macValid ∧ ctx.transaction = tx

/-- `translate_pin` returned this block for the request. -/
def PinTranslated (h : Chronicle) (i : Serial) (tx : UniversalPaymentEvent) (block : String) :
    Prop :=
  ∃ u ctx node failover macValid, (u, .hsm i (.translatedPin (some block))) ∈ h ∧
    u.hsm i = .awaitingPin ctx (.externalNode node failover) macValid ∧ ctx.transaction = tx

/-- What was done about the PIN, and the PIN block that is forwarded. -/
def PinChecked (h : Chronicle) (i : Serial) (tx : UniversalPaymentEvent) (sent : Bytes) :
    RouteDestination → Prop
  | .internalCrdb => sent = tx.pinBlock ∧ ∃ pvv, h.CardFound i tx pvv ∧ h.PinVerified i tx pvv
  | .externalNode _ => ∃ block, sent = asBytes block ∧ h.PinTranslated i tx block

/-- The request has passed the HSM on the way to a destination.  A request without
a MAC and without a PIN passes unseen. -/
structure Passed (h : Chronicle) (i : Serial) (tx sent : UniversalPaymentEvent)
    (destination : RouteDestination) : Prop where
  same : sent = { tx with stan := sent.stan, pinBlock := sent.pinBlock }
  mac : h.MacPassed i tx
  pin : tx.pinBlock ≠ [] → h.PinChecked i tx sent.pinBlock destination
  noPin : tx.pinBlock = [] → sent.pinBlock = []

/-! ## What a longer chronicle keeps -/

section Grow

variable {h more : Chronicle} {w : Nat} {i : Serial} {tx₀ tx sent : UniversalPaymentEvent}
  {u : Engine} {a : Action}

theorem last_self (h : Chronicle) (w : Nat) (u : Engine) (input : Input) :
    Last (h ++ [(u, .ingress w input)]) w h u input :=
  ⟨[], rfl, by simp⟩

theorem Last.grow {before : Chronicle} {v : Engine} {input : Input} (hlast : h.Last w before v input)
    (ha : ∀ input', a ≠ .ingress w input') : Last (h ++ [(u, a)]) w before v input := by
  obtain ⟨others, rfl, hothers⟩ := hlast
  refine ⟨others ++ [(u, a)], by simp, fun x hx input' => ?_⟩
  rcases List.mem_append.mp hx with hx | hx
  · exact hothers x hx input'
  · rw [List.mem_singleton.mp hx]
    exact ha input'

theorem Admitted.grow {since : Chronicle} (hscreened : h.Admitted w i tx₀ tx since) :
    Admitted (h ++ more) w i tx₀ tx (since ++ more) := by
  obtain ⟨before, v, rfl, hscreen, hlen, hget⟩ := hscreened
  exact ⟨before, v, by simp, hscreen, hlen, hget⟩

theorem SameIteration.grow (hsame : h.SameIteration w)
    (ha : ∀ tx answerable, a ≠ .ingress w (.receive tx answerable)) :
    SameIteration (h ++ [(u, a)]) w := by
  intro x hx
  rcases List.mem_append.mp hx with hx | hx
  · exact hsame x hx
  · rw [List.mem_singleton.mp hx]
    exact ha

theorem MacVerified.grow (hmac : h.MacVerified i tx) : MacVerified (h ++ more) i tx := by
  obtain ⟨v, ctx, route, hmem, hpc⟩ := hmac
  exact ⟨v, ctx, route, List.mem_append_left _ hmem, hpc⟩

theorem MacPassed.grow (hmac : h.MacPassed i tx) : MacPassed (h ++ more) i tx :=
  fun hsome => MacVerified.grow (hmac hsome)

theorem CardFound.grow {pvv : String} (hcard : h.CardFound i tx pvv) :
    CardFound (h ++ more) i tx pvv := by
  obtain ⟨v, ctx, cardRecord, hmem, hfound⟩ := hcard
  exact ⟨v, ctx, cardRecord, List.mem_append_left _ hmem, hfound⟩

theorem PinVerified.grow {pvv : String} (hpin : h.PinVerified i tx pvv) :
    PinVerified (h ++ more) i tx pvv := by
  obtain ⟨v, ctx, macValid, hmem, hpc⟩ := hpin
  exact ⟨v, ctx, macValid, List.mem_append_left _ hmem, hpc⟩

theorem PinTranslated.grow {block : String} (hpin : h.PinTranslated i tx block) :
    PinTranslated (h ++ more) i tx block := by
  obtain ⟨v, ctx, node, failover, macValid, hmem, hpc⟩ := hpin
  exact ⟨v, ctx, node, failover, macValid, List.mem_append_left _ hmem, hpc⟩

theorem PinChecked.grow {pin : Bytes} {destination : RouteDestination}
    (hpin : h.PinChecked i tx pin destination) : PinChecked (h ++ more) i tx pin destination := by
  cases destination with
  | internalCrdb =>
      obtain ⟨hsent, pvv, hcard, hverified⟩ := hpin
      exact ⟨hsent, pvv, hcard.grow, hverified.grow⟩
  | externalNode =>
      obtain ⟨block, hsent, htranslated⟩ := hpin
      exact ⟨block, hsent, htranslated.grow⟩

theorem Passed.grow {destination : RouteDestination} (hpass : h.Passed i tx sent destination) :
    Passed (h ++ more) i tx sent destination :=
  ⟨hpass.same, hpass.mac.grow, fun hpin => (hpass.pin hpin).grow, hpass.noPin⟩

end Grow

/-- No section before the guard changes what the key is made of. -/
theorem Screened.guardKey {h : Chronicle} {w : Nat} {tx₀ tx : UniversalPaymentEvent}
    (hscreen : h.Screened w tx₀ tx) : tx.guardKey = tx₀.guardKey := by
  obtain ⟨_, _, -, ⟨_, _, -, -, hresolves⟩, -⟩ := hscreen
  cases hresolves <;> rfl

/-! ## The HSM task -/

/-- What the task knows when it has its route. -/
def Routed (h : Chronicle) (i : Serial) (tx : UniversalPaymentEvent) : HsmRoute → Prop
  | .internalCrdb pvv => h.CardFound i tx pvv
  | .externalNode _ _ => True

end Chronicle

/-- The kind of channel that a route leads to. -/
def HsmRoute.destination : HsmRoute → RouteDestination
  | .internalCrdb _ => .internalCrdb
  | .externalNode node _ => .externalNode node

namespace Chronicle

/-- What the request of a task has passed when the task is at a position. -/
def Handles (h : Chronicle) (i : Serial) (tx : UniversalPaymentEvent) : HsmPc → Prop
  | .spawned ctx => ctx.transaction = tx
  | .awaitingMac ctx route => ctx.transaction = tx ∧ h.Routed i tx route
  | .awaitingPin ctx (.internalCrdb pvv) macValid =>
      ctx.transaction = tx ∧ h.CardFound i tx pvv ∧ (macValid = true → h.MacPassed i tx)
  | .awaitingPin ctx (.externalNode _ _) _ =>
      ctx.transaction = tx ∧ h.MacPassed i tx ∧ tx.pinBlock ≠ []
  | .resolving ctx route => h.Passed i tx ctx.transaction route.destination
  | .checked ctx true (some (destination, _)) => h.Passed i tx ctx.transaction destination
  | .sending ctx destination _ => h.Passed i tx ctx.transaction destination
  | .absent | .checked _ _ _ | .finished => True

section Handles

variable {h more : Chronicle} {i : Serial} {tx : UniversalPaymentEvent} {ctx : TransactionContext}
  {route : HsmRoute}

theorem Handles.grow {pc : HsmPc} (hpc : h.Handles i tx pc) : Handles (h ++ more) i tx pc := by
  unfold Handles at hpc ⊢
  split at hpc
  next => exact hpc
  next =>
    obtain ⟨htx, hroute⟩ := hpc
    refine ⟨htx, ?_⟩
    unfold Routed at hroute ⊢
    split at hroute
    · exact hroute.grow
    · trivial
  next =>
    obtain ⟨htx, hcard, hmac⟩ := hpc
    exact ⟨htx, hcard.grow, fun hvalid => (hmac hvalid).grow⟩
  next =>
    obtain ⟨htx, hmac, hpin⟩ := hpc
    exact ⟨htx, hmac.grow, hpin⟩
  next => exact hpc.grow
  next => exact hpc.grow
  next => exact hpc.grow
  next => trivial
  next => trivial
  next => trivial

/-- A request without a PIN block leaves the task as it came. -/
theorem passed_plain {destination : RouteDestination} (hmac : h.MacPassed i tx)
    (hpin : tx.pinBlock = []) : h.Passed i tx tx destination :=
  ⟨rfl, hmac, fun hne => absurd hpin hne, fun h => h⟩

theorem handles_afterMac {macValid : Bool} (htx : ctx.transaction = tx) (hroute : h.Routed i tx route)
    (hmac : macValid = true → h.MacPassed i tx) :
    h.Handles i tx (Engine.afterMac ctx route macValid) := by
  subst htx
  unfold Engine.afterMac
  dsimp only
  split
  next =>
    split
    next => exact ⟨rfl, hroute, hmac⟩
    next hpin =>
      split
      next hvalid => exact passed_plain (hmac hvalid) (fromUtf8Lossy_eq_empty.mp (not_not.mp hpin))
      next => trivial
  next =>
    split
    next hvalid =>
      split
      next hpin => exact ⟨rfl, hmac hvalid, fun hnil => hpin (fromUtf8Lossy_eq_empty.mpr hnil)⟩
      next hpin => exact passed_plain (hmac hvalid) (fromUtf8Lossy_eq_empty.mp (not_not.mp hpin))
    next => trivial

theorem handles_beforeMac (htx : ctx.transaction = tx) (hroute : h.Routed i tx route) :
    h.Handles i tx (Engine.beforeMac ctx route) := by
  unfold Engine.beforeMac
  split
  next => exact ⟨htx, hroute⟩
  next hnone => exact handles_afterMac htx hroute fun _ hsome => absurd (htx ▸ hsome) hnone

theorem handles_hsmRoute {u : Engine} (htx : ctx.transaction = tx) (hpc : u.hsm i = .spawned ctx)
    (hmem : (u, .hsm i .run) ∈ h) : h.Handles i tx (Engine.hsmRoute u.mem ctx) := by
  unfold Engine.hsmRoute
  split
  next =>
    split
    next =>
      split
      next cardRecord hcard =>
        exact handles_beforeMac htx ⟨u, ctx, cardRecord, hmem, hpc, htx, htx ▸ hcard, rfl⟩
      next => trivial
    next => exact handles_beforeMac htx trivial
  next => trivial

theorem handles_afterVerifyMac {u : Engine} {result : Option Bool} (htx : ctx.transaction = tx)
    (hroute : h.Routed i tx route) (hpc : u.hsm i = .awaitingMac ctx route)
    (hmem : (u, .hsm i (.verifiedMac result)) ∈ h) :
    h.Handles i tx (Engine.afterVerifyMac ctx route result) := by
  refine handles_afterMac htx hroute fun hvalid _ => ?_
  rw [beq_iff_eq] at hvalid
  subst hvalid
  exact ⟨u, ctx, route, hmem, hpc, htx⟩

theorem handles_afterVerifyPin {u : Engine} {pvv : String} {macValid : Bool} {result : Option Bool}
    (htx : ctx.transaction = tx) (hcard : h.CardFound i tx pvv)
    (hmac : macValid = true → h.MacPassed i tx)
    (hpc : u.hsm i = .awaitingPin ctx (.internalCrdb pvv) macValid)
    (hmem : (u, .hsm i (.verifiedPin result)) ∈ h) :
    h.Handles i tx (Engine.afterVerifyPin ctx (.internalCrdb pvv) macValid result) := by
  unfold Engine.afterVerifyPin
  split
  next success =>
    split
    next => trivial
    next hok =>
      simp only [Bool.or_eq_true, Bool.not_eq_true', not_or, Bool.not_eq_false] at hok
      obtain ⟨rfl, hvalid⟩ := hok
      subst htx
      exact ⟨rfl, hmac hvalid, fun _ => ⟨rfl, pvv, hcard, u, ctx, macValid, hmem, hpc, rfl⟩, fun h => h⟩
  next => trivial

theorem handles_afterTranslatePin {u : Engine} {node : String} {failover : Option String}
    {macValid : Bool} {result : Option String} (htx : ctx.transaction = tx)
    (hmac : h.MacPassed i tx) (hpin : tx.pinBlock ≠ [])
    (hpc : u.hsm i = .awaitingPin ctx (.externalNode node failover) macValid)
    (hmem : (u, .hsm i (.translatedPin result)) ∈ h) :
    h.Handles i tx (Engine.afterTranslatePin ctx (.externalNode node failover) result) := by
  unfold Engine.afterTranslatePin
  split
  next block =>
    subst htx
    exact ⟨rfl, hmac, fun _ => ⟨block, rfl, u, ctx, node, failover, macValid, hmem, hpc, rfl⟩,
      fun hnil => absurd hnil hpin⟩
  next => trivial

/-- The channel that is chosen is of the kind that the request has been checked for. -/
theorem handles_targetCh {g : GlobalState} (hpass : h.Passed i tx ctx.transaction route.destination) :
    h.Handles i tx (.checked ctx true (Engine.targetCh g route)) := by
  cases htarget : Engine.targetCh g route with
  | none => trivial
  | some target =>
      obtain ⟨destination, channel⟩ := target
      cases route with
      | internalCrdb pvv =>
          obtain ⟨ch, -, heq⟩ := Option.map_eq_some_iff.mp htarget
          cases heq
          exact hpass
      | externalNode node failover =>
          rw [Engine.targetCh, GlobalState.channelFor] at htarget
          split at htarget
          · obtain ⟨ch, -, heq⟩ := Option.map_eq_some_iff.mp htarget
            cases heq
            exact ⟨hpass.same, hpass.mac, hpass.pin, hpass.noPin⟩
          · cases htarget

end Handles

end Chronicle

/-! ## The engine and its chronicle -/

namespace Engine

/-- The runs of the engine, with their chronicles. -/
abbrev Chronicled : Engine × Chronicle → Prop :=
  Transition.Noted Initial step (fun s a => [(s, a)]) fun _ _ => True

/-- Instance `i` is the request that an iteration of worker `w` has accepted. -/
structure AcceptedBy (p : Engine × Chronicle) (w : Nat) (i : Serial)
    (tx₀ tx : UniversalPaymentEvent) (since : Chronicle) : Prop where
  admitted : p.2.Admitted w i tx₀ tx since
  inserted : ∃ responder, p.1.flow.Inserted i tx₀.guardKey tx responder

/-- What a worker carries, by how far it is with it. -/
def Carries (tx : UniversalPaymentEvent) (ctx : TransactionContext) : Stage → Prop
  | .inserted => ctx.transaction = tx
  | .failed | .debiting _ | .decided => True
  | .journaled | .routed _ _ | .unrouted | .numbered _ _ | .recorded _ _ =>
      tx.pinBlock = [] ∧ tx.macData = none ∧
        ctx.transaction = { tx with stan := ctx.transaction.stan }

/-- What the context of a worker has passed. -/
def Works (p : Engine × Chronicle) (w : Nat) : IngressPc → Prop
  | .received ctx => p.2.Received w ctx.transaction
  | .cleared ctx => p.2.Cleared w ctx.transaction
  | .detokenized ctx => ∃ tx₀, p.2.Detokenized w tx₀ ctx.transaction
  | .screened ctx => ∃ tx₀, p.2.Screened w tx₀ ctx.transaction
  | .carrying i _ ctx stage => ∃ tx₀ tx since,
      AcceptedBy p w i tx₀ tx since ∧ since.SameIteration w ∧ Carries tx ctx stage
  | .idle | .panicked | .scanning _ _ _ _ | .evicting _ => True

/-- The iteration that accepted the request has also placed it. -/
def PlacedBy (f : Frame) (i : Serial) (w : Nat) (since : Chronicle) : Prop :=
  ∃ meanwhile u later, since = meanwhile ++ (u, .ingress w (.outcome true)) :: later ∧
    Chronicle.SameIteration meanwhile w ∧ u.Sends f i (.ingress w (.outcome true))

/-- What a forwarded request has passed: one iteration of a worker has cleared,
detokenized, screened and inserted it, and the HSM has passed it.  A worker sends
it in that same iteration. -/
structure Gate (p : Engine × Chronicle) (f : Frame) (i : Serial) (w : Nat)
    (tx₀ tx : UniversalPaymentEvent) (since : Chronicle) : Prop where
  accepted : AcceptedBy p w i tx₀ tx since
  passed : p.2.Passed i tx f.transaction f.destination
  placed : f.origin = .ingress i → PlacedBy f i w since

structure Gated (p : Engine × Chronicle) : Prop where
  workers : ∀ w, Works p w (p.1.ingress w)
  tasks : ∀ i, p.1.hsm i ≠ .absent → ∃ w tx₀ tx since,
    AcceptedBy p w i tx₀ tx since ∧ p.2.Handles i tx (p.1.hsm i)
  frames : ∀ f i, .placed f ∈ p.1.trace → f.origin.request = some i →
    ∃ w tx₀ tx since, Gate p f i w tx₀ tx since

section Step

variable {p : Engine × Chronicle} {t : Engine} {a : Action} {l : List Event}

theorem AcceptedBy.grow {w : Nat} {i : Serial} {tx₀ tx : UniversalPaymentEvent} {since : Chronicle}
    (h : AcceptedBy p w i tx₀ tx since) (hl : t.trace = p.1.trace ++ l) :
    AcceptedBy (t, p.2 ++ [(p.1, a)]) w i tx₀ tx (since ++ [(p.1, a)]) := by
  obtain ⟨responder, hi⟩ := h.inserted
  have hgrow : t.flow.trace = p.1.flow.trace ++ l := hl
  exact ⟨h.admitted.grow, responder, hi.grow hgrow⟩

theorem Gate.grow {f : Frame} {i : Serial} {w : Nat} {tx₀ tx : UniversalPaymentEvent}
    {since : Chronicle} (h : Gate p f i w tx₀ tx since) (hl : t.trace = p.1.trace ++ l) :
    Gate (t, p.2 ++ [(p.1, a)]) f i w tx₀ tx (since ++ [(p.1, a)]) := by
  refine ⟨h.accepted.grow hl, h.passed.grow, fun horigin => ?_⟩
  obtain ⟨meanwhile, u, later, rfl, hsame, hsends⟩ := h.placed horigin
  exact ⟨meanwhile, u, later ++ [(p.1, a)], by simp, hsame, hsends⟩

/-- A worker that does not move keeps what its context has passed. -/
theorem Works.grow {w : Nat} {pc : IngressPc} (h : Works p w pc) (hl : t.trace = p.1.trace ++ l)
    (ha : ∀ input, a ≠ .ingress w input) : Works (t, p.2 ++ [(p.1, a)]) w pc := by
  cases pc with
  | received ctx =>
      obtain ⟨before, u, answerable, hlast⟩ := h
      exact ⟨before, u, answerable, hlast.grow ha⟩
  | cleared ctx =>
      obtain ⟨before, u, hlast, hrest⟩ := h
      exact ⟨before, u, hlast.grow ha, hrest⟩
  | detokenized ctx | screened ctx =>
      obtain ⟨tx₀, before, u, hlast, hrest⟩ := h
      exact ⟨tx₀, before, u, hlast.grow ha, hrest⟩
  | carrying i key ctx stage =>
      obtain ⟨tx₀, tx, since, haccepted, hsame, hcarries⟩ := h
      exact ⟨tx₀, tx, _, haccepted.grow hl, hsame.grow fun tx answerable => ha _, hcarries⟩
  | idle | panicked | scanning | evicting => trivial

theorem carries_stipDecision (tx : UniversalPaymentEvent) (found : Option (Option CardProfile))
    (ctx : TransactionContext) : Carries tx (stipDecision found ctx).2 (stipDecision found ctx).1 := by
  rcases stipDecision_cases found ctx with ⟨profile, -, heq⟩ | ⟨rc, -, heq⟩ <;> rw [heq] <;> trivial

theorem Works.carry {w : Nat} {i : Serial} {key : String} {ctx : TransactionContext} {stage : Stage}
    {input : Input} {pc : IngressPc} (h : Works p w (.carrying i key ctx stage))
    (hl : t.trace = p.1.trace ++ l) (hpath : CarryPath p.1 i key ctx input stage pc l) :
    Works (t, p.2 ++ [(p.1, .ingress w input)]) w pc := by
  obtain ⟨tx₀, tx, since, haccepted, hsame, hcarries⟩ := h
  have hstay {key' : String} {ctx' : TransactionContext} {stage' : Stage}
      (hinput : ∀ tx answerable, input ≠ .receive tx answerable) (hstage : Carries tx ctx' stage') :
      Works (t, p.2 ++ [(p.1, .ingress w input)]) w (.carrying i key' ctx' stage') := by
    refine ⟨tx₀, tx, _, haccepted.grow hl, hsame.grow fun tx answerable h => ?_, hstage⟩
    simp only [Action.ingress.injEq, true_and] at h
    exact hinput tx answerable h
  cases hpath with
  | journal hneeds =>
      refine hstay (by simp) ?_
      obtain rfl : ctx.transaction = tx := hcarries
      simp only [TransactionContext.needsHsm, Bool.or_eq_false_iff, Bool.not_eq_false',
        List.isEmpty_iff, Option.isSome_eq_false_iff, Option.isNone_iff_eq_none] at hneeds
      exact ⟨hneeds.1, hneeds.2, rfl⟩
  | number =>
      obtain ⟨hpin, hmac, htx⟩ := hcarries
      refine hstay (by simp) ⟨hpin, hmac, ?_⟩
      dsimp only
      rw [htx]
  | route | noRoute | record => exact hstay (by simp) hcarries
  | fail => exact hstay (by simp) trivial
  | fallback => exact hstay (by simp) (carries_stipDecision tx _ ctx)
  | debit => exact hstay (by simp) trivial
  | task | unjournaled | decline | send | undecided | decide => trivial

theorem Works.step {w : Nat} {input : Input} {pc pc' : IngressPc} (h : Works p w pc)
    (hl : t.trace = p.1.trace ++ l) (hpath : IngressPath p.1 input pc pc' l) :
    Works (t, p.2 ++ [(p.1, .ingress w input)]) w pc' := by
  have hlast := Chronicle.last_self p.2 w p.1 input
  cases hpath with
  | receive tx answerable => exact ⟨p.2, p.1, answerable, hlast⟩
  | clear hclear => exact ⟨p.2, p.1, hlast, h, hclear⟩
  | plain hplain => exact ⟨_, p.2, p.1, hlast, h, .plain hplain⟩
  | detokenize htoken hreal => exact ⟨_, p.2, p.1, hlast, h, .token htoken hreal⟩
  | screen hrisk =>
      obtain ⟨tx₀, hdetokenized⟩ := h
      exact ⟨tx₀, p.2, p.1, hlast, hdetokenized, hrisk⟩
  | @accept ctx hreversal hvacant =>
      obtain ⟨tx₀, hscreen⟩ := h
      rw [hscreen.guardKey] at hvacant hl
      have hinserted : t.flow.Inserted p.1.trace.length tx₀.guardKey ctx.transaction ctx.responder := by
        rw [Flow.Inserted, flow_trace, hl]
        exact History.logged_at_length
      exact ⟨tx₀, ctx.transaction, [], ⟨⟨p.2, p.1, rfl, hscreen, rfl, hvacant⟩, _, hinserted⟩,
        by simp [Chronicle.SameIteration], rfl⟩
  | carry hcarry => exact h.carry hl hcarry
  | panic | answer | reverse | mark | pass | evict => trivial

/-! ## Every run -/

theorem Gated.keep_worker (hv : Gated p) (hstep : p.1.step a = some t)
    (hl : t.trace = p.1.trace ++ l) (w : Nat) : Works (t, p.2 ++ [(p.1, a)]) w (t.ingress w) := by
  by_cases ha : ∃ input, a = .ingress w input
  · obtain ⟨input, rfl⟩ := ha
    obtain ⟨pc, l', hpath, htook⟩ := ingressStep_path hstep
    rw [htook.ingress, update_self]
    exact (hv.workers w).step htook.trace hpath
  · have ha' (input : Input) : a ≠ .ingress w input := fun h => ha ⟨input, h⟩
    rw [step_ingress hstep ha']
    exact (hv.workers w).grow hl ha'

theorem Gated.keep_task (hv : Gated p) (hstep : p.1.step a = some t)
    (hl : t.trace = p.1.trace ++ l) {i : Serial} (hpc : t.hsm i ≠ .absent) :
    ∃ w tx₀ tx since, AcceptedBy (t, p.2 ++ [(p.1, a)]) w i tx₀ tx since ∧
      Chronicle.Handles (p.2 ++ [(p.1, a)]) i tx (t.hsm i) := by
  rcases step_hsm hstep i with ⟨input, rfl⟩ | hsame | ⟨w, key, ctx, hcarrying, hspawned⟩
  · obtain ⟨pc, l', hpath, hhsm, -⟩ := hsmStep_path hstep
    have hbefore : p.1.hsm i ≠ .absent := by
      intro habsent
      rw [habsent] at hpath
      cases hpath
    obtain ⟨w, tx₀, tx, since, haccepted, hhandles⟩ := hv.tasks i hbefore
    refine ⟨w, tx₀, tx, _, haccepted.grow hl, ?_⟩
    rw [hhsm, update_self]
    have hmem : (p.1, Action.hsm i input) ∈ p.2 ++ [(p.1, .hsm i input)] := by simp
    generalize hpc₀ : p.1.hsm i = pc₀ at hpath hhandles
    have hgrown : Chronicle.Handles (p.2 ++ [(p.1, .hsm i input)]) i tx pc₀ := hhandles.grow
    cases hpath with
    | route => exact Chronicle.handles_hsmRoute hgrown hpc₀ hmem
    | verifyMac => exact Chronicle.handles_afterVerifyMac hgrown.1 hgrown.2 hpc₀ hmem
    | verifyPin =>
        obtain ⟨htx, hcard, hmac⟩ := hgrown
        exact Chronicle.handles_afterVerifyPin htx hcard hmac hpc₀ hmem
    | translatePin =>
        obtain ⟨htx, hmac, hpin⟩ := hgrown
        exact Chronicle.handles_afterTranslatePin htx hmac hpin hpc₀ hmem
    | resolve => exact Chronicle.handles_targetCh hgrown
    | journal => exact hgrown
    | decline | unjournaled | drop | send | fail => trivial
  · rw [hsame] at hpc ⊢
    obtain ⟨w, tx₀, tx, since, haccepted, hhandles⟩ := hv.tasks i hpc
    exact ⟨w, tx₀, tx, _, haccepted.grow hl, hhandles.grow⟩
  · have hworks := hv.workers w
    rw [hcarrying] at hworks
    obtain ⟨tx₀, tx, since, haccepted, -, htx⟩ := hworks
    rw [hspawned]
    exact ⟨w, tx₀, tx, _, haccepted.grow hl, htx⟩

theorem Gated.keep_frame (hp : Chronicled p) (hv : Gated p) (hstep : p.1.step a = some t)
    (hl : t.trace = p.1.trace ++ l) {f : Frame} {i : Serial} (hmem : .placed f ∈ t.trace)
    (hreq : f.origin.request = some i) :
    ∃ w tx₀ tx since, Gate (t, p.2 ++ [(p.1, a)]) f i w tx₀ tx since := by
  rw [hl, List.mem_append] at hmem
  rcases hmem with hmem | hmem
  · obtain ⟨w, tx₀, tx, since, hgate⟩ := hv.frames f i hmem hreq
    exact ⟨w, tx₀, tx, _, hgate.grow hl⟩
  · have hreach : Reachable Transition.Free p.1 := hp.state fun _ _ _ => trivial
    have hsends := step_sends hstep hl hmem hreq
    cases hsends with
    | @ingress w key ctx hpc hf =>
        have hworks := hv.workers w
        rw [hpc] at hworks
        obtain ⟨tx₀, tx, since, haccepted, hsame, hpin, hmac, htx⟩ := hworks
        refine ⟨w, tx₀, tx, _, haccepted.grow hl, ?_, fun _ => ?_⟩
        · rw [hf]
          refine ⟨?_, fun hsome => ?_, fun hne => absurd hpin hne, fun _ => ?_⟩
          · rw [htx]
          · rw [hmac] at hsome
            cases hsome
          · rw [htx]
            exact hpin
        · exact ⟨since, p.1, [], rfl, hsame, .ingress hpc hf⟩
    | @hsm ctx hpc hf =>
        have hsending : p.1.hsm i ≠ .absent := by
          rw [hpc]
          exact HsmPc.noConfusion
        obtain ⟨w, tx₀, tx, since, haccepted, hhandles⟩ := hv.tasks i hsending
        rw [hpc] at hhandles
        refine ⟨w, tx₀, tx, _, haccepted.grow hl, ?_, fun horigin => ?_⟩
        · rw [hf]
          exact hhandles.grow
        · rw [hf] at horigin
          cases horigin

theorem Chronicled.gated (hp : Chronicled p) : Gated p := by
  refine hp.invariant (fun q hq => ?_) fun q q' hq hv hkeep => ?_
  · obtain ⟨hinit, hempty⟩ := hq
    constructor
    · intro w
      rw [hinit.ingress]
      trivial
    · intro i hpc
      rw [hinit.hsm] at hpc
      exact absurd rfl hpc
    · intro f i hmem
      rw [hinit.trace] at hmem
      cases hmem
  · obtain ⟨a, -, hnoted⟩ := hkeep
    obtain ⟨hstep, hnotes⟩ := Transition.noting_eq_some hnoted
    have hreach : Reachable Transition.Free q.1 := Transition.Noted.state (fun _ _ _ => trivial) hq
    obtain ⟨l, hl⟩ := step_trace_append hreach.disowned hstep
    obtain ⟨t, h⟩ := q'
    obtain rfl : h = q.2 ++ [_] := hnotes
    exact ⟨hv.keep_worker hstep hl, fun i => hv.keep_task hstep hl,
      fun f i => hv.keep_frame hq hstep hl⟩

end Step

/-- Every request on an egress channel has passed the gate. -/
theorem forwarding_gate {p : Engine × Chronicle} (hp : Chronicled p) {f : Frame} {i : Serial}
    (hplaced : .placed f ∈ p.1.trace) (hreq : f.origin.request = some i) :
    ∃ w tx₀ tx since, Gate p f i w tx₀ tx since :=
  hp.gated.frames f i hplaced hreq

/-- A run with its chronicle. -/
def chronicled (actions : List Action) : Engine × Chronicle :=
  Transition.noted step (fun s a => [(s, a)]) (start 100 ∅) actions

/-- A purchase with a PIN, from the terminal through the HSM task. -/
def pinForwarded : List Action := .storeRouter visaRouter :: (accept 0 pinPurchase ++ forwardPin 0 1)

theorem forwarding_gate_pin :
    ∃ w tx₀ tx since, Gate (chronicled pinForwarded) (pinFrame 1) 1 w tx₀ tx since :=
  forwarding_gate (Transition.Noted.of_complies (start_initial 100 ∅) (by decide)) (by decide) rfl

end Engine

end Iso8583Switch
