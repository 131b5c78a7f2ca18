import Iso8583Switch.Daemon.PolledEngine
import Iso8583Switch.Properties.ForwardingGate

/-!
# Sanctions while they are polled

The poller writes to the cache key by key, and a worker may look its BIN up between any two
accesses.  `Blocked` is said of a PAN whose BIN was among the rows of the last poll that is
through, and is among those of the poll under way, if there is one.  No such PAN passes the
compliance test, and no PAN fails it whose BIN is in neither (`sanctions_hold`).

A scan that fails half way is a poll like others.  What it has not read is not blocked any
more when it is through.
-/

namespace Iso8583Switch

open Text TableCache InPlaceUpdate Transition

/-- A row of the list has the first six bytes of the PAN for its BIN. -/
def Listed (toLowercase toUppercase : String → String) (rows : List SanctionsListRow)
    (tx : UniversalPaymentEvent) : Prop :=
  ∃ bin row, slice (fromUtf8Lossy tx.fpan) 0 6 = some bin ∧ row ∈ rows ∧
    row.key toLowercase toUppercase = "bin:" ++ bin

/-- The steps of the engine and its poller, each with the state that it was taken in. -/
abbrev Polls := List (PolledEngine × PolledAction)

namespace Engine

theorem background_compliance : Background Engine.compliance where
  log _ _ := rfl
  setGuard _ _ _ := rfl
  removed _ _ := rfl
  setIngress _ _ _ := rfl
  setHsm _ _ _ := rfl
  mem _ _ := rfl
  stipDb _ _ := rfl

/-- Nobody but the poller writes to the cache. -/
theorem step_compliance {s t : Engine} {a : Action} (h : s.step a = some t)
    (ha : ∀ cache, a ≠ .pollSanctions cache) : t.compliance = s.compliance := by
  cases a with
  | ingress => exact background_compliance.ingressStep h
  | hsm => exact background_compliance.hsmStep h
  | reaper =>
      exact background_compliance.toLocal.reaperStep (fun _ _ => rfl) (fun _ _ => rfl) h
  | reply =>
      exact background_compliance.toLocal.replyStep (fun _ _ _ => rfl) (fun _ _ _ => rfl) h
  | probe node secs ok =>
      obtain ⟨channel, -, rfl⟩ := Option.map_eq_some_iff.mp h
      exact background_compliance.probe s node channel secs ok
  | pollSanctions cache => exact absurd rfl (ha cache)
  | tick | storeStip | storeCrdb | storeRouter | bank => cases h; rfl

/-! ## RC 93 -/

/-- Nothing of what the step notes is an RC 93 of the test. -/
def Untested (s t : Engine) : Prop :=
  ∃ l, t.trace = s.trace ++ l ∧ ∀ r reply, Event.responded r .compliance reply ∉ l

section Decline

variable {s t : Engine} {w : Nat} {input : Input} {a : Action} {r : Responder}
  {reply : UniversalPaymentEvent}

theorem Untested.not_mem (h : s.Untested t) {l : List Event} (hl : t.trace = s.trace ++ l) :
    .responded r .compliance reply ∉ l := by
  obtain ⟨l', hl', hno⟩ := h
  rw [List.append_cancel_left (hl.symm.trans hl')]
  exact hno r reply

theorem untested_setIngress (s : Engine) (w : Nat) (pc : IngressPc) :
    s.Untested (s.setIngress w pc) :=
  ⟨[], (List.append_nil _).symm, fun _ _ => List.not_mem_nil⟩

theorem untested_declineFront (s : Engine) (w : Nat) (ctx : TransactionContext) {source : Source}
    (reply : UniversalPaymentEvent) (hsource : source ≠ .compliance) :
    s.Untested (s.declineFront w ctx source reply) := by
  refine ⟨_, respond_trace s ctx.responder source reply, fun r reply' hmem => ?_⟩
  obtain ⟨r', -, heq⟩ := mem_answers.mp hmem
  injection heq with _ heq
  exact hsource heq.symm

theorem untested_tspDetokenizer (s : Engine) (w : Nat) (ctx : TransactionContext) :
    s.Untested (s.tspDetokenizer w ctx) := by
  unfold tspDetokenizer
  dsimp only
  split
  · split
    · split <;> exact untested_setIngress s w _
    · exact untested_declineFront s w ctx _ Source.noConfusion
  · exact untested_setIngress s w _

theorem untested_riskPreScreen (s : Engine) (w : Nat) (ctx : TransactionContext) :
    s.Untested (s.riskPreScreen w ctx) := by
  unfold riskPreScreen
  split
  · exact untested_declineFront s w ctx _ Source.noConfusion
  · exact untested_setIngress s w _

theorem untested_guardEntry (s : Engine) (w : Nat) (ctx : TransactionContext) :
    s.Untested (s.guardEntry w ctx) := by
  unfold guardEntry
  dsimp only
  split
  · exact untested_declineFront s w ctx _ Source.noConfusion
  · exact ⟨_, rfl, by simp⟩

theorem untested_dispatch (s : Engine) (w : Nat) (ctx : TransactionContext) :
    s.Untested (s.dispatch w ctx) := by
  have hfinish : s.Untested (s.finishReversal w ctx []) :=
    untested_declineFront s w ctx _ Source.noConfusion
  unfold dispatch
  split
  · exact untested_declineFront s w ctx _ Source.noConfusion
  · split
    · split
      · split
        · split <;> exact untested_setIngress s w _
        · exact hfinish
      · exact hfinish
    · exact untested_guardEntry s w ctx

theorem untested_scanStep {ctx : TransactionContext} {origStan : String} {scan : Scan}
    {marked : List Serial} (h : s.scanStep w ctx origStan scan marked input = some t) :
    s.Untested t := by
  unfold scanStep at h
  split at h
  · split at h
    · split at h <;> cases h
      unfold visitReversal
      split
      · exact ⟨[_, _], List.append_assoc _ _ _, by simp⟩
      · exact untested_setIngress s w _
    · cases h
  · split at h <;> cases h
    exact untested_setIngress s w _
  · split at h <;> cases h
    exact untested_declineFront s w ctx _ Source.noConfusion
  · cases h

/-- Behind the guard a worker declines for other reasons. -/
theorem untested_carry {i : Serial} {key : String} {ctx : TransactionContext} {stage : Stage}
    {pc : IngressPc} {l : List Event} (h : CarryPath s i key ctx input stage pc l) :
    .responded r .compliance reply ∉ l := by
  intro hmem
  cases h with
  | decline hl =>
      obtain ⟨entry, reply', -, he⟩ := hl _ hmem
      obtain ⟨r', -, heq⟩ := mem_answers.mp he
      cases heq
  | _ => simp [mem_answers] at hmem

/-- A worker is at its test, or it notes no RC 93 of it. -/
theorem ingressStep_tested (h : s.ingressStep w input = some t) : s.Untested t ∨
    ∃ ctx, input = .run ∧ s.ingress w = .received ctx ∧ t = s.complianceInterceptor w ctx := by
  obtain ⟨pc, l, hpath, htook⟩ := ingressStep_path h
  unfold ingressStep at h
  split at h
  case h_1 tx answerable hpc =>
    cases h
    exact .inl ⟨_, rfl, by simp⟩
  case h_2 ctx hpc => exact .inr ⟨ctx, rfl, hpc, (Option.some.inj h).symm⟩
  case h_3 ctx hpc => exact .inl (Option.some.inj h ▸ untested_tspDetokenizer s w ctx)
  case h_4 ctx hpc => exact .inl (Option.some.inj h ▸ untested_riskPreScreen s w ctx)
  case h_5 ctx hpc => exact .inl (Option.some.inj h ▸ untested_dispatch s w ctx)
  case h_6 => exact .inl (untested_scanStep h)
  case h_7 hpc =>
    rw [hpc] at hpath
    refine .inl ⟨l, htook.trace, fun r reply hmem => ?_⟩
    cases hpath with
    | answer | panic => cases hmem
    | carry hcarry => exact untested_carry hcarry hmem
  case h_8 hpc =>
    rw [hpc] at hpath
    refine .inl ⟨l, htook.trace, fun r reply hmem => ?_⟩
    cases hpath with
    | answer | panic => cases hmem
    | evict hl =>
        obtain ⟨i, heq⟩ := hl _ hmem
        cases heq
  case h_9 => cases h

/-- Only the test declines for the sake of compliance. -/
theorem step_blocked (h : s.step a = some t) {l : List Event} (hl : t.trace = s.trace ++ l)
    (hmem : .responded r .compliance reply ∈ l) :
    ∃ w tx, a = .ingress w .run ∧ s.ingress w = .received ⟨tx, some r⟩ ∧
      s.compliance.evaluate tx = some true ∧ reply = tx.answer "0110" "93" := by
  cases step_path h hl with
  | @ingress w =>
      rcases ingressStep_tested h with huntested | ⟨ctx, rfl, hpc, rfl⟩
      · exact absurd hmem (huntested.not_mem hl)
      · obtain ⟨tx, responder⟩ := ctx
        unfold complianceInterceptor at hl
        split at hl
        next => exact absurd hmem ((untested_setIngress s w _).not_mem hl)
        next heval =>
          have hanswers : s.trace ++ answers responder .compliance (tx.answer "0110" "93") =
              s.trace ++ l := (respond_trace s responder .compliance _).symm.trans hl
          obtain ⟨r', hr, heq⟩ := mem_answers.mp (List.append_cancel_left hanswers ▸ hmem)
          cases heq
          exact ⟨w, tx, rfl, hr ▸ hpc, heval, rfl⟩
        next => exact absurd hmem ((untested_setIngress s w _).not_mem hl)
  | @hsm i _ _ _ hpath =>
      generalize s.hsm i = pc at hpath
      cases hpath <;> simp [mem_answers] at hmem
  | reaper hreaper => cases hreaper _ hmem
  | reply hpath => cases hpath.ofReply _ hmem
  | bank | probe | silent => simp at hmem

/-- Whoever got RC 93 had a request tested that the guard caught. -/
theorem Chronicled.blocked {p : Engine × Chronicle} (hp : Chronicled p)
    (hmem : .responded r .compliance reply ∈ p.1.trace) :
    ∃ before u w tx later, p.2 = before ++ (u, .ingress w .run) :: later ∧
      u.ingress w = .received ⟨tx, some r⟩ ∧ u.compliance.evaluate tx = some true ∧
      reply = tx.answer "0110" "93" := by
  refine hp.invariant (I := fun p => .responded r .compliance reply ∈ p.1.trace →
    ∃ before u w tx later, p.2 = before ++ (u, .ingress w .run) :: later ∧
      u.ingress w = .received ⟨tx, some r⟩ ∧ u.compliance.evaluate tx = some true ∧
      reply = tx.answer "0110" "93") ?_ ?_ hmem
  · rintro ⟨s, h⟩ ⟨hinit, -⟩ hmem
    rw [hinit.trace] at hmem
    cases hmem
  · rintro q q' hq ih ⟨a, -, hnoted⟩ hmem
    obtain ⟨hstep, hnotes⟩ := noting_eq_some hnoted
    have hreach : Reachable Transition.Free q.1 := Noted.state (fun _ _ _ => trivial) hq
    obtain ⟨l, hl⟩ := step_trace_append hreach.disowned hstep
    rw [hl, List.mem_append] at hmem
    rcases hmem with hold | hnew
    · obtain ⟨before, u, w, tx, later, hsplit, hrest⟩ := ih hold
      exact ⟨before, u, w, tx, later ++ [(q.1, a)], by rw [hnotes, hsplit]; simp, hrest⟩
    · obtain ⟨w, tx, rfl, hrest⟩ := step_blocked hstep hl hnew
      exact ⟨q.2, q.1, w, tx, [], hnotes, hrest⟩

end Decline

end Engine

/-- The iteration that has accepted a request began with its test. -/
theorem Chronicle.Admitted.tested {h : Chronicle} {w : Nat} {i : Serial}
    {tx₀ tx : UniversalPaymentEvent} {since : Chronicle} (hadmitted : h.Admitted w i tx₀ tx since) :
    ∃ before u between v,
      h = before ++ (u, .ingress w .run) :: (between ++ (v, .ingress w .run) :: since) ∧
      Chronicle.SameIteration between w ∧ Chronicle.Received before w tx₀ ∧
      u.compliance.evaluate tx₀ = some false := by
  obtain ⟨_, v, rfl, ⟨_, v₁, ⟨others₁, rfl, hothers₁⟩, ⟨_, v₂, ⟨others₂, rfl, hothers₂⟩,
    ⟨before, u, ⟨others₃, rfl, hothers₃⟩, hreceived, heval⟩, -⟩, -⟩, -, -⟩ := hadmitted
  refine ⟨before, u,
    others₃ ++ (v₂, .ingress w .run) :: (others₂ ++ (v₁, .ingress w .run) :: others₁), v, by simp,
    fun x hx tx answerable heq => ?_, hreceived, heval⟩
  simp only [List.mem_append, List.mem_cons] at hx
  rcases hx with hx | rfl | hx | rfl | hx
  · exact hothers₃ x hx _ heq
  · cases heq
  · exact hothers₂ x hx _ heq
  · cases heq
  · exact hothers₁ x hx _ heq

namespace PolledEngine

variable {toLowercase toUppercase : String → String} {z z' : PolledEngine} {a : PolledAction}
  {p : PolledEngine × Polls} {tx : UniversalPaymentEvent} {rows : List SanctionsListRow}

/-! ## What a poll reads -/

theorem follows_tempCache (rows : List SanctionsListRow) :
    Follows (tempCache toLowercase toUppercase rows)
      (rows.map fun row => (row.key toLowercase toUppercase, some "block")) := by
  refine (follows_upsertAll_iff _ _).mpr ⟨fun k => lastValue_map_ne _ _ _ _, fun k h => ?_⟩
  rw [DashMap.get_empty] at h
  cases h

theorem isSome_get_tempCache (rows : List SanctionsListRow) (key : String) :
    ((tempCache toLowercase toUppercase rows).get key).isSome = true ↔
      ∃ row ∈ rows, row.key toLowercase toUppercase = key := by
  rw [(follows_tempCache rows).isSome_get_iff, List.map_map, List.mem_map]
  rfl

theorem listed_iff : Listed toLowercase toUppercase rows tx ↔
    ∃ bin, slice (fromUtf8Lossy tx.fpan) 0 6 = some bin ∧
      ((tempCache toLowercase toUppercase rows).get ("bin:" ++ bin)).isSome = true := by
  simp only [isSome_get_tempCache]
  constructor
  · rintro ⟨bin, row, hbin, hrow, hkey⟩
    exact ⟨bin, hbin, row, hrow, hkey⟩
  · rintro ⟨bin, hbin, row, hrow, hkey⟩
    exact ⟨bin, row, hbin, hrow, hkey⟩

/-- What the guard finds. -/
theorem evaluate_iff (guard : ComplianceGuard) : guard.evaluate tx = some true ↔
    ∃ bin, slice (fromUtf8Lossy tx.fpan) 0 6 = some bin ∧
      (guard.cache.get ("bin:" ++ bin)).isSome = true := by
  unfold ComplianceGuard.evaluate
  dsimp only
  split
  · rw [Option.map_eq_some_iff]
  next hshort =>
    refine iff_of_false (by simp) ?_
    rintro ⟨bin, hbin, -⟩
    exact hshort (le_len_of_slice hbin)

/-- The BIN was in force in the last poll that is through, and is so in the one under way. -/
def Blocked (toLowercase toUppercase : String → String) (z : PolledEngine)
    (tx : UniversalPaymentEvent) : Prop :=
  Listed toLowercase toUppercase z.ended tx ∧
    (z.phase.target.isSome = true → Listed toLowercase toUppercase z.read tx)

/-- It was so in one of them. -/
def Suspected (toLowercase toUppercase : String → String) (z : PolledEngine)
    (tx : UniversalPaymentEvent) : Prop :=
  Listed toLowercase toUppercase z.ended tx ∨
    (z.phase.target.isSome = true ∧ Listed toLowercase toUppercase z.read tx)

/-! ## The cache between two accesses -/

/-- What is in the cache while the poller works on it. -/
structure Polled (toLowercase toUppercase : String → String) (z : PolledEngine) : Prop where
  consistent : (z.updating toLowercase toUppercase).Consistent
  target : ∀ target, z.phase.target = some target →
    target = tempCache toLowercase toUppercase z.read

/-- A BIN that is blocked is found. -/
theorem Polled.evaluate_of_blocked (hz : z.Polled toLowercase toUppercase)
    (hblocked : z.Blocked toLowercase toUppercase tx) :
    z.engine.compliance.evaluate tx = some true := by
  obtain ⟨hended, hread⟩ := hblocked
  obtain ⟨bin, hbin, hold⟩ := listed_iff.mp hended
  refine (evaluate_iff _).mpr ⟨bin, hbin, hz.consistent.never_missed hold fun target htarget => ?_⟩
  obtain ⟨bin', hbin', hnew⟩ :=
    listed_iff.mp (hread (Option.isSome_iff_exists.mpr ⟨target, htarget⟩))
  obtain rfl : bin = bin' := Option.some.inj (hbin.symm.trans hbin')
  rw [hz.target target htarget]
  exact hnew

/-- A BIN that is found is suspected. -/
theorem Polled.suspected_of_evaluate (hz : z.Polled toLowercase toUppercase)
    (h : z.engine.compliance.evaluate tx = some true) :
    z.Suspected toLowercase toUppercase tx := by
  obtain ⟨bin, hbin, hfound⟩ := (evaluate_iff _).mp h
  rcases hz.consistent.no_stranger hfound with hold | ⟨target, htarget, hnew⟩
  · exact .inl (listed_iff.mpr ⟨bin, hbin, hold⟩)
  · rw [hz.target target htarget] at hnew
    exact .inr ⟨Option.isSome_iff_exists.mpr ⟨target, htarget⟩, listed_iff.mpr ⟨bin, hbin, hnew⟩⟩

/-! ## Every run -/

/-- The runs of the engine with its poller, and their steps. -/
abbrev Polling (toLowercase toUppercase : String → String) : PolledEngine × Polls → Prop :=
  Noted (fun z => ∃ timeoutMs stipDb rows, z = start (Engine.start timeoutMs stipDb) rows)
    (step toLowercase toUppercase) (fun z a => [(z, a)]) fun _ _ => True

/-- An action of the engine that is not the poller's. -/
theorem moves_engine {a b : Action} (h : z.moves toLowercase toUppercase (.engine a) = some b) :
    b = a ∧ ∀ cache, b ≠ .pollSanctions cache := by
  cases a <;> cases h <;> exact ⟨rfl, fun cache => Action.noConfusion⟩

/-- A step of the whole is a step of the engine or leaves it alone. -/
theorem step_engine (hstep : z.step toLowercase toUppercase a = some z') :
    (z.moves toLowercase toUppercase a = none ∧ z'.engine = z.engine) ∨
      ∃ b, z.moves toLowercase toUppercase a = some b ∧ z.engine.step b = some z'.engine := by
  cases a with
  | engine =>
      obtain ⟨e, he, rfl⟩ := Option.map_eq_some_iff.mp hstep
      exact .inr (Option.bind_eq_some_iff.mp he)
  | change =>
      cases hstep
      exact .inl ⟨rfl, rfl⟩
  | poll =>
      obtain ⟨u, -, rfl⟩ := Option.map_eq_some_iff.mp hstep
      exact .inl ⟨rfl, rfl⟩
  | update =>
      obtain ⟨u, hu, hstep⟩ := Option.bind_eq_some_iff.mp hstep
      obtain ⟨e, he, rfl⟩ := Option.map_eq_some_iff.mp hstep
      exact .inr ⟨_, by rw [moves, hu]; rfl, he⟩

end PolledEngine

/-- The steps of the engine in a run. -/
def Polls.engine (toLowercase toUppercase : String → String) (h : Polls) : Chronicle :=
  partOf PolledEngine.engine (PolledEngine.moves toLowercase toUppercase) h

namespace PolledEngine

variable {toLowercase toUppercase : String → String} {z z' : PolledEngine} {a : PolledAction}
  {p : PolledEngine × Polls}

theorem Polling.chronicled (hp : Polling toLowercase toUppercase p) :
    Engine.Chronicled (p.1.engine, p.2.engine toLowercase toUppercase) := by
  change Engine.Chronicled
    (PolledEngine.engine p.1, partOf PolledEngine.engine (moves toLowercase toUppercase) p.2)
  refine Noted.part ?_ (fun z z' a hstep => by exact step_engine hstep) hp
  rintro z ⟨timeoutMs, stipDb, rows, rfl⟩
  exact Engine.start_initial timeoutMs stipDb

/-- No step breaks what is in the cache. -/
theorem Polled.step (hz : z.Polled toLowercase toUppercase)
    (hstep : z.step toLowercase toUppercase a = some z') : z'.Polled toLowercase toUppercase := by
  cases a with
  | engine a =>
      obtain ⟨e, he, rfl⟩ := Option.map_eq_some_iff.mp hstep
      obtain ⟨b, hb, he⟩ := Option.bind_eq_some_iff.mp he
      have hsame := Engine.step_compliance he (moves_engine hb).2
      refine ⟨?_, hz.target⟩
      rw [updating]
      dsimp only
      rw [hsame]
      exact hz.consistent
  | change rows =>
      cases hstep
      exact ⟨hz.consistent, hz.target⟩
  | poll readable =>
      obtain ⟨u, hu, rfl⟩ := Option.map_eq_some_iff.mp hstep
      have hbegun := hz.consistent.begin hu
      obtain rfl := Updating.begin_eq hu
      exact ⟨hbegun, fun target htarget => (Option.some.inj htarget).symm⟩
  | update b =>
      obtain ⟨u, hu, hstep⟩ := Option.bind_eq_some_iff.mp hstep
      obtain ⟨e, he, rfl⟩ := Option.map_eq_some_iff.mp hstep
      have hnext := hz.consistent.step hu
      have hcache : e = { z.engine with compliance := ⟨u.cache⟩ } := by
        cases he
        rfl
      rcases Updating.step_last hu with ⟨hidle, hlast⟩ | ⟨hphase, htarget, hlast⟩
      · have hread : u.last = tempCache toLowercase toUppercase z.read := hz.target _ hlast
        rw [hidle]
        refine ⟨?_, fun target htarget => by cases htarget⟩
        rw [updating, hcache]
        dsimp only
        rw [← hread, ← hidle]
        exact hnext
      · split
        next hidle => exact absurd hidle hphase
        next =>
          refine ⟨?_, fun target h => hz.target target (htarget ▸ h)⟩
          have hsame : u.last = tempCache toLowercase toUppercase z.ended := hlast
          rw [updating, hcache]
          dsimp only
          rw [← hsame]
          exact hnext

theorem polled_start (engine : Engine) (hengine : engine.compliance.cache = ∅)
    (rows : List SanctionsListRow) : (start engine rows).Polled toLowercase toUppercase where
  consistent key := by
    change engine.compliance.cache.get key = (∅ : DashMap String String).get key
    rw [hengine]
  target target htarget := by cases htarget

theorem Polling.polled (hp : Polling toLowercase toUppercase p) :
    p.1.Polled toLowercase toUppercase := by
  refine hp.invariant (I := fun p => p.1.Polled toLowercase toUppercase) ?_ ?_
  · rintro ⟨z, h⟩ ⟨⟨timeoutMs, stipDb, rows, rfl⟩, -⟩
    exact polled_start _ rfl rows
  · rintro q q' - hq ⟨a, -, hnoted⟩
    exact hq.step (noting_eq_some hnoted).1

/-- A worker moves in steps of its own. -/
theorem eq_of_moves_ingress {w : Nat} {input : Input}
    (h : z.moves toLowercase toUppercase a = some (.ingress w input)) :
    a = .engine (.ingress w input) := by
  cases a with
  | engine b => rw [(moves_engine h).1]
  | change | poll => cases h
  | update =>
      obtain ⟨u, -, heq⟩ := Option.map_eq_some_iff.mp h
      cases heq

end PolledEngine

open PolledEngine

variable {toLowercase toUppercase : String → String} {p : PolledEngine × Polls}

/-- Worker `w` has tested the request while the whole was in this state. -/
def Polls.Tested (toLowercase toUppercase : String → String) (h : Polls) (w : Nat)
    (tx : UniversalPaymentEvent) (z : PolledEngine) (later : Polls) : Prop :=
  ∃ earlier, h = earlier ++ (z, .engine (.ingress w .run)) :: later ∧
    (earlier.engine toLowercase toUppercase).Received w tx

/-- A test of the engine is one of the whole. -/
theorem PolledEngine.Polling.tested (hp : Polling toLowercase toUppercase p)
    {before later : Chronicle} {u : Engine} {w : Nat} {tx : UniversalPaymentEvent}
    (hsplit : p.2.engine toLowercase toUppercase = before ++ (u, .ingress w .run) :: later)
    (hreceived : before.Received w tx) :
    ∃ z rest, z.Polled toLowercase toUppercase ∧ z.engine = u ∧
      Polls.Tested toLowercase toUppercase p.2 w tx z rest ∧
      Polls.engine toLowercase toUppercase rest = later := by
  obtain ⟨earlier, ⟨z, a⟩, rest, hp₂, hearlier, rfl, hmoves⟩ := partOf_split hsplit
  obtain rfl := eq_of_moves_ingress hmoves
  have hbefore : Polling toLowercase toUppercase (z, earlier) := hp.before hp₂
  refine ⟨z, rest, hbefore.polled, rfl, ⟨earlier, hp₂, ?_⟩, ?_⟩
  · rw [Polls.engine, hearlier]
    exact hreceived
  · rw [hp₂, Polls.engine, partOf, List.filterMap_append, List.filterMap_cons, hmoves] at hsplit
    exact List.cons_inj_right _ |>.mp (List.append_cancel_left (hearlier ▸ hsplit))

/-- A request is forwarded after a test at which its BIN was not blocked, and RC 93 goes to
whoever had a request tested whose BIN was suspected. -/
theorem PolledEngine.sanctions_hold (hp : Polling toLowercase toUppercase p) :
    (∀ f i, .placed f ∈ p.1.engine.trace → f.origin.request = some i →
      ∃ w tx₀ tx since z later between u,
        Engine.AcceptedBy (p.1.engine, p.2.engine toLowercase toUppercase) w i tx₀ tx since ∧
        p.2.Tested toLowercase toUppercase w tx₀ z later ∧
        later.engine toLowercase toUppercase = between ++ (u, .ingress w .run) :: since ∧
        Chronicle.SameIteration between w ∧ ¬ z.Blocked toLowercase toUppercase tx₀) ∧
      ∀ r reply, .responded r .compliance reply ∈ p.1.engine.trace →
        ∃ w tx z later, p.2.Tested toLowercase toUppercase w tx z later ∧
          z.engine.ingress w = .received ⟨tx, some r⟩ ∧ reply = tx.answer "0110" "93" ∧
          z.Suspected toLowercase toUppercase tx := by
  have hchronicled := Polling.chronicled hp
  constructor
  · intro f i hplaced hreq
    obtain ⟨w, tx₀, tx, since, hgate⟩ := hchronicled.gated.frames f i hplaced hreq
    obtain ⟨before, u, between, v, hsplit, hsame, hreceived, heval⟩ :=
      hgate.accepted.admitted.tested
    obtain ⟨z, later, hpolled, rfl, htested, hlater⟩ := Polling.tested hp hsplit hreceived
    refine ⟨w, tx₀, tx, since, z, later, between, v, hgate.accepted, htested, hlater, hsame,
      fun hblocked => ?_⟩
    rw [hpolled.evaluate_of_blocked hblocked] at heval
    cases heval
  · intro r reply hmem
    obtain ⟨before, u, w, tx, later, hsplit, hpc, heval, hreply⟩ := hchronicled.blocked hmem
    have hworks := (Engine.Chronicled.gated (hchronicled.before hsplit)).workers w
    dsimp only at hworks
    rw [hpc] at hworks
    obtain ⟨z, rest, hpolled, rfl, htested, -⟩ := Polling.tested hp hsplit hworks
    exact ⟨w, tx, z, rest, htested, hpc, hreply, hpolled.suspected_of_evaluate heval⟩

/-! ## A purchase while the list is polled -/

namespace PolledEngine

open Engine

/-- One BIN of Visa is blocked. -/
def visaBlocked : List SanctionsListRow := [⟨"bin", "411122", "block", true⟩]

def blockedPurchase : UniversalPaymentEvent :=
  { purchase "000101" "RRN000000002" with fpan := asBytes "4111222233334444" }

/-- The list is polled, a purchase is forwarded, and while the list is polled again another one
is tested. -/
def pollingActions : List PolledAction :=
  [.poll 1, .update .retained, .update (.insert "bin:411122"), .update .finish] ++
    ((.storeRouter visaRouter :: (accept 0 (purchase "000100" "RRN000000001") ++ forward 0 true)).map
      .engine ++
    [.poll 1, .engine (.ingress 0 (.receive blockedPurchase true)), .engine (.ingress 0 .run)])

/-- The letters of the rows are in the right case. -/
def pollingRun : PolledEngine × Polls :=
  noted (step id id) (fun z a => [(z, a)]) (start (Engine.start 100 ∅) visaBlocked) pollingActions

set_option maxRecDepth 8000 in
theorem sanctions_hold_polling :
    (∃ w tx₀ z later, pollingRun.2.Tested id id w tx₀ z later ∧ ¬ z.Blocked id id tx₀) ∧
      ∃ w tx z later, pollingRun.2.Tested id id w tx z later ∧
        blockedPurchase.answer "0110" "93" = tx.answer "0110" "93" ∧ z.Suspected id id tx := by
  have hrun : Polling id id pollingRun :=
    Noted.of_complies ⟨100, ∅, visaBlocked, rfl⟩ (by decide +kernel)
  obtain ⟨hplaced, hdeclined⟩ := sanctions_hold hrun
  constructor
  · obtain ⟨w, tx₀, _, _, z, later, _, _, _, htested, -, -, hblocked⟩ :=
      hplaced (purchaseFrame 1 "000000") 1 (by decide +kernel) rfl
    exact ⟨w, tx₀, z, later, htested, hblocked⟩
  · obtain ⟨w, tx, z, later, htested, -, hreply, hsuspected⟩ :=
      hdeclined 6 (blockedPurchase.answer "0110" "93") (by decide +kernel)
    exact ⟨w, tx, z, later, htested, hreply, hsuspected⟩

end PolledEngine

end Iso8583Switch
