import Iso8583Switch.Properties.SliceSafety

/-!
# A worker on its own

`Solo` collects the states of an ingress worker while no other thread moves, so that
a law about what the worker makes of one message can be stated on the state it
starts from.  In front of the guard there is one way to go on, and `Solo.head` takes
it.  `Passes` says that a message goes through the compliance interceptor and the
detokenizer, and `highRisk` whether the risk screen stops it.
-/

namespace Iso8583Switch

open Text Function

/-- The test of the risk screen. -/
def GlobalState.highRisk (g : GlobalState) (tx : UniversalPaymentEvent) : Bool :=
  0 < tx.riskScore && g.riskThreshold tx.fpan < tx.riskScore

namespace Engine

/-- The states of worker `w` until it is idle, if only this worker moves. -/
inductive Solo (s : Engine) (w : Nat) : Engine → Prop where
  | start : Solo s w s
  | own {t u : Engine} {input : Input} : Solo s w t → t.ingress w ≠ .idle →
      t.step (.ingress w input) = some u → Solo s w u

/-- The message passes the compliance interceptor, and the detokenizer makes it `tx'`. -/
structure Passes (s : Engine) (tx tx' : UniversalPaymentEvent) : Prop where
  evaluate : s.compliance.evaluate tx = some false
  detokenized : s.mem.tspVault.detokenized tx = some tx'
  cuts : tx.isTokenized = true → tx.cutsDpan = true

namespace Solo

variable {s t u : Engine} {w : Nat}

theorem trans (h : s.Solo w t) (h' : t.Solo w u) : s.Solo w u := by
  induction h' with
  | start => exact h
  | own _ hbusy hstep ih => exact ih.own hbusy hstep

/-- A state whose worker has one way to go on. -/
theorem head {s' : Engine} (hnext : ∀ input u, s.step (.ingress w input) = some u → u = s')
    (h : s.Solo w t) : t = s ∨ s'.Solo w t := by
  induction h with
  | start => exact .inl rfl
  | own _ hbusy hstep ih =>
      rcases ih with rfl | ih
      · rw [hnext _ _ hstep]
        exact .inr .start
      · exact .inr (ih.own hbusy hstep)

theorem of_idle (hidle : s.ingress w = .idle) (h : s.Solo w t) : t = s := by
  induction h with
  | start => rfl
  | own _ hbusy _ ih =>
      rw [ih] at hbusy
      exact absurd hidle hbusy

theorem of_panicked (hpanicked : s.ingress w = .panicked) (h : s.Solo w t) : t = s := by
  induction h with
  | start => rfl
  | own _ _ hstep ih =>
      rw [ih] at hstep
      simp [step, ingressStep, hpanicked] at hstep

end Solo

/-! ## In front of the guard -/

section Front

variable {s t : Engine} {w : Nat} {ctx : TransactionContext} {tx tx' : UniversalPaymentEvent}

/-- Worker `w` has a message and is at `pc`. -/
def holding (s : Engine) (w : Nat) (tx : UniversalPaymentEvent) (answerable : Bool)
    (pc : IngressPc) : Engine :=
  (s.log (.received tx answerable)).setIngress w pc

/-- The context of the message that the worker takes next. -/
def arrival (s : Engine) (tx : UniversalPaymentEvent) (answerable : Bool) : TransactionContext :=
  ⟨tx, if answerable then some s.trace.length else none⟩

variable (answerable : Bool)

theorem receive_eq (s : Engine) (w : Nat) (tx : UniversalPaymentEvent) :
    s.receive w tx answerable = s.holding w tx answerable (.received (s.arrival tx answerable)) :=
  rfl

@[simp] theorem holding_self (s : Engine) (w : Nat) (tx : UniversalPaymentEvent)
    (answerable : Bool) (pc : IngressPc) : (s.holding w tx answerable pc).ingress w = pc :=
  setIngress_self _ _ _

@[simp] theorem setIngress_holding (s : Engine) (w : Nat) (tx : UniversalPaymentEvent)
    (answerable : Bool) (pc pc' : IngressPc) :
    (s.holding w tx answerable pc).setIngress w pc' = s.holding w tx answerable pc' := by
  simp only [holding, setIngress, update_idem]

theorem newEvents_holding (s : Engine) (w : Nat) (tx : UniversalPaymentEvent) (pc : IngressPc) :
    newEvents s (s.holding w tx answerable pc) = [.received tx answerable] :=
  List.drop_left

/-! Each of the four positions has one section as its only step. -/

theorem solo_received (h : (s.holding w tx answerable (.received ctx)).Solo w t) :
    t = s.holding w tx answerable (.received ctx) ∨
      ((s.holding w tx answerable (.received ctx)).complianceInterceptor w ctx).Solo w t := by
  refine h.head fun input u hstep => ?_
  cases input with
  | run => simpa [step, ingressStep, eq_comm] using hstep
  | _ => simp [step, ingressStep] at hstep

theorem solo_cleared (h : (s.holding w tx answerable (.cleared ctx)).Solo w t) :
    t = s.holding w tx answerable (.cleared ctx) ∨
      ((s.holding w tx answerable (.cleared ctx)).tspDetokenizer w ctx).Solo w t := by
  refine h.head fun input u hstep => ?_
  cases input with
  | run => simpa [step, ingressStep, eq_comm] using hstep
  | _ => simp [step, ingressStep] at hstep

theorem solo_detokenized (h : (s.holding w tx answerable (.detokenized ctx)).Solo w t) :
    t = s.holding w tx answerable (.detokenized ctx) ∨
      ((s.holding w tx answerable (.detokenized ctx)).riskPreScreen w ctx).Solo w t := by
  refine h.head fun input u hstep => ?_
  cases input with
  | run => simpa [step, ingressStep, eq_comm] using hstep
  | _ => simp [step, ingressStep] at hstep

theorem solo_screened (h : (s.holding w tx answerable (.screened ctx)).Solo w t) :
    t = s.holding w tx answerable (.screened ctx) ∨
      ((s.holding w tx answerable (.screened ctx)).dispatch w ctx).Solo w t := by
  refine h.head fun input u hstep => ?_
  cases input with
  | run => simpa [step, ingressStep, eq_comm] using hstep
  | _ => simp [step, ingressStep] at hstep

/-! ## What becomes of a message in front of the guard -/

theorem Passes.unique {tx'' : UniversalPaymentEvent} (h : s.Passes tx tx') (h' : s.Passes tx tx'') :
    tx' = tx'' := Option.some.inj (h.detokenized.symm.trans h'.detokenized)

/-- Where the detokenizer lets the message through. -/
theorem tspDetokenizer_passes (h : s.Passes tx tx') (hctx : ctx.transaction = tx) :
    s.tspDetokenizer w ctx = s.setIngress w (.detokenized { ctx with transaction := tx' }) := by
  subst hctx
  have hdetokenized := h.detokenized
  rw [TspVault.detokenized] at hdetokenized
  rw [tspDetokenizer]
  split at hdetokenized
  next htoken =>
    obtain ⟨realFpan, hreal, rfl⟩ := Option.map_eq_some_iff.mp hdetokenized
    rw [if_pos htoken]
    dsimp only
    rw [hreal]
    dsimp only
    rw [ctx.transaction.isSome_dpanSlices, if_pos (h.cuts htoken)]
  next hplain =>
    cases hdetokenized
    rw [if_neg hplain]

theorem tspDetokenizer_cases (hclear : s.compliance.evaluate ctx.transaction = some false) :
    (∃ tx', s.Passes ctx.transaction tx') ∨ s.tspDetokenizer w ctx = s.setIngress w .panicked ∨
      s.tspDetokenizer w ctx =
        s.declineFront w ctx .detokenizer (ctx.transaction.answer "0110" "56") := by
  rw [tspDetokenizer]
  split
  next htoken =>
    dsimp only
    rw [ctx.transaction.isSome_dpanSlices]
    split
    next realFpan hreal =>
      split
      next hcuts =>
        exact .inl ⟨_, hclear, TspVault.detokenized_token htoken hreal, fun _ => hcuts⟩
      next => exact .inr (.inl rfl)
    next => exact .inr (.inr rfl)
  next hplain =>
    refine .inl ⟨ctx.transaction, hclear, ?_, fun h => absurd h hplain⟩
    rw [TspVault.detokenized, if_neg hplain]

theorem highRisk_iff {g : GlobalState} : g.highRisk tx = true ↔
    0 < tx.riskScore ∧ g.riskThreshold tx.fpan < tx.riskScore := by
  rw [GlobalState.highRisk, Bool.and_eq_true, decide_eq_true_eq, decide_eq_true_eq]

theorem riskPreScreen_eq : s.riskPreScreen w ctx =
    if s.mem.highRisk ctx.transaction then
      s.declineFront w ctx .riskScreen (ctx.transaction.answer "0110" "59")
    else s.setIngress w (.screened ctx) := by
  rw [riskPreScreen]
  exact if_congr highRisk_iff.symm rfl rfl

end Front

/-- The worker has neither touched the guard nor posted or placed anything. -/
structure Untouched (s t : Engine) : Prop where
  guard : t.guard = s.guard
  trace : ∃ l, t.trace = s.trace ++ l ∧
    ∀ e ∈ l, (∃ tx answerable, e = .received tx answerable) ∨
      ∃ r source reply, e = .responded r source reply

section Untouched

variable {s t : Engine} {w : Nat} {tx tx' : UniversalPaymentEvent} {answerable : Bool}

theorem untouched_holding (s : Engine) (w : Nat) (tx : UniversalPaymentEvent) (answerable : Bool)
    (pc : IngressPc) : s.Untouched (s.holding w tx answerable pc) := by
  refine ⟨rfl, [.received tx answerable], rfl, fun e he => ?_⟩
  cases List.mem_singleton.mp he
  exact .inl ⟨tx, answerable, rfl⟩

theorem Untouched.declineFront (h : s.Untouched t) (w : Nat) (ctx : TransactionContext)
    (source : Source) (reply : UniversalPaymentEvent) :
    s.Untouched (t.declineFront w ctx source reply) := by
  obtain ⟨hguard, l, htrace, hl⟩ := h
  refine ⟨?_, l ++ answers ctx.responder source reply, ?_, fun e he => ?_⟩
  · show (t.respond ctx.responder source reply).guard = s.guard
    rw [respond_guard, hguard]
  · show (t.respond ctx.responder source reply).trace = _
    rw [respond_trace, htrace, List.append_assoc]
  · rcases List.mem_append.mp he with he | he
    · exact hl e he
    · cases hr : ctx.responder with
      | none =>
          rw [hr] at he
          cases he
      | some r =>
          rw [hr] at he
          cases List.mem_singleton.mp he
          exact .inr ⟨r, source, reply, rfl⟩

/-- A message that passes the first two tests comes to the risk screen. -/
theorem solo_through (hpasses : s.Passes tx tx') (h : (s.receive w tx answerable).Solo w t) :
    (∃ pc, t = s.holding w tx answerable pc) ∨
      ((s.holding w tx answerable
        (.detokenized { s.arrival tx answerable with transaction := tx' })).riskPreScreen w
          { s.arrival tx answerable with transaction := tx' }).Solo w t := by
  rw [receive_eq] at h
  rcases solo_received answerable h with heq | h
  · exact .inl ⟨_, heq⟩
  have hclear : (s.holding w tx answerable
      (.received (s.arrival tx answerable))).compliance.evaluate tx = some false := hpasses.evaluate
  rw [complianceInterceptor, show (s.arrival tx answerable).transaction = tx from rfl, hclear] at h
  dsimp only at h
  rw [setIngress_holding] at h
  rcases solo_cleared answerable h with heq | h
  · exact .inl ⟨_, heq⟩
  have hpasses' : (s.holding w tx answerable (.cleared (s.arrival tx answerable))).Passes tx tx' :=
    ⟨hpasses.evaluate, hpasses.detokenized, hpasses.cuts⟩
  rw [tspDetokenizer_passes hpasses' rfl, setIngress_holding] at h
  rcases solo_detokenized answerable h with heq | h
  · exact .inl ⟨_, heq⟩
  · exact .inr h

/-- A message is stopped in front of the guard, or it passes all three tests. -/
theorem solo_front (h : (s.receive w tx answerable).Solo w t) :
    s.Untouched t ∨ ∃ tx', s.Passes tx tx' ∧ s.mem.highRisk tx' = false ∧
      (s.holding w tx answerable
        (.screened { s.arrival tx answerable with transaction := tx' })).Solo w t := by
  have hheld (pc : IngressPc) := untouched_holding s w tx answerable pc
  by_cases hthrough : ∃ tx', s.Passes tx tx'
  · obtain ⟨tx', hpasses⟩ := hthrough
    rcases solo_through hpasses h with ⟨pc, rfl⟩ | h
    · exact .inl (hheld pc)
    rw [riskPreScreen_eq] at h
    split at h
    next =>
      rw [h.of_idle (declineFront_self _ _ _ _ _)]
      exact .inl ((hheld _).declineFront _ _ _ _)
    next hrisk =>
      rw [setIngress_holding] at h
      exact .inr ⟨tx', hpasses, Bool.eq_false_iff.mpr hrisk, h⟩
  · left
    rw [receive_eq] at h
    rcases solo_received answerable h with rfl | h
    · exact hheld _
    unfold complianceInterceptor at h
    split at h
    next =>
      rw [setIngress_holding] at h
      rw [h.of_panicked (holding_self _ _ _ _ _)]
      exact hheld _
    next =>
      rw [h.of_idle (declineFront_self _ _ _ _ _)]
      exact (hheld _).declineFront _ _ _ _
    next hclear =>
      rw [setIngress_holding] at h
      rcases solo_cleared answerable h with rfl | h
      · exact hheld _
      rcases tspDetokenizer_cases
        (s := s.holding w tx answerable (.cleared (s.arrival tx answerable))) (w := w) hclear with
        ⟨tx', hpasses⟩ | hpanic | hdecline
      · exact absurd ⟨tx', hpasses.evaluate, hpasses.detokenized, hpasses.cuts⟩ hthrough
      · rw [hpanic, setIngress_holding] at h
        rw [h.of_panicked (holding_self _ _ _ _ _)]
        exact hheld _
      · rw [hdecline] at h
        rw [h.of_idle (declineFront_self _ _ _ _ _)]
        exact (hheld _).declineFront _ _ _ _

/-- The worker takes a section that is its next. -/
theorem Solo.run {u : Engine} (h : s.Solo w t) (hbusy : t.ingress w ≠ .idle)
    (hstep : t.ingressStep w .run = some u) : s.Solo w u := h.own hbusy hstep

theorem solo_passes (h : s.Passes tx tx') :
    (s.receive w tx answerable).Solo w (s.holding w tx answerable
      (.detokenized { s.arrival tx answerable with transaction := tx' })) := by
  have hreceived : (s.receive w tx answerable).Solo w
      (s.holding w tx answerable (.cleared (s.arrival tx answerable))) := by
    refine Solo.start.run (by rw [receive_eq, holding_self]; exact IngressPc.noConfusion) ?_
    have hevaluate : (s.holding w tx answerable
        (.received (s.arrival tx answerable))).compliance.evaluate tx = some false := h.evaluate
    rw [receive_eq]
    simp only [ingressStep, holding_self, complianceInterceptor]
    rw [show (s.arrival tx answerable).transaction = tx from rfl, hevaluate]
    dsimp only
    rw [setIngress_holding]
  refine hreceived.run (by rw [holding_self]; exact IngressPc.noConfusion) ?_
  have hpasses : (s.holding w tx answerable (.cleared (s.arrival tx answerable))).Passes tx tx' :=
    ⟨h.evaluate, h.detokenized, h.cuts⟩
  simp only [ingressStep, holding_self]
  rw [tspDetokenizer_passes hpasses rfl, setIngress_holding]

/-- The section that follows on the detokenizer. -/
theorem solo_riskPreScreen (w : Nat) (answerable : Bool) (h : s.Passes tx tx') :
    (s.receive w tx answerable).Solo w
      ((s.holding w tx answerable
        (.detokenized { s.arrival tx answerable with transaction := tx' })).riskPreScreen w
          { s.arrival tx answerable with transaction := tx' }) := by
  refine (solo_passes h).run (by rw [holding_self]; exact IngressPc.noConfusion) ?_
  simp only [ingressStep, holding_self]

/-- The section that follows on the risk screen. -/
theorem solo_dispatch (w : Nat) (answerable : Bool) (h : s.Passes tx tx')
    (hrisk : s.mem.highRisk tx' = false) :
    (s.receive w tx answerable).Solo w
      ((s.holding w tx answerable
        (.screened { s.arrival tx answerable with transaction := tx' })).dispatch w
          { s.arrival tx answerable with transaction := tx' }) := by
  have hscreened := solo_riskPreScreen w answerable h
  have hlow : ¬ (s.holding w tx answerable (.detokenized
      { s.arrival tx answerable with transaction := tx' })).mem.highRisk tx' = true :=
    Bool.eq_false_iff.mp hrisk
  rw [riskPreScreen_eq, if_neg hlow, setIngress_holding] at hscreened
  refine hscreened.run (by rw [holding_self]; exact IngressPc.noConfusion) ?_
  simp only [ingressStep, holding_self]

end Untouched

end Engine

end Iso8583Switch
