import Iso8583Switch.Engine.Background

/-!
# Who owns the responder behind the guard

The insert moves the responder out of the context and into the guard entry.
From then on no section puts a responder back into a context, so an ingress
worker or an HSM task that holds an accepted context holds no responder.
-/

namespace Iso8583Switch

/-- A context behind the guard has no responder. -/
def IngressPc.Disowned : IngressPc → Prop
  | .carrying _ _ ctx _ => ctx.responder = none
  | _ => True

def HsmPc.Disowned : HsmPc → Prop
  | .spawned ctx | .awaitingMac ctx _ | .awaitingPin ctx _ _ | .resolving ctx _
  | .checked ctx _ _ | .sending ctx _ _ => ctx.responder = none
  | .absent | .finished => True

namespace Engine

structure Disowned (s : Engine) : Prop where
  ingress : ∀ w, (s.ingress w).Disowned
  hsm : ∀ i, (s.hsm i).Disowned

/-! ## An answer and a probe -/

theorem respond_guard (s : Engine) (responder : Option Responder) (source : Source)
    (reply : UniversalPaymentEvent) : (s.respond responder source reply).guard = s.guard := by
  cases responder <;> rfl

/-- What a probe logs. -/
theorem probe_trace (s : Engine) (node : String) (channel : ChannelId) (secs : Nat) (ok : Bool) :
    (s.probe node channel secs ok).trace = s.trace ++
      if ok then [.placed ⟨.probe, .externalNode node, channel, probeEvent secs⟩] else [] := by
  cases ok with
  | false => exact (List.append_nil _).symm
  | true => rfl

namespace Disowned

variable {s t : Engine}

theorem of_eq (h : s.Disowned) (hi : t.ingress = s.ingress) (hh : t.hsm = s.hsm) :
    t.Disowned := by
  constructor
  · rw [hi]; exact h.ingress
  · rw [hh]; exact h.hsm

theorem setIngress (h : s.Disowned) (w : Nat) {pc : IngressPc} (hpc : pc.Disowned) :
    (s.setIngress w pc).Disowned := by
  refine ⟨fun w' => ?_, h.hsm⟩
  simp only [Engine.setIngress, Function.update_apply]
  split
  · exact hpc
  · exact h.ingress w'

theorem setHsm (h : s.Disowned) (i : Serial) {pc : HsmPc} (hpc : pc.Disowned) :
    (s.setHsm i pc).Disowned := by
  refine ⟨h.ingress, fun i' => ?_⟩
  simp only [Engine.setHsm, Function.update_apply]
  split
  · exact hpc
  · exact h.hsm i'

theorem log (h : s.Disowned) (e : Event) : (s.log e).Disowned := h.of_eq rfl rfl

theorem setGuard (h : s.Disowned) (key : String) (entry : ActiveTransaction) :
    (s.setGuard key entry).Disowned := h.of_eq rfl rfl

theorem respond (h : s.Disowned) (responder : Option Responder) (source : Source)
    (reply : UniversalPaymentEvent) : (s.respond responder source reply).Disowned :=
  h.of_eq (respond_ingress s _ _ _) (respond_hsm s _ _ _)

end Disowned

/-! ## The invariant -/

theorem Initial.disowned {s : Engine} (h : s.Initial) : s.Disowned := by
  constructor
  · intro w; rw [h.ingress]; trivial
  · intro i; rw [h.hsm]; trivial

section Threads

variable {s t : Engine} {w : Nat} {ctx : TransactionContext}

/-- The fallback debits what the balance covers, or it declines. -/
theorem stipDecision_cases (found : Option (Option CardProfile)) (ctx : TransactionContext) :
    (∃ profile : CardProfile, ctx.transaction.amount.toInt64 ≤ profile.balance ∧
        stipDecision found ctx =
          (.debiting { profile with balance := profile.balance - ctx.transaction.amount.toInt64 },
            ctx)) ∨
      ∃ rc ∈ ["41", "51", "05"], stipDecision found ctx =
        (.decided, { ctx with transaction := ctx.transaction.answer "0110" rc }) := by
  unfold stipDecision
  dsimp only
  split
  next profile =>
    split
    · exact .inr ⟨"41", by decide, rfl⟩
    · split
      next hle => exact .inl ⟨profile, hle, rfl⟩
      next => exact .inr ⟨"51", by decide, rfl⟩
  next => exact .inr ⟨"05", by decide, rfl⟩
  next => exact .inr ⟨"05", by decide, rfl⟩

theorem stipDecision_responder (found : Option (Option CardProfile)) (ctx : TransactionContext) :
    (stipDecision found ctx).2.responder = ctx.responder := by
  rcases stipDecision_cases found ctx with ⟨profile, -, heq⟩ | ⟨rc, -, heq⟩ <;> rw [heq]

/-- What the worker does to the threads, up to its own position. -/
theorem CarryTurn.disowned {i : Serial} {key : String} {stage : Stage} {input : Input}
    {pc : IngressPc} (hturn : s.CarryTurn i key ctx input stage pc t) (h : s.Disowned)
    (hctx : ctx.responder = none) : t.Disowned ∧ pc.Disowned := by
  cases hturn with
  | spawn =>
      have hspawned : HsmPc.Disowned (.spawned ctx) := hctx
      exact ⟨h.setHsm i hspawned, trivial⟩
  | lose | unjournaled | declineNobody => exact ⟨h, trivial⟩
  | route | noRoute | recordNowhere => exact ⟨h, hctx⟩
  | journal | fail => exact ⟨h.log _, hctx⟩
  | number | debit => exact ⟨h.of_eq rfl rfl, hctx⟩
  | decline => exact ⟨(h.respond _ _ _).setGuard _ _, trivial⟩
  | record => exact ⟨h.setGuard _ _, hctx⟩
  | send => exact ⟨(h.log _).log _, trivial⟩
  | fallback => exact ⟨h, (stipDecision_responder _ ctx).trans hctx⟩
  | decide => exact ⟨((h.log _).log _).respond _ _ _, trivial⟩
  | undecided => exact ⟨h.log _, trivial⟩

theorem evict_disowned (h : s.Disowned) (key : String) : (s.evict key).Disowned :=
  h.of_eq (evict_ingress s key) (evict_hsm s key)

theorem IngressTurn.disowned {input : Input} {pc pc' : IngressPc}
    (hturn : s.IngressTurn input pc pc' t) (h : s.Disowned) (hpc : pc.Disowned) :
    t.Disowned ∧ pc'.Disowned := by
  cases hturn with
  | receive => exact ⟨h.log _, trivial⟩
  | binPanic | dpanPanic | dataPanic => exact ⟨h, trivial⟩
  | clear | plain | detokenize | screen | reverse | pass | skip => exact ⟨h, trivial⟩
  | answer => exact ⟨h.respond _ _ _, trivial⟩
  | mark => exact ⟨((h.setGuard _ _).log _).log _, trivial⟩
  | accept =>
      -- The insert takes the responder out of the context.
      exact ⟨(h.setGuard _ _).log _, rfl⟩
  | carry hturn => exact hturn.disowned h hpc
  | evict => exact ⟨evict_disowned h _, trivial⟩

theorem ingressStep_disowned {input : Input} (h : s.Disowned)
    (hstep : s.ingressStep w input = some t) : t.Disowned := by
  obtain ⟨pc, u, hturn, rfl⟩ := ingressStep_turn hstep
  obtain ⟨hu, hpc⟩ := hturn.disowned h (h.ingress w)
  exact hu.setIngress w hpc

end Threads

/-! ## The HSM task -/

section Task

variable {ctx : TransactionContext}

theorem afterMac_disowned (hctx : ctx.responder = none) (route : HsmRoute) (macValid : Bool) :
    (afterMac ctx route macValid).Disowned := by
  unfold afterMac
  dsimp only
  split
  · split
    · exact hctx
    · split <;> exact hctx
  · split
    · split <;> exact hctx
    · exact hctx

theorem hsmRoute_disowned (hctx : ctx.responder = none) (g : GlobalState) :
    (hsmRoute g ctx).Disowned := by
  have hbefore (route : HsmRoute) : (beforeMac ctx route).Disowned := by
    unfold beforeMac
    split
    · exact hctx
    · exact afterMac_disowned hctx route true
  unfold hsmRoute
  split
  · split
    · split
      · exact hbefore _
      · exact hctx
    · exact hbefore _
  · exact hctx

theorem afterVerifyPin_disowned (hctx : ctx.responder = none) (route : HsmRoute) (macValid : Bool)
    (result : Option Bool) : (afterVerifyPin ctx route macValid result).Disowned := by
  unfold afterVerifyPin
  split
  · split <;> exact hctx
  · exact hctx

theorem afterTranslatePin_disowned (hctx : ctx.responder = none) (route : HsmRoute)
    (result : Option String) : (afterTranslatePin ctx route result).Disowned := by
  unfold afterTranslatePin
  split <;> exact hctx

theorem TaskTurn.disowned {s t : Engine} {i : Serial} {input : Input} {pc pc' : HsmPc}
    (hturn : s.TaskTurn i input pc pc' t) (h : s.Disowned) (hpc : pc.Disowned) :
    t.Disowned ∧ pc'.Disowned := by
  cases hturn with
  | route => exact ⟨h, hsmRoute_disowned hpc s.mem⟩
  | verifyMac => exact ⟨h, afterMac_disowned hpc _ _⟩
  | verifyPin => exact ⟨h, afterVerifyPin_disowned hpc _ _ _⟩
  | translatePin => exact ⟨h, afterTranslatePin_disowned hpc _ _⟩
  | resolve => exact ⟨h, hpc⟩
  | decline => exact ⟨(h.log _).respond _ _ _, trivial⟩
  | journal => exact ⟨h.log _, hpc⟩
  | drop | send => exact ⟨h.log _, trivial⟩
  | unjournaled | fail => exact ⟨h, trivial⟩

theorem hsmStep_disowned {s t : Engine} {i : Serial} {input : Input} (h : s.Disowned)
    (hstep : s.hsmStep i input = some t) : t.Disowned := by
  obtain ⟨pc, u, hturn, rfl⟩ := hsmStep_turn hstep
  obtain ⟨hu, hpc⟩ := hturn.disowned h (h.hsm i)
  exact hu.setHsm i hpc

end Task

/-! ## The reaper and the reply workers -/

section Background

variable {s t : Engine}

theorem reaperStep_disowned {input : Input} (h : s.Disowned)
    (hstep : s.reaperStep input = some t) : t.Disowned :=
  h.of_eq (local_ingress.reaperStep (fun _ _ => rfl) (fun _ _ => rfl) hstep)
    (local_hsm.reaperStep (fun _ _ => rfl) (fun _ _ => rfl) hstep)

theorem replyStep_disowned {w : Nat} {input : Input} (h : s.Disowned)
    (hstep : s.replyStep w input = some t) : t.Disowned :=
  h.of_eq (local_ingress.replyStep (fun _ _ _ => rfl) (fun _ _ _ => rfl) hstep)
    (local_hsm.replyStep (fun _ _ _ => rfl) (fun _ _ _ => rfl) hstep)

/-- No step hands a responder to a context behind the guard. -/
theorem step_disowned {a : Action} (h : s.Disowned) (hstep : s.step a = some t) :
    t.Disowned := by
  cases a with
  | ingress w input => exact ingressStep_disowned h hstep
  | hsm i input => exact hsmStep_disowned h hstep
  | reaper input => exact reaperStep_disowned h hstep
  | reply w input => exact replyStep_disowned h hstep
  | probe node secs ok =>
      obtain ⟨channel, -, rfl⟩ := Option.map_eq_some_iff.mp hstep
      unfold probe
      dsimp only
      split <;> exact h.of_eq rfl rfl
  | tick ms => cases hstep; exact h.of_eq rfl rfl
  | storeStip stip => cases hstep; exact h.of_eq rfl rfl
  | storeCrdb crdb => cases hstep; exact h.of_eq rfl rfl
  | storeRouter router => cases hstep; exact h.of_eq rfl rfl
  | pollSanctions cache => cases hstep; exact h.of_eq rfl rfl
  | bank packet => cases hstep; exact h.of_eq rfl rfl

theorem Reachable.disowned {P : Engine → Action → Prop} (h : Reachable P s) : s.Disowned :=
  h.invariant (fun _ => Initial.disowned) fun _ _ _ hs ⟨_, _, hstep⟩ => step_disowned hs hstep

end Background

end Engine

end Iso8583Switch
