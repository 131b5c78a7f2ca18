import Iso8583Switch.Flow.Paths

/-!
# One iteration of an ingress worker

An ingress worker takes a context off its channel and runs its loop body on it
while every other thread goes on.  `Iteration` collects the states in between.
The token vault is filled before the threads start, and `step_tspVault` says that
no step changes it.  Of the threads a worker alone takes an egress STAN
(`ingressStep_routed`), and the others write no more of the global state than the NAT.
-/

namespace Iso8583Switch

open Text Function

namespace Engine

/-! ## The global state -/

section Memory

variable {s t : Engine} {w : Nat} {ctx : TransactionContext} {input : Input}

@[simp] theorem setIngress_mem (s : Engine) (w : Nat) (pc : IngressPc) :
    (s.setIngress w pc).mem = s.mem := rfl

theorem CarryTurn.mem {i : Serial} {key : String} {stage : Stage} {pc : IngressPc}
    (hturn : s.CarryTurn i key ctx input stage pc t)
    (hstage : ∀ destination channel, stage ≠ .routed destination channel) : t.mem = s.mem := by
  cases hturn with
  | number => exact absurd rfl (hstage _ _)
  | decline => exact respond_mem s _ _ _
  | decide => exact respond_mem _ _ _ _
  | spawn | lose | journal | unjournaled | route | noRoute | declineNobody | record
  | recordNowhere | send | fail | fallback | debit | undecided => rfl

/-- A worker takes an egress STAN where it has a route. -/
theorem ingressStep_routed {i : Serial} {key : String} {destination : RouteDestination}
    {channel : ChannelId}
    (hpc : s.ingress w = .carrying i key ctx (.routed destination channel))
    (h : s.ingressStep w input = some t) :
    input = .run ∧ t = s.natOutbound w i key ctx destination channel := by
  unfold ingressStep at h
  rw [hpc] at h
  cases input with
  | run => cases h; exact ⟨rfl, rfl⟩
  | receive | visit | skip | outcome | verifiedMac | verifiedPin | translatedPin => cases h

theorem ingressStep_mem
    (hpc : ∀ i key ctx destination channel,
      s.ingress w ≠ .carrying i key ctx (.routed destination channel))
    (h : s.ingressStep w input = some t) : t.mem = s.mem := by
  obtain ⟨pc, u, hturn, rfl⟩ := ingressStep_turn h
  rw [setIngress_mem]
  generalize s.ingress w = pc₀ at hturn hpc
  cases hturn with
  | answer => exact respond_mem s _ _ _
  | evict => exact evict_mem s _
  | carry hturn =>
      refine hturn.mem fun destination channel hstage => ?_
      exact hpc _ _ _ destination channel (by rw [hstage])
  | binPanic | dpanPanic | dataPanic => rfl
  | receive | clear | plain | detokenize | screen | reverse | mark | pass | skip | accept => rfl

theorem hsmStep_mem {i : Serial} (h : s.hsmStep i input = some t) : t.mem = s.mem := by
  obtain ⟨pc, u, hturn, rfl⟩ := hsmStep_turn h
  generalize s.hsm i = pc₀ at hturn
  cases hturn with
  | decline => exact respond_mem _ _ _ _
  | route | verifyMac | verifyPin | translatePin | resolve | journal | drop | unjournaled | send
  | fail => rfl

theorem reaperStep_mem (h : s.reaperStep input = some t) :
    ∃ nat, t.mem = { s.mem with stanNat := nat } := by
  obtain ⟨pc', u, hturn, rfl⟩ := reaperStep_turn h
  generalize s.reaper = pc at hturn
  cases hturn with
  | walk => exact ⟨s.mem.stanNat, rfl⟩
  | reverse => exact ⟨s.mem.stanNat, local_mem.reverseSection s _ _⟩
  | collect =>
      unfold collectNat
      split
      · exact ⟨_, rfl⟩
      · exact ⟨s.mem.stanNat, rfl⟩
  | @evict key => exact ⟨s.mem.stanNat, evict_mem s key⟩

theorem replyStep_mem (h : s.replyStep w input = some t) :
    ∃ nat, t.mem = { s.mem with stanNat := nat } := by
  have hturn := replyStep_turn h
  generalize s.repliers w = pc at hturn
  cases hturn with
  | translate => exact ⟨_, rfl⟩
  | late | unknown | completeUnjournaled => exact ⟨s.mem.stanNat, rfl⟩
  | complete => exact ⟨s.mem.stanNat, respond_mem _ _ _ _⟩
  | evict => exact ⟨s.mem.stanNat, evict_mem s _⟩

theorem step_tspVault {a : Action} (h : s.step a = some t) : t.mem.tspVault = s.mem.tspVault := by
  cases a with
  | ingress w input =>
      by_cases hpc : ∃ i key ctx destination channel,
          s.ingress w = .carrying i key ctx (.routed destination channel)
      · obtain ⟨i, key, ctx, destination, channel, hpc⟩ := hpc
        obtain ⟨-, rfl⟩ := ingressStep_routed hpc h
        rfl
      · rw [ingressStep_mem (fun i key ctx destination channel hrouted =>
          hpc ⟨i, key, ctx, destination, channel, hrouted⟩) h]
  | hsm i input => rw [hsmStep_mem h]
  | reaper input => obtain ⟨nat, hmem⟩ := reaperStep_mem h; rw [hmem]
  | reply w input => obtain ⟨nat, hmem⟩ := replyStep_mem h; rw [hmem]
  | probe node secs ok =>
      obtain ⟨channel, -, rfl⟩ := Option.map_eq_some_iff.mp h
      unfold probe
      dsimp only
      split <;> rfl
  | bank packet => cases h; rfl
  | tick ms => cases h; rfl
  | storeStip stip => cases h; rfl
  | storeCrdb crdb => cases h; rfl
  | storeRouter router => cases h; rfl
  | pollSanctions cache => cases h; rfl

end Memory

/-! ## The loop body -/

/-- The states of worker `w` from the moment at which it has taken `tx` off its
channel in `s` until it is idle again, whatever the other threads do. -/
inductive Iteration (s : Engine) (w : Nat) (tx : UniversalPaymentEvent) : Engine → Prop where
  | receive {answerable : Bool} {t : Engine} :
      s.step (.ingress w (.receive tx answerable)) = some t → Iteration s w tx t
  | own {t u : Engine} {input : Input} : Iteration s w tx t → t.ingress w ≠ .idle →
      t.step (.ingress w input) = some u → Iteration s w tx u
  | other {t u : Engine} {a : Action} : Iteration s w tx t → (∀ input, a ≠ .ingress w input) →
      t.step a = some u → Iteration s w tx u

/-- The worker has gone through its loop body, or can take its next step.  A worker
that panicked can do neither. -/
def Alive (s : Engine) (w : Nat) : Prop :=
  s.ingress w = .idle ∨ ∃ input, (s.step (.ingress w input)).isSome

theorem Alive.ne_panicked {s : Engine} {w : Nat} (h : s.Alive w) : s.ingress w ≠ .panicked := by
  intro hpc
  rcases h with h | ⟨input, h⟩
  · rw [h] at hpc
    cases hpc
  · simp [step, ingressStep, hpc] at h

/-- Only an idle worker takes a context off the channel. -/
theorem step_receive {s t : Engine} {w : Nat} {tx : UniversalPaymentEvent} {answerable : Bool}
    (h : s.step (.ingress w (.receive tx answerable)) = some t) :
    s.ingress w = .idle ∧ t = s.receive w tx answerable := by
  cases hat : s.ingress w with
  | idle =>
      simp only [step, ingressStep, hat, Option.some.injEq] at h
      exact ⟨rfl, h.symm⟩
  | carrying i key ctx stage => cases stage <;> simp [step, ingressStep, hat, carryStep] at h
  | panicked | received | cleared | detokenized | screened | scanning | evicting =>
      simp [step, ingressStep, hat, scanStep] at h

theorem Iteration.reachable {s t : Engine} {w : Nat} {tx : UniversalPaymentEvent}
    (h : s.Iteration w tx t) (hs : s.Reachable Transition.Free) : t.Reachable Transition.Free := by
  induction h with
  | receive hstep => exact hs.step ⟨_, trivial, hstep⟩
  | own _ _ hstep ih => exact ih.step ⟨_, trivial, hstep⟩
  | other _ _ hstep ih => exact ih.step ⟨_, trivial, hstep⟩

theorem Iteration.tspVault {s t : Engine} {w : Nat} {tx : UniversalPaymentEvent}
    (h : s.Iteration w tx t) : t.mem.tspVault = s.mem.tspVault := by
  induction h with
  | receive hstep => exact step_tspVault hstep
  | own _ _ hstep ih => exact (step_tspVault hstep).trans ih
  | other _ _ hstep ih => exact (step_tspVault hstep).trans ih

end Engine

end Iso8583Switch
