import Iso8583Switch.Flow.Iteration
import Iso8583Switch.Properties.ClearedPayments
import Iso8583Switch.Properties.ForwardingGate

/-!
# What the answers are made of

Every answer goes to the responder of a context that came in, and is made of what the
thread at hand has of the request: the context, the saved message of the guard entry, or
the reply of the bank.  `Arrived` follows the contexts from the channel to the guard, so an
answer can be compared with the context that its responder came with (`answers_echo`).
-/

namespace Iso8583Switch

open Text Function History

/-! ## Echoes -/

/-- What an answer has of the request. -/
structure Echoes (tx reply : UniversalPaymentEvent) : Prop where
  amount : reply.amount = tx.amount
  rrn : reply.rrn = tx.rrn
  localTime : reply.localTime = tx.localTime
  localDate : reply.localDate = tx.localDate

theorem echoes_answer (tx : UniversalPaymentEvent) (mti rc : String) : Echoes tx (tx.answer mti rc) :=
  ⟨rfl, rfl, rfl, rfl⟩

/-- The way over the wire message keeps it. -/
theorem echoes_fromPb (tx : UniversalPaymentEvent) (mti rc : String) :
    Echoes tx (fromPb { toPb tx with mti := mti, responseCode := rc }) :=
  ⟨toUInt64_toPb_amount tx, rfl, rfl, rfl⟩

namespace TspVault.Resolves

variable {vault : TspVault} {tx₀ tx reply : UniversalPaymentEvent}

/-- And so does the detokenizer. -/
theorem echoes (h : vault.Resolves tx₀ tx) (hreply : Echoes tx reply) : Echoes tx₀ reply := by
  cases h with
  | plain => exact hreply
  | token => exact ⟨hreply.amount, hreply.rrn, hreply.localTime, hreply.localDate⟩

theorem guardKey (h : vault.Resolves tx₀ tx) : tx.guardKey = tx₀.guardKey := by
  cases h <;> rfl

end TspVault.Resolves

/-! ## The answers in front of the guard -/

def Event.ofFront : Event → Bool
  | .responded _ source _ => source.front
  | _ => false

/-- Nobody else gives them. -/
theorem Event.not_ofFront {e : Event}
    (h : e.ofCarry = true ∨ e.ofTask = true ∨ e.ofReply = true ∨ e.ofReaper = true) :
    e.ofFront = false := by
  cases e with
  | responded r source reply =>
      cases source with
      | unrouted | decision | reaper | bank => rfl
      | compliance | detokenizer | riskScreen | echo | duplicate | reversal =>
          simp [ofCarry, ofTask, ofReply, ofReaper] at h
  | _ => rfl

namespace Engine

variable {s t : Engine} {w : Nat} {ctx : TransactionContext} {input : Input}

/-- A step of a worker answers the context in hand, or is no answer in front of the
guard. -/
inductive FrontTurn (s : Engine) (w : Nat) : IngressPc → Engine → Prop where
  | answer {pc : IngressPc} {ctx : TransactionContext} (source : Source)
      (reply : UniversalPaymentEvent) : pc.held = some ctx → Echoes ctx.transaction reply →
      FrontTurn s w pc (s.declineFront w ctx source reply)
  | other {pc : IngressPc} {t : Engine} (l : List Event) : t.trace = s.trace ++ l →
      (∀ e ∈ l, e.ofFront = false) → FrontTurn s w pc t

theorem FrontTurn.quiet {pc : IngressPc} (h : t.trace = s.trace) : FrontTurn s w pc t :=
  .other [] (h.trans (List.append_nil _).symm) (List.forall_mem_nil _)

theorem complianceInterceptor_front (s : Engine) (w : Nat) (ctx : TransactionContext) :
    FrontTurn s w (.received ctx) (s.complianceInterceptor w ctx) := by
  rw [complianceInterceptor]
  split
  · exact .quiet rfl
  · exact .answer _ _ rfl (echoes_answer _ _ _)
  · exact .quiet rfl

theorem tspDetokenizer_front (s : Engine) (w : Nat) (ctx : TransactionContext) :
    FrontTurn s w (.cleared ctx) (s.tspDetokenizer w ctx) := by
  unfold tspDetokenizer
  split
  · dsimp only
    split
    · split
      · exact .quiet rfl
      · exact .quiet rfl
    · exact .answer _ _ rfl (echoes_answer _ _ _)
  · exact .quiet rfl

theorem riskPreScreen_front (s : Engine) (w : Nat) (ctx : TransactionContext) :
    FrontTurn s w (.detokenized ctx) (s.riskPreScreen w ctx) := by
  rw [riskPreScreen]
  split
  · exact .answer _ _ rfl (echoes_answer _ _ _)
  · exact .quiet rfl

theorem dispatch_front (s : Engine) (w : Nat) (ctx : TransactionContext) :
    FrontTurn s w (.screened ctx) (s.dispatch w ctx) := by
  rw [dispatch]
  split
  · exact .answer _ _ rfl ⟨rfl, rfl, rfl, rfl⟩
  · split
    · split
      · split
        · split
          · exact .quiet rfl
          · exact .quiet rfl
        · exact .answer _ _ rfl (echoes_answer _ _ _)
      · exact .answer _ _ rfl (echoes_answer _ _ _)
    · rw [guardEntry]
      split
      · exact .answer _ _ rfl (echoes_answer _ _ _)
      · exact .other [.inserted ctx.transaction.guardKey ctx.transaction ctx.responder] rfl
          (List.forall_mem_singleton.mpr rfl)

theorem scanStep_front {origStan : String} {scan : Scan} {marked : List Serial}
    (h : s.scanStep w ctx origStan scan marked input = some t) :
    FrontTurn s w (.scanning ctx origStan scan marked) t := by
  unfold scanStep at h
  split at h
  · split at h
    · split at h <;> cases h
      rw [visitReversal]
      split
      · exact .other [.marked _, .posted _] (List.append_assoc _ _ _) (by simp [Event.ofFront])
      · exact .quiet rfl
    · cases h
  · split at h <;> cases h
    exact .quiet rfl
  · split at h <;> cases h
    exact .answer _ _ rfl (echoes_answer _ _ _)
  · cases h

theorem ingressStep_front (h : s.ingressStep w input = some t) :
    FrontTurn s w (s.ingress w) t := by
  unfold ingressStep at h
  split at h
  case h_1 tx answerable hpc =>
    cases h
    exact .other [.received tx answerable] rfl (List.forall_mem_singleton.mpr rfl)
  case h_2 hpc => cases h; exact hpc ▸ complianceInterceptor_front s w _
  case h_3 hpc => cases h; exact hpc ▸ tspDetokenizer_front s w _
  case h_4 hpc => cases h; exact hpc ▸ riskPreScreen_front s w _
  case h_5 hpc => cases h; exact hpc ▸ dispatch_front s w _
  case h_6 hpc => exact hpc ▸ scanStep_front h
  case h_7 hpc =>
    obtain ⟨pc, u, hturn, rfl⟩ := carryStep_turn h
    obtain ⟨l, hpath, -, hl⟩ := hturn.path
    exact .other l hl fun e he => Event.not_ofFront (.inl (hpath.ofCarry e he))
  case h_8 hpc =>
    cases h
    obtain ⟨l, hl, hevicted⟩ := evict_trace s _
    refine .other l hl fun e he => ?_
    obtain ⟨i, rfl⟩ := hevicted e he
    rfl
  case h_9 => cases h

end Engine

/-! ## From the channel to the guard -/

/-- The context as it came in. -/
def IngressPc.raw : IngressPc → Option TransactionContext
  | .received ctx | .cleared ctx => some ctx
  | _ => none

/-- The context behind the detokenizer. -/
def IngressPc.resolved : IngressPc → Option TransactionContext
  | .detokenized ctx | .screened ctx | .scanning ctx _ _ _ => some ctx
  | _ => none

theorem IngressPc.held_cases {pc : IngressPc} {ctx : TransactionContext} (h : pc.held = some ctx) :
    pc.raw = some ctx ∨ pc.resolved = some ctx := by
  cases pc with
  | received | cleared => exact .inl h
  | detokenized | screened | scanning => exact .inr h
  | idle | panicked | carrying | evicting => cases h

theorem IngressPc.not_held {pc : IngressPc} (h : pc.held = none) : pc.raw = none ∧ pc.resolved = none := by
  cases pc <;> first | exact ⟨rfl, rfl⟩ | cases h

theorem CarryPath.held {s : Engine} {i : Serial} {key : String} {ctx : TransactionContext}
    {input : Input} {stage : Stage} {pc : IngressPc} {l : List Event}
    (h : CarryPath s i key ctx input stage pc l) : pc.held = none := by
  cases h <;> rfl

namespace Engine

variable {s t : Engine} {w : Nat} {r : Responder} {l : List Event}

/-- The responder came with the request. -/
def Arrives (s : Engine) (r : Responder) (tx : UniversalPaymentEvent) : Prop :=
  s.trace[r]? = some (.received tx true)

/-- And the detokenizer made this of it. -/
def Resolved (s : Engine) (r : Responder) (tx : UniversalPaymentEvent) : Prop :=
  ∃ tx₀, s.Arrives r tx₀ ∧ s.mem.tspVault.Resolves tx₀ tx

structure Arrived (s : Engine) : Prop where
  raw : ∀ {w ctx r}, (s.ingress w).raw = some ctx → ctx.responder = some r →
    s.Arrives r ctx.transaction
  resolved : ∀ {w ctx r}, (s.ingress w).resolved = some ctx → ctx.responder = some r →
    s.Resolved r ctx.transaction
  inserted : ∀ {key tx r}, .inserted key tx (some r) ∈ s.trace → s.Resolved r tx
  front : ∀ {r source reply}, .responded r source reply ∈ s.trace → source.front = true →
    ∃ tx, s.Arrives r tx ∧ Echoes tx reply

theorem Initial.arrived (h : s.Initial) : s.Arrived := by
  constructor <;> simp [h.ingress, h.trace, IngressPc.raw, IngressPc.resolved]

theorem Arrives.grow {tx : UniversalPaymentEvent} (hl : t.trace = s.trace ++ l)
    (h : s.Arrives r tx) : t.Arrives r tx := by
  rw [Arrives, hl]
  exact kept h

theorem Resolved.grow {tx : UniversalPaymentEvent} (hl : t.trace = s.trace ++ l)
    (hvault : t.mem.tspVault = s.mem.tspVault) (h : s.Resolved r tx) : t.Resolved r tx := by
  obtain ⟨tx₀, harrives, hresolves⟩ := h
  exact ⟨tx₀, harrives.grow hl, hvault ▸ hresolves⟩

/-- Whoever is in front of the guard has what came with the responder. -/
theorem Arrived.held (hs : s.Arrived) {ctx : TransactionContext} (hheld : (s.ingress w).held = some ctx)
    (hr : ctx.responder = some r) : ∃ tx₀, s.Arrives r tx₀ ∧
      ∀ reply, Echoes ctx.transaction reply → Echoes tx₀ reply := by
  rcases IngressPc.held_cases hheld with hraw | hresolved
  · exact ⟨_, hs.raw hraw hr, fun _ => id⟩
  · obtain ⟨tx₀, harrives, hresolves⟩ := hs.resolved hresolved hr
    exact ⟨tx₀, harrives, fun _ => hresolves.echoes⟩

/-- A worker that goes on has a new context, or the one that it had. -/
theorem Arrived.raw_path (hs : s.Arrived) {input : Input} {pc : IngressPc}
    (hpath : IngressPath s input (s.ingress w) pc l) (hl : t.trace = s.trace ++ l)
    {ctx : TransactionContext} (hraw : pc.raw = some ctx) (hr : ctx.responder = some r) :
    t.Arrives r ctx.transaction := by
  generalize hat : s.ingress w = pc₀ at hpath
  cases hpath with
  | receive tx answerable =>
      cases hraw
      cases answerable with
      | false => cases hr
      | true =>
          cases hr
          rw [Arrives, hl, List.getElem?_concat_length]
  | clear =>
      cases hraw
      exact (hs.raw (by rw [hat]; rfl) hr).grow hl
  | carry hcarry =>
      rw [(IngressPc.not_held hcarry.held).1] at hraw
      cases hraw
  | panic | answer | plain | detokenize | screen | reverse | mark | pass | accept | evict =>
      cases hraw

theorem Arrived.resolved_path (hs : s.Arrived) {input : Input} {pc : IngressPc}
    (hpath : IngressPath s input (s.ingress w) pc l) (hl : t.trace = s.trace ++ l)
    (hvault : t.mem.tspVault = s.mem.tspVault) {ctx : TransactionContext}
    (hresolved : pc.resolved = some ctx) (hr : ctx.responder = some r) :
    t.Resolved r ctx.transaction := by
  have hsame (h : (s.ingress w).resolved = some ctx) : t.Resolved r ctx.transaction :=
    (hs.resolved h hr).grow hl hvault
  generalize hat : s.ingress w = pc₀ at hpath
  rw [hat] at hsame
  cases hpath with
  | plain hplain =>
      cases hresolved
      exact ⟨_, (hs.raw (by rw [hat]; rfl) hr).grow hl, .plain hplain⟩
  | @detokenize ctx₀ realFpan htoken hreal =>
      cases hresolved
      have hraw : (s.ingress w).raw = some ctx₀ := by
        rw [hat]
        rfl
      exact ⟨_, (hs.raw hraw hr).grow hl, .token htoken (hvault ▸ hreal)⟩
  | screen | reverse | mark | pass =>
      cases hresolved
      exact hsame rfl
  | carry hcarry =>
      rw [(IngressPc.not_held hcarry.held).2] at hresolved
      cases hresolved
  | receive | panic | answer | clear | accept | evict => cases hresolved

/-- What is inserted has the responder of its context. -/
theorem inserted_of_step {a : Action} (h : s.step a = some t) (hl : t.trace = s.trace ++ l)
    {key : String} {tx : UniversalPaymentEvent} (hmem : .inserted key tx (some r) ∈ l) :
    ∃ w ctx, s.ingress w = .screened ctx ∧ ctx.transaction = tx ∧ ctx.responder = some r := by
  cases step_path h hl with
  | @ingress w input pc _ hpath =>
      generalize hat : s.ingress w = pc₀ at hpath
      cases hpath with
      | @accept ctx =>
          obtain ⟨-, rfl, hr⟩ : _ ∧ tx = ctx.transaction ∧ some r = ctx.responder := by
            simpa using hmem
          exact ⟨w, ctx, hat, rfl, hr.symm⟩
      | carry hcarry => cases hcarry.ofCarry _ hmem
      | evict hevicted =>
          obtain ⟨_, hmem⟩ := hevicted _ hmem
          cases hmem
      | answer => simp [mem_answers] at hmem
      | receive | panic | clear | plain | detokenize | screen | reverse | mark | pass => simp at hmem
  | hsm hpath => cases hpath.ofTask _ hmem
  | reaper hreaper => cases hreaper _ hmem
  | reply hpath => cases hpath.ofReply _ hmem
  | bank | probe => simp at hmem
  | silent => cases hmem

/-- An answer in front of the guard is given to the context in hand. -/
theorem front_of_step {a : Action} (h : s.step a = some t) (hl : t.trace = s.trace ++ l)
    {source : Source} {reply : UniversalPaymentEvent} (hmem : .responded r source reply ∈ l)
    (hfront : source.front = true) : ∃ w ctx, (s.ingress w).held = some ctx ∧
      ctx.responder = some r ∧ Echoes ctx.transaction reply := by
  have hother (hnot : (Event.responded r source reply).ofFront = false) : False := by
    cases hnot.symm.trans hfront
  cases step_path h hl with
  | @ingress w input pc _ hpath =>
      rcases ingressStep_front h with ⟨source', reply', hheld, hechoes⟩ | ⟨l', hl', hquiet⟩
      · obtain rfl := List.append_cancel_left (hl.symm.trans (respond_trace s _ source' reply'))
        obtain ⟨r', hr', heq⟩ := mem_answers.mp hmem
        cases heq
        exact ⟨w, _, hheld, hr', hechoes⟩
      · obtain rfl := List.append_cancel_left (hl.symm.trans hl')
        exact absurd (hquiet _ hmem) hother
  | hsm hpath => exact absurd (Event.not_ofFront (.inr (.inl (hpath.ofTask _ hmem)))) hother
  | reaper hreaper =>
      exact absurd (Event.not_ofFront (.inr (.inr (.inr (hreaper _ hmem))))) hother
  | reply hpath =>
      exact absurd (Event.not_ofFront (.inr (.inr (.inl (hpath.ofReply _ hmem))))) hother
  | bank | probe => simp at hmem
  | silent => cases hmem

theorem Arrived.step {a : Action} (hs : s.Arrived) (hown : s.Disowned) (h : s.step a = some t) :
    t.Arrived := by
  obtain ⟨l, hl⟩ := step_trace_append hown h
  have hvault := step_tspVault h
  have hworker (w : Nat) : t.ingress w = s.ingress w ∨ ∃ input pc,
      IngressPath s input (s.ingress w) pc l ∧ t.ingress w = pc := by
    by_cases ha : ∃ input, a = .ingress w input
    · obtain ⟨input, rfl⟩ := ha
      obtain ⟨pc, l', hpath, htook⟩ := ingressStep_path h
      obtain rfl := List.append_cancel_left (htook.trace.symm.trans hl)
      exact .inr ⟨input, pc, hpath, by rw [htook.ingress, update_self]⟩
    · exact .inl (step_ingress h fun input heq => ha ⟨input, heq⟩)
  constructor
  · intro w ctx r hraw hr
    rcases hworker w with hsame | ⟨input, pc, hpath, hpc⟩
    · exact (hs.raw (hsame ▸ hraw) hr).grow hl
    · exact hs.raw_path hpath hl (hpc ▸ hraw) hr
  · intro w ctx r hresolved hr
    rcases hworker w with hsame | ⟨input, pc, hpath, hpc⟩
    · exact (hs.resolved (hsame ▸ hresolved) hr).grow hl hvault
    · exact hs.resolved_path hpath hl hvault (hpc ▸ hresolved) hr
  · intro key tx r hmem
    rw [hl, List.mem_append] at hmem
    rcases hmem with hold | hnew
    · exact (hs.inserted hold).grow hl hvault
    · obtain ⟨w, ctx, hpc, rfl, hr⟩ := inserted_of_step h hl hnew
      exact (hs.resolved (by rw [hpc]; rfl) hr).grow hl hvault
  · intro r source reply hmem hfront
    rw [hl, List.mem_append] at hmem
    rcases hmem with hold | hnew
    · obtain ⟨tx, harrives, hechoes⟩ := hs.front hold hfront
      exact ⟨tx, harrives.grow hl, hechoes⟩
    · obtain ⟨w, ctx, hheld, hr, hechoes⟩ := front_of_step h hl hnew hfront
      obtain ⟨tx₀, harrives, hall⟩ := hs.held hheld hr
      exact ⟨tx₀, harrives.grow hl, hall reply hechoes⟩

theorem Reachable.arrived {P : Engine → Action → Prop} (h : Reachable P s) : s.Arrived := by
  refine h.invariant (fun _ => Initial.arrived) fun s t hs harrived ⟨a, _, hstep⟩ => ?_
  exact harrived.step (Reachable.disowned hs) hstep

end Engine

/-! ## The answers behind the guard -/

/-- A section on an entry answers for a worker without a route, for the reaper or for the
bank. -/
theorem Touch.answer {v : Flow} {key : String} {entry entry' : ActiveTransaction} {l : List Event}
    {reclaim : Option String} {handling : Nat → Option (Packet × String)}
    (h : Touch v key entry entry' l reclaim handling) {r : Responder} {source : Source}
    {reply : UniversalPaymentEvent} (hmem : .responded r source reply ∈ l) :
    source = .unrouted entry.serial ∨
      (source = .reaper entry.serial ∧ reply = Engine.timeoutReply entry) ∨
        ∃ p, source = .bank entry.serial p := by
  cases h with
  | close =>
      simp [mem_answers] at hmem
      exact .inl hmem.2.1
  | timeOut =>
      simp [mem_answers, mem_reversals] at hmem
      exact .inr (.inl hmem.2)
  | @complete w p =>
      simp [mem_answers] at hmem
      exact .inr (.inr ⟨p, hmem.2.1⟩)
  | mark | record | completeUnjournaled => simp at hmem

/-- Who has answered, and for which request. -/
theorem Flow.Reachable.answer_cases {Q : Flow.Discipline} {v : Flow} (h : Flow.Reachable Q v)
    {r : Responder} {source : Source} {reply : UniversalPaymentEvent}
    (hmem : .responded r source reply ∈ v.trace) : source.front = true ∨
      ∃ i key tx, v.Inserted i key tx (some r) ∧ (source = .unrouted i ∨
        (source = .reaper i ∧
          reply = fromPb { toPb tx with mti := "0110", responseCode := "68" }) ∨
        ∃ p, source = .bank i p) := by
  refine h.invariant (I := fun v => ∀ r source reply, .responded r source reply ∈ v.trace →
    source.front = true ∨ ∃ i key tx, v.Inserted i key tx (some r) ∧ (source = .unrouted i ∨
      (source = .reaper i ∧ reply = fromPb { toPb tx with mti := "0110", responseCode := "68" }) ∨
      ∃ p, source = .bank i p)) ?_ ?_ r source reply hmem
  · intro v hv r source reply hmem
    rw [hv.trace] at hmem
    cases hmem
  · intro v v' hreach hv hmove r source reply hmem
    obtain ⟨l, hl⟩ := hmove.1.trace_append
    rcases hmove.1.responded_cases hmem with hold | ⟨hfront, -⟩ | ⟨key, entry, _, _, ht, hnew⟩
    · rcases hv r source reply hold with hfront | ⟨i, key, tx, hinserted, hsource⟩
      · exact .inl hfront
      · exact .inr ⟨i, key, tx, hinserted.grow hl, hsource⟩
    · exact .inl hfront
    · obtain ⟨_, _, htouch⟩ := ht.touch
      obtain ⟨hr, -, -⟩ := htouch.responded hnew
      obtain ⟨tx, hinserted⟩ := Flow.Reachable.inserted_responder hreach ht.get hr
      obtain ⟨tx', _, haccounted⟩ := Flow.Reachable.accounted hreach ht.get
      obtain ⟨-, rfl, -⟩ := hinserted.unique haccounted.inserted
      refine .inr ⟨entry.serial, key, tx, hinserted.grow hl, ?_⟩
      rcases htouch.answer hnew with hsource | ⟨hsource, hreply⟩ | hsource
      · exact .inl hsource
      · rw [Engine.timeoutReply, haccounted.transactionData] at hreply
        exact .inr (.inl ⟨hsource, hreply⟩)
      · exact .inr (.inr hsource)

/-- The key of a worker without a route is that of its context. -/
def IngressPc.Keyed : IngressPc → Prop
  | .carrying _ key ctx .inserted | .carrying _ key ctx .journaled
  | .carrying _ key ctx .unrouted => key = ctx.transaction.guardKey
  | _ => True

theorem CarryPath.keyed {s : Engine} {i : Serial} {key : String} {ctx : TransactionContext}
    {input : Input} {stage : Stage} {pc : IngressPc} {l : List Event}
    (h : CarryPath s i key ctx input stage pc l) (hkeyed : (IngressPc.carrying i key ctx stage).Keyed) :
    pc.Keyed := by
  cases h with
  | journal => exact hkeyed
  | noRoute => exact hkeyed
  | @fallback ok found _ =>
      rcases Engine.stipDecision_cases found ctx with ⟨_, -, heq⟩ | ⟨_, -, heq⟩
      · rw [heq]
        trivial
      · rw [heq]
        trivial
  | task | unjournaled | route | number | decline | record | send | fail | debit | undecided
  | decide => trivial

/-- Only a worker without a route gives the RC 05 of a request without a channel. -/
theorem CarryPath.unrouted {s : Engine} {i : Serial} {key : String} {ctx : TransactionContext}
    {input : Input} {stage : Stage} {pc : IngressPc} {l : List Event}
    (h : CarryPath s i key ctx input stage pc l) {r : Responder} {j : Serial}
    {reply : UniversalPaymentEvent} (hmem : .responded r (.unrouted j) reply ∈ l) :
    stage = .unrouted := by
  cases h with
  | decline => rfl
  | decide => simp [mem_answers] at hmem
  | task | unjournaled | journal | route | noRoute | number | record | send | fail | fallback | debit
  | undecided => simp at hmem

theorem IngressPath.keyed {s : Engine} {input : Input} {pc pc' : IngressPc} {l : List Event}
    (h : IngressPath s input pc pc' l) (hkeyed : pc.Keyed) : pc'.Keyed := by
  cases h with
  | accept => rfl
  | carry hcarry => exact hcarry.keyed hkeyed
  | receive | panic | answer | clear | plain | detokenize | screen | reverse | mark | pass
  | evict => trivial

/-- The decline of a request without a route: made of a context with the same key. -/
def UniversalPaymentEvent.Declined (tx reply : UniversalPaymentEvent) : Prop :=
  ∃ tx' : UniversalPaymentEvent, tx'.guardKey = tx.guardKey ∧ reply = tx'.answer "0110" "05"

namespace Engine

variable {s t : Engine} {w : Nat} {r : Responder} {l : List Event}

theorem keyed_of_step {a : Action} (hs : ∀ w, (s.ingress w).Keyed) (h : s.step a = some t) (w : Nat) :
    (t.ingress w).Keyed := by
  by_cases ha : ∃ input, a = .ingress w input
  · obtain ⟨input, rfl⟩ := ha
    obtain ⟨pc, l, hpath, htook⟩ := ingressStep_path h
    rw [htook.ingress, update_self]
    exact hpath.keyed (hs w)
  · rw [step_ingress h fun input heq => ha ⟨input, heq⟩]
    exact hs w

theorem Reachable.keyed {P : Engine → Action → Prop} (h : Reachable P s) (w : Nat) :
    (s.ingress w).Keyed := by
  refine h.invariant (I := fun s => ∀ w, (s.ingress w).Keyed) ?_ ?_ w
  · intro s hs w
    rw [hs.ingress]
    trivial
  · intro s t _ hkeyed ⟨a, _, hstep⟩ w
    exact keyed_of_step hkeyed hstep w

/-- A worker without a route answers for the entry under its key. -/
theorem CarryTurn.unrouted {i : Serial} {key : String} {ctx : TransactionContext} {stage : Stage}
    {input : Input} {pc : IngressPc} (hturn : s.CarryTurn i key ctx input stage pc t)
    (hl : t.trace = s.trace ++ l) {j : Serial} {reply : UniversalPaymentEvent}
    (hmem : .responded r (.unrouted j) reply ∈ l) : stage = .unrouted ∧ input = .run ∧
      reply = ctx.transaction.answer "0110" "05" ∧ ∃ entry, s.guard.get key = some entry ∧
        entry.responder = some r ∧ entry.serial = j := by
  obtain ⟨l', hpath, -, hl'⟩ := hturn.path
  obtain rfl := List.append_cancel_left (hl'.symm.trans hl)
  obtain rfl := hpath.unrouted hmem
  refine ⟨rfl, ?_⟩
  cases hturn with
  | @decline entry hget =>
      have htrace := respond_trace s entry.responder (.unrouted entry.serial)
        (ctx.transaction.answer "0110" "05")
      obtain rfl := List.append_cancel_left (hl.symm.trans htrace)
      obtain ⟨_, hr, heq⟩ := mem_answers.mp hmem
      cases heq
      exact ⟨rfl, rfl, entry, hget, hr, rfl⟩
  | declineNobody =>
      rw [List.self_eq_append_right.mp hl] at hmem
      cases hmem

theorem unrouted_of_step {a : Action} (h : s.step a = some t) (hl : t.trace = s.trace ++ l)
    {i : Serial} {reply : UniversalPaymentEvent} (hmem : .responded r (.unrouted i) reply ∈ l) :
    ∃ w j key ctx entry, a = .ingress w .run ∧ s.ingress w = .carrying j key ctx .unrouted ∧
      reply = ctx.transaction.answer "0110" "05" ∧ s.guard.get key = some entry ∧
      entry.responder = some r ∧ entry.serial = i := by
  cases step_path h hl with
  | @ingress w input pc _ hpath =>
      obtain ⟨pc', u, hturn, rfl⟩ := ingressStep_turn h
      generalize hpc₀ : s.ingress w = pc₀ at hpath hturn
      cases hpath with
      | @carry j key ctx stage _ _ _ hcarry =>
          obtain rfl := hcarry.unrouted hmem
          cases hturn with
          | carry hturn =>
              obtain ⟨-, rfl, rfl, entry, hget, hr, rfl⟩ := hturn.unrouted hl hmem
              exact ⟨w, j, key, ctx, entry, rfl, hpc₀, rfl, hget, hr, rfl⟩
          | answer _ hheld => cases hheld
      | answer _ hfront =>
          obtain ⟨_, -, heq⟩ := mem_answers.mp hmem
          cases heq
          cases hfront
      | evict hevicted =>
          obtain ⟨_, hmem⟩ := hevicted _ hmem
          cases hmem
      | receive | panic | clear | plain | detokenize | screen | reverse | mark | pass | accept =>
          simp at hmem
  | hsm hpath => cases hpath.ofTask _ hmem
  | reaper hreaper => cases hreaper _ hmem
  | reply hpath => cases hpath.ofReply _ hmem
  | bank | probe => simp at hmem
  | silent => cases hmem

/-- So what it answers has the key of the request that it answers. -/
theorem declined_of_step {Q : Flow.Discipline} (hkeyed : ∀ w, (s.ingress w).Keyed)
    (hflow : Flow.Reachable Q s.flow) {a : Action} (h : s.step a = some t)
    (hl : t.trace = s.trace ++ l) {i : Serial} {reply : UniversalPaymentEvent}
    (hmem : .responded r (.unrouted i) reply ∈ l) :
    ∃ key tx, s.flow.Inserted i key tx (some r) ∧ tx.Declined reply := by
  obtain ⟨w, j, key, ctx, entry, -, hpc, rfl, hget, hr, rfl⟩ := unrouted_of_step h hl hmem
  have hkeyed := hkeyed w
  rw [hpc] at hkeyed
  obtain ⟨tx, hinserted⟩ := Flow.Reachable.inserted_responder hflow hget hr
  refine ⟨key, tx, hinserted, ctx.transaction, ?_, rfl⟩
  rw [← Flow.Reachable.inserted_key hflow hinserted]
  exact hkeyed.symm

theorem Reachable.declined {P : Engine → Action → Prop} (h : Reachable P s) {i : Serial}
    {reply : UniversalPaymentEvent} (hmem : .responded r (.unrouted i) reply ∈ s.trace) :
    ∃ key tx, s.flow.Inserted i key tx (some r) ∧ tx.Declined reply := by
  refine h.invariant (I := fun s => ∀ r i reply, .responded r (.unrouted i) reply ∈ s.trace →
    ∃ key tx, s.flow.Inserted i key tx (some r) ∧ tx.Declined reply) ?_ ?_ r i reply hmem
  · intro s hs r i reply hmem
    rw [hs.trace] at hmem
    cases hmem
  · intro s t hreach hs ⟨a, _, hstep⟩ r i reply hmem
    obtain ⟨l, hl⟩ := step_trace_append (Reachable.disowned hreach) hstep
    have hgrow : t.flow.trace = s.flow.trace ++ l := hl
    rw [hl, List.mem_append] at hmem
    rcases hmem with hold | hnew
    · obtain ⟨key, tx, hinserted, hdeclined⟩ := hs r i reply hold
      exact ⟨key, tx, hinserted.grow hgrow, hdeclined⟩
    · obtain ⟨key, tx, hinserted, hdeclined⟩ := declined_of_step (Reachable.keyed hreach)
        (Reachable.flow_free hreach) hstep hl hnew
      exact ⟨key, tx, hinserted.grow hgrow, hdeclined⟩

/-- What an answer to a responder is made of, if `tx₀` came with the responder. -/
inductive AnswerOf (s : Engine) (r : Responder) (tx₀ : UniversalPaymentEvent) :
    Source → UniversalPaymentEvent → Prop where
  | echo {source : Source} {reply : UniversalPaymentEvent} : (∀ i p, source ≠ .bank i p) →
      Echoes tx₀ reply → AnswerOf s r tx₀ source reply
  | decline {reply : UniversalPaymentEvent} (i : Serial) : tx₀.Declined reply →
      AnswerOf s r tx₀ (.unrouted i) reply
  | approval {i : Serial} {key : String} {tx : UniversalPaymentEvent} (p : Packet)
      (reply : UniversalPaymentEvent) : s.flow.Inserted i key tx (some r) →
      s.mem.tspVault.Resolves tx₀ tx → AnswerOf s r tx₀ (.bank i p) reply

/-- Every answer is about a request that came in, and an approval goes to whom the bank was
asked for. -/
theorem Reachable.answered {P : Engine → Action → Prop} (h : Reachable P s) {source : Source}
    {reply : UniversalPaymentEvent} (hmem : .responded r source reply ∈ s.trace) :
    ∃ tx₀, s.Arrives r tx₀ ∧ s.AnswerOf r tx₀ source reply := by
  have harrived := Reachable.arrived h
  rcases (Reachable.flow_free h).answer_cases hmem with hfront | ⟨i, key, tx, hinserted, hsource⟩
  · obtain ⟨tx, harrives, hechoes⟩ := harrived.front hmem hfront
    refine ⟨tx, harrives, .echo (fun i p heq => ?_) hechoes⟩
    rw [heq] at hfront
    cases hfront
  obtain ⟨tx₀, harrives, hresolves⟩ := harrived.inserted (History.mem hinserted)
  refine ⟨tx₀, harrives, ?_⟩
  rcases hsource with rfl | ⟨rfl, rfl⟩ | ⟨p, rfl⟩
  · obtain ⟨_, _, hinserted', tx', hkey, hreply⟩ := Reachable.declined h hmem
    obtain ⟨-, rfl, -⟩ := hinserted.unique hinserted'
    exact .decline i ⟨tx', hkey.trans hresolves.guardKey, hreply⟩
  · exact .echo (fun _ _ heq => (by cases heq)) (hresolves.echoes (echoes_fromPb _ _ _))
  · exact .approval p reply hinserted hresolves

end Engine

namespace Clearing

variable {z : Clearing} {r : Responder} {i : Serial} {p : Packet}
  {tx₀ tx reply : UniversalPaymentEvent} {v : String × String}

theorem Approved.echoes (h : z.Approved r i p reply tx v)
    (hresolves : z.engine.mem.tspVault.Resolves tx₀ tx) : Echoes tx₀ reply := by
  obtain ⟨stan, pinBlock, rfl⟩ := h.reply
  have hechoes := echoes_fromPb { tx with stan := stan, pinBlock := pinBlock } "0110" v.2
  exact hresolves.echoes ⟨hechoes.amount, hechoes.rrn, hechoes.localTime, hechoes.localDate⟩

/-- An answer goes to the responder of a context that came in.  It has the amount, the RRN
and the local date and time of that request, or else it is the decline of a request without
a route, which has its key. -/
theorem answers_echo (h : Reachable (Meets Apart) z) {source : Source}
    (hmem : .responded r source reply ∈ z.engine.trace) :
    ∃ tx, z.engine.trace[r]? = some (.received tx true) ∧
      (Echoes tx reply ∨ (∃ i, source = .unrouted i) ∧ tx.Declined reply) := by
  obtain ⟨tx₀, harrives, hanswer⟩ := Engine.Reachable.answered (Reachable.engine_free h) hmem
  refine ⟨tx₀, harrives, ?_⟩
  cases hanswer with
  | echo _ hechoes => exact .inl hechoes
  | decline i hdeclined => exact .inr ⟨⟨i, rfl⟩, hdeclined⟩
  | approval p reply hinserted hresolves =>
      obtain ⟨tx, v, happroved⟩ := Reachable.approved h hmem
      obtain ⟨_, hinserted'⟩ := happroved.inserted
      obtain ⟨-, rfl, -⟩ := hinserted.unique hinserted'
      exact .inl (happroved.echoes hresolves)

set_option maxRecDepth 8000 in
theorem answers_echo_cleared : ∃ tx, clearedPurchase.engine.trace[0]? = some (.received tx true) ∧
    (Echoes tx (Engine.approval purchaseApproval) ∨
      (∃ i, Source.bank 1 purchaseApproval = .unrouted i) ∧
        tx.Declined (Engine.approval purchaseApproval)) := by
  have hmem : .responded 0 (.bank 1 purchaseApproval) (Engine.approval purchaseApproval) ∈
      clearedPurchase.engine.trace := by decide +kernel
  exact answers_echo reachable_clearedPurchase hmem

end Clearing

end Iso8583Switch
