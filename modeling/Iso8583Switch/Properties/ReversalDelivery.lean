import Iso8583Switch.Edge.IngressServer
import Iso8583Switch.Flow.Iteration
import Iso8583Switch.Properties.PinBlocks

/-!
# What becomes of a reversal request

A reversal that the engine recognizes marks the entries that it finds and goes no
further.  A reversal that the engine does not recognize goes to the bank as a new
transaction, or is a duplicate of its own original, and marks nothing.  `Processing`
follows one context through all interleavings, by the worker that took it and by the
HSM task that it is handed to, with what they did for it.
-/

namespace Iso8583Switch

open Text Function

/-! ## Reversal requests -/

/-- A 0420 on the ingress channel, and whether it has a responder. -/
inductive ReversalAdvice (past : List Event) : UniversalPaymentEvent → Bool → Prop where
  | accepted {dialect : IngressDialect} {payload : Bytes} {tx : UniversalPaymentEvent} :
      dialect.parse payload = .ok tx → tx.mti = asBytes "0420" → ReversalAdvice past tx true
  /-- The response to the context at position `m` is pending in instance `i`. -/
  | dropped {m : Nat} {i : Serial} {key : String} {tx₀ tx : UniversalPaymentEvent} :
      past[m]? = some (.received tx₀ true) → past[i]? = some (.inserted key tx (some m)) →
      ReversalAdvice past (socketDropReversal tx₀) false

/-- The bank has answered for the instance, or the engine has given it up. -/
def Event.settles (i : Serial) : Event → Bool
  | .handled _ (some j) | .timedOut j _ | .evicted _ j => j = i
  | _ => false

/-- The request of instance `i` was sent upstream as `sent` and has no answer yet. -/
structure AwaitsBank (past : List Event) (i : Serial) (sent : Frame) : Prop where
  placed : .placed sent ∈ past
  request : sent.origin.request = some i
  unsettled : ∀ e ∈ past, e.settles i = false

/-- A 0420 is received at position `n`, while the original waits for the bank. -/
structure Advised (s : Engine) (n : Nat) (i : Serial) (sent : Frame) : Prop where
  advice : ∃ tx answerable, s.trace[n]? = some (.received tx answerable) ∧
    ReversalAdvice (s.trace.take n) tx answerable
  pending : AwaitsBank (s.trace.take n) i sent

/-- The 0420 was processed as the reversal of the original: it is marked, and the bank
that has the request gets a 0420. -/
structure ReachesBank (i : Serial) (sent : Frame) (l : List Event) : Prop where
  marked : .marked i ∈ l
  placed : ∃ f, .placed f ∈ l ∧ f.channel = sent.channel ∧ f.transaction.mti = asBytes "0420"
  notDuplicate : ∀ r reply, .responded r .duplicate reply ∉ l
  notNew : ∀ key tx r, .inserted key tx r ∉ l

/-! ## The processing of one context -/

/-- The instance whose context the worker is about to hand to the HSM task. -/
def IngressPc.handsOver : IngressPc → Option Serial
  | .carrying i _ ctx .inserted => if ctx.needsHsm then some i else none
  | _ => none

/-- Who has the context by now, and what was done with it. -/
structure Processing where
  worker : Option Nat
  task : Option Serial
  events : List Event

namespace Processing

def none : Processing := ⟨.none, .none, []⟩

/-- A step on the context by its worker. -/
def work (g : Processing) (pc : IngressPc) (l : List Event) : Processing :=
  { g with task := pc.handsOver <|> g.task, events := g.events ++ l }

/-- A step on the context by its task. -/
def delegate (g : Processing) (l : List Event) : Processing := { g with events := g.events ++ l }

end Processing

/-- What a step does. -/
def Engine.eventsOf (s : Engine) (a : Action) : List Event :=
  match s.step a with
  | some t => Engine.newEvents s t
  | .none => []

/-- The processing of the context that is received at position `n`. -/
def Processing.track (n : Nat) (s : Engine) (a : Action) (g : Processing) : Processing :=
  match a with
  | .ingress w (.receive _ _) =>
      if s.trace.length = n then ⟨some w, .none, s.eventsOf a⟩
      else if g.worker = some w then { g with worker := .none }
      else g
  | .ingress w _ => if g.worker = some w then g.work (s.ingress w) (s.eventsOf a) else g
  | .hsm i _ => if g.task = some i then g.delegate (s.eventsOf a) else g
  | _ => g

/-! ## Marking or placing -/

namespace Processing

variable {g : Processing} {pc pc' : IngressPc} {l : List Event} {s : Engine} {input : Input}

def Unmarked (g : Processing) : Prop := ∀ i, .marked i ∉ g.events

/-- Nothing was placed, and no task has the context. -/
structure Unplaced (g : Processing) : Prop where
  task : g.task = .none
  events : ∀ f, .placed f ∉ g.events

/-- What was done when the worker is at a position. -/
def At (g : Processing) : IngressPc → Prop
  | .received _ | .cleared _ | .detokenized _ | .screened _ => g.Unmarked ∧ g.Unplaced
  | .scanning _ _ _ _ => g.Unplaced
  | .carrying _ _ _ _ => g.Unmarked
  | .idle | .panicked | .evicting _ => g.Unmarked ∨ g.Unplaced

theorem Unmarked.work (h : g.Unmarked) (hl : ∀ i, .marked i ∉ l) : (g.work pc l).Unmarked :=
  fun i hmem => (List.mem_append.mp hmem).elim (h i) (hl i)

theorem Unplaced.work (h : g.Unplaced) (hpc : pc.handsOver = .none) (hl : ∀ f, .placed f ∉ l) :
    (g.work pc l).Unplaced := by
  refine ⟨?_, fun f hmem => (List.mem_append.mp hmem).elim (h.events f) (hl f)⟩
  rw [Processing.work, hpc, h.task]
  rfl

/-- The worker is done with the context. -/
theorem At.leave (h : g.At pc) (hmarked : ∀ i, .marked i ∉ l) (hplaced : ∀ f, .placed f ∉ l) :
    (g.work pc l).Unmarked ∨ (g.work pc l).Unplaced := by
  cases pc with
  | received | cleared | detokenized | screened => exact .inl (h.1.work hmarked)
  | carrying => exact .inl (Unmarked.work h hmarked)
  | scanning => exact .inr (Unplaced.work h rfl hplaced)
  | idle | panicked | evicting =>
      exact h.imp (fun h => h.work hmarked) fun h => h.work rfl hplaced

theorem At.work (h : g.At pc) (hpath : IngressPath s input pc pc' l)
    (hinput : ∀ tx answerable, input ≠ .receive tx answerable) : (g.work pc l).At pc' := by
  cases hpath with
  | receive tx answerable => exact absurd rfl (hinput tx answerable)
  | panic => exact h.leave (by simp) (by simp)
  | answer => exact h.leave (by simp [mem_answers]) (by simp [mem_answers])
  | clear | plain | detokenize | screen =>
      exact ⟨h.1.work (by simp), h.2.work rfl (by simp)⟩
  | reverse => exact h.2.work rfl (by simp)
  | mark | pass => exact Unplaced.work h rfl (by simp)
  | accept => exact h.1.work (by simp)
  | carry hcarry =>
      have hunmarked {pc : IngressPc} : (g.work pc l).Unmarked :=
        Unmarked.work h fun i hmem => by cases hcarry.ofCarry _ hmem
      cases hcarry with
      | task | unjournaled | send | undecided | decide | decline => exact .inl hunmarked
      | journal | route | noRoute | number | record | fail | fallback | debit => exact hunmarked
  | evict hl =>
      refine h.leave (fun i hmem => ?_) fun f hmem => ?_
      · obtain ⟨_, he⟩ := hl _ hmem
        cases he
      · obtain ⟨_, he⟩ := hl _ hmem
        cases he

end Processing

namespace Engine

/-- The runs with the processing of the context that is received at position `n`. -/
abbrev Processed (n : Nat) : Engine × Processing → Prop :=
  Transition.Tracked Initial Processing.none step (Processing.track n) fun _ _ => True

/-- What was done has marked nothing or placed nothing. -/
structure Parted (p : Engine × Processing) : Prop where
  worker : ∀ w, p.2.worker = some w → p.2.At (p.1.ingress w)
  parted : p.2.Unmarked ∨ p.2.Unplaced

variable {n : Nat} {p q : Engine × Processing} {a : Action}

theorem eventsOf_eq {s t : Engine} {l : List Event} (hstep : s.step a = some t)
    (hl : t.trace = s.trace ++ l) : s.eventsOf a = l := by
  rw [eventsOf, hstep]
  simp only [newEvents, hl, List.drop_left]

/-- A step that the processing does not take leaves its worker where it is. -/
theorem Parted.elsewhere (hp : Parted p) (hstep : p.1.step a = some q.1) (hsame : q.2 = p.2)
    (ha : ∀ w input, a = .ingress w input → p.2.worker ≠ some w) : Parted q := by
  refine ⟨fun w hw => ?_, hsame ▸ hp.parted⟩
  rw [hsame] at hw ⊢
  have hingress : q.1.ingress w = p.1.ingress w :=
    step_ingress hstep fun input hinput => ha w input hinput hw
  rw [hingress]
  exact hp.worker w hw

/-- The worker of the context moves. -/
theorem Parted.worker_step (hp : Parted p) {w : Nat} {input : Input}
    (hstep : p.1.step (.ingress w input) = some q.1) (hw : p.2.worker = some w)
    (hinput : ∀ tx answerable, input ≠ .receive tx answerable)
    (hq : q.2 = p.2.work (p.1.ingress w) (p.1.eventsOf (.ingress w input))) : Parted q := by
  obtain ⟨pc, l, hpath, htook⟩ := ingressStep_path hstep
  rw [eventsOf_eq hstep htook.trace] at hq
  have hat : q.2.At pc := hq ▸ (hp.worker w hw).work hpath hinput
  have hpc : q.1.ingress w = pc := by rw [htook.ingress, update_self]
  refine ⟨fun w' hw' => ?_, ?_⟩
  · have hworker : q.2.worker = some w := by rw [hq]; exact hw
    obtain rfl : w' = w := Option.some.inj (hw'.symm.trans hworker)
    rw [hpc]
    exact hat
  · cases pc with
    | received | cleared | detokenized | screened => exact .inl hat.1
    | scanning => exact .inr hat
    | carrying => exact .inl hat
    | idle | panicked | evicting => exact hat

/-- The task of the context moves. -/
theorem Parted.task_step (hp : Parted p) {i : Serial} {input : Input}
    (hstep : p.1.step (.hsm i input) = some q.1) (hi : p.2.task = some i)
    (hq : q.2 = p.2.delegate (p.1.eventsOf (.hsm i input))) : Parted q := by
  obtain ⟨pc, l, hpath, -, hingress, -, hl⟩ := hsmStep_path hstep
  rw [eventsOf_eq hstep hl] at hq
  -- A context with a task has marked nothing.
  have hold : p.2.Unmarked := hp.parted.resolve_right fun hunplaced => by
    rw [hunplaced.task] at hi
    cases hi
  have hnew : q.2.Unmarked := fun j hmem => by
    rw [hq] at hmem
    exact (List.mem_append.mp hmem).elim (hold j) fun hnew => by cases hpath.ofTask _ hnew
  refine ⟨fun w hw => ?_, .inl hnew⟩
  have hat : p.2.At (p.1.ingress w) := hp.worker w (by rw [hq] at hw; exact hw)
  rw [hingress]
  cases hpc : p.1.ingress w with
  | received | cleared | detokenized | screened | scanning =>
      rw [hpc] at hat
      have htask : p.2.task = none := by first | exact hat.2.task | exact hat.task
      rw [htask] at hi
      cases hi
  | carrying => exact hnew
  | idle | panicked | evicting => exact .inl hnew

/-- A context is received, which may be the one that is followed. -/
theorem Parted.receive_step (hp : Parted p) {w : Nat} {tx : UniversalPaymentEvent}
    {answerable : Bool}
    (hstep : p.1.step (.ingress w (.receive tx answerable)) = some q.1)
    (hq : q.2 = Processing.track n p.1 (.ingress w (.receive tx answerable)) p.2) : Parted q := by
  obtain ⟨-, hreceive⟩ := step_receive hstep
  have hl : q.1.trace = p.1.trace ++ [.received tx answerable] := by rw [hreceive]; rfl
  have hpc : ∃ ctx, q.1.ingress w = .received ctx := by
    rw [hreceive]
    exact ⟨_, setIngress_self _ _ _⟩
  rw [Processing.track, eventsOf_eq hstep hl] at hq
  split at hq
  next =>
    -- Nothing has been done with it yet.
    have hunmarked : q.2.Unmarked := by rw [hq]; intro i; simp
    have hunplaced : q.2.Unplaced := by rw [hq]; exact ⟨rfl, by simp⟩
    refine ⟨fun w' hw' => ?_, .inl hunmarked⟩
    rw [hq] at hw'
    cases hw'
    obtain ⟨ctx, hctx⟩ := hpc
    rw [hctx]
    exact ⟨hunmarked, hunplaced⟩
  next =>
    split at hq
    next =>
      refine ⟨fun w' hw' => ?_, hq ▸ hp.parted.imp id fun h => ⟨h.task, h.events⟩⟩
      rw [hq] at hw'
      cases hw'
    next hw => exact hp.elsewhere hstep hq fun w' input' ha => by cases ha; exact hw

theorem Parted.keep (hp : Parted p) (hstep : p.1.step a = some q.1)
    (htrack : q.2 = Processing.track n p.1 a p.2) : Parted q := by
  cases a with
  | ingress w input =>
      by_cases hreceive : ∃ tx answerable, input = .receive tx answerable
      · obtain ⟨tx, answerable, rfl⟩ := hreceive
        exact hp.receive_step hstep htrack
      · have hinput : ∀ tx answerable, input ≠ .receive tx answerable :=
          fun tx answerable h => hreceive ⟨tx, answerable, h⟩
        have hq : q.2 = if p.2.worker = some w then
            p.2.work (p.1.ingress w) (p.1.eventsOf (.ingress w input)) else p.2 := by
          cases input with
          | receive tx answerable => exact absurd rfl (hinput tx answerable)
          | _ => exact htrack
        split at hq
        next hw => exact hp.worker_step hstep hw hinput hq
        next hw => exact hp.elsewhere hstep hq fun w' input' ha => by cases ha; exact hw
  | hsm i input =>
      rw [Processing.track] at htrack
      split at htrack
      next hi => exact hp.task_step hstep hi htrack
      next => exact hp.elsewhere hstep htrack fun w input' ha => by cases ha
  | reaper | reply | probe | bank | tick | storeStip | storeCrdb | storeRouter | pollSanctions =>
      exact hp.elsewhere hstep htrack fun w input' ha => by cases ha

theorem Processed.parted (hp : Processed n p) : Parted p := by
  refine hp.invariant (fun q hq => ?_) fun q q' _ hv ⟨a, _, hstep⟩ => ?_
  · obtain ⟨s, g⟩ := q
    obtain ⟨-, rfl⟩ := hq
    refine ⟨fun w hw => ?_, .inl fun i => List.not_mem_nil⟩
    cases hw
  · obtain ⟨hstep, htrack⟩ := Transition.tracking_eq_some hstep
    exact hv.keep hstep htrack

/-- Whatever is done with a reversal request, it does not reach the bank. -/
theorem reversal_never_reaches_bank (hp : Processed n p) :
    ∀ i sent, Advised p.1 n i sent → ¬ ReachesBank i sent p.2.events := by
  intro i sent _ hreaches
  obtain ⟨f, hplaced, -⟩ := hreaches.placed
  rcases (Processed.parted hp).parted with hunmarked | hunplaced
  · exact hunmarked i hreaches.marked
  · exact hunplaced.events f hplaced

/-! ## A terminal that hangs up -/

/-- The worker and the task are done with the context. -/
def Done (n : Nat) (p : Engine × Processing) : Prop :=
  n < p.1.trace.length ∧ (∀ w, p.2.worker = some w → p.1.ingress w = .idle) ∧
    ∀ i, p.2.task = some i → p.1.hsm i = .finished

/-- The terminal of the purchase hangs up while the bank has it. -/
def hungUp : List Action :=
  asked ++ [.ingress 0 (.receive (socketDropReversal (purchase "000100" "RRN000000001")) false),
    .ingress 0 .run, .ingress 0 .run, .ingress 0 .run, .ingress 0 .run]

/-- The run with the processing of the injected reversal. -/
def hangingUp : Engine × Processing :=
  Transition.tracked step (Processing.track 6) (start 100 ∅) Processing.none hungUp

set_option maxRecDepth 8000 in
theorem hangingUp_processed : Processed 6 hangingUp :=
  Transition.Tracked.of_complies (P := fun _ _ => True) (fun _ _ => id) (start_initial 100 ∅)
    (by decide)

set_option maxRecDepth 8000 in
theorem hangingUp_advised : Advised hangingUp.1 6 1 (purchaseFrame 1 "000000") where
  advice := by
    have hinserted : (hangingUp.1.trace.take 6)[1]? = some (.inserted "RRN000000001-000100-ACQ1"
      (purchase "000100" "RRN000000001") (some 0)) := by decide
    exact ⟨socketDropReversal (purchase "000100" "RRN000000001"), false, by decide,
      .dropped (by decide) hinserted⟩
  pending := ⟨by decide, rfl, by decide⟩

theorem reversal_never_reaches_bank_hungUp :
    ¬ ReachesBank 1 (purchaseFrame 1 "000000") hangingUp.2.events :=
  reversal_never_reaches_bank hangingUp_processed 1 _ hangingUp_advised

set_option maxRecDepth 8000 in
/-- The injected reversal is done with and has not reached the bank. -/
theorem hungUp_reversal_lost :
    ¬ ∀ (n : Nat) (p : Engine × Processing) (i : Serial) (sent : Frame), Processed n p → Done n p →
      Advised p.1 n i sent → ReachesBank i sent p.2.events := by
  intro h
  have hdone : Done 6 hangingUp := by
    refine ⟨by decide, fun w hw => ?_, fun i hi => ?_⟩
    · cases hw
      rfl
    · cases hi
  have hreaches := h 6 hangingUp 1 _ hangingUp_processed hdone hangingUp_advised
  exact absurd hreaches.marked (by decide)

end Engine

end Iso8583Switch
