import Iso8583Switch.Flow.Refinement
import Iso8583Switch.Flow.Wire

/-!
# Runs given as lists of actions

A list of actions names one interleaving.  `after` is the state in which the
interleaving ends, and it is reachable under every discipline that the actions
comply with.  The short lists below are the paths of a request through the
threads and are put together to larger runs where a concrete one is needed.
-/

namespace Iso8583Switch

open Text

namespace Engine

/-- The state after a run from a started engine with a timeout of 100 ms. -/
def after (actions : List Action) : Engine :=
  (Transition.exec step (start 100 ∅) actions).getD (start 100 ∅)

/-- A run that ends in a reachable state is continued by actions that comply with
a stricter discipline. -/
theorem reachable_after_append {P Q : Engine → Action → Prop} [∀ s a, Decidable (P s a)]
    (hPQ : ∀ s a, P s a → Q s a) {actions more : List Action}
    (henabled : (Transition.exec step (start 100 ∅) actions).isSome)
    (h : Reachable Q (after actions))
    (hmore : Transition.complies step P (after actions) more = true) :
    Reachable Q (after (actions ++ more)) :=
  Transition.Reachable.ran_append hPQ henabled h hmore

theorem reachable_after {P Q : Engine → Action → Prop} [∀ s a, Decidable (P s a)]
    (hPQ : ∀ s a, P s a → Q s a) {actions : List Action}
    (h : Transition.complies step P (start 100 ∅) actions = true) :
    Reachable Q (after actions) := by
  have hstart : Reachable Q (after []) := .start (start_initial 100 ∅)
  exact reachable_after_append hPQ rfl hstart h

/-- Every run is a run of the undisciplined engine. -/
theorem reachable_after_free {actions : List Action}
    (h : Transition.complies step Transition.Free (start 100 ∅) actions = true) :
    Reachable Transition.Free (after actions) :=
  reachable_after (fun _ _ => id) h

/-- A run that is continued by one action. -/
theorem reachable_after_step {Q : Engine → Action → Prop} {actions : List Action} {a : Action}
    (henabled : (Transition.exec step (start 100 ∅) actions).isSome)
    (h : Reachable Q (after actions)) (hq : Q (after actions) a)
    (hstep : (step (after actions) a).isSome) : Reachable Q (after (actions ++ [a])) :=
  Transition.Reachable.ran_step henabled h hq hstep

/-- The step adds only events of a kind. -/
def Adds (p : Event → Bool) (s : Engine) (a : Action) : Prop :=
  ((s.step a).map fun t => (newEvents s t).all p) ≠ some false

instance (p : Event → Bool) (s : Engine) (a : Action) : Decidable (Adds p s a) :=
  inferInstanceAs (Decidable (_ ≠ _))

/-- A discipline that says nothing about events of the kind is met. -/
theorem Adds.upholds {p : Event → Bool} {Q : Flow.Discipline} (hp : ∀ v e, p e = true → Q v e)
    (s : Engine) (a : Action) (h : Adds p s a) : Upholds Q s a := by
  intro t ht e he
  rw [Adds, ht] at h
  have hall : (newEvents s t).all p = true := by simpa using h
  exact hp _ e (List.all_eq_true.mp hall e he)

/-- What a step adds to the trace is known. -/
theorem upholds_of_newEvents {Q : Flow.Discipline} {s : Engine} {a : Action} {l : List Event}
    (hl : (s.step a).map (newEvents s) = some l) (h : ∀ e ∈ l, Q s.flow e) : Upholds Q s a := by
  intro t ht e he
  rw [ht] at hl
  cases hl
  exact h e he

end Engine

/-! ## Paths of a request -/

/-- All cards with a leading 4 go to one node. -/
def visaRouter : BinTrie :=
  BinTrie.new.insert (asBytes "4") ⟨.externalNode "MockVisaNode", none⟩

/-- A purchase of one acquirer. -/
def purchase (stan rrn : String) : UniversalPaymentEvent :=
  { Engine.probeEvent 0 with
    messageClass := .authorization
    mti := asBytes "0100"
    fpan := asBytes "4111111111111111"
    amount := 1000
    stan := stan
    rrn := rrn
    acquirerId := asBytes "ACQ1" }

/-- The purchase with a PIN. -/
def pinPurchase : UniversalPaymentEvent :=
  { purchase "000100" "RRN000000001" with pinBlock := asBytes "PINBLOCK" }

/-- The frame that the bank gets of it. -/
def pinFrame (i : Serial) : Frame :=
  ⟨.hsm i, .externalNode "MockVisaNode", 0, { pinPurchase with pinBlock := asBytes "TRANSLATED" }⟩

/-- The reversal of the purchase, with the STAN of the original in field 90. -/
def terminalReversal : UniversalPaymentEvent :=
  { purchase "000200" "RRN000000002" with
    mti := asBytes "0400"
    isReversal := true
    originalDataElements := some "01000001000727000000000000000000000000000" }

/-- The frame that the bank gets of the purchase that the runs are about. -/
def purchaseFrame (i : Serial) (egressStan : String) : Frame :=
  ⟨.ingress i, .externalNode "MockVisaNode", 0,
    { purchase "000100" "RRN000000001" with stan := egressStan }⟩

/-- The 0420 that the reaper makes of it. -/
def purchaseReversal : UniversalPaymentEvent :=
  fromPb { toPb (purchase "000100" "RRN000000001") with mti := "0420" }

/-- A worker takes a request up to the guard insert. -/
def accept (w : Nat) (tx : UniversalPaymentEvent) : List Action :=
  [.ingress w (.receive tx true), .ingress w .run, .ingress w .run, .ingress w .run,
    .ingress w .run]

/-- From the journal to the egress channel. -/
def forward (w : Nat) (sent : Bool) : List Action :=
  [.ingress w (.outcome true), .ingress w .run, .ingress w .run, .ingress w .run,
    .ingress w (.outcome sent)]

/-- From the worker through the HSM task of a PIN transaction to the egress channel. -/
def forwardPin (w : Nat) (i : Serial) : List Action :=
  [.ingress w (.outcome true), .hsm i .run, .hsm i (.translatedPin (some "TRANSLATED")),
    .hsm i .run, .hsm i (.outcome true), .hsm i (.outcome true)]

/-- The reversal of the purchase, up to its acknowledgement. -/
def acknowledge (w : Nat) : List Action :=
  accept w terminalReversal ++
    [.ingress w (.visit "RRN000000001-000100-ACQ1"), .ingress w .run]

/-- The reaper times one entry out, after its first pass has met it. -/
def reap (key : String) : List Action :=
  [.tick 101, .reaper .run, .reaper (.visit key), .reaper .run, .reaper (.outcome true),
    .reaper .run, .reaper .run, .reaper .run, .reaper .run, .reaper .run]

/-- A bank reply, and one iteration of a reply worker on it. -/
def bankAnswer (w : Nat) (packet : Packet) : List Action :=
  [.bank packet, .reply w .run, .reply w (.outcome true), .reply w .run]

/-- The bank mirrors the frame at a position of the trace. -/
def mirror (n : Nat) (tx : UniversalPaymentEvent) : Packet :=
  ⟨{ toPb tx with mti := "0110", responseCode := "00" }, some n⟩

/-! ## A purchase from the terminal to the bank -/

/-- Events that no discipline of the traffic with the bank is about. -/
def Event.silent : Event → Bool
  | .inserted _ _ _ | .numbered _ _ | .placed _ | .replied _ => false
  | _ => true

/-- The purchase is about to be inserted. -/
def beforeInsert : List Action :=
  .storeRouter visaRouter :: (accept 0 (purchase "000100" "RRN000000001")).dropLast

/-- It is about to take an egress STAN. -/
def beforeNumber : List Action :=
  beforeInsert ++ [.ingress 0 .run] ++ [.ingress 0 (.outcome true), .ingress 0 .run]

/-- It is about to be sent. -/
def beforeSend : List Action := beforeNumber ++ [.ingress 0 .run] ++ [.ingress 0 .run]

/-- It is with the bank. -/
def asked : List Action := beforeSend ++ [.ingress 0 (.outcome true)]

/-- The approval of the bank. -/
def purchaseApproval : Packet := mirror 5 (purchaseFrame 1 "000000").transaction

namespace Engine

/-- Nothing is on the wire while nothing was placed. -/
theorem not_onWire {s : Engine} (h : ∀ e ∈ s.trace, e.isPlaced = false) {n : Nat} {f : Frame} :
    ¬ s.flow.OnWire n f :=
  fun hf => by cases h _ (History.mem hf.placed)

set_option maxRecDepth 8000 in
theorem beforeNumber_unused : (after beforeNumber).flow.Unused "000000" := by
  have hwire {n : Nat} {f : Frame} : ¬ (after beforeNumber).flow.OnWire n f := not_onWire (by decide)
  refine ⟨by decide, fun i hi => ?_, fun hf => absurd hf hwire⟩
  rcases hi with ⟨w, c, hc, -, he⟩ | ⟨n, f, hf, -⟩
  · cases w <;> cases hc
    cases he
  · exact hwire hf

theorem firstAnswer_of {s : Engine} {p : Packet} {n : Nat} {f : Frame}
    (hf : s.trace[n]? = some (.placed f)) (hmirrors : p.Mirrors f)
    (h : ∀ e ∈ s.trace, e.repliedTo ≠ some n) : s.flow.FirstAnswer p n :=
  ⟨⟨f, hf, hmirrors⟩, fun hq => h _ hq⟩

set_option maxRecDepth 8000 in
theorem asked_firstAnswer : (after asked).flow.FirstAnswer purchaseApproval 5 :=
  firstAnswer_of (f := purchaseFrame 1 "000000") (by decide) ⟨rfl, rfl, rfl⟩ (by decide)

set_option maxRecDepth 8000 in
/-- Where a discipline is met at the three steps that it may be about, the purchase gets to
the bank. -/
theorem reachable_sent {Q : Flow.Discipline} (hsilent : ∀ v e, e.silent = true → Q v e)
    (hinserted : Q (after beforeInsert).flow
      (.inserted "RRN000000001-000100-ACQ1" (purchase "000100" "RRN000000001") (some 0)))
    (hnumbered : Q (after beforeNumber).flow (.numbered 1 "000000"))
    (hplaced : Q (after beforeSend).flow (.placed (purchaseFrame 1 "000000"))) :
    Reachable (Upholds Q) (after asked) := by
  have hinsert : Reachable (Upholds Q) (after (beforeInsert ++ [.ingress 0 .run])) := by
    refine reachable_after_step (by decide)
      (reachable_after (Adds.upholds hsilent) (by decide))
      (upholds_of_newEvents (l := [.inserted "RRN000000001-000100-ACQ1"
        (purchase "000100" "RRN000000001") (some 0)]) (by decide) ?_) (by decide)
    simpa using hinserted
  have hnumber : Reachable (Upholds Q) (after (beforeNumber ++ [.ingress 0 .run])) := by
    refine reachable_after_step (by decide)
      (reachable_after_append (Adds.upholds hsilent) (by decide) hinsert (by decide))
      (upholds_of_newEvents (l := [.numbered 1 "000000"]) (by decide) ?_) (by decide)
    simpa using hnumbered
  refine reachable_after_step (by decide)
    (reachable_after_append (Adds.upholds hsilent) (by decide) hnumber (by decide))
    (upholds_of_newEvents (l := [.posted (purchaseFrame 1 "000000").transaction,
      .placed (purchaseFrame 1 "000000")]) (by decide) ?_) (by decide)
  simpa using ⟨hsilent _ _ rfl, hplaced⟩

set_option maxRecDepth 8000 in
/-- And with the reply of the bank, back. -/
theorem reachable_asked {Q : Flow.Discipline} (hsilent : ∀ v e, e.silent = true → Q v e)
    (hinserted : Q (after beforeInsert).flow
      (.inserted "RRN000000001-000100-ACQ1" (purchase "000100" "RRN000000001") (some 0)))
    (hnumbered : Q (after beforeNumber).flow (.numbered 1 "000000"))
    (hplaced : Q (after beforeSend).flow (.placed (purchaseFrame 1 "000000")))
    (hreplied : Q (after asked).flow (.replied purchaseApproval)) :
    Reachable (Upholds Q) (after (asked ++ [.bank purchaseApproval])) := by
  refine reachable_after_step (by decide) (reachable_sent hsilent hinserted hnumbered hplaced)
    (upholds_of_newEvents (l := [.replied purchaseApproval]) (by decide) ?_) (by decide)
  simpa using hreplied

end Engine

end Iso8583Switch
