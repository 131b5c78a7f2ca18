import Iso8583Switch.Properties.AutoReversal
import Iso8583Switch.Properties.ForwardingGate

/-!
# The PIN blocks on the external channels

A request that the terminal sends with a PIN block goes to an external channel with
the block that `translate_pin` returned for it.  The guard has saved the request
before the HSM saw it, and the reaper rebuilds its 0420 from what the guard saved.
`SavesNoPin` is the discipline under which this does no harm.
-/

namespace Iso8583Switch

open Text Function

/-- The frame has no PIN block, or the block that `translate_pin` returned for the
transaction that it is about. -/
def Sealed (p : Engine × Chronicle) (f : Frame) : Prop :=
  f.transaction.pinBlock = [] ∨
    ∃ i key tx r block, f.origin.serial = some i ∧ p.1.flow.Inserted i key tx r ∧
      p.2.PinTranslated i tx block ∧ f.transaction.pinBlock = asBytes block

/-- The runs with their chronicles, under a discipline. -/
abbrev Engine.ChronicledUnder (P : Engine → Action → Prop) : Engine × Chronicle → Prop :=
  Transition.Noted Engine.Initial Engine.step (fun s a => [(s, a)]) fun p a => P p.1 a

/-- What times out was saved without a PIN block, or its 0420 gets nowhere. -/
def Engine.SavesNoPin (s : Engine) (a : Action) : Prop :=
  ∀ key rest entry ok, s.TimesOut a key rest entry ok →
    entry.transactionData.pinBlock = "" ∨ s.reversalSent entry ok = none

/-! ## The frames of the other threads -/

namespace Engine

variable {s t : Engine} {a : Action} {l : List Event} {f : Frame}

/-- A frame is a request, or the reaper's, or a probe. -/
theorem step_places (h : s.step a = some t) (hl : t.trace = s.trace ++ l) (hmem : .placed f ∈ l) :
    (∃ i, f.origin.request = some i) ∨ (∃ i, f.origin = .reaper i) ∨
      ∃ secs, f.transaction = probeEvent secs := by
  cases step_path h hl with
  | ingress hpath =>
      obtain ⟨i, key, ctx, -, -, -, hf⟩ := hpath.placed hmem
      exact .inl ⟨i, by rw [hf]; rfl⟩
  | hsm hpath =>
      obtain ⟨ctx, -, -, -, hf⟩ := hpath.placed hmem
      exact .inl ⟨_, by rw [hf]; rfl⟩
  | reaper hreaper => exact .inr (.inl (Event.origin_of_ofReaper (hreaper _ hmem)))
  | reply hpath => cases hpath.ofReply _ hmem
  | probe =>
      cases List.mem_singleton.mp hmem
      exact .inr (.inr ⟨_, rfl⟩)
  | bank => simp at hmem
  | silent => cases hmem

/-- A frame of the reaper is the 0420 of the entry that it times out. -/
theorem Reachable.reverses {P : Engine → Action → Prop} (hs : Reachable P s)
    (hstep : s.step a = some t) (hl : t.trace = s.trace ++ l) (hmem : .placed f ∈ l) {i : Serial}
    (horigin : f.origin = .reaper i) :
    ∃ key rest entry ok, s.TimesOut a key rest entry ok ∧ s.reversalSent entry ok ≠ none ∧
      f.transaction = autoReversal entry := by
  rcases step_flow hs.disowned hstep with heq | hmove
  · obtain rfl := List.self_eq_append_right.mp ((congrArg Flow.trace heq).symm.trans hl)
    cases hmem
  obtain ⟨reversal, htimed⟩ := Flow.reversal_new hmove hl hmem horigin
  rcases timeouts_step hstep with hsame | ⟨key, rest, entry, ok, htimes⟩
  · -- The timeout is a new one.
    have hnone : l.filter Event.isTimedOut = [] := by
      rw [timeouts, timeouts, hl, List.filter_append] at hsame
      exact List.append_right_eq_self.mp hsame
    exact absurd (List.mem_filter.mpr ⟨htimed, rfl⟩) (hnone ▸ List.not_mem_nil)
  · refine ⟨key, rest, entry, ok, htimes, ?_⟩
    have htrace : t.trace = (s.timeOut key entry ok).trace := by rw [htimes.step_eq hstep]; rfl
    rw [timeOut_trace, List.append_assoc] at htrace
    obtain rfl := List.append_cancel_left (hl.symm.trans htrace)
    simp only [List.mem_append, List.mem_cons, mem_answers, mem_reversals, reduceCtorEq, and_false,
      exists_false, false_or, Event.placed.injEq] at hmem
    obtain ⟨target, hsent, hf⟩ := hmem
    exact ⟨by rw [hsent]; exact Option.some_ne_none target, by rw [hf]⟩

/-- Whatever is not a request is without a PIN block. -/
theorem Reachable.pinBlock_nil (h : Reachable SavesNoPin s) (hplaced : .placed f ∈ s.trace)
    (hreq : f.origin.request = none) : f.transaction.pinBlock = [] := by
  refine h.invariant (I := fun s => ∀ f, .placed f ∈ s.trace → f.origin.request = none →
    f.transaction.pinBlock = []) ?_ ?_ f hplaced hreq
  · intro s hs f hplaced
    rw [hs.trace] at hplaced
    cases hplaced
  · intro s t hs hv ⟨a, hsaves, hstep⟩ f hplaced hreq
    obtain ⟨l, hl⟩ := step_trace_append (Reachable.disowned hs) hstep
    rw [hl, List.mem_append] at hplaced
    rcases hplaced with hold | hnew
    · exact hv f hold hreq
    · rcases step_places hstep hl hnew with ⟨i, hi⟩ | ⟨i, horigin⟩ | ⟨secs, hprobe⟩
      · rw [hreq] at hi
        cases hi
      · obtain ⟨key, rest, entry, ok, htimes, hsent, hf⟩ :=
          Reachable.reverses hs hstep hl hnew horigin
        have hsaved := (hsaves key rest entry ok htimes).resolve_right hsent
        rw [hf]
        exact congrArg asBytes hsaved
      · rw [hprobe]
        rfl

/-- What a worker or a task has sent to an external channel went through the HSM. -/
theorem Gated.sealed {p : Engine × Chronicle} (hp : Gated p) {i : Serial}
    (hplaced : .placed f ∈ p.1.trace) (hext : f.External) (hreq : f.origin.request = some i) :
    Sealed p f := by
  obtain ⟨w, tx₀, tx, since, hgate⟩ := hp.frames f i hplaced hreq
  obtain ⟨r, hi⟩ := hgate.accepted.inserted
  by_cases hpin : tx.pinBlock = []
  · exact .inl (hgate.passed.noPin hpin)
  · obtain ⟨node, hnode⟩ := hext
    have hchecked := hgate.passed.pin hpin
    rw [hnode] at hchecked
    obtain ⟨block, hsent, htranslated⟩ := hchecked
    have hserial : f.origin.serial = some i := by
      cases horigin : f.origin <;> rw [horigin] at hreq <;> cases hreq <;> rfl
    exact .inr ⟨i, _, tx, r, block, hserial, hi, htranslated, hsent⟩

/-- No frame on an external channel has the PIN block of the terminal. -/
theorem pin_blocks_sealed {p : Engine × Chronicle} (hp : ChronicledUnder SavesNoPin p)
    (hplaced : .placed f ∈ p.1.trace) (hext : f.External) : Sealed p f := by
  cases hreq : f.origin.request with
  | none =>
      have hreach : Reachable SavesNoPin p.1 := Transition.Noted.state (fun _ _ => id) hp
      exact .inl (hreach.pinBlock_nil hplaced hreq)
  | some i =>
      have hchronicled : Chronicled p := hp.relax fun _ _ _ => trivial
      exact hchronicled.gated.sealed hplaced hext hreq

/-! ## A purchase with a PIN -/

/-- Where the reaper times nothing out, it saves no PIN. -/
theorem SavesNoPin.of_spares (s : Engine) (a : Action) (h : a.spares = true) : s.SavesNoPin a := by
  rintro key rest entry ok ⟨rfl, -⟩
  cases h

set_option maxRecDepth 8000 in
theorem pin_blocks_sealed_purchase : Sealed (chronicled pinForwarded) (pinFrame 1) := by
  have hrun : ChronicledUnder (fun _ a => a.spares = true) (chronicled pinForwarded) :=
    Transition.Noted.of_complies (start_initial 100 ∅) (by decide)
  exact pin_blocks_sealed (hrun.relax fun p a => SavesNoPin.of_spares p.1 a) (by decide) ⟨_, rfl⟩

/-- The 0420 of the purchase. -/
def pinReversal : Frame :=
  ⟨.reaper 1, .externalNode "MockVisaNode", 0, fromPb { toPb pinPurchase with mti := "0420" }⟩

set_option maxRecDepth 8000 in
/-- The purchase times out, and its 0420 has the PIN block of the terminal. -/
theorem pin_block_reversed :
    ¬ ∀ p, Chronicled p → ∀ f, .placed f ∈ p.1.trace → f.External → Sealed p f := by
  intro h
  have hrun : Chronicled (chronicled (pinExpired ++ [.reaper (.outcome true)])) :=
    Transition.Noted.of_complies (P := fun _ _ => True) (start_initial 100 ∅) (by decide)
  have hsealed := h _ hrun pinReversal (by decide) ⟨_, rfl⟩
  rcases hsealed with hnil | ⟨i, key, tx, r, block, -, -, htranslated, hblock⟩
  · exact absurd hnil (by decide)
  · obtain ⟨u, ctx, node, failover, macValid, hmem, -⟩ := htranslated
    have hactions : (chronicled (pinExpired ++ [.reaper (.outcome true)])).2.map Prod.snd =
        pinExpired ++ [.reaper (.outcome true)] := rfl
    have haction := List.mem_map_of_mem (f := Prod.snd) hmem
    rw [hactions] at haction
    simp only [pinExpired, accept, forwardPin, List.cons_append, List.nil_append, List.mem_cons,
      reduceCtorEq, Action.hsm.injEq, Input.translatedPin.injEq, Option.some.injEq, and_false,
      false_or, or_false, List.not_mem_nil] at haction
    obtain ⟨-, rfl⟩ := haction
    exact absurd hblock (by decide)

end Engine

end Iso8583Switch
