import Iso8583Switch.Properties.TerminalDialogues

/-!
# Terminals that wait

The switch answers the frames of a connection in any order, and what a terminal reads does
not say which frame it is about.  The load generator sends one frame and waits for the
response, so for it the order says it: as long as a terminal sends nothing before it has
read the response to its last frame, the messages that it reads are made of the answers
to its frames one by one (`waiting_reads`).  A frame without an answer is then the last one.
-/

namespace Iso8583Switch

open Function Relation Framing

namespace EdgeIngress

variable {dialect : IngressDialect} {s s' : Session} {n : Nat}

/-- Only a request of the terminal is sent on its connection. -/
theorem put_of_step {a : SessionAction} (hstep : s.step dialect a = some s') :
    s'.requests.put = s.requests.put ∨ ∃ payload, a = .request payload ∧
      s'.requests.put = s.requests.put ++ [payload] := by
  cases step_effect hstep with
  | requests p _ _ hpipe hrequest =>
      by_cases hp : ∃ payload, p = .put payload
      · obtain ⟨payload, rfl⟩ := hp
        exact .inr ⟨payload, hrequest payload rfl, Pipe.put_of_put hpipe⟩
      · exact .inl (Pipe.put_of_step (fun item heq => hp ⟨item, heq⟩) hpipe)
  | task n hturn =>
      obtain ⟨tasks, contexts, replies, rfl⟩ := hturn.frame
      exact .inl rfl
  | spawned | rejected | close | oneshot | coreEnds | replies => exact .inl rfl

/-- A frame that has been read was sent. -/
theorem lt_put_of_accepted {P : Session → SessionAction → Prop}
    (h : Session.Reachable dialect P s) (hn : (s.accepted dialect n).isSome = true) :
    n < s.requests.put.length := by
  obtain ⟨tx, hn⟩ := Option.isSome_iff_exists.mp hn
  obtain ⟨payload, hpayload, -⟩ := Option.bind_eq_some_iff.mp hn
  exact (List.getElem?_eq_some_iff.mp hpayload).1.trans_le
    (requests_sound h).taken_initial.length_le

end EdgeIngress

namespace Network

open EdgeIngress

variable {z z' : Network} {c : Nat}

/-- A terminal sends on its own connection. -/
theorem put_of_step {a : NetworkAction} (hstep : z.step a = some z') (c : Nat) :
    (z'.sessions c).requests.put = (z.sessions c).requests.put ∨
      ∃ payload, a = .session c (.request payload) ∧
        (z'.sessions c).requests.put = (z.sessions c).requests.put ++ [payload] := by
  cases step_effect hstep with
  | @session s c' b _ _ hs haction =>
      dsimp only
      rcases eq_or_ne c c' with rfl | hne
      · rw [update_self]
        rcases EdgeIngress.put_of_step hs with hsame | ⟨payload, rfl, hput⟩
        · exact .inl hsame
        · exact .inr ⟨payload, haction, hput⟩
      · rw [update_of_ne hne]
        exact .inl rfl
  | receive => exact .inl rfl
  | @clearing clearing b _ _ =>
      refine .inl (moved_induction (I := fun y => (y.sessions c).requests.put =
        (z.sessions c).requests.put) clearing rfl fun y y' e _ _ hhanded hy => ?_).1
      cases hhanded with
      | skip => exact hy
      | @answer s r source reply c' k n ctx _ _ hs =>
          dsimp only
          rcases eq_or_ne c c' with rfl | hne
          · rw [update_self]
            rcases EdgeIngress.put_of_step hs with hsame | ⟨payload, heq, -⟩
            · exact hsame.trans hy
            · cases heq
          · rw [update_of_ne hne]
            exact hy

/-! ## One frame at a time -/

/-- The terminal has read in the order of its frames, and at most one frame is without a
response. -/
structure InTurn (c : Nat) (z : Network) : Prop where
  inOrder : (z.dialogue c).InOrder
  ahead : (z.sessions c).requests.put.length ≤ (z.dialogue c).read.length + 1

theorem length_read {P : Network → NetworkAction → Prop} (h : Reachable P z) (c : Nat) :
    (z.sessions c).replies.pipe.taken.length = (z.dialogue c).read.length := by
  rw [ReplyWriter.taken_eq (replies_short (Reachable.session_free h c)), List.length_map]
  rfl

theorem InTurn.step (h : Reachable (Patient c) z) (hturn : InTurn c z) {a : NetworkAction}
    (ha : Patient c z a) (hstep : z.step a = some z') : InTurn c z' := by
  have hmeets : Reachable (Meets (Clearing.Meets Clearing.Apart)) z :=
    h.relax fun _ _ hpatient => hpatient.1
  have hrun := (goesOn_step hmeets ha.1 hstep).dialogue c
  have hlonger := (Dialogue.later_of_run hrun).read.length_le
  have hordered := Dialogue.ordered_empty.run (begins hmeets c)
  -- The frames that were sent before the step have responses, all but one.
  have hput : (z'.sessions c).requests.put.length ≤ (z.dialogue c).read.length + 1 := by
    rcases put_of_step hstep c with hsame | ⟨payload, rfl, hsent⟩
    · rw [hsame]
      exact hturn.ahead
    · have hwaits := ha.2 rfl
      rw [length_read h] at hwaits
      rw [hsent, List.length_append, hwaits]
      exact Nat.le_refl _
  have hfree := Reachable.session_free (h.step ⟨a, ha, hstep⟩) c
  refine ⟨hturn.inOrder.run hordered hrun fun n hn => ?_, by omega⟩
  have hlt := lt_put_of_accepted hfree hn
  omega

theorem Reachable.inTurn (h : Reachable (Patient c) z) : InTurn c z := by
  refine h.invariant ?_ fun z z' hz hturn ⟨a, ha, hstep⟩ => hturn.step hz ha hstep
  rintro z ⟨dialects, engine, -, rfl⟩
  exact ⟨Dialogue.inOrder_empty, Nat.zero_le _⟩

/-- As long as a terminal waits, the message that it reads at some place is made of the answer
to the frame that it has sent at this place, whatever the other terminals do. -/
theorem waiting_reads (h : Reachable (Patient c) z) {m : Nat} {msg : Bytes}
    (hmsg : (z.sessions c).replies.pipe.taken[m]? = some msg) :
    ∃ payload tx reply, (z.sessions c).requests.put[m]? = some payload ∧
      (z.dialects c).parse payload = .ok tx ∧ tx.Answers reply ∧
      msg = (z.dialects c).buildResponse reply := by
  have hmeets : Reachable (Meets (Clearing.Meets Clearing.Apart)) z :=
    h.relax fun _ _ hpatient => hpatient.1
  have hsession := Reachable.session_free h c
  rw [ReplyWriter.taken_eq (replies_short hsession)] at hmsg
  obtain ⟨tx, reply, hasked, hanswers, hform⟩ := (Reachable.inTurn h).inOrder.reads
    (Dialogue.ordered_empty.run (begins hmeets c)) hmsg
  obtain ⟨payload, hpayload, hparse⟩ := Option.bind_eq_some_iff.mp hasked
  obtain ⟨later, hlater⟩ := (requests_sound hsession).taken_initial
  refine ⟨payload, tx, reply, ?_, ?_, hanswers, hform⟩
  · rw [← hlater, List.getElem?_append_left (List.getElem?_eq_some_iff.mp hpayload).1, hpayload]
  · cases hresult : (z.dialects c).parse payload with
    | error failure => rw [hresult] at hparse; cases hparse
    | ok tx' => rw [hresult] at hparse; cases hparse; rfl

/-- What the first terminal has sent. -/
def purchaseRequest : Bytes := InteracDialect.buildResponse (purchase "000100" "RRN000000001")

set_option maxRecDepth 8000 in
theorem waiting_reads_answered : ∃ tx reply, IngressDialect.interac.parse purchaseRequest = .ok tx ∧
    tx.Answers reply ∧ approvedMessage = InteracDialect.buildResponse reply := by
  have hread : (answered.sessions 0).replies.pipe.taken[0]? = some approvedMessage := by
    decide +kernel
  obtain ⟨payload, tx, reply, hput, hparse, hanswers, hform⟩ := waiting_reads patient_answered hread
  have hsent : (answered.sessions 0).requests.put[0]? = some purchaseRequest := by decide +kernel
  cases hput.symm.trans hsent
  exact ⟨tx, reply, hparse, hanswers, hform⟩

end Network

end Iso8583Switch
