import Iso8583Switch.Hsm.HsmClient

/-!
# Which call an HSM response belongs to

Headers come back after ten thousand calls.  A call *uses* its header from the insert
on, until it has its response or has removed the header, and as long as its message or
a response to it is under way.  `InsertsUnused` is the discipline under which no call
inserts a header that is in use.  Under it a header has one user at most, and whatever
the map has under the header is that user.
-/

namespace Iso8583Switch

open Text Function Transition

/-- The header that the call has inserted and has not done with, where `delivered` is
what is in its channel. -/
def CallPc.holds (delivered : Option Exchange) : CallPc → Option String
  | .inserted _ header | .removing header _ => some header
  | .awaiting _ header => if delivered.isNone then some header else none
  | _ => none

namespace HsmClient

def Holds (s : HsmClient) (header : String) (c : CallId) : Prop :=
  (s.calls c).holds (s.delivered c) = some header

def underWay (s : HsmClient) : List Exchange := s.queue ++ s.asked ++ s.answers

/-- The call, its message or a response to it uses the header. -/
def Uses (s : HsmClient) (header : String) (c : CallId) : Prop :=
  s.Holds header c ∨ ∃ e ∈ s.underWay, e.call = c ∧ e.message.header = header

/-- A header is inserted only when nobody uses it. -/
def InsertsUnused (s : HsmClient) (a : HsmAction) : Prop :=
  ∀ c request header, a = .insert c → s.calls c = .headed request header →
    ∀ c', ¬ s.Uses header c'

/-- The response that a call takes is for its own message, and a call that gives up
removes no entry but its own. -/
structure AnswersOwn (s : HsmClient) : Prop where
  received : ∀ c request header response, s.calls c = .awaiting request header →
    s.delivered c = some response → response.call = c
  removed : ∀ c header error c', s.calls c = .removing header error →
    s.correlationMap.get header = some c' → c' = c

structure Correlated (s : HsmClient) : Prop where
  unique : ∀ header c c', s.Uses header c → s.Uses header c' → c = c'
  entry : ∀ header c c', s.correlationMap.get header = some c' → s.Uses header c → c' = c
  sending : ∀ c response, s.reader = .sending c response → response.call = c
  delivered : ∀ c response, s.delivered c = some response → response.call = c

theorem Correlated.own {s : HsmClient} (hs : s.Correlated) : s.AnswersOwn where
  received c _ _ response _ hdelivered := hs.delivered c response hdelivered
  removed c header error c' hpc hget := by
    have hholds : s.Holds header c := by rw [Holds, hpc]; rfl
    exact hs.entry header c c' hget (.inl hholds)

/-! ## What a step does -/

variable {s t : HsmClient} {a : HsmAction} {header : String} {c c' : CallId}

/-- The call holds no header afterwards that it did not hold. -/
def Releases (s : HsmClient) (c : CallId) (pc : CallPc) : Prop :=
  ∀ header, pc.holds (s.delivered c) = some header → s.Holds header c

theorem releases_of_none {pc : CallPc} (h : pc.holds (s.delivered c) = none) : s.Releases c pc := by
  intro header hheld
  rw [h] at hheld
  cases hheld

theorem releases_of_some {pc : CallPc} (hholds : s.Holds header c)
    (h : pc.holds (s.delivered c) = some header) : s.Releases c pc := by
  intro header' hheld
  rw [h] at hheld
  cases hheld
  exact hholds

/-- What a step changes, with what it relies on. -/
inductive Effect (s : HsmClient) : HsmAction → HsmClient → Prop where
  | call {a : HsmAction} {c : CallId} {pc : CallPc} {n : UInt32} : (∀ c', a ≠ .insert c') →
      s.Releases c pc → Effect s a ({ s with counter := n }.setCall c pc)
  | insert {c : CallId} {request : HsmRequest} {header : String} :
      s.calls c = .headed request header →
      Effect s (.insert c) ({ s with correlationMap := s.correlationMap.put header c }.setCall c
        (.inserted request header))
  | dispatch {c : CallId} {request : HsmRequest} {header : String} {msg : ThalesMessage} :
      s.calls c = .inserted request header → msg.header = header →
      Effect s (.dispatch c) ({ s with queue := s.queue ++ [Exchange.mk c msg] }.setCall c
        (.awaiting request header))
  | remove {c : CallId} {header error : String} :
      Effect s (.remove c) ({ s with correlationMap := s.correlationMap.remove header }.setCall c
        (.finished (.error error)))
  | write {e : Exchange} {rest : List Exchange} : s.queue = e :: rest →
      Effect s (.write true) { s with queue := rest, asked := s.asked ++ [e] }
  | writeError : Effect s (.write false) { s with queue := [], writerAlive := false }
  | answer {n : Nat} {e : Exchange} {command payload : String} : s.asked[n]? = some e →
      Effect s (.answer n command payload)
        { s with
          asked := s.asked.eraseIdx n
          answers := s.answers ++ [⟨e.call, ⟨e.message.header, command, payload⟩⟩] }
  | take {c : CallId} {response : Exchange} {rest : List Exchange} :
      s.answers = response :: rest → s.correlationMap.get response.message.header = some c →
      Effect s .read
        { s with
          answers := rest
          correlationMap := s.correlationMap.remove response.message.header
          reader := .sending c response }
  | skip {response : Exchange} {rest : List Exchange} : s.answers = response :: rest →
      Effect s .read { s with answers := rest }
  | readError : Effect s .readError { s with reader := .dead }
  | send {c : CallId} {response : Exchange} : s.reader = .sending c response →
      Effect s .send
        { s with reader := .idle, delivered := update s.delivered c (some response) }

theorem message_header {request : HsmRequest} {msg : ThalesMessage}
    (h : request.message header = some msg) : msg.header = header := by
  obtain ⟨_, _, rfl⟩ := Option.map_eq_some_iff.mp h
  rfl

theorem dispatch_effect {request : HsmRequest} (hpc : s.calls c = .inserted request header) :
    Effect s (.dispatch c) (s.dispatch c request header) := by
  have hinserted : s.Holds header c := by rw [Holds, hpc]; rfl
  rw [dispatch]
  split
  next msg hmsg =>
    split
    · exact .dispatch hpc (message_header hmsg)
    · exact .call nofun (releases_of_some hinserted rfl)
  next => exact .call nofun (releases_of_none rfl)

theorem lose_effect {request : HsmRequest} (hpc : s.calls c = .awaiting request header)
    (hdelivered : s.delivered c = none) : Effect s (.lose c) (s.lose c request header) := by
  have hawaiting : s.Holds header c := by rw [Holds, hpc, hdelivered]; rfl
  cases request with
  | translatePin => exact .call nofun (releases_of_some hawaiting rfl)
  | verifyPin | verifyMac => exact .call nofun (releases_of_none rfl)

theorem step_effect (h : s.step a = some t) : Effect s a t := by
  cases a with
  | begin c₀ request =>
      simp only [step] at h
      split at h <;> cases h
      exact .call nofun (releases_of_none rfl)
  | insert c₀ =>
      simp only [step] at h
      split at h <;> cases h
      next hpc => exact .insert hpc
  | dispatch c₀ =>
      simp only [step] at h
      split at h <;> cases h
      next hpc => exact dispatch_effect hpc
  | write ok =>
      simp only [step] at h
      split at h
      next hqueue =>
        cases ok with
        | true => cases h; exact .write hqueue
        | false => cases h; exact .writeError
      next => cases h
  | answer n command payload =>
      obtain ⟨_, hasked, rfl⟩ := Option.map_eq_some_iff.mp h
      exact .answer hasked
  | read =>
      simp only [step] at h
      split at h
      next hanswers =>
        cases h
        rw [read]
        split
        next hget => exact .take hanswers hget
        next => exact .skip hanswers
      next => cases h
  | readError =>
      simp only [step] at h
      split at h <;> cases h
      exact .readError
  | send =>
      simp only [step] at h
      split at h <;> cases h
      next hreader => exact .send hreader
  | receive c₀ =>
      simp only [step] at h
      split at h <;> cases h
      exact .call nofun (releases_of_none rfl)
  | lose c₀ =>
      simp only [step] at h
      split at h
      next hpc hdelivered =>
        split at h <;> cases h
        exact lose_effect hpc hdelivered
      next => cases h
  | timeout c₀ =>
      simp only [step] at h
      split at h <;> cases h
      next request header hpc hdelivered =>
        have hawaiting : s.Holds header c₀ := by rw [Holds, hpc, hdelivered]; rfl
        exact .call nofun (releases_of_some hawaiting rfl)
  | remove c₀ =>
      simp only [step] at h
      split at h <;> cases h
      exact .remove

/-! ## Where users come from -/

theorem holds_setCall {pc : CallPc} (h : (s.setCall c pc).Holds header c') :
    (c' = c ∧ pc.holds (s.delivered c) = some header) ∨ s.Holds header c' := by
  simp only [Holds, setCall, update_apply] at h
  split at h
  next heq => rw [heq] at h; exact .inl ⟨heq, h⟩
  next => exact .inr h

/-- A delivery ends what a call holds, if anything. -/
theorem holds_of_delivered {pc : CallPc} {response : Exchange}
    (h : pc.holds (some response) = some header) (delivered : Option Exchange) :
    pc.holds delivered = some header := by
  cases pc with
  | awaiting => cases h
  | _ => exact h

/-- A call comes to hold a header by its insert only. -/
theorem holds_step (h : Effect s a t) (hholds : t.Holds header c) :
    s.Holds header c ∨ ∃ request, a = .insert c ∧ s.calls c = .headed request header := by
  cases h with
  | @call _ _ _ n _ hreleases =>
      rcases holds_setCall (s := { s with counter := n }) hholds with ⟨rfl, hheld⟩ | hold
      · exact .inl (hreleases header hheld)
      · exact .inl hold
  | @insert c₀ request k hpc =>
      rcases holds_setCall (s := { s with correlationMap := _ }) hholds with ⟨rfl, hheld⟩ | hold
      · cases hheld
        exact .inr ⟨request, rfl, hpc⟩
      · exact .inl hold
  | @dispatch c₀ request k _ hpc =>
      rcases holds_setCall (s := { s with queue := _ }) hholds with ⟨rfl, hheld⟩ | hold
      · simp only [CallPc.holds] at hheld
        split at hheld <;> cases hheld
        rw [Holds, hpc]
        exact .inl rfl
      · exact .inl hold
  | remove =>
      rcases holds_setCall (s := { s with correlationMap := _ }) hholds with ⟨rfl, hheld⟩ | hold
      · cases hheld
      · exact .inl hold
  | send =>
      simp only [Holds, update_apply] at hholds
      split at hholds
      next => exact .inl (holds_of_delivered hholds _)
      next => exact .inl hholds
  | write | writeError | answer | take | skip | readError => exact .inl hholds

/-- A message comes under way from a call that holds its header, and keeps the header. -/
theorem underWay_step (h : Effect s a t) {e : Exchange} (he : e ∈ t.underWay) :
    s.Uses e.message.header e.call := by
  have hstays (hmem : e ∈ s.underWay) : s.Uses e.message.header e.call := .inr ⟨e, hmem, rfl, rfl⟩
  cases h with
  | @dispatch c₀ request k msg hpc hheader =>
      simp only [underWay, setCall, List.mem_append, List.mem_singleton] at he
      rcases he with ((hqueue | rfl) | hasked) | hanswer
      · exact hstays (by simp [underWay, hqueue])
      · refine .inl ?_
        rw [hheader, Holds, hpc]
        rfl
      · exact hstays (by simp [underWay, hasked])
      · exact hstays (by simp [underWay, hanswer])
  | write hqueue =>
      refine hstays ?_
      simp only [underWay, hqueue, List.mem_append, List.mem_cons] at he ⊢
      tauto
  | writeError =>
      refine hstays ?_
      simp only [underWay, List.nil_append, List.mem_append] at he ⊢
      tauto
  | @answer n msg _ _ hmsg =>
      simp only [underWay, List.mem_append, List.mem_singleton] at he
      rcases he with (hqueue | hasked) | hanswer | rfl
      · exact hstays (by simp [underWay, hqueue])
      · exact hstays (by simp [underWay, List.mem_of_mem_eraseIdx hasked])
      · exact hstays (by simp [underWay, hanswer])
      · exact .inr ⟨msg, by simp [underWay, List.mem_of_getElem? hmsg], rfl, rfl⟩
  | take hanswers | skip hanswers =>
      refine hstays ?_
      simp only [underWay, hanswers, List.mem_append, List.mem_cons] at he ⊢
      tauto
  | call | insert | remove | readError | send => exact hstays he

/-- A header gets a user by an insert only. -/
theorem uses_step (h : Effect s a t) (huses : t.Uses header c) :
    s.Uses header c ∨ ∃ request, a = .insert c ∧ s.calls c = .headed request header := by
  rcases huses with hholds | ⟨e, he, rfl, rfl⟩
  · exact (holds_step h hholds).imp_left .inl
  · exact .inl (underWay_step h he)

/-! ## Where entries and responses come from -/

theorem get_step (h : Effect s a t) (hget : t.correlationMap.get header = some c') :
    (∃ request, a = .insert c' ∧ s.calls c' = .headed request header) ∨
      (s.correlationMap.get header = some c' ∧
        ∀ c request, a = .insert c → s.calls c ≠ .headed request header) := by
  cases h with
  | call hother => exact .inr ⟨hget, fun c _ ha => absurd ha (hother c)⟩
  | @insert c₀ request k hpc =>
      rcases DashMap.get_put_eq_some.mp hget with ⟨rfl, rfl⟩ | ⟨hne, hold⟩
      · exact .inl ⟨request, rfl, hpc⟩
      · refine .inr ⟨hold, fun c request' ha hpc' => ?_⟩
        cases ha
        rw [hpc] at hpc'
        cases hpc'
        exact hne rfl
  | remove => exact .inr ⟨(DashMap.get_remove_eq_some.mp hget).2, nofun⟩
  | take => exact .inr ⟨(DashMap.get_remove_eq_some.mp hget).2, nofun⟩
  | dispatch | write | writeError | answer | skip | readError | send => exact .inr ⟨hget, nofun⟩

/-- The reader takes a response for the call that the map has under its header. -/
theorem sending_step (h : Effect s a t) {response : Exchange}
    (hreader : t.reader = .sending c response) :
    s.reader = .sending c response ∨
      (response ∈ s.answers ∧ s.correlationMap.get response.message.header = some c) := by
  cases h with
  | take hanswers hget =>
      cases hreader
      exact .inr ⟨hanswers ▸ List.mem_cons_self, hget⟩
  | readError | send => cases hreader
  | call | insert | dispatch | remove | write | writeError | answer | skip => exact .inl hreader

/-- A call gets the response that the reader has for it. -/
theorem delivered_step (h : Effect s a t) {response : Exchange}
    (hdelivered : t.delivered c = some response) :
    s.delivered c = some response ∨ s.reader = .sending c response := by
  cases h with
  | @send c₀ first hreader =>
      simp only [update_apply] at hdelivered
      split at hdelivered
      next heq => cases hdelivered; exact .inr (heq ▸ hreader)
      next => exact .inl hdelivered
  | call | insert | dispatch | remove | write | writeError | answer | take | skip | readError =>
      exact .inl hdelivered

/-! ## Under the discipline -/

theorem correlated_connect : connect.Correlated where
  unique _ _ _ h _ := by
    rcases h with hholds | ⟨e, he, _⟩
    · cases hholds
    · cases he
  entry _ _ _ h _ := by cases h
  sending _ _ h := by cases h
  delivered _ _ h := by cases h

theorem Correlated.step (hs : s.Correlated) (hunused : s.InsertsUnused a) (h : Effect s a t) :
    t.Correlated where
  unique k c₁ c₂ h₁ h₂ := by
    rcases uses_step h h₁ with hold₁ | ⟨request, ha, hpc⟩
    · rcases uses_step h h₂ with hold₂ | ⟨request, ha, hpc⟩
      · exact hs.unique k c₁ c₂ hold₁ hold₂
      · exact absurd hold₁ (hunused c₂ request k ha hpc c₁)
    · rcases uses_step h h₂ with hold₂ | ⟨_, ha', _⟩
      · exact absurd hold₂ (hunused c₁ request k ha hpc c₂)
      · rw [ha] at ha'
        cases ha'
        rfl
  entry k c₁ c₂ hget huses := by
    rcases get_step h hget with ⟨request, ha, hpc⟩ | ⟨hget, hother⟩
    · rcases uses_step h huses with hold | ⟨_, ha', _⟩
      · exact absurd hold (hunused c₂ request k ha hpc c₁)
      · rw [ha] at ha'
        cases ha'
        rfl
    · rcases uses_step h huses with hold | ⟨request, ha, hpc⟩
      · exact hs.entry k c₁ c₂ hget hold
      · exact absurd hpc (hother c₁ request ha)
  sending c response hreader := by
    rcases sending_step h hreader with hreader | ⟨hanswer, hget⟩
    · exact hs.sending c response hreader
    · -- The response itself uses the header that it is looked up by.
      have huses : s.Uses response.message.header response.call :=
        .inr ⟨response, List.mem_append_right _ hanswer, rfl, rfl⟩
      exact (hs.entry _ _ _ hget huses).symm
  delivered c response hdelivered := by
    rcases delivered_step h hdelivered with hdelivered | hreader
    · exact hs.delivered c response hdelivered
    · exact hs.sending c response hreader

theorem correlated (hs : HsmClient.Reachable InsertsUnused s) : s.Correlated := by
  refine hs.invariant (fun s hs => hs ▸ correlated_connect) fun s t _ ih hst => ?_
  obtain ⟨a, hunused, hstep⟩ := hst
  exact ih.step hunused (step_effect hstep)

/-- In every run that inserts unused headers only, each call gets the response to its
own message, and a call that gives up removes its own entry or none. -/
theorem answers_own (hs : HsmClient.Reachable InsertsUnused s) : s.AnswersOwn :=
  (correlated hs).own

/-! ## Two calls -/

/-- Both calls take their headers and insert them. -/
def bothInserted : List HsmAction :=
  [.begin 0 (.verifyPin "1234567890ABCDEF" "4111111111111111" "1234"),
    .begin 1 (.verifyPin "FEDCBA0987654321" "5500000000000004" "4321"),
    .insert 0, .insert 1]

/-- The HSM answers the second call first, and the first call gives up. -/
def secondAnswered : List HsmAction :=
  [.dispatch 0, .dispatch 1, .write true, .write true, .answer 1 "DB" "00", .read, .send,
    .timeout 0]

/-- The discipline of the actions that insert nothing. -/
def InsertsNothing (_ : HsmClient) (a : HsmAction) : Prop :=
  match a with
  | .insert _ => False
  | _ => True

instance (s : HsmClient) (a : HsmAction) : Decidable (InsertsNothing s a) := by
  unfold InsertsNothing
  cases a <;> infer_instance

theorem insertsNothing_unused (s : HsmClient) (a : HsmAction) (h : InsertsNothing s a) :
    s.InsertsUnused a := by
  intro c _ _ ha
  rw [ha] at h
  exact h.elim

/-- With nothing under way, a header is unused that no call holds. -/
theorem insertsUnused_of_quiet {request : HsmRequest} (hpc : s.calls c = .headed request header)
    (hquiet : s.underWay = []) (hfree : ∀ c', ¬ s.Holds header c') :
    s.InsertsUnused (.insert c) := by
  intro c₀ request' header' ha hpc' c' huses
  cases ha
  rw [hpc] at hpc'
  cases hpc'
  rcases huses with hholds | ⟨e, he, _⟩
  · exact hfree c' hholds
  · rw [hquiet] at he
    cases he

theorem secondAnswered_reachable :
    HsmClient.Reachable InsertsUnused (ran step connect (bothInserted ++ secondAnswered)) := by
  have hheaded : HsmClient.Reachable InsertsUnused (ran step connect (bothInserted.take 2)) :=
    .ran_of_complies insertsNothing_unused rfl (by decide)
  have hfirst := hheaded.ran_step (a := .insert 0) (by decide)
    (insertsUnused_of_quiet rfl rfl fun c' hholds => by
      rcases c' with _ | _ | c' <;> cases hholds) (by decide)
  have hsecond := hfirst.ran_step (a := .insert 1) (by decide)
    (insertsUnused_of_quiet rfl rfl fun c' hholds => by
      rcases c' with _ | _ | c' <;> cases hholds) (by decide)
  exact hsecond.ran_append insertsNothing_unused (by decide) (by decide)

theorem answers_own_secondAnswered :
    (ran step connect (bothInserted ++ secondAnswered)).AnswersOwn ∧
      ((ran step connect (bothInserted ++ secondAnswered)).delivered 1).isSome :=
  ⟨answers_own secondAnswered_reachable, by decide⟩

/-! ## Ten thousand and one calls -/

/-- Two cardholders: the first call is for the one, all others are for the other. -/
def verifyPin (c : CallId) : HsmRequest :=
  if c = 0 then .verifyPin "1234567890ABCDEF" "4111111111111111" "1234"
  else .verifyPin "FEDCBA0987654321" "5500000000000004" "4321"

/-- Calls 0 to n - 1 have their headers, and nothing else has happened. -/
def crowd (n : Nat) : HsmClient :=
  { connect with
    counter := UInt32.ofNat n
    calls := fun c =>
      if c < n then .headed (verifyPin c) (nextHeader (UInt32.ofNat c)) else .absent }

theorem crowd_begin (n : Nat) : (crowd n).step (.begin n (verifyPin n)) = some (crowd (n + 1)) := by
  have hcalls : update (crowd n).calls n (.headed (verifyPin n) (nextHeader (UInt32.ofNat n))) =
      (crowd (n + 1)).calls := by
    funext c
    simp only [crowd, update_apply]
    grind
  have hcounter : UInt32.ofNat n + 1 = UInt32.ofNat (n + 1) := by
    rw [UInt32.ofNat_add]
    rfl
  have habsent : (crowd n).calls n = .absent := if_neg (Nat.lt_irrefl n)
  simp only [step, habsent]
  show some ({ crowd n with
    counter := UInt32.ofNat n + 1
    calls := update (crowd n).calls n (.headed (verifyPin n) (nextHeader (UInt32.ofNat n))) } :
      HsmClient) = _
  rw [hcalls, hcounter]
  rfl

theorem crowd_reachable (n : Nat) : HsmClient.Reachable Free (crowd n) := by
  induction n with
  | zero => exact .start rfl
  | succ n ih => exact ih.step ⟨.begin n (verifyPin n), trivial, crowd_begin n⟩

/-- The last of them has the header of the first one again. -/
def collision : List HsmAction :=
  [.insert 0, .dispatch 0, .insert 10000, .dispatch 10000, .write true, .answer 0 "DB" "00",
    .read, .send]

/-- It takes the response to the message of the first one. -/
theorem collision_answered : ¬ ∀ s, HsmClient.Reachable Free s → s.AnswersOwn := by
  intro h
  obtain ⟨s, hs, c, request, header, response, hpc, hdelivered, hother⟩ :
      ∃ s, exec step (crowd 10001) collision = some s ∧ ∃ c request header response,
        s.calls c = .awaiting request header ∧ s.delivered c = some response ∧
          response.call ≠ c :=
    ⟨_, rfl, 10000, _, _, _, rfl, rfl, by decide⟩
  have hcomplies : complies step Free (crowd 10001) collision = true := by decide
  have hreach : HsmClient.Reachable Free s :=
    (crowd_reachable 10001).of_exec (fun _ _ => id) hcomplies hs
  exact hother ((h s hreach).received c request header response hpc hdelivered)

end HsmClient

end Iso8583Switch
