import Iso8583Switch.Properties.HsmAnswers
import Iso8583Switch.Simulator.MockHsm

/-!
# What a call learns from the mock HSM

The header of a message is the only thing that says which call an answer is for.  As long
as no header is inserted that is in use, a call that returns a value returns what the HSM
has made of its own PIN block, PVV or MAC (`verdicts_own`).
-/

namespace Iso8583Switch

open Text Function Transition

namespace MockHsm

/-- What a call makes of the answer to its message. -/
def verdict (request : HsmRequest) : Option HsmVerdict :=
  (request.message "").bind fun msg => (processHsmCommand msg).bind fun resp =>
    (request.interpret resp).toOption

/-- What it should learn. -/
def decision : HsmRequest → HsmVerdict
  | .verifyPin _ _ pvv => .success (pvv ≠ "9999")
  | .translatePin pinBlock _ => .translated (reversed pinBlock)
  | .verifyMac _ _ => .success true

/-- The fields that the HSM cuts out have their sizes. -/
def Sized : HsmRequest → Prop
  | .verifyPin _ _ pvv => len pvv = 4
  | .translatePin pinBlock _ => len pinBlock = 16
  | .verifyMac _ _ => True

/-! ## The answer to one message -/

theorem processHsmCommand_header (msg : ThalesMessage) (header : String) :
    processHsmCommand { msg with header := header } =
      (processHsmCommand msg).map fun resp => { resp with header := header } := by
  simp only [processHsmCommand]
  split
  · rw [Option.map_map]
    rfl
  · rw [Option.map_map]
    rfl
  · rfl
  · rw [Option.map_map]
    rfl

theorem verdict_of_answer {request : HsmRequest} {header : String} {msg resp : ThalesMessage}
    {v : HsmVerdict} (hmsg : request.message header = some msg)
    (hresp : processHsmCommand msg = some resp) (hv : request.interpret resp = .ok v) :
    verdict request = some v := by
  obtain ⟨p, hp, rfl⟩ := Option.map_eq_some_iff.mp hmsg
  have hplain : request.message "" = some ⟨"", request.command, request.payload p⟩ := by
    rw [HsmRequest.message, hp]
    rfl
  have hheader := processHsmCommand_header ⟨"", request.command, request.payload p⟩ header
  rw [hresp] at hheader
  obtain ⟨resp', hresp', rfl⟩ := Option.map_eq_some_iff.mp hheader.symm
  rw [verdict, hplain, Option.bind_some, hresp', Option.bind_some]
  have hsame : request.interpret resp' = .ok v := by
    cases request <;> exact hv
  rw [hsame]
  rfl

theorem processHsmCommand_verifyPin (header p : String) :
    processHsmCommand ⟨header, "DA", p⟩ = (verifyPin p).map fun q => ⟨header, "DB", q⟩ := rfl

theorem processHsmCommand_translatePin (header p : String) :
    processHsmCommand ⟨header, "CA", p⟩ = (translatePin p).map fun q => ⟨header, "CB", q⟩ := rfl

theorem slice_pvv {front pvv : String} (h : len pvv = 4) :
    slice (front ++ pvv) (len (front ++ pvv) - 4) (len (front ++ pvv)) = some pvv := by
  have hcut := slice_append front pvv ""
  rw [String.append_empty] at hcut
  rw [len_append, h, Nat.add_sub_cancel]
  rwa [h] at hcut

theorem verifyPin_eq {front pvv : String} (h : len pvv = 4) : verifyPin (front ++ pvv) =
    some (if len (front ++ pvv) < 66 then "01" else if pvv = "9999" then "05" else "00") := by
  rw [verifyPin, slice_pvv h]
  split
  · rw [if_neg (by omega)]
    rfl
  · rw [if_pos (by omega)]

theorem interpret_verifyPin (pinBlock pan pvv : String) :
    (HsmRequest.verifyPin pinBlock pan pvv).interpret ⟨"", "DB", "00"⟩ = .ok (.success true) ∧
      (HsmRequest.verifyPin pinBlock pan pvv).interpret ⟨"", "DB", "05"⟩ = .ok (.success false) ∧
      (HsmRequest.verifyPin pinBlock pan pvv).interpret ⟨"", "DB", "01"⟩ =
        .error "Invalid Verify PIN DB HSM Response" :=
  ⟨rfl, rfl, rfl⟩

theorem decision_verifyPin {pinBlock pan pvv p : String} {resp : ThalesMessage} {v : HsmVerdict}
    (hsized : len pvv = 4)
    (hresp : processHsmCommand ⟨"", "DA", (HsmRequest.verifyPin pinBlock pan pvv).payload p⟩ =
      some resp) (hv : ((HsmRequest.verifyPin pinBlock pan pvv).interpret resp).toOption = some v) :
    v = .success (pvv ≠ "9999") := by
  rw [processHsmCommand_verifyPin] at hresp
  obtain ⟨q, hq, rfl⟩ := Option.map_eq_some_iff.mp hresp
  obtain ⟨hgood, hbad, hshort⟩ := interpret_verifyPin pinBlock pan pvv
  obtain ⟨front, hfront⟩ : ∃ front, (HsmRequest.verifyPin pinBlock pan pvv).payload p = front ++ pvv :=
    ⟨_, rfl⟩
  rw [hfront, verifyPin_eq hsized] at hq
  obtain rfl := Option.some_inj.mp hq
  split at hv
  · rw [hshort] at hv
    cases hv
  · split at hv
    next heq =>
      rw [hbad] at hv
      cases hv
      exact congrArg HsmVerdict.success (by rw [heq]; rfl)
    next hne =>
      rw [hgood] at hv
      cases hv
      exact congrArg HsmVerdict.success (decide_eq_true hne).symm

theorem translatePin_eq {front pinBlock rest : String} (hfront : len front = pinBlockStart)
    (h : len pinBlock = 16) :
    translatePin (front ++ pinBlock ++ rest) = some ("00" ++ reversed pinBlock) := by
  have hcut := slice_append front pinBlock rest
  rw [hfront, h] at hcut
  rw [translatePin, hcut, if_pos]
  · rfl
  · rw [len_append, len_append, hfront, h]
    exact Nat.le_add_right _ _

theorem translated_payload (p pinBlock pan : String) : ∃ front rest, len front = pinBlockStart ∧
    (HsmRequest.translatePin pinBlock pan).payload p = front ++ pinBlock ++ rest :=
  ⟨"AWK1234567890123" ++ "ZWK1234567890123" ++ "12", "01" ++ p, rfl, String.append_assoc⟩

theorem interpret_translated (pinBlock pan text : String) :
    (HsmRequest.translatePin pinBlock pan).interpret ⟨"", "CB", "00" ++ text⟩ =
      .ok (.translated text) := by
  have hstart : HsmRequest.startsWith "00" ("00" ++ text) = true := by
    rw [HsmRequest.startsWith, asBytes_append, List.isPrefixOf_iff_prefix]
    exact List.prefix_append _ _
  rw [HsmRequest.interpret, hstart, String.toList_append]
  exact congrArg (Except.ok ∘ HsmVerdict.translated) String.ofList_toList

theorem decision_translatePin {pinBlock pan p : String} {resp : ThalesMessage} {v : HsmVerdict}
    (hsized : len pinBlock = 16)
    (hresp : processHsmCommand ⟨"", "CA", (HsmRequest.translatePin pinBlock pan).payload p⟩ =
      some resp) (hv : ((HsmRequest.translatePin pinBlock pan).interpret resp).toOption = some v) :
    v = .translated (reversed pinBlock) := by
  rw [processHsmCommand_translatePin] at hresp
  obtain ⟨q, hq, rfl⟩ := Option.map_eq_some_iff.mp hresp
  obtain ⟨front, rest, hfront, hpayload⟩ := translated_payload p pinBlock pan
  rw [hpayload, translatePin_eq hfront hsized] at hq
  obtain rfl := Option.some_inj.mp hq
  rw [interpret_translated] at hv
  exact (Option.some_inj.mp hv).symm

theorem decision_of_verdict {request : HsmRequest} {v : HsmVerdict} (hsized : Sized request)
    (hv : verdict request = some v) : v = decision request := by
  obtain ⟨msg, hmsg, hanswer⟩ := Option.bind_eq_some_iff.mp hv
  obtain ⟨resp, hresp, hread⟩ := Option.bind_eq_some_iff.mp hanswer
  obtain ⟨p, -, rfl⟩ := Option.map_eq_some_iff.mp hmsg
  cases request with
  | verifyPin pinBlock pan pvv => exact decision_verifyPin hsized hresp hread
  | translatePin pinBlock pan => exact decision_translatePin hsized hresp hread
  | verifyMac mac pan =>
      cases hresp
      exact (Option.some_inj.mp hread).symm

end MockHsm

/-! ## The conversation -/

namespace HsmClient

/-- The request that a call has been made with. -/
def noteRequest (_ : HsmClient) (a : HsmAction) (begun : CallId → Option HsmRequest) :
    CallId → Option HsmRequest :=
  match a with
  | .begin c request => update begun c (some request)
  | _ => begun

/-- What a call is about, and what it has learned if it is done. -/
def CallPc.Fits (begun : Option HsmRequest) : CallPc → Prop
  | .absent => begun = none
  | .headed request _ | .inserted request _ | .awaiting request _ => begun = some request
  | .finished (.ok v) => ∃ request, begun = some request ∧ MockHsm.verdict request = some v
  | _ => True

/-- The message is that of the call. -/
def Asks (begun : CallId → Option HsmRequest) (e : Exchange) : Prop :=
  ∃ request, begun e.call = some request ∧ request.message e.message.header = some e.message

/-- The response is to it. -/
def Answers (begun : CallId → Option HsmRequest) (e : Exchange) : Prop :=
  ∃ msg, Asks begun ⟨e.call, msg⟩ ∧ MockHsm.processHsmCommand msg = some e.message

structure Conversing (s : HsmClient) (begun : CallId → Option HsmRequest) : Prop where
  calls : ∀ c, CallPc.Fits (begun c) (s.calls c)
  asked : ∀ e ∈ s.queue ++ s.asked, Asks begun e
  answers : ∀ e ∈ s.answers, Answers begun e
  sending : ∀ c e, s.reader = .sending c e → Answers begun e
  delivered : ∀ c e, s.delivered c = some e → Answers begun e

variable {s t : HsmClient} {begun : CallId → Option HsmRequest} {c : CallId}

theorem conversing_connect : Conversing connect fun _ => none where
  calls _ := rfl
  asked _ he := by cases he
  answers _ he := by cases he
  sending _ _ h := by cases h
  delivered _ _ h := by cases h

/-- A call moves on. -/
theorem Conversing.setCall (hs : s.Conversing begun) {pc : CallPc} (h : CallPc.Fits (begun c) pc) :
    (s.setCall c pc).Conversing begun where
  calls c' := by
    dsimp only [HsmClient.setCall]
    rcases eq_or_ne c' c with rfl | hne
    · rw [update_self]
      exact h
    · rw [update_of_ne hne]
      exact hs.calls c'
  asked := hs.asked
  answers := hs.answers
  sending := hs.sending
  delivered := hs.delivered

theorem Asks.grow {request : HsmRequest} (hnone : begun c = none) {e : Exchange} (h : Asks begun e) :
    Asks (update begun c (some request)) e := by
  obtain ⟨request', hbegun, hmsg⟩ := h
  refine ⟨request', ?_, hmsg⟩
  rw [update_of_ne (fun heq => ?_), hbegun]
  rw [heq, hnone] at hbegun
  cases hbegun

theorem Answers.grow {request : HsmRequest} (hnone : begun c = none) {e : Exchange}
    (h : Answers begun e) : Answers (update begun c (some request)) e := by
  obtain ⟨msg, hasks, hresp⟩ := h
  exact ⟨msg, hasks.grow hnone, hresp⟩

/-- A call begins. -/
theorem Conversing.begin (hs : s.Conversing begun) (hpc : s.calls c = .absent) (n : UInt32)
    (request : HsmRequest) (header : String) :
    ({ s with counter := n }.setCall c (.headed request header)).Conversing
      (update begun c (some request)) := by
  have hnone : begun c = none := by
    have hfits := hs.calls c
    rwa [hpc] at hfits
  refine ⟨fun c' => ?_, fun e he => (hs.asked e he).grow hnone,
    fun e he => (hs.answers e he).grow hnone, fun c' e h => (hs.sending c' e h).grow hnone,
    fun c' e h => (hs.delivered c' e h).grow hnone⟩
  dsimp only [HsmClient.setCall]
  rcases eq_or_ne c' c with rfl | hne
  · rw [update_self, update_self]
    rfl
  · rw [update_of_ne hne, update_of_ne hne]
    exact hs.calls c'

theorem Conversing.dispatch (hs : s.Conversing begun) {request : HsmRequest} {header : String}
    (hpc : s.calls c = .inserted request header) :
    (s.dispatch c request header).Conversing begun := by
  have hbegun : begun c = some request := by
    have hfits := hs.calls c
    rwa [hpc] at hfits
  rw [HsmClient.dispatch]
  split
  next msg hmsg =>
    split
    · refine Conversing.setCall (s := { s with queue := s.queue ++ [Exchange.mk c msg] }) ?_ hbegun
      refine ⟨hs.calls, fun e he => ?_, hs.answers, hs.sending, hs.delivered⟩
      simp only [List.mem_append, List.mem_singleton] at he
      rcases he with (hqueue | rfl) | hasked
      · exact hs.asked e (List.mem_append_left _ hqueue)
      · exact ⟨request, hbegun, (message_header hmsg).symm ▸ hmsg⟩
      · exact hs.asked e (List.mem_append_right _ hasked)
    · exact hs.setCall trivial
  next => exact hs.setCall trivial

theorem Conversing.read (hs : s.Conversing begun) {response : Exchange} {rest : List Exchange}
    (h : s.answers = response :: rest) : (s.read response rest).Conversing begun := by
  have hanswers : ∀ e ∈ response :: rest, Answers begun e := h ▸ hs.answers
  have hrest : ∀ e ∈ rest, Answers begun e := fun e he => hanswers e (List.mem_cons_of_mem _ he)
  rw [HsmClient.read]
  split
  · refine ⟨hs.calls, hs.asked, hrest, fun c' e heq => ?_, hs.delivered⟩
    cases heq
    exact hanswers response List.mem_cons_self
  · exact ⟨hs.calls, hs.asked, hrest, hs.sending, hs.delivered⟩

theorem Conversing.lose (hs : s.Conversing begun) (request : HsmRequest) (header : String) :
    (s.lose c request header).Conversing begun := by
  cases request with
  | translatePin => exact hs.setCall trivial
  | verifyPin => exact hs.setCall trivial
  | verifyMac => exact hs.setCall trivial

/-- The call takes the response to its own message. -/
theorem Conversing.receive (hs : s.Conversing begun) (hcorrelated : s.Correlated)
    {request : HsmRequest} {header : String} {response : Exchange}
    (hpc : s.calls c = .awaiting request header) (hresponse : s.delivered c = some response) :
    (s.setCall c (.finished (request.interpret response.message))).Conversing begun := by
  refine hs.setCall ?_
  have hbegun : begun c = some request := by
    have hfits := hs.calls c
    rwa [hpc] at hfits
  obtain ⟨msg, ⟨request', hbegun', hmsg⟩, hresp⟩ := hs.delivered c response hresponse
  rw [hcorrelated.delivered c response hresponse, hbegun] at hbegun'
  cases hbegun'
  cases hinterpret : request.interpret response.message with
  | error => trivial
  | ok v => exact ⟨request, hbegun, MockHsm.verdict_of_answer hmsg hresp hinterpret⟩

theorem Conversing.step (hs : s.Conversing begun) (hcorrelated : s.Correlated) {a : HsmAction}
    (hmock : s.AnsweredByMock a) (h : s.step a = some t) :
    t.Conversing (noteRequest s a begun) := by
  cases a with
  | begin c request =>
      simp only [HsmClient.step] at h
      split at h <;> cases h
      next hpc => exact hs.begin hpc _ _ _
  | insert c =>
      simp only [HsmClient.step] at h
      split at h <;> cases h
      next request header hpc =>
        have hfits := hs.calls c
        rw [hpc] at hfits
        refine Conversing.setCall (s := { s with correlationMap := s.correlationMap.put header c })
          ?_ hfits
        exact ⟨hs.calls, hs.asked, hs.answers, hs.sending, hs.delivered⟩
  | dispatch c =>
      simp only [HsmClient.step] at h
      split at h <;> cases h
      next hpc => exact hs.dispatch hpc
  | write ok =>
      simp only [HsmClient.step] at h
      split at h
      next e rest _ hqueue =>
        have hmem : ∀ x ∈ e :: rest ++ s.asked, Asks begun x := hqueue ▸ hs.asked
        split at h <;> cases h
        · refine ⟨hs.calls, fun x hx => hmem x ?_, hs.answers, hs.sending, hs.delivered⟩
          simp only [List.mem_append, List.mem_cons, List.not_mem_nil, or_false] at hx ⊢
          tauto
        · refine ⟨hs.calls, fun x hx => hmem x ?_, hs.answers, hs.sending, hs.delivered⟩
          exact List.mem_append_right _ (by simpa using hx)
      next => cases h
  | answer n command payload =>
      obtain ⟨e, hasked, rfl⟩ := Option.map_eq_some_iff.mp h
      refine ⟨hs.calls, fun x hx => hs.asked x ?_, fun x hx => ?_, hs.sending, hs.delivered⟩
      · rcases List.mem_append.mp hx with hqueue | hasked'
        · exact List.mem_append_left _ hqueue
        · exact List.mem_append_right _ (List.mem_of_mem_eraseIdx hasked')
      · rcases List.mem_append.mp hx with hold | hnew
        · exact hs.answers x hold
        · cases List.mem_singleton.mp hnew
          have hasks := hs.asked e (List.mem_append_right _ (List.mem_of_getElem? hasked))
          exact ⟨e.message, hasks, hmock n command payload e rfl hasked⟩
  | read =>
      simp only [HsmClient.step] at h
      split at h <;> cases h
      next hanswers => exact hs.read hanswers
  | readError =>
      simp only [HsmClient.step] at h
      split at h <;> cases h
      exact ⟨hs.calls, hs.asked, hs.answers, fun _ _ heq => (by cases heq), hs.delivered⟩
  | send =>
      simp only [HsmClient.step] at h
      split at h <;> cases h
      next c response hreader =>
        refine ⟨hs.calls, hs.asked, hs.answers, fun _ _ heq => (by cases heq), fun c' e heq => ?_⟩
        dsimp only at heq
        rcases eq_or_ne c' c with rfl | hne
        · rw [update_self] at heq
          cases heq
          exact hs.sending _ _ hreader
        · rw [update_of_ne hne] at heq
          exact hs.delivered c' e heq
  | receive c =>
      simp only [HsmClient.step] at h
      split at h <;> cases h
      next hpc hresponse => exact hs.receive hcorrelated hpc hresponse
  | lose c =>
      simp only [HsmClient.step] at h
      split at h
      · split at h <;> cases h
        exact hs.lose _ _
      · cases h
  | timeout c =>
      simp only [HsmClient.step] at h
      split at h <;> cases h
      exact hs.setCall trivial
  | remove c =>
      simp only [HsmClient.step] at h
      split at h <;> cases h
      next header error _ =>
        refine Conversing.setCall
          (s := { s with correlationMap := s.correlationMap.remove header }) ?_ trivial
        exact ⟨hs.calls, hs.asked, hs.answers, hs.sending, hs.delivered⟩

/-! ## Every run -/

/-- The mock answers, and no header is inserted that is in use. -/
structure InConversation (p : HsmClient × (CallId → Option HsmRequest)) (a : HsmAction) : Prop where
  unused : p.1.InsertsUnused a
  mock : p.1.AnsweredByMock a

/-- The states of the runs with the mock, with the requests of the calls. -/
abbrev Talks : HsmClient × (CallId → Option HsmRequest) → Prop :=
  Tracked (· = connect) (fun _ => none) HsmClient.step noteRequest InConversation

variable {p : HsmClient × (CallId → Option HsmRequest)}

theorem conversing (h : Talks p) : p.1.Conversing p.2 := by
  refine h.invariant (I := fun p => p.1.Conversing p.2) ?_ ?_
  · rintro ⟨_, _⟩ ⟨rfl, rfl⟩
    exact conversing_connect
  · rintro p q hp hs ⟨a, hconversation, hstep⟩
    obtain ⟨hmove, hnote⟩ := tracking_eq_some hstep
    have hreach : HsmClient.Reachable InsertsUnused p.1 :=
      Tracked.state (fun _ _ h => InConversation.unused h) hp
    rw [hnote]
    exact hs.step (correlated hreach) hconversation.mock hmove

/-- Whatever the interleaving, a call that returns a value returns what the HSM makes of its
own request, and where the fields have their sizes, whether its own PVV is a good one, its
own PIN block translated, or that its MAC is good. -/
theorem verdicts_own (h : Talks p) {v : HsmVerdict} (hfinished : p.1.calls c = .finished (.ok v)) :
    ∃ request, p.2 c = some request ∧ MockHsm.verdict request = some v ∧
      (MockHsm.Sized request → v = MockHsm.decision request) := by
  have hfits := (conversing h).calls c
  rw [hfinished] at hfits
  obtain ⟨request, hrequest, hverdict⟩ := hfits
  exact ⟨request, hrequest, hverdict, fun hsized => MockHsm.decision_of_verdict hsized hverdict⟩

/-! ## Two cardholders -/

/-- Nothing is inserted, and the mock answers. -/
def replies (s : HsmClient) : HsmAction → Bool
  | .insert _ => false
  | .answer n command payload =>
      match s.asked[n]? with
      | some e => MockHsm.processHsmCommand e.message = some ⟨e.message.header, command, payload⟩
      | none => false
  | _ => true

theorem inConversation_of_replies (p : HsmClient × (CallId → Option HsmRequest)) (a : HsmAction)
    (h : p.1.replies a = true) : InConversation p a := by
  constructor
  · intro c _ _ ha
    rw [ha] at h
    cases h
  · intro n command payload e ha he
    rw [ha, replies, he] at h
    exact of_decide_eq_true h

theorem inConversation_insert {p : HsmClient × (CallId → Option HsmRequest)}
    (h : p.1.InsertsUnused (.insert c)) : InConversation p (.insert c) :=
  ⟨h, fun _ _ _ _ ha => by cases ha⟩

def bothBegun : List HsmAction :=
  [.begin 0 (.verifyPin "1234567890ABCDEF" "4111111111111111" "1234"),
    .begin 1 (.verifyPin "FEDCBA0987654321" "5500000000000004" "9999")]

/-- The HSM answers the second call first. -/
def bothAnswered : List HsmAction :=
  [.dispatch 0, .dispatch 1, .write true, .write true, .answer 1 "DB" "05", .answer 0 "DB" "00",
    .read, .send, .receive 1, .read, .send, .receive 0]

abbrev talk (actions : List HsmAction) : HsmClient × (CallId → Option HsmRequest) :=
  ran (tracking HsmClient.step noteRequest) (connect, fun _ => none) actions

theorem talks_bothAnswered :
    Talks (talk (bothBegun ++ [.insert 0] ++ [.insert 1] ++ bothAnswered)) := by
  have hbegun : Talks (talk bothBegun) :=
    Tracked.of_complies (P := fun p a => p.1.replies a = true) inConversation_of_replies rfl
      (by decide +kernel)
  have hfirst := hbegun.ran_step (a := HsmAction.insert 0) (by decide)
    (inConversation_insert (insertsUnused_of_quiet rfl rfl fun c' hholds => by
      rcases c' with _ | _ | c' <;> cases hholds)) (by decide)
  have hsecond := hfirst.ran_step (a := HsmAction.insert 1) (by decide)
    (inConversation_insert (insertsUnused_of_quiet rfl rfl fun c' hholds => by
      rcases c' with _ | _ | c' <;> cases hholds)) (by decide)
  exact hsecond.ran_append (P := fun p a => p.1.replies a = true) inConversation_of_replies
    (by decide) (by decide +kernel)

theorem verdicts_own_bothAnswered : ∃ request,
    (talk (bothBegun ++ [.insert 0] ++ [.insert 1] ++ bothAnswered)).2 1 = some request ∧
      MockHsm.verdict request = some (.success false) ∧
      (MockHsm.Sized request → .success false = MockHsm.decision request) :=
  verdicts_own talks_bothAnswered rfl

end HsmClient

end Iso8583Switch
