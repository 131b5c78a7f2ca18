import Iso8583Switch.Dialect.Ingress
import Iso8583Switch.Engine.Ledger
import Iso8583Switch.Flow.Iteration

/-!
# Frames that panic a worker

A PAN and a field 90 are bytes of the frame, decoded lossily and then sliced at
fixed offsets.  `harmless` says which slices a frame leads to with a given token
vault, and that all of them are taken between two characters.  A harmless frame
goes through the loop body of an ingress worker in every state of the engine, and
so do its postings through the ledger worker.  For any other frame there is a run
in which one of the two panics.
-/

namespace Iso8583Switch

open Text Function

/-! ## The slices that an event leads to -/

/-- The event behind the detokenizer, or `none` for a token that the vault does not
have. -/
def TspVault.detokenized (vault : TspVault) (tx : UniversalPaymentEvent) :
    Option UniversalPaymentEvent :=
  if tx.isTokenized then
    (vault.detokenize (fromUtf8Lossy tx.fpan)).map fun realFpan =>
      { tx with fpan := asBytes realFpan, dpan := some (fromUtf8Lossy tx.fpan) }
  else some tx

theorem TspVault.detokenized_token {vault : TspVault} {tx : UniversalPaymentEvent}
    {realFpan : String} (htoken : tx.isTokenized = true)
    (hreal : vault.detokenize (fromUtf8Lossy tx.fpan) = some realFpan) :
    vault.detokenized tx =
      some { tx with fpan := asBytes realFpan, dpan := some (fromUtf8Lossy tx.fpan) } := by
  rw [TspVault.detokenized, if_pos htoken, hreal]
  rfl

/-- The vault changes the two PANs only. -/
theorem TspVault.detokenized_eq {vault : TspVault} {tx tx' : UniversalPaymentEvent}
    (h : vault.detokenized tx = some tx') :
    ∃ fpan dpan, tx' = { tx with fpan := fpan, dpan := dpan } := by
  rw [TspVault.detokenized] at h
  split at h
  · obtain ⟨_, -, rfl⟩ := Option.map_eq_some_iff.mp h
    exact ⟨_, _, rfl⟩
  · cases h
    exact ⟨_, _, rfl⟩

namespace UniversalPaymentEvent

variable (tx : UniversalPaymentEvent)

/-- The slice of the compliance guard. -/
def cutsBin : Bool := LedgerWorker.cutsFront (fromUtf8Lossy tx.fpan)

/-- The two slices of the masked DPAN. -/
def cutsDpan : Bool :=
  isCharBoundary (fromUtf8Lossy tx.fpan) 6 && LedgerWorker.cutsBack (fromUtf8Lossy tx.fpan)

/-- The slices of the ledger worker. -/
def cutsPan : Bool :=
  LedgerWorker.cutsFront (fromUtf8Lossy tx.fpan) && LedgerWorker.cutsBack (fromUtf8Lossy tx.fpan)

/-- Field 90 is there and long enough to name an original. -/
def originalData : Option String := tx.originalDataElements.filter (20 ≤ len ·)

/-- The slice of field 90, and those of the PAN if the reversal is posted. -/
def reverses : Bool :=
  match tx.originalData with
  | some odata => isCharBoundary odata 4 && isCharBoundary odata 10 && tx.cutsPan
  | none => true

/-- What a request is for the worker: one for the HSM task, one that is not routed,
or one that is posted. -/
def forwards : Bool :=
  TransactionContext.needsHsm ⟨tx, none⟩ || !GlobalState.routable tx.messageClass || tx.cutsPan

def dispatches : Bool :=
  if Engine.isForSwitch tx then true else if tx.isReversal then tx.reverses else tx.forwards

/-- All slices that the event leads to are good. -/
def harmless (vault : TspVault) : Bool :=
  tx.cutsBin &&
    match vault.detokenized tx with
    | some tx' => (!tx.isTokenized || tx.cutsDpan) && tx'.dispatches
    | none => true

end UniversalPaymentEvent

/-- A frame that a dialect rejects does not come to a worker. -/
def IngressDialect.harmless (dialect : IngressDialect) (vault : TspVault) (raw : Bytes) : Bool :=
  match dialect.parse raw with
  | .ok tx => tx.harmless vault
  | .error _ => true

theorem ComplianceGuard.isSome_evaluate (guard : ComplianceGuard) (tx : UniversalPaymentEvent) :
    (guard.evaluate tx).isSome = tx.cutsBin := by
  rw [evaluate, UniversalPaymentEvent.cutsBin, LedgerWorker.cutsFront]
  by_cases hlen : 6 ≤ len (fromUtf8Lossy tx.fpan)
  · rw [if_pos hlen, Option.isSome_map, isSome_slice, isCharBoundary_zero,
      decide_eq_true (Nat.zero_le _), decide_eq_false (by omega)]
    rfl
  · rw [if_neg hlen, decide_eq_true (by omega)]
    rfl

theorem UniversalPaymentEvent.isSome_dpanSlices (tx : UniversalPaymentEvent) :
    ((slice (fromUtf8Lossy tx.fpan) 0 6).isSome &&
      (slice (fromUtf8Lossy tx.fpan) (len (fromUtf8Lossy tx.fpan) - 4)
        (len (fromUtf8Lossy tx.fpan))).isSome) = tx.cutsDpan := by
  rw [LedgerWorker.isSome_back, isSome_slice, isCharBoundary_zero,
    decide_eq_true (Nat.zero_le _)]
  rfl

/-! ## A harmless frame -/

/-- The iterator comes to every key at most once. -/
structure Scan.Fresh (scan : Scan) : Prop where
  nodup : scan.todo.Nodup
  unseen : ∀ key ∈ scan.todo, key ∉ scan.seen

namespace Scan.Fresh

variable {scan : Scan}

theorem start (m : DashMap String ActiveTransaction) : (Scan.start m.keys).Fresh :=
  ⟨m.nodupKeys, fun _ _ => List.not_mem_nil⟩

theorem meet (h : scan.Fresh) (key : String) : (scan.meet key).Fresh := by
  refine ⟨h.nodup.erase key, fun k hk => ?_⟩
  obtain ⟨hne, hmem⟩ := h.nodup.mem_erase_iff.mp hk
  intro hseen
  rcases List.mem_cons.mp hseen with heq | hseen
  · exact hne heq
  · exact h.unseen k hmem hseen

theorem drop (h : scan.Fresh) (key : String) : (scan.drop key).Fresh :=
  ⟨h.nodup.erase key, fun k hk => h.unseen k (List.mem_of_mem_erase hk)⟩

end Scan.Fresh

/-- The request is only posted if its PAN can be sliced. -/
def Stage.Sound (tx : UniversalPaymentEvent) : Stage → Prop
  | .inserted => tx.forwards = true
  | .journaled => GlobalState.routable tx.messageClass = true → tx.cutsPan = true
  | .routed _ _ | .numbered _ _ | .recorded _ _ => tx.cutsPan = true
  | .unrouted | .failed | .debiting _ | .decided => True

/-- The position of a worker that a harmless event has not panicked. -/
def IngressPc.Sound (vault : TspVault) (tx : UniversalPaymentEvent) : IngressPc → Prop
  | .idle | .evicting _ => True
  | .panicked => False
  | .received ctx | .cleared ctx => ctx.transaction = tx
  | .detokenized ctx | .screened ctx => vault.detokenized tx = some ctx.transaction
  | .scanning ctx _ scan _ => scan.Fresh ∧ ctx.transaction.cutsPan = true
  | .carrying _ _ ctx stage => stage.Sound ctx.transaction

namespace Engine

section Sound

variable {s t : Engine} {w : Nat} {vault : TspVault} {tx : UniversalPaymentEvent}
  {ctx : TransactionContext}

theorem declineFront_self (s : Engine) (w : Nat) (ctx : TransactionContext) (source : Source)
    (reply : UniversalPaymentEvent) : (s.declineFront w ctx source reply).ingress w = .idle :=
  setIngress_self _ _ _

theorem CarryTurn.sound {i : Serial} {key : String} {stage : Stage} {input : Input}
    {pc : IngressPc} (hturn : s.CarryTurn i key ctx input stage pc t)
    (hstage : stage.Sound ctx.transaction) : pc.Sound vault tx := by
  cases hturn with
  | journal hhsm =>
      intro hroutable
      have hforwards : ctx.transaction.forwards = true := hstage
      rw [UniversalPaymentEvent.forwards, hroutable] at hforwards
      have hhsm : TransactionContext.needsHsm ⟨ctx.transaction, none⟩ = false := hhsm
      rw [hhsm] at hforwards
      exact hforwards
  | route htarget =>
      show ctx.transaction.cutsPan = true
      refine hstage ?_
      rw [GlobalState.targetEgress] at htarget
      split at htarget
      next hroutable => exact hroutable
      next => cases htarget
  | number | record | recordNowhere => exact hstage
  | fallback =>
      rcases stipDecision_cases _ ctx with ⟨profile, -, heq⟩ | ⟨rc, -, heq⟩ <;> rw [heq] <;> trivial
  | spawn | lose | unjournaled | noRoute | decline | declineNobody | send | fail | debit
  | decide | undecided => trivial

/-- The slices of a reversal that names an original. -/
theorem reverses_data {odata : String} (h : tx.reverses = true)
    (hodata : tx.originalDataElements = some odata) (hlen : 20 ≤ len odata) :
    (slice odata 4 10).isSome = true ∧ tx.cutsPan = true := by
  have hdata : tx.originalData = some odata := by
    rw [UniversalPaymentEvent.originalData, hodata, Option.filter_some,
      if_pos (by simpa using hlen)]
  simp only [UniversalPaymentEvent.reverses, hdata, Bool.and_eq_true] at h
  obtain ⟨⟨hfrom, hto⟩, hpan⟩ := h
  exact ⟨by rw [isSome_slice, hfrom, hto]; rfl, hpan⟩

/-- A step of the worker leaves it sound. -/
theorem IngressTurn.sound {input : Input} {pc pc' : IngressPc}
    (hturn : s.IngressTurn input pc pc' t) (hharmless : tx.harmless s.mem.tspVault = true)
    (hpc : pc.Sound s.mem.tspVault tx) (hbusy : pc ≠ .idle) : pc'.Sound s.mem.tspVault tx := by
  rw [UniversalPaymentEvent.harmless, Bool.and_eq_true] at hharmless
  obtain ⟨hbin, hrest⟩ := hharmless
  have hdispatches {tx' : UniversalPaymentEvent}
      (h : s.mem.tspVault.detokenized tx = some tx') : tx'.dispatches = true := by
    rw [h, Bool.and_eq_true] at hrest
    exact hrest.2
  have hreverses {ctx : TransactionContext}
      (h : s.mem.tspVault.detokenized tx = some ctx.transaction)
      (hswitch : ¬ isForSwitch ctx.transaction = true)
      (hreversal : ctx.transaction.isReversal = true) : ctx.transaction.reverses = true := by
    have hdispatch := hdispatches h
    rwa [UniversalPaymentEvent.dispatches, if_neg hswitch, if_pos hreversal] at hdispatch
  cases hturn with
  | receive => exact absurd rfl hbusy
  | @binPanic ctx hnone =>
      obtain rfl : ctx.transaction = tx := hpc
      rw [← s.compliance.isSome_evaluate, hnone] at hbin
      cases hbin
  | @plain ctx hplain =>
      obtain rfl : ctx.transaction = tx := hpc
      show s.mem.tspVault.detokenized ctx.transaction = _
      rw [TspVault.detokenized, hplain]
      rfl
  | @detokenize ctx realFpan htoken hreal =>
      obtain rfl : ctx.transaction = tx := hpc
      exact TspVault.detokenized_token htoken hreal
  | @dpanPanic ctx realFpan htoken hreal hcut =>
      obtain rfl : ctx.transaction = tx := hpc
      rw [TspVault.detokenized_token htoken hreal, htoken, Bool.and_eq_true] at hrest
      exact hcut (ctx.transaction.isSome_dpanSlices.trans hrest.1)
  | reverse hswitch hreversal hodata hlen =>
      exact ⟨.start s.guard, (reverses_data (hreverses hpc hswitch hreversal) hodata hlen).2⟩
  | dataPanic hswitch hreversal hodata hlen hnone =>
      have hsome := (reverses_data (hreverses hpc hswitch hreversal) hodata hlen).1
      rw [hnone] at hsome
      cases hsome
  | @accept ctx hswitch hreversal =>
      have hdispatch := hdispatches hpc
      rw [UniversalPaymentEvent.dispatches, if_neg hswitch, hreversal] at hdispatch
      exact hdispatch
  | clear | screen => exact hpc
  | mark | pass => exact ⟨hpc.1.meet _, hpc.2⟩
  | skip => exact ⟨hpc.1.drop _, hpc.2⟩
  | carry hturn => exact hturn.sound hpc
  | answer | evict => trivial

theorem ingressStep_sound {input : Input} (hharmless : tx.harmless s.mem.tspVault = true)
    (hpc : (s.ingress w).Sound s.mem.tspVault tx) (hbusy : s.ingress w ≠ .idle)
    (h : s.ingressStep w input = some t) : (t.ingress w).Sound s.mem.tspVault tx := by
  obtain ⟨pc, u, hturn, rfl⟩ := ingressStep_turn h
  rw [setIngress_self]
  exact hturn.sound hharmless hpc hbusy

/-- A sound worker is not stuck. -/
theorem alive_of_sound (hpc : (s.ingress w).Sound vault tx) : s.Alive w := by
  cases hat : s.ingress w with
  | idle => exact .inl hat
  | panicked =>
      rw [hat] at hpc
      exact hpc.elim
  | received | cleared | detokenized | screened | evicting =>
      exact .inr ⟨.run, by simp [step, ingressStep, hat]⟩
  | scanning ctx origStan scan marked =>
      rw [hat] at hpc
      right
      cases htodo : scan.todo with
      | nil => exact ⟨.run, by simp [step, ingressStep, hat, scanStep, htodo]⟩
      | cons key rest =>
          cases hget : s.guard.get key with
          | none => exact ⟨.skip key, by simp [step, ingressStep, hat, scanStep, htodo, hget]⟩
          | some entry =>
              have hunseen : key ∉ scan.seen := hpc.1.unseen key (by simp [htodo])
              exact ⟨.visit key, by simp [step, ingressStep, hat, scanStep, hget, hunseen]⟩
  | carrying i key ctx stage =>
      right
      cases stage with
      | inserted =>
          refine ⟨.outcome true, ?_⟩
          by_cases hhsm : ctx.needsHsm = true <;> simp [step, ingressStep, hat, carryStep, hhsm]
      | journaled | routed | unrouted | numbered | debiting =>
          exact ⟨.run, by simp [step, ingressStep, hat, carryStep]⟩
      | recorded | failed | decided =>
          exact ⟨.outcome true, by simp [step, ingressStep, hat, carryStep]⟩

theorem Iteration.sound (h : s.Iteration w tx t) (hharmless : tx.harmless s.mem.tspVault = true) :
    (t.ingress w).Sound s.mem.tspVault tx := by
  induction h with
  | receive hstep =>
      obtain ⟨-, rfl⟩ := step_receive hstep
      rw [Engine.receive, setIngress_self]
      rfl
  | own hrun hbusy hstep ih =>
      rw [← hrun.tspVault] at hharmless ih ⊢
      exact ingressStep_sound hharmless ih hbusy hstep
  | other _ ha hstep ih =>
      rw [step_ingress hstep ha]
      exact ih

end Sound

/-! ## What a frame does to the worker that takes it -/

/-- The worker is never stuck in the loop body, and the ledger worker makes a row of
every event that it posts. -/
def Survives (s : Engine) (w : Nat) (tx : UniversalPaymentEvent) : Prop :=
  ∀ t, s.Iteration w tx t → t.Alive w ∧
    ∀ input u p, t.ingress w ≠ .idle → t.step (.ingress w input) = some u →
      .posted p ∈ newEvents t u → ∀ worker : LedgerWorker, (worker.row p).isSome

/-- Every worker survives the frame, if the dialect accepts it. -/
def Withstands (s : Engine) (dialect : IngressDialect) (raw : Bytes) : Prop :=
  ∀ tx, dialect.parse raw = .ok tx → ∀ w, s.Survives w tx

theorem survives_of_harmless {s : Engine} {w : Nat} {tx : UniversalPaymentEvent}
    (h : tx.harmless s.mem.tspVault = true) : s.Survives w tx := by
  intro t hrun
  have hsound := hrun.sound h
  refine ⟨alive_of_sound hsound, ?_⟩
  intro input u p _ hstep hmem worker
  obtain ⟨pc, l, hpath, htook⟩ := ingressStep_path hstep
  rw [newEvents, htook.trace, List.drop_left] at hmem
  rw [LedgerWorker.isSome_row]
  rcases hpath.posted hmem with
    ⟨ctx, origStan, scan, marked, rrn, hpc, rfl⟩ | ⟨i, key, ctx, destination, channel, hpc, rfl⟩
  · rw [hpc] at hsound
    exact hsound.2
  · rw [hpc] at hsound
    exact hsound

/-! ## A frame that is not harmless -/

/-- Nothing is blocked, no risk score is too high, and every PAN has a route. -/
structure Permissive (s : Engine) : Prop where
  cache : s.compliance.cache = ∅
  threshold : ∀ fpan, s.mem.riskThreshold fpan = 255
  target : ∀ tx, GlobalState.routable tx.messageClass = true →
    ∃ destination channel, s.mem.targetEgress tx = some (destination, channel)

/-- A permissive engine that has done nothing yet. -/
def permissive (vault : TspVault) : Engine :=
  { start 0 ∅ with
    mem :=
      { GlobalState.new with
        stip := ⟨((DashMap.put ∅ "VISA" ⟨"DECLINE", 255⟩).put "MASTERCARD" ⟨"DECLINE", 255⟩).put
          "DEFAULT" ⟨"DECLINE", 255⟩⟩
        router := BinTrie.new.insert [] ⟨.externalNode "MockVisaNode", none⟩
        egressChannels := DashMap.put ∅ "MockVisaNode" 0
        tspVault := vault } }

theorem permissive_initial (vault : TspVault) : (permissive vault).Initial :=
  ⟨rfl, rfl, rfl, rfl, rfl, rfl, rfl, rfl, rfl⟩

theorem permissive_permissive (vault : TspVault) : (permissive vault).Permissive where
  cache := rfl
  threshold := by
    intro fpan
    rw [GlobalState.riskThreshold, GlobalState.networkId]
    split
    · rfl
    · split <;> rfl
  target := by
    intro tx hroutable
    have hfind : (permissive vault).mem.router.find tx.fpan =
        some ⟨.externalNode "MockVisaNode", none⟩ := by
      cases tx.fpan <;> rfl
    refine ⟨.externalNode "MockVisaNode", 0, ?_⟩
    rw [GlobalState.targetEgress, if_pos hroutable, hfind]
    rfl

section Run

variable {s : Engine} {w : Nat} {tx tx' : UniversalPaymentEvent}

/-- The engine with the worker at a position in front of the guard. -/
def fronted (s : Engine) (w : Nat) (tx : UniversalPaymentEvent) (pc : IngressPc) : Engine :=
  (s.log (.received tx false)).setIngress w pc

theorem fronted_self (s : Engine) (w : Nat) (tx : UniversalPaymentEvent) (pc : IngressPc) :
    (s.fronted w tx pc).ingress w = pc := setIngress_self _ _ _

theorem setIngress_fronted (s : Engine) (w : Nat) (tx : UniversalPaymentEvent)
    (pc pc' : IngressPc) : (s.fronted w tx pc).setIngress w pc' = s.fronted w tx pc' := by
  simp only [fronted, setIngress, update_idem]

theorem run_received (hidle : s.ingress w = .idle) :
    s.Iteration w tx (s.fronted w tx (.received ⟨tx, none⟩)) := by
  have hstep : s.step (.ingress w (.receive tx false)) =
      some (s.fronted w tx (.received ⟨tx, none⟩)) := by
    simp only [step, ingressStep, hidle]
    rfl
  exact .receive hstep

/-- One more step in front of the guard. -/
theorem run_fronted {pc pc' : IngressPc} (hrun : s.Iteration w tx (s.fronted w tx pc))
    (hpc : pc ≠ .idle)
    (hstep : (s.fronted w tx pc).step (.ingress w .run) =
      some ((s.fronted w tx pc).setIngress w pc')) :
    s.Iteration w tx (s.fronted w tx pc') := by
  rw [setIngress_fronted] at hstep
  exact hrun.own (by rw [fronted_self]; exact hpc) hstep

theorem evaluate_empty {guard : ComplianceGuard} (hcache : guard.cache = ∅)
    (hbin : tx.cutsBin = true) : guard.evaluate tx = some false := by
  rw [← guard.isSome_evaluate] at hbin
  obtain ⟨blocked, hblocked⟩ := Option.isSome_iff_exists.mp hbin
  rw [hblocked]
  rw [ComplianceGuard.evaluate] at hblocked
  split at hblocked
  · obtain ⟨bin, -, rfl⟩ := Option.map_eq_some_iff.mp hblocked
    rw [hcache, DashMap.get_empty]
    rfl
  · exact hblocked.symm

theorem run_cleared (hs : s.Permissive) (hidle : s.ingress w = .idle) (hbin : tx.cutsBin = true) :
    s.Iteration w tx (s.fronted w tx (.cleared ⟨tx, none⟩)) := by
  refine run_fronted (run_received hidle) IngressPc.noConfusion ?_
  have hevaluate : (s.fronted w tx (.received ⟨tx, none⟩)).compliance.evaluate tx = some false :=
    evaluate_empty hs.cache hbin
  simp only [step, ingressStep, fronted_self, complianceInterceptor, hevaluate]

theorem run_detokenized (hs : s.Permissive) (hidle : s.ingress w = .idle)
    (hbin : tx.cutsBin = true) (hdpan : tx.isTokenized = true → tx.cutsDpan = true)
    (hknown : s.mem.tspVault.detokenized tx = some tx') :
    s.Iteration w tx (s.fronted w tx (.detokenized ⟨tx', none⟩)) := by
  refine run_fronted (run_cleared hs hidle hbin) IngressPc.noConfusion ?_
  simp only [step, ingressStep, fronted_self, tspDetokenizer]
  rw [TspVault.detokenized] at hknown
  split at hknown
  next htoken =>
    obtain ⟨realFpan, hreal, rfl⟩ := Option.map_eq_some_iff.mp hknown
    have hreal' : (s.fronted w tx (.cleared ⟨tx, none⟩)).mem.tspVault.detokenize
        (fromUtf8Lossy tx.fpan) = some realFpan := hreal
    rw [if_pos htoken, hreal', tx.isSome_dpanSlices]
    dsimp only
    rw [if_pos (hdpan htoken)]
  next hplain =>
    cases hknown
    rw [if_neg hplain]

theorem run_screened (hs : s.Permissive) (hidle : s.ingress w = .idle)
    (hbin : tx.cutsBin = true) (hdpan : tx.isTokenized = true → tx.cutsDpan = true)
    (hknown : s.mem.tspVault.detokenized tx = some tx') :
    s.Iteration w tx (s.fronted w tx (.screened ⟨tx', none⟩)) := by
  refine run_fronted (run_detokenized hs hidle hbin hdpan hknown) IngressPc.noConfusion ?_
  have hscore : ¬ (s.fronted w tx (.detokenized ⟨tx', none⟩)).mem.riskThreshold tx'.fpan <
      tx'.riskScore := by
    have hthreshold : (s.fronted w tx (.detokenized ⟨tx', none⟩)).mem.riskThreshold tx'.fpan = 255 :=
      hs.threshold tx'.fpan
    have hlt := tx'.riskScore.toNat_lt
    rw [hthreshold, UInt8.lt_iff_toNat_lt]
    show ¬ 255 < tx'.riskScore.toNat
    omega
  simp only [step, ingressStep, fronted_self, riskPreScreen]
  rw [if_neg fun h => hscore h.2]

/-- Dispatch of an event that is posted as a reversal. -/
theorem dispatch_reversal {ctx : TransactionContext} {odata origStan : String}
    (hswitch : isForSwitch ctx.transaction = false) (hreversal : ctx.transaction.isReversal = true)
    (hdata : ctx.transaction.originalData = some odata)
    (hslice : slice odata 4 10 = some origStan) :
    s.dispatch w ctx = s.setIngress w (.scanning ctx origStan (.start s.guard.keys) []) := by
  obtain ⟨hodata, hlen⟩ := Option.filter_eq_some_iff.mp hdata
  rw [dispatch, if_neg (by rw [hswitch]; exact Bool.false_ne_true), if_pos hreversal, hodata]
  dsimp only
  rw [if_pos (of_decide_eq_true hlen), hslice]

theorem dispatch_panics {ctx : TransactionContext} {odata : String}
    (hswitch : isForSwitch ctx.transaction = false) (hreversal : ctx.transaction.isReversal = true)
    (hdata : ctx.transaction.originalData = some odata) (hslice : slice odata 4 10 = none) :
    s.dispatch w ctx = s.setIngress w .panicked := by
  obtain ⟨hodata, hlen⟩ := Option.filter_eq_some_iff.mp hdata
  rw [dispatch, if_neg (by rw [hswitch]; exact Bool.false_ne_true), if_pos hreversal, hodata]
  dsimp only
  rw [if_pos (of_decide_eq_true hlen), hslice]

/-- Dispatch of a request with a free key. -/
theorem dispatch_request (s : Engine) (w : Nat) (ctx : TransactionContext)
    (hswitch : isForSwitch ctx.transaction = false) (hreversal : ctx.transaction.isReversal = false)
    (hfree : s.guard.get ctx.transaction.guardKey = none) :
    ∃ (t : Engine) (entry : ActiveTransaction), s.dispatch w ctx = t.setIngress w
        (.carrying s.trace.length ctx.transaction.guardKey { ctx with responder := none } .inserted) ∧
      t.guard.get ctx.transaction.guardKey = some entry ∧
      entry.transactionData = toPb ctx.transaction ∧
      t.mem = s.mem ∧ t.compliance = s.compliance ∧ t.ingress = s.ingress := by
  rw [dispatch, if_neg (by rw [hswitch]; exact Bool.false_ne_true),
    if_neg (by rw [hreversal]; exact Bool.false_ne_true), guardEntry]
  dsimp only
  rw [hfree]
  exact ⟨_, _, rfl, DashMap.get_put_self _ _ _, rfl, rfl, rfl, rfl⟩

section Carry

variable {t : Engine} {i : Serial} {key : String} {ctx : TransactionContext}
  {destination : RouteDestination} {channel : ChannelId}

theorem step_journal (hat : t.ingress w = .carrying i key ctx .inserted)
    (hhsm : ctx.needsHsm = false) :
    ∃ u, t.step (.ingress w (.outcome true)) = some u ∧
      u.ingress w = .carrying i key ctx .journaled ∧ u.mem = t.mem := by
  refine ⟨t.journalRequest w i key ctx true, ?_, setIngress_self _ _ _, rfl⟩
  simp [step, ingressStep, hat, carryStep, hhsm]

theorem step_route (hat : t.ingress w = .carrying i key ctx .journaled)
    (htarget : t.mem.targetEgress ctx.transaction = some (destination, channel)) :
    ∃ u, t.step (.ingress w .run) = some u ∧
      u.ingress w = .carrying i key ctx (.routed destination channel) := by
  refine ⟨t.routeRequest w i key ctx, by simp only [step, ingressStep, hat, carryStep], ?_⟩
  rw [routeRequest, htarget]
  exact setIngress_self _ _ _

theorem step_number (hat : t.ingress w = .carrying i key ctx (.routed destination channel)) :
    ∃ u stan, t.step (.ingress w .run) = some u ∧
      u.ingress w = .carrying i key
        { ctx with transaction := { ctx.transaction with stan := stan } }
        (.numbered destination channel) :=
  ⟨t.natOutbound w i key ctx destination channel, _,
    by simp only [step, ingressStep, hat, carryStep], setIngress_self _ _ _⟩

theorem step_post (hat : t.ingress w = .carrying i key ctx (.recorded destination channel)) :
    ∃ u l, t.step (.ingress w (.outcome true)) = some u ∧ u.trace = t.trace ++ l ∧
      .posted ctx.transaction ∈ l :=
  ⟨t.sendEgress w i key ctx destination channel true, [.posted ctx.transaction, .placed _],
    by simp only [step, ingressStep, hat, carryStep], List.append_assoc _ [_] [_], by simp⟩

theorem step_record (hat : t.ingress w = .carrying i key ctx (.numbered destination channel)) :
    ∃ u, t.step (.ingress w .run) = some u ∧
      u.ingress w = .carrying i key ctx (.recorded destination channel) :=
  ⟨t.recordEgressStan w i key ctx destination channel,
    by simp only [step, ingressStep, hat, carryStep], setIngress_self _ _ _⟩

theorem step_visit {origStan : String} {scan : Scan} {marked : List Serial}
    {entry : ActiveTransaction} (hat : t.ingress w = .scanning ctx origStan scan marked)
    (hget : t.guard.get key = some entry) (hstan : entry.transactionData.stan = origStan)
    (hunseen : key ∉ scan.seen) :
    ∃ u l, t.step (.ingress w (.visit key)) = some u ∧ u.trace = t.trace ++ l ∧
      .posted { ctx.transaction with rrn := entry.transactionData.rrn } ∈ l := by
  refine ⟨t.visitReversal w ctx origStan scan marked key entry, [.marked entry.serial, .posted
    { ctx.transaction with rrn := entry.transactionData.rrn }], ?_, ?_, by simp⟩
  · simp only [step, ingressStep, hat, scanStep, hget, if_neg hunseen]
  · rw [visitReversal, if_pos hstan]
    exact List.append_assoc _ [_] [_]

/-- A request that is routed and not for the HSM comes to the point where it is
posted. -/
theorem run_recorded (hrun : s.Iteration w tx t)
    (hat : t.ingress w = .carrying i key ctx .inserted) (hhsm : ctx.needsHsm = false)
    (htarget : t.mem.targetEgress ctx.transaction = some (destination, channel)) :
    ∃ u stan, s.Iteration w tx u ∧ u.ingress w = .carrying i key
      { ctx with transaction := { ctx.transaction with stan := stan } }
      (.recorded destination channel) := by
  have hbusy {v : Engine} {ctx' : TransactionContext} {stage : Stage}
      (hv : v.ingress w = .carrying i key ctx' stage) : v.ingress w ≠ .idle := by
    rw [hv]
    exact IngressPc.noConfusion
  obtain ⟨t₁, hjournal, hat₁, hmem⟩ := step_journal hat hhsm
  obtain ⟨t₂, hroute, hat₂⟩ := step_route hat₁ (hmem ▸ htarget)
  obtain ⟨t₃, stan, hnumber, hat₃⟩ := step_number hat₂
  obtain ⟨t₄, hrecord, hat₄⟩ := step_record hat₃
  have hrun₁ := hrun.own (hbusy hat) hjournal
  have hrun₂ := hrun₁.own (hbusy hat₁) hroute
  have hrun₃ := hrun₂.own (hbusy hat₂) hnumber
  exact ⟨t₄, stan, hrun₃.own (hbusy hat₃) hrecord, hat₄⟩

end Carry

/-- A surviving worker does not panic in front of the guard. -/
theorem Survives.not_panicked (h : s.Survives w tx)
    (hrun : s.Iteration w tx (s.fronted w tx .panicked)) : False :=
  (h _ hrun).1.ne_panicked (fronted_self _ _ _ _)

/-- What a surviving worker posts makes a row. -/
theorem Survives.cutsPan (h : s.Survives w tx) {t u : Engine} {input : Input} {l : List Event}
    {p : UniversalPaymentEvent} (hrun : s.Iteration w tx t) (hbusy : t.ingress w ≠ .idle)
    (hstep : t.step (.ingress w input) = some u) (hl : u.trace = t.trace ++ l)
    (hmem : .posted p ∈ l) : p.cutsPan = true := by
  have hnew : .posted p ∈ newEvents t u := by
    rw [newEvents, hl, List.drop_left]
    exact hmem
  have hrow := (h t hrun).2 input u p hbusy hstep hnew ⟨∅, ∅⟩
  rw [LedgerWorker.isSome_row] at hrow
  exact hrow

theorem Survives.cutsBin (h : s.Survives w tx) (hidle : s.ingress w = .idle) :
    tx.cutsBin = true := by
  cases hevaluate : s.compliance.evaluate tx with
  | none =>
      have hevaluate' : (s.fronted w tx (.received ⟨tx, none⟩)).compliance.evaluate tx = none :=
        hevaluate
      refine (h.not_panicked (run_fronted (run_received hidle) IngressPc.noConfusion ?_)).elim
      simp only [step, ingressStep, fronted_self, complianceInterceptor, hevaluate']
  | some blocked =>
      rw [← s.compliance.isSome_evaluate, hevaluate]
      rfl

theorem Survives.cutsDpan (h : s.Survives w tx) (hs : s.Permissive) (hidle : s.ingress w = .idle)
    (hknown : s.mem.tspVault.detokenized tx = some tx') (htoken : tx.isTokenized = true) :
    tx.cutsDpan = true := by
  rw [TspVault.detokenized, if_pos htoken] at hknown
  obtain ⟨realFpan, hreal, -⟩ := Option.map_eq_some_iff.mp hknown
  have hreal' : (s.fronted w tx (.cleared ⟨tx, none⟩)).mem.tspVault.detokenize
      (fromUtf8Lossy tx.fpan) = some realFpan := hreal
  by_contra hcut
  have hrun := run_cleared hs hidle (h.cutsBin hidle)
  refine h.not_panicked (run_fronted hrun IngressPc.noConfusion ?_)
  simp only [step, ingressStep, fronted_self, tspDetokenizer]
  rw [if_pos htoken, hreal', tx.isSome_dpanSlices]
  dsimp only
  rw [if_neg hcut]

/-- A surviving worker comes to the class match. -/
theorem Survives.screened (h : s.Survives w tx) (hs : s.Permissive) (hidle : s.ingress w = .idle)
    (hknown : s.mem.tspVault.detokenized tx = some tx') :
    s.Iteration w tx (s.fronted w tx (.screened ⟨tx', none⟩)) :=
  run_screened hs hidle (h.cutsBin hidle) (h.cutsDpan hs hidle hknown) hknown

theorem step_dispatch (s : Engine) (w : Nat) (tx : UniversalPaymentEvent)
    (ctx : TransactionContext) :
    (s.fronted w tx (.screened ctx)).step (.ingress w .run) =
      some ((s.fronted w tx (.screened ctx)).dispatch w ctx) := by
  simp only [step, ingressStep, fronted_self]

theorem Survives.slicesOriginal (h : s.Survives w tx) (hs : s.Permissive)
    (hidle : s.ingress w = .idle) (hknown : s.mem.tspVault.detokenized tx = some tx')
    (hswitch : isForSwitch tx' = false) (hreversal : tx'.isReversal = true) {odata : String}
    (hdata : tx'.originalData = some odata) : (slice odata 4 10).isSome := by
  cases hslice : slice odata 4 10 with
  | none =>
      have hstep := step_dispatch s w tx ⟨tx', none⟩
      rw [dispatch_panics hswitch hreversal hdata hslice] at hstep
      have hrun := run_fronted (h.screened hs hidle hknown) IngressPc.noConfusion hstep
      exact (h.not_panicked hrun).elim
  | some origStan => rfl

/-- A reversal is posted if the guard has a request with the STAN that it names. -/
theorem Survives.cutsReversal (h : s.Survives w tx) (hs : s.Permissive)
    (hidle : s.ingress w = .idle) (hknown : s.mem.tspVault.detokenized tx = some tx')
    (hswitch : isForSwitch tx' = false) (hreversal : tx'.isReversal = true) {odata origStan : String}
    (hdata : tx'.originalData = some odata) (hslice : slice odata 4 10 = some origStan)
    {key : String} {entry : ActiveTransaction} (hget : s.guard.get key = some entry)
    (hstan : entry.transactionData.stan = origStan) : tx'.cutsPan = true := by
  have hstep := step_dispatch s w tx ⟨tx', none⟩
  rw [dispatch_reversal hswitch hreversal hdata hslice] at hstep
  have hrun := run_fronted (h.screened hs hidle hknown) IngressPc.noConfusion hstep
  have hat := s.fronted_self w tx
    (.scanning ⟨tx', none⟩ origStan (.start (s.fronted w tx (.screened ⟨tx', none⟩)).guard.keys) [])
  obtain ⟨u, l, hvisit, htrace, hmem⟩ := step_visit hat hget hstan List.not_mem_nil
  exact h.cutsPan (p := { tx' with rrn := entry.transactionData.rrn }) hrun
    (by rw [hat]; exact IngressPc.noConfusion) hvisit htrace hmem

/-- A request that is routed and not for the HSM is posted. -/
theorem Survives.cutsRequest (h : s.Survives w tx) (hs : s.Permissive)
    (hidle : s.ingress w = .idle) (hknown : s.mem.tspVault.detokenized tx = some tx')
    (hswitch : isForSwitch tx' = false) (hreversal : tx'.isReversal = false)
    (hfree : s.guard.get tx'.guardKey = none)
    (hhsm : TransactionContext.needsHsm ⟨tx', none⟩ = false)
    (hroutable : GlobalState.routable tx'.messageClass = true) : tx'.cutsPan = true := by
  have hstep := step_dispatch s w tx ⟨tx', none⟩
  obtain ⟨t, entry, hdispatch, -, -, hmem, -, -⟩ :=
    dispatch_request (s.fronted w tx (.screened ⟨tx', none⟩)) w ⟨tx', none⟩ hswitch hreversal hfree
  rw [hdispatch] at hstep
  have hrun := (h.screened hs hidle hknown).own (by rw [fronted_self]; exact IngressPc.noConfusion)
    hstep
  obtain ⟨destination, channel, htarget⟩ := hs.target tx' hroutable
  have hmem' : t.mem = s.mem := hmem
  rw [← hmem'] at htarget
  obtain ⟨u, stan, hrun', hat⟩ := run_recorded hrun (setIngress_self _ _ _) hhsm htarget
  obtain ⟨v, l, hpost, htrace, hposted⟩ := step_post hat
  exact h.cutsPan (p := { tx' with stan := stan }) hrun' (by rw [hat]; exact IngressPc.noConfusion)
    hpost htrace hposted

end Run

/-- The request of another terminal, to be found under its STAN. -/
def decoy (stan : String) : UniversalPaymentEvent := { blankEvent [] with stan := stan }

/-- A permissive engine whose guard has a request with a given STAN. -/
theorem exists_guarded (vault : TspVault) (stan : String) :
    ∃ (s : Engine) (key : String) (entry : ActiveTransaction), s.Reachable Transition.Free ∧
      s.Permissive ∧ s.mem.tspVault = vault ∧ s.ingress 0 = .idle ∧
      s.guard.get key = some entry ∧ entry.transactionData.stan = stan := by
  have hs := permissive_permissive vault
  have hrun : (permissive vault).Iteration 1 (decoy stan) _ :=
    run_screened hs rfl rfl (fun htoken => by cases htoken) rfl
  have hstep := step_dispatch (permissive vault) 1 (decoy stan) ⟨decoy stan, none⟩
  obtain ⟨t, entry, hdispatch, hget, hdata, hmem, hcompliance, hingress⟩ :=
    dispatch_request ((permissive vault).fronted 1 (decoy stan) (.screened ⟨decoy stan, none⟩)) 1
      ⟨decoy stan, none⟩ rfl rfl rfl
  rw [hdispatch] at hstep
  have hrun' := hrun.own (by rw [fronted_self]; exact IngressPc.noConfusion) hstep
  refine ⟨_, _, entry, hrun'.reachable (.start (permissive_initial vault)), ?_, ?_, ?_, hget, ?_⟩
  · exact ⟨hcompliance ▸ hs.cache, hmem ▸ hs.threshold, hmem ▸ hs.target⟩
  · rw [setIngress_mem, hmem]
    rfl
  · rw [setIngress_of_ne _ Nat.zero_ne_one, hingress]
    rfl
  · rw [hdata]
    rfl

section Exact

variable {s : Engine} {w : Nat} {vault : TspVault} {dialect : IngressDialect} {raw : Bytes}
  {tx tx' : UniversalPaymentEvent}

/-- The guard of a permissive engine may have the request that a reversal names. -/
theorem reverses_of_withstands
    (h : ∀ s : Engine, s.Reachable Transition.Free → s.mem.tspVault = vault → s.Survives 0 tx)
    (hknown : vault.detokenized tx = some tx') (hswitch : isForSwitch tx' = false)
    (hreversal : tx'.isReversal = true) : tx'.reverses = true := by
  have hsurvives := h (permissive vault) (.start (permissive_initial vault)) rfl
  rw [UniversalPaymentEvent.reverses]
  cases hdata : tx'.originalData with
  | none => rfl
  | some odata =>
      have hslice := hsurvives.slicesOriginal (permissive_permissive vault) rfl hknown hswitch
        hreversal hdata
      obtain ⟨origStan, horig⟩ := Option.isSome_iff_exists.mp hslice
      obtain ⟨s, key, entry, hreach, hs, hvault, hidle, hget, hstan⟩ := exists_guarded vault origStan
      have hpan := (h s hreach hvault).cutsReversal hs hidle (hvault ▸ hknown) hswitch hreversal
        hdata horig hget hstan
      rw [isSome_slice] at hslice
      simp only [Bool.and_eq_true] at hslice ⊢
      exact ⟨⟨hslice.1.2, hslice.2⟩, hpan⟩

theorem forwards_of_survives (h : s.Survives w tx) (hs : s.Permissive)
    (hidle : s.ingress w = .idle) (hknown : s.mem.tspVault.detokenized tx = some tx')
    (hswitch : isForSwitch tx' = false) (hreversal : tx'.isReversal = false)
    (hfree : s.guard.get tx'.guardKey = none) : tx'.forwards = true := by
  rw [UniversalPaymentEvent.forwards]
  cases hhsm : TransactionContext.needsHsm ⟨tx', none⟩ with
  | true => rfl
  | false =>
      cases hroutable : GlobalState.routable tx'.messageClass with
      | false => rfl
      | true => exact h.cutsRequest hs hidle hknown hswitch hreversal hfree hhsm hroutable

/-- What is survived in every state that a run can reach is harmless. -/
theorem harmless_of_withstands
    (h : ∀ s : Engine, s.Reachable Transition.Free → s.mem.tspVault = vault →
      s.Withstands dialect raw) : dialect.harmless vault raw = true := by
  rw [IngressDialect.harmless]
  cases hparse : dialect.parse raw with
  | error e => rfl
  | ok tx =>
      have hs := permissive_permissive vault
      have hall (s : Engine) (hreach : s.Reachable Transition.Free)
          (hvault : s.mem.tspVault = vault) : s.Survives 0 tx := h s hreach hvault tx hparse 0
      have hsurvives := hall (permissive vault) (.start (permissive_initial vault)) rfl
      show tx.harmless vault = true
      rw [UniversalPaymentEvent.harmless, hsurvives.cutsBin rfl, Bool.true_and]
      cases hknown : vault.detokenized tx with
      | none => rfl
      | some tx' =>
          have htoken : (!tx.isTokenized || tx.cutsDpan) = true := by
            cases htoken : tx.isTokenized with
            | false => rfl
            | true => exact hsurvives.cutsDpan hs rfl hknown htoken
          show ((!tx.isTokenized || tx.cutsDpan) && tx'.dispatches) = true
          rw [htoken, Bool.true_and, UniversalPaymentEvent.dispatches]
          split
          next => rfl
          next hswitch =>
            rw [Bool.not_eq_true] at hswitch
            split
            next hreversal => exact reverses_of_withstands hall hknown hswitch hreversal
            next hreversal =>
              exact forwards_of_survives hsurvives hs rfl hknown hswitch
                (Bool.not_eq_true _ ▸ hreversal) rfl

end Exact

/-- A frame is survived in every state with a token vault, and in every state of
every run, if and only if it is harmless with that vault. -/
theorem ingress_frame_survives (dialect : IngressDialect) (raw : Bytes) (vault : TspVault) :
    ((∀ s : Engine, s.mem.tspVault = vault → s.Withstands dialect raw) ↔
        dialect.harmless vault raw = true) ∧
      ((∀ s : Engine, s.Reachable Transition.Free → s.mem.tspVault = vault →
        s.Withstands dialect raw) ↔ dialect.harmless vault raw = true) := by
  have hsafe (h : dialect.harmless vault raw = true) (s : Engine) (hvault : s.mem.tspVault = vault) :
      s.Withstands dialect raw := by
    intro tx hparse w
    rw [IngressDialect.harmless, hparse] at h
    exact survives_of_harmless (hvault ▸ h)
  refine ⟨⟨fun h => ?_, hsafe⟩, ⟨harmless_of_withstands, fun h s _ => hsafe h s⟩⟩
  exact harmless_of_withstands fun s _ => h s

/-- A 0200 with the PAN `1111`, a stray `FF` and `1`.  The stray byte decodes to the
three bytes from 4 on, and the BIN ends inside them. -/
def strayByteFrame : Bytes :=
  asBytes "0200" ++ [0x40, 0, 0, 0, 0, 0, 0, 0] ++ asBytes "06" ++
    [0x31, 0x31, 0x31, 0x31, 0xFF, 0x31]

theorem ingress_frame_panics :
    (start 100 ∅).Reachable Transition.Free ∧
      ¬ (start 100 ∅).Withstands .standard strayByteFrame := by
  refine ⟨.start (start_initial 100 ∅), fun h => ?_⟩
  obtain ⟨tx, hparse, hcut⟩ : ∃ tx, IngressDialect.parse .standard strayByteFrame = .ok tx ∧
      tx.cutsBin = false := ⟨_, rfl, by decide⟩
  have hgood := (h tx hparse 0).cutsBin rfl
  rw [hcut] at hgood
  cases hgood

end Engine

end Iso8583Switch
