import Iso8583Switch.Flow.Paths
import Iso8583Switch.Flow.Runs
import Mathlib.Algebra.Order.Ring.Nat

/-!
# The balance of the STIP database

The fallback reads a profile in one step and stores it, debited, in a later one.
If another worker debits the card in between, its debit is lost.  Where the stored
balance is still the one that was read, nothing is lost, and what was approved for a
card is what its balance has come down by.
-/

namespace Iso8583Switch

open Text

/-- An approval with RC 00 and STIP12. -/
structure StipApproval where
  fpan : Bytes
  amount : UInt64
deriving DecidableEq

/-- What was approved for a card. -/
def approvedFor (fpan : Bytes) (approvals : List StipApproval) : Nat :=
  ((approvals.filter (·.fpan = fpan)).map (·.amount.toNat)).sum

theorem approvedFor_concat (fpan : Bytes) (approvals : List StipApproval) (a : StipApproval) :
    approvedFor fpan (approvals ++ [a]) =
      approvedFor fpan approvals + if a.fpan = fpan then a.amount.toNat else 0 := by
  rw [approvedFor, List.filter_append, List.map_append, List.sum_append, approvedFor]
  congr 1
  by_cases h : a.fpan = fpan <;> simp [h]

/-- Contexts with amounts below 10^12, and debits that leave a balance of at least 0. -/
def IngressPc.Funded : IngressPc → Prop
  | .received ctx | .cleared ctx | .detokenized ctx | .screened ctx | .scanning ctx _ _ _ =>
      ctx.transaction.amount.toNat < 10 ^ 12
  | .carrying _ _ ctx stage => ctx.transaction.amount.toNat < 10 ^ 12 ∧
      ∀ profile, stage = .debiting profile → 0 ≤ profile.balance.toInt
  | .idle | .panicked | .evicting _ => True

/-- A worker that is about to store a debited profile. -/
def IngressPc.debit : IngressPc → Option (UniversalPaymentEvent × CardProfile)
  | .carrying _ _ ctx (.debiting profile) => some (ctx.transaction, profile)
  | _ => none

theorem IngressPc.debit_eq_some {pc : IngressPc} {tx : UniversalPaymentEvent} {profile : CardProfile}
    (h : pc.debit = some (tx, profile)) :
    ∃ i key ctx, pc = .carrying i key ctx (.debiting profile) ∧ tx = ctx.transaction := by
  unfold debit at h
  split at h
  next i key ctx profile' => cases h; exact ⟨i, key, ctx, rfl, rfl⟩
  next => cases h

namespace Engine

/-- The approvals of a step: a worker debits a card and makes the reply an approval. -/
def stipApprovals (s : Engine) : Action → List StipApproval
  | .ingress w .run => (s.ingress w).debit.toList.map fun (tx, _) => ⟨tx.fpan, tx.amount⟩
  | _ => []

def storedBalance (s : Engine) (fpan : Bytes) : Option Int64 :=
  (s.stipDb.get fpan).bind (Option.map CardProfile.balance)

/-- The amounts that come in are below 10^12, and a debit finds the balance that its
worker has read. -/
def Unraced (s : Engine) : Action → Prop
  | .ingress _ (.receive tx _) => tx.amount.toNat < 10 ^ 12
  | .ingress w .run => ∀ d ∈ (s.ingress w).debit,
      s.storedBalance d.1.fpan = some (d.2.balance + d.1.amount.toInt64)
  | _ => True

/-- What a run leaves of the balance of a card. -/
structure Conserved (s : Engine) (fpan : Bytes) (initial : Int64) (approvals : List StipApproval) :
    Prop where
  covered : (approvedFor fpan approvals : Int) ≤ initial.toInt
  stored : ∃ balance, s.storedBalance fpan = some balance ∧ 0 ≤ balance.toInt ∧
    balance.toInt = initial.toInt - approvedFor fpan approvals

/-! ## Amounts as signed numbers -/

theorem toInt_sub_amount {balance : Int64} {amount : UInt64} (h : amount.toNat < 10 ^ 12)
    (hle : amount.toInt64 ≤ balance) :
    (balance - amount.toInt64).toInt = balance.toInt - amount.toNat := by
  have hsmall := toInt_toInt64 (Nat.lt_trans h (by decide))
  have hint := Int64.le_iff_toInt_le.mp hle
  have htop := balance.toInt_lt
  rw [Int64.toInt_sub, hsmall]
  exact Int.bmod_eq_of_le (by omega) (by omega)

theorem toInt_add_amount {balance : Int64} {amount : UInt64} (h : amount.toNat < 10 ^ 12)
    (hpos : 0 ≤ balance.toInt) (hsum : 0 ≤ (balance + amount.toInt64).toInt) :
    (balance + amount.toInt64).toInt = balance.toInt + amount.toNat := by
  have hsmall := toInt_toInt64 (Nat.lt_trans h (by decide))
  have htop := balance.toInt_lt
  rw [Int64.toInt_add, hsmall] at hsum ⊢
  rw [Int.bmod_def] at hsum ⊢
  split at hsum <;> split <;> omega

/-! ## The invariant of the workers -/

theorem stipDecision_funded {ctx : TransactionContext} (h : ctx.transaction.amount.toNat < 10 ^ 12)
    (i : Serial) (key : String) (found : Option (Option CardProfile)) :
    (IngressPc.carrying i key (stipDecision found ctx).2 (stipDecision found ctx).1).Funded := by
  rcases stipDecision_cases found ctx with ⟨profile, hle, heq⟩ | ⟨rc, -, heq⟩
  · rw [heq]
    refine ⟨h, fun debited hdebited => ?_⟩
    cases hdebited
    have hint := Int64.le_iff_toInt_le.mp hle
    rw [toInt_toInt64 (Nat.lt_trans h (by decide))] at hint
    show 0 ≤ (profile.balance - ctx.transaction.amount.toInt64).toInt
    rw [toInt_sub_amount h hle]
    omega
  · rw [heq]
    exact ⟨h, fun profile hprofile => by cases hprofile⟩

/-- A worker keeps to amounts that have come in, and debits what the balance covers. -/
theorem funded_path {s : Engine} {input : Input} {pc pc' : IngressPc} {l : List Event}
    (hpath : IngressPath s input pc pc' l) (h : pc.Funded)
    (hsmall : ∀ tx answerable, input = .receive tx answerable → tx.amount.toNat < 10 ^ 12) :
    pc'.Funded := by
  cases hpath with
  | receive tx answerable => exact hsmall tx answerable rfl
  | panic | answer | evict => trivial
  | clear | plain | detokenize | screen | reverse | mark | pass => exact h
  | accept => exact ⟨h, fun profile hprofile => by cases hprofile⟩
  | carry hcarry =>
      have hamount := h.1
      cases hcarry with
      | task | unjournaled | send | undecided | decide | decline => trivial
      | fallback => exact stipDecision_funded hamount _ _ _
      | journal | route | noRoute | number | record | fail | debit =>
          exact ⟨hamount, fun profile hprofile => by cases hprofile⟩

/-! ## Debits -/

/-- A step debits a card, and notes it as an approval, or leaves the cards alone. -/
theorem step_stipDb {s t : Engine} {a : Action} (h : s.step a = some t) :
    (s.stipApprovals a = [] ∧ t.stipDb = s.stipDb) ∨
      ∃ w i key ctx profile, a = .ingress w .run ∧ s.Debits t w i key ctx profile ∧
        s.stipApprovals a = [⟨ctx.transaction.fpan, ctx.transaction.amount⟩] := by
  cases a with
  | ingress w input =>
      by_cases hdebit : ∃ i key ctx profile, s.ingress w = .carrying i key ctx (.debiting profile) ∧
          input = .run
      · obtain ⟨i, key, ctx, profile, hpc, rfl⟩ := hdebit
        simp only [step, ingressStep, hpc] at h
        cases h
        refine .inr ⟨w, i, key, ctx, profile, rfl, ⟨hpc, rfl, rfl⟩, ?_⟩
        rw [stipApprovals, hpc]
        rfl
      · have hnote : s.stipApprovals (.ingress w input) = [] := by
          unfold stipApprovals
          split
          next w' hrun =>
            cases hrun
            cases hd : (s.ingress w).debit with
            | none => rfl
            | some d =>
                obtain ⟨i, key, ctx, hpc, -⟩ := IngressPc.debit_eq_some hd
                exact absurd ⟨i, key, ctx, d.2, hpc, rfl⟩ hdebit
          next => rfl
        rcases ingressStep_aside h with hsame | ⟨i, key, ctx, hspawn⟩ |
          ⟨i, key, ctx, profile, hinput, hdebits⟩
        · exact .inl ⟨hnote, hsame.stipDb⟩
        · exact .inl ⟨hnote, hspawn.stipDb⟩
        · exact absurd ⟨i, key, ctx, profile, hdebits.carrying, hinput⟩ hdebit
  | hsm i input =>
      obtain ⟨pc, l, -, -, -, hdb, -⟩ := hsmStep_path h
      exact .inl ⟨rfl, hdb⟩
  | reaper | reply | bank | probe | tick | storeStip | storeCrdb | storeRouter | pollSanctions =>
      exact .inl ⟨rfl, (step_threads h (fun _ _ heq => by cases heq)
        fun _ _ heq => by cases heq).stipDb⟩

/-- What holds of the workers and of the cards while no debit is lost. -/
structure Solvent (s₀ : Engine) (p : Engine × List StipApproval) : Prop where
  funded : ∀ w, (p.1.ingress w).Funded
  conserved : ∀ fpan initial, s₀.storedBalance fpan = some initial → 0 ≤ initial.toInt →
    Conserved p.1 fpan initial p.2

theorem funded_step {s t : Engine} {a : Action} (h : ∀ w, (s.ingress w).Funded)
    (hunraced : s.Unraced a) (hstep : s.step a = some t) : ∀ w, (t.ingress w).Funded := by
  intro w
  cases a with
  | ingress w' input =>
      obtain ⟨pc, l, hpath, htook⟩ := ingressStep_path hstep
      rw [htook.ingress, Function.update_apply]
      split
      · refine funded_path hpath (h w') fun tx answerable hinput => ?_
        rw [hinput] at hunraced
        exact hunraced
      · exact h w
  | hsm i input =>
      obtain ⟨pc, l, -, -, hingress, -, -⟩ := hsmStep_path hstep
      exact hingress ▸ h w
  | reaper | reply | bank | probe | tick | storeStip | storeCrdb | storeRouter | pollSanctions =>
      exact (step_threads hstep (fun _ _ heq => by cases heq)
        fun _ _ heq => by cases heq).ingress ▸ h w

theorem storedBalance_debit {s t : Engine} {w : Nat} {i : Serial} {key : String}
    {ctx : TransactionContext} {profile : CardProfile} (h : s.Debits t w i key ctx profile)
    (fpan : Bytes) : t.storedBalance fpan =
      if fpan = ctx.transaction.fpan then some profile.balance else s.storedBalance fpan := by
  rw [storedBalance, h.stipDb, DashMap.get_put]
  split <;> rfl

theorem Solvent.step {s₀ : Engine} {p q : Engine × List StipApproval} {a : Action}
    (h : Solvent s₀ p) (hunraced : p.1.Unraced a) (hstep : p.1.step a = some q.1)
    (hnotes : q.2 = p.2 ++ p.1.stipApprovals a) : Solvent s₀ q := by
  refine ⟨funded_step h.funded hunraced hstep, fun fpan initial hinitial hpos => ?_⟩
  have hold := h.conserved fpan initial hinitial hpos
  rcases step_stipDb hstep with ⟨hnone, hdb⟩ | ⟨w, i, key, ctx, profile, rfl, hdebit, happroval⟩
  · rw [hnotes, hnone, List.append_nil]
    refine ⟨hold.covered, ?_⟩
    rw [storedBalance, hdb]
    exact hold.stored
  · rw [happroval] at hnotes
    by_cases hcard : ctx.transaction.fpan = fpan
    · have hw := h.funded w
      rw [hdebit.carrying] at hw
      have hleft := hw.2 profile rfl
      obtain ⟨balance, hbalance, hnonneg, hspent⟩ := hold.stored
      -- The debit finds the balance that its worker has read.
      have hfound := hunraced (ctx.transaction, profile) (by rw [hdebit.carrying]; rfl)
      dsimp only at hfound
      rw [hcard, hbalance, Option.some.injEq] at hfound
      rw [hfound] at hnonneg hspent
      have hadd := toInt_add_amount hw.1 hleft hnonneg
      have hsum := approvedFor_concat fpan p.2 ⟨ctx.transaction.fpan, ctx.transaction.amount⟩
      rw [if_pos hcard, ← hnotes] at hsum
      dsimp only at hsum
      refine ⟨by omega, profile.balance, ?_, hleft, by omega⟩
      rw [storedBalance_debit hdebit, if_pos hcard.symm]
    · have hsum := approvedFor_concat fpan p.2 ⟨ctx.transaction.fpan, ctx.transaction.amount⟩
      rw [if_neg hcard, Nat.add_zero, ← hnotes] at hsum
      refine ⟨hsum ▸ hold.covered, ?_⟩
      rw [storedBalance_debit hdebit, if_neg (Ne.symm hcard), hsum]
      exact hold.stored

/-! ## Unraced runs -/

/-- In every run in which no debit is raced, what was approved for a card is covered by
its initial balance and is what the stored balance has come down by. -/
theorem stip_balance_conserved {s₀ : Engine} (h₀ : s₀.Initial)
    {p : Engine × List StipApproval}
    (h : Transition.Noted (· = s₀) step stipApprovals (fun p a => p.1.Unraced a) p) (fpan : Bytes)
    (initial : Int64) (hinitial : s₀.storedBalance fpan = some initial) (hpos : 0 ≤ initial.toInt) :
    Conserved p.1 fpan initial p.2 := by
  have hsolvent : Solvent s₀ p := by
    refine h.invariant (I := Solvent s₀) (fun p hp => ?_) fun p q _ hp ⟨a, hunraced, hstep⟩ => ?_
    · obtain ⟨hstate, hnotes⟩ := hp
      refine ⟨fun w => ?_, fun fpan initial hinitial hpos => ?_⟩
      · rw [hstate, h₀.ingress]
        trivial
      · rw [hstate, hnotes]
        exact ⟨hpos, initial, hinitial, hpos, (Int.sub_zero _).symm⟩
    · obtain ⟨hnext, hnotes⟩ := Transition.noting_eq_some hstep
      exact hp.step hunraced hnext hnotes
  exact hsolvent.conserved fpan initial hinitial hpos

/-! ## Two purchases on one card -/

/-- The runs of `stip_balance_raced`: the amounts that come in are below 10^12. -/
def SmallAmounts (_ : Engine) : Action → Prop
  | .ingress _ (.receive tx _) => tx.amount.toNat < 10 ^ 12
  | _ => True

instance (s : Engine) (a : Action) : Decidable (s.SmallAmounts a) :=
  match a with
  | .ingress _ (.receive _ _) => inferInstanceAs (Decidable (_ < _))
  | .ingress _ .run | .ingress _ (.visit _) | .ingress _ (.skip _) | .ingress _ (.outcome _)
  | .ingress _ (.verifiedMac _) | .ingress _ (.verifiedPin _) | .ingress _ (.translatedPin _)
  | .tick _ | .storeStip _ | .storeCrdb _ | .storeRouter _ | .pollSanctions _ | .hsm _ _ | .reaper _
  | .reply _ _ | .bank _ | .probe _ _ _ => .isTrue trivial

instance (s : Engine) (a : Action) : Decidable (s.Unraced a) :=
  match a with
  | .ingress _ (.receive _ _) => inferInstanceAs (Decidable (_ < _))
  | .ingress w .run => inferInstanceAs (Decidable (∀ d ∈ (s.ingress w).debit, _))
  | .ingress _ (.visit _) | .ingress _ (.skip _) | .ingress _ (.outcome _)
  | .ingress _ (.verifiedMac _) | .ingress _ (.verifiedPin _) | .ingress _ (.translatedPin _)
  | .tick _ | .storeStip _ | .storeCrdb _ | .storeRouter _ | .pollSanctions _ | .hsm _ _ | .reaper _
  | .reply _ _ | .bank _ | .probe _ _ _ => .isTrue trivial

/-- An engine with a card that can pay for one purchase of 1000. -/
def oneCard : Engine := start 100 (DashMap.put ∅ (asBytes "4111111111111111") (some ⟨1500, false⟩))

theorem oneCard_initial : oneCard.Initial := start_initial _ _

/-- A run from there, with its approvals. -/
def approving (actions : List Action) : Engine × List StipApproval :=
  (Transition.exec (Transition.noting step stipApprovals) (oneCard, []) actions).getD (oneCard, [])

theorem approving_noted {P : Engine → Action → Prop} [∀ s a, Decidable (P s a)]
    {actions : List Action}
    (h : Transition.complies (Transition.noting step stipApprovals) (fun p a => P p.1 a) (oneCard, [])
      actions = true) :
    Transition.Noted (· = oneCard) step stipApprovals (fun p a => P p.1 a) (approving actions) :=
  Transition.Noted.of_complies rfl h

/-- A purchase up to the read of the fallback. -/
def fallBack (w : Nat) (tx : UniversalPaymentEvent) : List Action :=
  accept w tx ++ forward w false ++ [.ingress w (.outcome true)]

/-- One purchase is approved, the next is declined. -/
def inTurn : List Action :=
  .storeRouter visaRouter :: (fallBack 0 (purchase "000100" "RRN000000001") ++ [.ingress 0 .run] ++
    fallBack 1 (purchase "000200" "RRN000000002"))

/-- Both workers read the balance before one of them stores it. -/
def raced : List Action :=
  .storeRouter visaRouter :: (fallBack 0 (purchase "000100" "RRN000000001") ++
    fallBack 1 (purchase "000200" "RRN000000002") ++ [.ingress 0 .run, .ingress 1 .run])

set_option maxRecDepth 8000 in
theorem stip_balance_conserved_in_turn :
    Conserved (approving inTurn).1 (asBytes "4111111111111111") 1500 (approving inTurn).2 :=
  stip_balance_conserved oneCard_initial (approving_noted (by decide)) _ 1500 (by decide) (by decide)

set_option maxRecDepth 8000 in
/-- Both purchases are approved. -/
theorem stip_balance_raced : ¬ ∀ (s₀ : Engine) (p : Engine × List StipApproval), s₀.Initial →
    Transition.Noted (· = s₀) step stipApprovals (fun p a => p.1.SmallAmounts a) p →
    ∀ (fpan : Bytes) (initial : Int64), s₀.storedBalance fpan = some initial → 0 ≤ initial.toInt →
      Conserved p.1 fpan initial p.2 := by
  intro h
  have hconserved := h oneCard (approving raced) oneCard_initial (approving_noted (by decide))
    (asBytes "4111111111111111") 1500 (by decide) (by decide)
  have hspent : approvedFor (asBytes "4111111111111111") (approving raced).2 = 2000 := by decide
  have hcovered := hconserved.covered
  rw [hspent] at hcovered
  exact absurd hcovered (by decide)

end Engine

end Iso8583Switch
