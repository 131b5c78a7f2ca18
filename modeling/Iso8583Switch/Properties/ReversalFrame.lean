import Iso8583Switch.Flow.Impacts
import Iso8583Switch.Flow.Runs
import Iso8583Switch.Flow.Solo

/-!
# What a reversal touches

A reversal marks every guard entry whose STAN stands in bytes 4 to 10 of its field
90, whoever the acquirer of the entry is, and posts an offset for each of them.
`Scanned` says what the scan has done at any moment, so `solo_reversal` says what a
reversal does from any state of the guard.
-/

namespace Iso8583Switch

open Text Function

/-- Characters 4 to 10 of field 90. -/
def originalStan (odata : String) : String := String.ofList ((odata.toList.drop 4).take 6)

/-- What the scan makes of an entry. -/
def ActiveTransaction.scanned (origStan : String) (entry : ActiveTransaction) : ActiveTransaction :=
  if entry.transactionData.stan = origStan then { entry with state := .reversedPending } else entry

namespace Engine

/-- The entry under the key has the STAN. -/
def hits (s : Engine) (origStan key : String) : Bool :=
  match s.guard.get key with
  | some entry => entry.transactionData.stan = origStan
  | none => false

/-- The entries with the STAN, by their keys. -/
def matching (s : Engine) (origStan : String) : List String := s.guard.keys.filter (s.hits origStan)

/-- The number of events that were posted since `s`. -/
def postedSince (s t : Engine) : Nat := ((newEvents s t).filterMap Event.posting).length

/-- The message goes through to the scan, which looks for `origStan`. -/
structure ScansFor (s : Engine) (tx : UniversalPaymentEvent) (odata origStan : String) : Prop where
  admitted : ∃ tx', s.Passes tx tx' ∧ s.mem.highRisk tx' = false ∧ isForSwitch tx' = false
  slice : slice odata 4 10 = some origStan

/-- Nothing has changed but the entry of the acquirer with the original STAN, and one
offset has been posted at most. -/
structure TouchesOnlyOriginal (s : Engine) (tx : UniversalPaymentEvent) (odata : String)
    (t : Engine) : Prop where
  original : ∀ key, t.guard.get key ≠ s.guard.get key → ∃ entry, s.guard.get key = some entry ∧
    entry.transactionData.stan = originalStan odata ∧
    entry.transactionData.acquirerId = fromUtf8Lossy tx.acquirerId
  one : ∀ key key', t.guard.get key ≠ s.guard.get key → t.guard.get key' ≠ s.guard.get key' →
    key = key'
  offsets : s.postedSince t ≤ 1

/-- One entry at most has the STAN, and it is the original of the acquirer or marked
already. -/
structure SoleOriginal (s : Engine) (tx : UniversalPaymentEvent) (odata origStan : String) :
    Prop where
  sole : (s.matching origStan).length ≤ 1
  original : ∀ key entry, s.guard.get key = some entry → entry.transactionData.stan = origStan →
    entry.state = .reversedPending ∨
      origStan = originalStan odata ∧
        entry.transactionData.acquirerId = fromUtf8Lossy tx.acquirerId

/-! ## The scan -/

/-- The scan of worker `w` in `t`, which began with the guard of `s`. -/
structure Scanned (s t : Engine) (w : Nat) (ctx : TransactionContext) (origStan : String)
    (scan : Scan) (marked : List Serial) : Prop where
  pc : t.ingress w = .scanning ctx origStan scan marked
  fresh : scan.Fresh
  keys : ∀ key, key ∈ s.guard.keys ↔ key ∈ scan.todo ∨ key ∈ scan.seen
  nodup : scan.seen.Nodup
  guard : ∀ key, t.guard.get key =
    if key ∈ scan.seen then (s.guard.get key).map (·.scanned origStan) else s.guard.get key
  trace : ∃ l, t.trace = s.trace ++ l ∧
    (l.filterMap Event.posting).length = (scan.seen.filter (s.hits origStan)).length

/-- The guard when the scan is over, and the offsets. -/
structure Reversed (s t : Engine) (origStan : String) : Prop where
  guard : ∀ key, t.guard.get key = (s.guard.get key).map (·.scanned origStan)
  offsets : s.postedSince t = (s.matching origStan).length

section Scan

variable {s t u : Engine} {w : Nat} {ctx : TransactionContext} {origStan : String} {scan : Scan}
  {marked : List Serial}

theorem hits_of_get {key : String} {entry : ActiveTransaction} (h : s.guard.get key = some entry) :
    s.hits origStan key = decide (entry.transactionData.stan = origStan) := by
  rw [hits, h]

/-- The scan meets the entries as they were when it began. -/
theorem Scanned.get (h : s.Scanned t w ctx origStan scan marked) {key : String}
    (hunseen : key ∉ scan.seen) : t.guard.get key = s.guard.get key := by
  rw [h.guard, if_neg hunseen]

theorem Scanned.mem_todo (h : s.Scanned t w ctx origStan scan marked) {key : String}
    {entry : ActiveTransaction} (hunseen : key ∉ scan.seen) (hget : s.guard.get key = some entry) :
    key ∈ scan.todo :=
  ((h.keys key).mp (DashMap.mem_keys_iff.mpr ⟨entry, hget⟩)).resolve_right hunseen

theorem Scanned.keys_meet (h : s.Scanned t w ctx origStan scan marked) {key : String}
    (hmem : key ∈ scan.todo) (k : String) :
    k ∈ s.guard.keys ↔ k ∈ (scan.meet key).todo ∨ k ∈ (scan.meet key).seen := by
  rw [h.keys]
  show _ ↔ k ∈ scan.todo.erase key ∨ k ∈ key :: scan.seen
  rw [h.fresh.nodup.mem_erase_iff, List.mem_cons]
  by_cases hk : k = key
  · subst hk
    simp [hmem]
  · simp [hk]

/-- The iterator meets an entry. -/
theorem Scanned.visit (h : s.Scanned t w ctx origStan scan marked) {key : String}
    {entry : ActiveTransaction} (hunseen : key ∉ scan.seen) (hget : t.guard.get key = some entry) :
    ∃ marked', s.Scanned (t.visitReversal w ctx origStan scan marked key entry) w ctx origStan
      (scan.meet key) marked' := by
  have hold : s.guard.get key = some entry := (h.get hunseen).symm.trans hget
  have hnodup : (scan.meet key).seen.Nodup := List.nodup_cons.mpr ⟨hunseen, h.nodup⟩
  have hguard (k : String) : (if k ∈ (scan.meet key).seen then
        (s.guard.get k).map (·.scanned origStan) else s.guard.get k) =
      if k = key then some (entry.scanned origStan) else t.guard.get k := by
    show (if k ∈ key :: scan.seen then _ else _) = _
    by_cases hk : k = key
    · subst hk
      rw [if_pos List.mem_cons_self, if_pos rfl, hold]
      rfl
    · rw [if_neg hk, h.guard k]
      simp only [List.mem_cons, hk, false_or]
  obtain ⟨l, htrace, hposted⟩ := h.trace
  unfold visitReversal
  split
  next hstan =>
    have hscanned : entry.scanned origStan = { entry with state := .reversedPending } :=
      if_pos hstan
    refine ⟨_, setIngress_self _ _ _, h.fresh.meet key, h.keys_meet (h.mem_todo hunseen hold),
      hnodup, fun k => ?_, l ++ [.marked entry.serial,
        .posted { ctx.transaction with rrn := entry.transactionData.rrn }], ?_, ?_⟩
    · rw [hguard, hscanned]
      exact DashMap.get_put _ _ _ _
    · show (t.trace ++ [_]) ++ [_] = _
      rw [htrace, List.append_assoc, List.append_assoc]
      rfl
    · show _ = (List.filter (s.hits origStan) (key :: scan.seen)).length
      rw [List.filterMap_append, List.length_append, hposted,
        List.filter_cons_of_pos (by rw [hits_of_get hold, decide_eq_true hstan])]
      rfl
  next hstan =>
    have hscanned : entry.scanned origStan = entry := if_neg hstan
    refine ⟨_, setIngress_self _ _ _, h.fresh.meet key, h.keys_meet (h.mem_todo hunseen hold),
      hnodup, fun k => ?_, l, htrace, ?_⟩
    · rw [hguard, hscanned]
      show t.guard.get k = _
      split
      next hk => rw [hk, hget]
      next => rfl
    · show _ = (List.filter (s.hits origStan) (key :: scan.seen)).length
      rw [hposted, List.filter_cons_of_neg (by rw [hits_of_get hold]; simpa using hstan)]

/-- Nothing is left to meet. -/
theorem Scanned.perm (h : s.Scanned t w ctx origStan scan marked) (htodo : scan.todo = []) :
    scan.seen.Perm s.guard.keys := by
  refine (List.perm_ext_iff_of_nodup h.nodup s.guard.nodupKeys).mpr fun key => ?_
  show key ∈ scan.seen ↔ key ∈ s.guard.keys
  rw [h.keys, htodo]
  simp

theorem Scanned.finish (h : s.Scanned t w ctx origStan scan marked) (htodo : scan.todo = []) :
    s.Reversed (t.finishReversal w ctx marked) origStan := by
  obtain ⟨l, htrace, hposted⟩ := h.trace
  constructor
  · intro key
    show (t.respond _ _ _).guard.get key = _
    rw [respond_guard, h.guard]
    split
    next => rfl
    next hunseen =>
      have hnone : s.guard.get key = none := by
        cases hget : s.guard.get key with
        | none => rfl
        | some entry =>
            have hmem := h.mem_todo hunseen hget
            rw [htodo] at hmem
            cases hmem
      rw [hnone]
      rfl
  · have hnew : newEvents s (t.finishReversal w ctx marked) =
        l ++ answers ctx.responder (.reversal marked) (ctx.transaction.answer "0430" "00") := by
      show List.drop _ (t.respond _ _ _).trace = _
      rw [respond_trace, htrace, List.append_assoc, List.drop_left]
    have hanswers : (answers ctx.responder (.reversal marked)
        (ctx.transaction.answer "0430" "00")).filterMap Event.posting = [] := by
      cases ctx.responder with
      | none => rfl
      | some r => rfl
    rw [postedSince, hnew, List.filterMap_append, hanswers, List.append_nil, hposted, matching]
    exact ((h.perm htodo).filter _).length_eq

/-- The worker goes on with the scan, or is done with it. -/
theorem Scanned.solo (h : s.Scanned t w ctx origStan scan marked) (hrun : t.Solo w u) :
    (∃ scan' marked', s.Scanned u w ctx origStan scan' marked') ∨
      u.ingress w = .idle ∧ s.Reversed u origStan := by
  induction hrun with
  | start => exact .inl ⟨scan, marked, h⟩
  | @own v v' input _ hbusy hstep ih =>
      rcases ih with ⟨scan', marked', hscan⟩ | ⟨hidle, -⟩
      · simp only [step, ingressStep, hscan.pc, scanStep] at hstep
        cases input with
        | visit key =>
            cases hget : v.guard.get key with
            | none => simp [hget] at hstep
            | some entry =>
                simp only [hget, Option.ite_none_left_eq_some] at hstep
                obtain ⟨hunseen, hstep⟩ := hstep
                cases hstep
                obtain ⟨marked'', hnext⟩ := hscan.visit hunseen hget
                exact .inl ⟨_, _, hnext⟩
        | skip key =>
            -- No entry leaves the guard while the worker is on its own.
            simp only [Option.ite_none_right_eq_some] at hstep
            obtain ⟨⟨hmem, hgone⟩, -⟩ := hstep
            rw [hscan.get (hscan.fresh.unseen key hmem)] at hgone
            obtain ⟨entry, hentry⟩ := DashMap.mem_keys_iff.mp ((hscan.keys key).mpr (.inl hmem))
            rw [hentry] at hgone
            cases hgone
        | run =>
            simp only [Option.ite_none_right_eq_some] at hstep
            obtain ⟨htodo, hstep⟩ := hstep
            cases hstep
            exact .inr ⟨declineFront_self _ _ _ _ _, hscan.finish htodo⟩
        | _ => cases hstep
      · exact absurd hidle hbusy

/-- The scan comes to an end. -/
theorem Scanned.finishes (h : s.Scanned t w ctx origStan scan marked) :
    ∃ u, t.Solo w u ∧ u.ingress w = .idle ∧ s.Reversed u origStan := by
  generalize hn : scan.todo.length = n
  induction n generalizing t scan marked with
  | zero =>
      have htodo := List.eq_nil_of_length_eq_zero hn
      refine ⟨t.finishReversal w ctx marked, ?_, declineFront_self _ _ _ _ _, h.finish htodo⟩
      refine Solo.start.run (by rw [h.pc]; exact IngressPc.noConfusion) ?_
      simp only [ingressStep, h.pc, scanStep, if_pos htodo]
  | succ n ih =>
      obtain ⟨key, rest, htodo⟩ := List.exists_cons_of_length_eq_add_one hn
      have hmem : key ∈ scan.todo := by
        rw [htodo]
        exact List.mem_cons_self
      have hunseen := h.fresh.unseen key hmem
      obtain ⟨entry, hold⟩ := DashMap.mem_keys_iff.mp ((h.keys key).mpr (.inl hmem))
      have hget : t.guard.get key = some entry := (h.get hunseen).trans hold
      obtain ⟨marked', hnext⟩ := h.visit hunseen hget
      have hlen : (scan.meet key).todo.length = n := by
        show (scan.todo.erase key).length = n
        rw [List.length_erase_of_mem hmem, hn]
        rfl
      obtain ⟨u, hrun, hend⟩ := ih hnext hlen
      have hstep : t.step (.ingress w (.visit key)) =
          some (t.visitReversal w ctx origStan scan marked key entry) := by
        simp only [step, ingressStep, h.pc, scanStep, hget, if_neg hunseen]
      have hbusy : t.ingress w ≠ .idle := by
        rw [h.pc]
        exact IngressPc.noConfusion
      exact ⟨u, (Solo.start.own hbusy hstep).trans hrun, hend⟩

end Scan

/-! ## The whole message -/

section Message

variable {s t : Engine} {w : Nat} {tx tx' : UniversalPaymentEvent} {answerable : Bool}
  {odata origStan : String}

/-- The worker is through with the message, or gone. -/
def Stopped (t : Engine) (w : Nat) : Prop := t.ingress w = .idle ∨ t.ingress w = .panicked

theorem Passes.isReversal (h : s.Passes tx tx') : tx'.isReversal = tx.isReversal := by
  obtain ⟨_, _, rfl⟩ := TspVault.detokenized_eq h.detokenized
  rfl

theorem Passes.originalDataElements (h : s.Passes tx tx') :
    tx'.originalDataElements = tx.originalDataElements := by
  obtain ⟨_, _, rfl⟩ := TspVault.detokenized_eq h.detokenized
  rfl

/-- Every character has a byte. -/
theorem length_le_len (odata : String) : odata.toList.length ≤ len odata := by
  rw [len_eq_sum]
  induction odata.toList with
  | nil => exact Nat.le_refl 0
  | cons c cs ih =>
      have hpos := c.utf8Size_pos
      rw [List.length_cons, List.map_cons, List.sum_cons]
      omega

/-- The scan of a reversal begins with the guard as the message finds it. -/
theorem scanned_start (s : Engine) (w : Nat) (tx : UniversalPaymentEvent) (answerable : Bool)
    (ctx : TransactionContext) (origStan : String) :
    s.Scanned (s.holding w tx answerable (.scanning ctx origStan (.start s.guard.keys) [])) w ctx
      origStan (.start s.guard.keys) [] where
  pc := holding_self _ _ _ _ _
  fresh := .start s.guard
  keys := fun key => by simp [Scan.start]
  nodup := List.nodup_nil
  guard := fun key => (if_neg List.not_mem_nil).symm
  trace := ⟨[.received tx answerable], rfl, rfl⟩

section Dispatch

variable (hreversal : tx.isReversal = true) (hdata : tx.originalDataElements = some odata)
  (hlen : 20 ≤ odata.toList.length)

include hreversal hdata hlen

/-- A reversal that comes to the guard. -/
theorem dispatch_holding (h : s.Passes tx tx') (hswitch : isForSwitch tx' = false) :
    let ctx := { s.arrival tx answerable with transaction := tx' }
    (s.holding w tx answerable (.screened ctx)).dispatch w ctx =
      s.holding w tx answerable
        (match slice odata 4 10 with
        | some origStan => .scanning ctx origStan (.start s.guard.keys) []
        | none => .panicked) := by
  have hrev : tx'.isReversal = true := h.isReversal.trans hreversal
  have hodata : tx'.originalData = some odata := by
    rw [UniversalPaymentEvent.originalData, h.originalDataElements, hdata, Option.filter_some,
      if_pos (decide_eq_true (Nat.le_trans hlen (length_le_len odata)))]
  intro ctx
  cases hslice : slice odata 4 10 with
  | some origStan =>
      rw [dispatch_reversal hswitch hrev hodata hslice, setIngress_holding]
      rfl
  | none => rw [dispatch_panics hswitch hrev hodata hslice, setIngress_holding]

theorem solo_reversal (h : (s.receive w tx answerable).Solo w t) (hstop : t.Stopped w) :
    s.Untouched t ∨ ∃ origStan, s.ScansFor tx odata origStan ∧ s.Reversed t origStan := by
  rcases solo_front h with hfront | ⟨tx', hpasses, hrisk, h⟩
  · exact .inl hfront
  rcases solo_screened answerable h with rfl | h
  · exact .inl (untouched_holding s w tx answerable _)
  cases hswitch : isForSwitch tx' with
  | true =>
      rw [dispatch, if_pos hswitch] at h
      rw [h.of_idle (declineFront_self _ _ _ _ _)]
      exact .inl ((untouched_holding s w tx answerable _).declineFront _ _ _ _)
  | false =>
      rw [dispatch_holding hreversal hdata hlen hpasses hswitch] at h
      cases hslice : slice odata 4 10 with
      | none =>
          rw [hslice] at h
          rw [h.of_panicked (holding_self _ _ _ _ _)]
          exact .inl (untouched_holding s w tx answerable _)
      | some origStan =>
          rw [hslice] at h
          rcases (scanned_start s w tx answerable _ origStan).solo h with
            ⟨scan, marked, hscan⟩ | ⟨-, hreversed⟩
          · rcases hstop with hstop | hstop <;> rw [hscan.pc] at hstop <;> cases hstop
          · exact .inr ⟨origStan, ⟨⟨tx', hpasses, hrisk, hswitch⟩, hslice⟩, hreversed⟩

/-- A reversal that comes to the scan is processed to its end. -/
theorem reversal_finishes (w : Nat) (answerable : Bool) (hscan : s.ScansFor tx odata origStan) :
    ∃ t, (s.receive w tx answerable).Solo w t ∧ t.Stopped w ∧ s.Reversed t origStan := by
  obtain ⟨⟨tx', hpasses, hrisk, hswitch⟩, hslice⟩ := hscan
  have hdispatched := solo_dispatch w answerable hpasses hrisk
  rw [dispatch_holding hreversal hdata hlen hpasses hswitch, hslice] at hdispatched
  obtain ⟨t, hrun, hidle, hreversed⟩ := (scanned_start s w tx answerable _ origStan).finishes
  exact ⟨t, hdispatched.trans hrun, .inl hidle, hreversed⟩

end Dispatch

theorem Untouched.touchesOnlyOriginal (h : s.Untouched t) : s.TouchesOnlyOriginal tx odata t where
  original := fun key hne => absurd (by rw [h.guard]) hne
  one := fun key key' hne => absurd (by rw [h.guard]) hne
  offsets := by
    obtain ⟨l, htrace, hfront⟩ := h.trace
    have hnone : l.filterMap Event.posting = [] := by
      refine List.filterMap_eq_nil_iff.mpr fun e he => ?_
      rcases hfront e he with ⟨_, _, rfl⟩ | ⟨_, _, _, rfl⟩
      · rfl
      · rfl
    rw [postedSince, newEvents, htrace, List.drop_left, hnone]
    exact Nat.zero_le 1

theorem mem_matching {key : String} :
    key ∈ s.matching origStan ↔
      ∃ entry, s.guard.get key = some entry ∧ entry.transactionData.stan = origStan := by
  rw [matching, List.mem_filter, DashMap.mem_keys_iff]
  constructor
  · rintro ⟨⟨entry, hget⟩, hhit⟩
    rw [hits_of_get hget, decide_eq_true_eq] at hhit
    exact ⟨entry, hget, hhit⟩
  · rintro ⟨entry, hget, hstan⟩
    exact ⟨⟨entry, hget⟩, by rw [hits_of_get hget, decide_eq_true hstan]⟩

theorem eq_of_length_le_one {l : List String} (h : l.length ≤ 1) {a b : String} (ha : a ∈ l)
    (hb : b ∈ l) : a = b := by
  cases l with
  | nil => cases ha
  | cons c l =>
      have hnil : l = [] := List.eq_nil_of_length_eq_zero (by simpa using h)
      subst hnil
      rw [List.mem_singleton.mp ha, List.mem_singleton.mp hb]

/-- The entries that a reversal changes. -/
theorem Reversed.changed (h : s.Reversed t origStan) {key : String} :
    t.guard.get key ≠ s.guard.get key ↔ ∃ entry, s.guard.get key = some entry ∧
      entry.transactionData.stan = origStan ∧ entry.state ≠ .reversedPending := by
  rw [h.guard]
  cases hget : s.guard.get key with
  | none => simp
  | some entry =>
      simp only [Option.map_some, Option.some.injEq, ne_eq, exists_eq_left']
      rw [ActiveTransaction.scanned]
      constructor
      · intro hne
        by_cases hstan : entry.transactionData.stan = origStan
        · refine ⟨hstan, fun hstate => hne ?_⟩
          rw [if_pos hstan, ← hstate]
        · exact absurd (if_neg hstan) hne
      · rintro ⟨hstan, hstate⟩ heq
        rw [if_pos hstan] at heq
        exact hstate (congrArg ActiveTransaction.state heq).symm

theorem Reversed.touches_iff (h : s.Reversed t origStan) :
    s.TouchesOnlyOriginal tx odata t ↔ s.SoleOriginal tx odata origStan := by
  constructor
  · intro htouches
    refine ⟨h.offsets ▸ htouches.offsets, fun key entry hget hstan => ?_⟩
    by_cases hstate : entry.state = .reversedPending
    · exact .inl hstate
    · obtain ⟨entry', hget', hstan', hacquirer⟩ :=
        htouches.original key (h.changed.mpr ⟨entry, hget, hstan, hstate⟩)
      cases hget.symm.trans hget'
      exact .inr ⟨hstan.symm.trans hstan', hacquirer⟩
  · intro hsole
    constructor
    · intro key hne
      obtain ⟨entry, hget, hstan, hstate⟩ := h.changed.mp hne
      obtain ⟨horig, hacquirer⟩ := (hsole.original key entry hget hstan).resolve_left hstate
      exact ⟨entry, hget, hstan.trans horig, hacquirer⟩
    · intro key key' hne hne'
      obtain ⟨entry, hget, hstan, -⟩ := h.changed.mp hne
      obtain ⟨entry', hget', hstan', -⟩ := h.changed.mp hne'
      exact eq_of_length_le_one hsole.sole (mem_matching.mpr ⟨entry, hget, hstan⟩)
        (mem_matching.mpr ⟨entry', hget', hstan'⟩)
    · rw [h.offsets]
      exact hsole.sole

theorem reversal_touches_iff (hreversal : tx.isReversal = true)
    (hdata : tx.originalDataElements = some odata) (hlen : 20 ≤ odata.toList.length) :
    (∀ t, (s.receive w tx answerable).Solo w t → t.Stopped w → s.TouchesOnlyOriginal tx odata t) ↔
      ∀ origStan, s.ScansFor tx odata origStan → s.SoleOriginal tx odata origStan := by
  constructor
  · intro htouches origStan hscan
    obtain ⟨t, hrun, hstop, hreversed⟩ :=
      reversal_finishes hreversal hdata hlen w answerable hscan
    exact hreversed.touches_iff.mp (htouches t hrun hstop)
  · intro hsole t hrun hstop
    rcases solo_reversal hreversal hdata hlen hrun hstop with hfront | ⟨origStan, hscan, hreversed⟩
    · exact hfront.touchesOnlyOriginal
    · exact hreversed.touches_iff.mpr (hsole origStan hscan)

end Message

/-! ## Two acquirers with one STAN -/

/-- The purchase of another acquirer with the same STAN. -/
def strangerPurchase : UniversalPaymentEvent :=
  { purchase "000100" "RRN000000009" with acquirerId := asBytes "ACQ2" }

/-- Both are in the guard. -/
def sharedStan : List Action :=
  accept 0 (purchase "000100" "RRN000000001") ++ accept 1 strangerPurchase

/-- The field 90 of `terminalReversal`. -/
def terminalOdata : String := "01000001000727000000000000000000000000000"

set_option maxRecDepth 8000 in
theorem reversal_touches_iff_shared :
    (∀ t, ((after sharedStan).receive 2 terminalReversal true).Solo 2 t → t.Stopped 2 →
        (after sharedStan).TouchesOnlyOriginal terminalReversal terminalOdata t) ↔
      ∀ origStan, (after sharedStan).ScansFor terminalReversal terminalOdata origStan →
        (after sharedStan).SoleOriginal terminalReversal terminalOdata origStan :=
  reversal_touches_iff rfl rfl (by decide)

set_option maxRecDepth 8000 in
/-- The reversal of one acquirer marks the entry of the other one, too. -/
theorem reversal_touches_stranger : ¬ ∀ (s : Engine) (w : Nat) (tx : UniversalPaymentEvent)
    (answerable : Bool) (odata : String), tx.isReversal = true →
    tx.originalDataElements = some odata → 20 ≤ odata.toList.length →
      ∀ t, (s.receive w tx answerable).Solo w t → t.Stopped w →
        s.TouchesOnlyOriginal tx odata t := by
  intro h
  have hscan : (after sharedStan).ScansFor terminalReversal terminalOdata "000100" :=
    ⟨⟨terminalReversal, ⟨by decide, rfl, by decide⟩, by decide, by decide⟩, by decide⟩
  obtain ⟨t, hrun, hstop, hreversed⟩ :=
    reversal_finishes rfl rfl (by decide) 2 true hscan
  have htouches := h _ 2 _ true _ rfl rfl (by decide) t hrun hstop
  have hsole := (hreversed.touches_iff.mp htouches).sole
  exact absurd hsole (by decide)

end Engine

end Iso8583Switch
