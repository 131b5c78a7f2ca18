import Iso8583Switch.Flow.Paths
import Iso8583Switch.Flow.Runs

/-!
# Sanctioned BINs

The compliance guard looks up the first six bytes of the PAN as it was received, before
the detokenizer puts another PAN in its place.  So a listed value of another length is
not looked up, and neither is a token's PAN.  `Vetted` is the discipline under which
this does no harm, and `Clean` says that under it every PAN behind the tests, inserted
or forwarded, begins with no listed value.

The cache of a transaction is the one that its compliance test read.  The two functions
stand for `str::to_lowercase` and `str::to_uppercase`, and nothing depends on them.
-/

namespace Iso8583Switch

open Text Function

/-! ## Listed values -/

section List

variable (toLowercase toUppercase : String → String)

/-- The row of the sanctions list is a `bin` row, and the poller has cached it. -/
structure ComplianceGuard.CachesBin (guard : ComplianceGuard) (listType listValue : String) :
    Prop where
  isBin : toLowercase listType = "bin"
  cached : (guard.cache.get (toLowercase listType ++ ":" ++ toUppercase listValue)).isSome = true

/-- The PAN begins with no listed value. -/
def ComplianceGuard.Clears (guard : ComplianceGuard) (fpan : Bytes) : Prop :=
  ∀ listType listValue, guard.CachesBin toLowercase toUppercase listType listValue →
    ¬ asBytes listValue <+: fpan

end List

/-- The first six bytes of the PAN are a key of the cache. -/
def ComplianceGuard.Catches (guard : ComplianceGuard) (fpan : Bytes) : Prop :=
  ∃ bin, len bin = 6 ∧ asBytes bin <+: fpan ∧ (guard.cache.get ("bin:" ++ bin)).isSome = true

theorem ComplianceGuard.Catches.evaluate {guard : ComplianceGuard} {tx : UniversalPaymentEvent}
    (h : guard.Catches tx.fpan) : guard.evaluate tx = some true := by
  obtain ⟨bin, hlen, ⟨rest, hfpan⟩, hcached⟩ := h
  have hslice := slice_append "" bin (fromUtf8Lossy rest)
  have hzero : len "" = 0 := rfl
  rw [hzero, Nat.zero_add, hlen, String.empty_append] at hslice
  have hpan : fromUtf8Lossy tx.fpan = bin ++ fromUtf8Lossy rest := by
    rw [← hfpan, fromUtf8Lossy_asBytes_append]
  have hsix : 6 ≤ len (bin ++ fromUtf8Lossy rest) := by
    rw [← length_asBytes, asBytes_append, List.length_append, length_asBytes, hlen]
    exact Nat.le_add_right 6 _
  rw [ComplianceGuard.evaluate, hpan, if_pos hsix, hslice, Option.map_some, hcached]

/-! ## The way to the risk screen -/

section Front

variable {s : Engine} {input : Input} {pc : IngressPc} {ctx : TransactionContext} {l : List Event}

theorem IngressPath.to_cleared (h : IngressPath s input pc (.cleared ctx) l) :
    input = .run ∧ pc = .received ctx ∧ s.compliance.evaluate ctx.transaction = some false := by
  cases h with
  | clear heval => exact ⟨rfl, rfl, heval⟩
  | carry h => cases h

theorem IngressPath.to_screened (h : IngressPath s input pc (.screened ctx) l) :
    pc = .detokenized ctx := by
  cases h with
  | screen => rfl
  | carry h => cases h

/-- The detokenizer leaves a PAN that came in the clear, and looks a token up. -/
theorem IngressPath.to_detokenized (h : IngressPath s input pc (.detokenized ctx) l) :
    (pc = .cleared ctx ∧ ctx.transaction.isTokenized = false) ∨
      ∃ ctx₀ realFpan, input = .run ∧ pc = .cleared ctx₀ ∧ ctx₀.transaction.isTokenized = true ∧
        s.mem.tspVault.detokenize (fromUtf8Lossy ctx₀.transaction.fpan) = some realFpan ∧
        ctx.transaction.fpan = asBytes realFpan := by
  cases h with
  | plain hplain => exact .inl ⟨rfl, hplain⟩
  | detokenize htoken hreal => exact .inr ⟨_, _, rfl, rfl, htoken, hreal, rfl⟩
  | carry h => cases h

end Front

namespace Engine

/-! ## The caches that the tests read -/

/-- The cache that the last test of a worker read, and the one that the test of an
instance read. -/
structure Screenings where
  reading : Nat → ComplianceGuard
  screened : Serial → ComplianceGuard

def Screenings.none : Screenings := ⟨fun _ => ⟨∅⟩, fun _ => ⟨∅⟩⟩

def Screenings.track (s : Engine) (a : Action) (g : Screenings) : Screenings :=
  match a with
  | .ingress w .run =>
      match s.ingress w with
      | .received _ => { g with reading := update g.reading w s.compliance }
      | .screened _ => { g with screened := update g.screened s.trace.length (g.reading w) }
      | _ => g
  | _ => g

section Discipline

variable (toLowercase toUppercase : String → String)

/-- A PAN that comes in the clear begins with no listed value, or its first six bytes
are a key of the cache.  The PAN of a token begins with no listed value. -/
def Vetted (p : Engine × Screenings) (a : Action) : Prop :=
  ∀ w ctx, a = .ingress w .run →
    (p.1.ingress w = .received ctx → ctx.transaction.isTokenized = false →
      p.1.compliance.Clears toLowercase toUppercase ctx.transaction.fpan ∨
        p.1.compliance.Catches ctx.transaction.fpan) ∧
    (p.1.ingress w = .cleared ctx → ctx.transaction.isTokenized = true →
      ∀ realFpan, p.1.mem.tspVault.detokenize (fromUtf8Lossy ctx.transaction.fpan) = some realFpan →
        (p.2.reading w).Clears toLowercase toUppercase (asBytes realFpan))

/-- The PANs behind the compliance test are clean, by the cache that the test read. -/
structure Clean (p : Engine × Screenings) : Prop where
  cleared : ∀ w ctx, p.1.ingress w = .cleared ctx → ctx.transaction.isTokenized = false →
    (p.2.reading w).Clears toLowercase toUppercase ctx.transaction.fpan
  detokenized : ∀ w ctx, p.1.ingress w = .detokenized ctx →
    (p.2.reading w).Clears toLowercase toUppercase ctx.transaction.fpan
  screened : ∀ w ctx, p.1.ingress w = .screened ctx →
    (p.2.reading w).Clears toLowercase toUppercase ctx.transaction.fpan
  inserted : ∀ i key tx r, p.1.flow.Inserted i key tx r →
    (p.2.screened i).Clears toLowercase toUppercase tx.fpan

end Discipline

section Keep

variable {toLowercase toUppercase : String → String} {p q : Engine × Screenings} {a : Action}

/-- A test reads the cache of its own worker. -/
theorem track_reading {s : Engine} {g : Screenings} {w : Nat}
    (h : ∀ ctx, a = .ingress w .run → s.ingress w ≠ .received ctx) :
    (Screenings.track s a g).reading w = g.reading w := by
  unfold Screenings.track
  split
  next w' =>
    split
    next ctx hat =>
      by_cases hw : w = w'
      · subst hw
        exact absurd hat (h ctx rfl)
      · exact update_of_ne hw _ _
    next => rfl
    next => rfl
  next => rfl

theorem track_screened {s : Engine} {g : Screenings} {i : Serial} (h : i ≠ s.trace.length) :
    (Screenings.track s a g).screened i = g.screened i := by
  unfold Screenings.track
  split
  · split
    · rfl
    · exact update_of_ne h _ _
    · rfl
  · rfl

namespace Clean

variable (hv : Clean toLowercase toUppercase p) (hvetted : Vetted toLowercase toUppercase p a)
  (hstep : p.1.step a = some q.1) (htrack : q.2 = Screenings.track p.1 a p.2)
include hv hvetted hstep htrack

omit hv hvetted in
/-- A stage of a worker comes from its own step, or it was there before. -/
theorem keep_reading {w : Nat} {pc : IngressPc} {fpan : Bytes} (hpc : q.1.ingress w = pc)
    (hown : ∀ input l, a = .ingress w input → IngressPath p.1 input (p.1.ingress w) pc l →
      (q.2.reading w).Clears toLowercase toUppercase fpan)
    (hold : p.1.ingress w = pc → (p.2.reading w).Clears toLowercase toUppercase fpan) :
    (q.2.reading w).Clears toLowercase toUppercase fpan := by
  by_cases hself : ∃ input, a = .ingress w input
  · obtain ⟨input, rfl⟩ := hself
    obtain ⟨pc', l, hpath, htook⟩ := ingressStep_path hstep
    rw [htook.ingress, update_self] at hpc
    subst hpc
    exact hown input l rfl hpath
  · have hother : ∀ input, a ≠ .ingress w input := fun input ha => hself ⟨input, ha⟩
    rw [step_ingress hstep hother] at hpc
    rw [htrack, track_reading fun ctx' ha => absurd ha (hother _)]
    exact hold hpc

theorem keep_cleared {w : Nat} {ctx : TransactionContext} (hpc : q.1.ingress w = .cleared ctx)
    (hplain : ctx.transaction.isTokenized = false) :
    (q.2.reading w).Clears toLowercase toUppercase ctx.transaction.fpan := by
  refine keep_reading hstep htrack hpc (fun input l ha hpath => ?_) fun hat =>
    hv.cleared w ctx hat hplain
  subst ha
  obtain ⟨rfl, hat, heval⟩ := hpath.to_cleared
  have hreading : q.2.reading w = p.1.compliance := by
    rw [htrack, Screenings.track, hat]
    exact update_self _ _ _
  rw [hreading]
  rcases (hvetted w ctx rfl).1 hat hplain with hclears | hcatches
  · exact hclears
  · rw [hcatches.evaluate] at heval
    cases heval

theorem keep_detokenized {w : Nat} {ctx : TransactionContext}
    (hpc : q.1.ingress w = .detokenized ctx) :
    (q.2.reading w).Clears toLowercase toUppercase ctx.transaction.fpan := by
  refine keep_reading hstep htrack hpc (fun input l ha hpath => ?_) (hv.detokenized w ctx)
  subst ha
  rcases hpath.to_detokenized with
    ⟨hat, hplain⟩ | ⟨ctx₀, realFpan, rfl, hat, htoken, hreal, hfpan⟩
  · rw [htrack, track_reading fun ctx' _ => by rw [hat]; exact IngressPc.noConfusion]
    exact hv.cleared w ctx hat hplain
  · rw [htrack, track_reading fun ctx' _ => by rw [hat]; exact IngressPc.noConfusion, hfpan]
    exact (hvetted w ctx₀ rfl).2 hat htoken realFpan hreal

omit hvetted in
theorem keep_screened {w : Nat} {ctx : TransactionContext} (hpc : q.1.ingress w = .screened ctx) :
    (q.2.reading w).Clears toLowercase toUppercase ctx.transaction.fpan := by
  refine keep_reading hstep htrack hpc (fun input l ha hpath => ?_) (hv.screened w ctx)
  subst ha
  have hat := hpath.to_screened
  rw [htrack, track_reading fun ctx' _ => by rw [hat]; exact IngressPc.noConfusion]
  exact hv.detokenized w ctx hat

omit hvetted in
theorem keep_inserted (hown : p.1.Disowned) {i : Serial} {key : String}
    {tx : UniversalPaymentEvent} {r : Option Responder} (hi : q.1.flow.Inserted i key tx r) :
    (q.2.screened i).Clears toLowercase toUppercase tx.fpan := by
  have hold (hi : p.1.flow.Inserted i key tx r) :
      (q.2.screened i).Clears toLowercase toUppercase tx.fpan := by
    rw [htrack, track_screened (Nat.ne_of_lt hi.lt)]
    exact hv.inserted i key tx r hi
  rcases step_flow hown hstep with heq | hmove
  · rw [heq] at hi
    exact hold hi
  · rcases hmove.inserted_cases hi with hi | ⟨hserial, hins⟩
    · exact hold hi
    · obtain ⟨w, ctx, rfl, hat, rfl⟩ :=
        step_inserts hstep hins.trace (List.mem_singleton.mpr rfl)
      have hscreened : q.2.screened i = p.2.reading w := by
        rw [htrack, Screenings.track, hserial, hat]
        exact update_self _ _ _
      rw [hscreened]
      exact hv.screened w ctx hat

theorem keep (hown : p.1.Disowned) : Clean toLowercase toUppercase q where
  cleared _ _ := hv.keep_cleared hvetted hstep htrack
  detokenized _ _ := hv.keep_detokenized hvetted hstep htrack
  screened _ _ := hv.keep_screened hstep htrack
  inserted _ _ _ _ := hv.keep_inserted hstep htrack hown

end Clean

theorem Initial.clean {s : Engine} (h : s.Initial) :
    Clean toLowercase toUppercase (s, Screenings.none) := by
  constructor
  · intro w ctx hpc
    rw [h.ingress] at hpc
    cases hpc
  · intro w ctx hpc
    rw [h.ingress] at hpc
    cases hpc
  · intro w ctx hpc
    rw [h.ingress] at hpc
    cases hpc
  · intro i key tx r hi
    have hlt := hi.lt
    rw [flow_trace, h.trace] at hlt
    exact absurd hlt (Nat.not_lt_zero i)

end Keep

/-- The runs with the caches that their compliance tests read. -/
abbrev Screened (P : Engine × Screenings → Action → Prop) : Engine × Screenings → Prop :=
  Transition.Tracked Initial Screenings.none step Screenings.track P

theorem Screened.reachable {P : Engine × Screenings → Action → Prop} {p : Engine × Screenings}
    (hp : Screened P p) : Reachable Transition.Free p.1 :=
  Transition.Tracked.state (fun _ _ _ => trivial) hp

variable {toLowercase toUppercase : String → String}

theorem Screened.clean {p : Engine × Screenings}
    (hp : Screened (Vetted toLowercase toUppercase) p) :
    Clean toLowercase toUppercase p := by
  refine hp.invariant (fun q hq => ?_) fun q q' hq hv hkeep => ?_
  · obtain ⟨s, g⟩ := q
    obtain ⟨hinit, rfl⟩ := hq
    exact hinit.clean
  · obtain ⟨a, hvetted, hstep⟩ := hkeep
    obtain ⟨hstep, htrack⟩ := Transition.tracking_eq_some hstep
    exact hv.keep hvetted hstep htrack (Screened.reachable hq).disowned

/-- A request on an egress channel carries a PAN that begins with no listed value. -/
theorem sanctioned_never_forwarded {p : Engine × Screenings}
    (hp : Screened (Vetted toLowercase toUppercase) p) {frame : Frame} {i : Serial}
    (hplaced : .placed frame ∈ p.1.trace) (hreq : frame.origin.request = some i) :
    (p.2.screened i).Clears toLowercase toUppercase frame.transaction.fpan := by
  have hheld := Flow.Reachable.held (Screened.reachable hp).flow_free
  obtain ⟨key, tx, r, hi, hrequests⟩ := hheld.placed_inserted hplaced hreq
  have hclears := (Screened.clean hp).inserted i key tx r hi
  -- Neither the egress STAN nor the translated PIN block touches the PAN.
  cases hrequests with
  | ingress e _ htx => rw [htx]; exact hclears
  | hsm pin _ htx => rw [htx]; exact hclears

/-! ## One listed BIN -/

/-- One BIN of Visa is listed. -/
def visaListed : DashMap String String := DashMap.put ∅ "bin:411122" "block"

/-- The PAN of the purchase. -/
def purchasePan : String := "4111111111111111"

/-- A prefix of a PAN is in upper case. -/
theorem toUpper_of_isPrefix {listValue pan : String} (hpan : ∀ c ∈ pan.toList, c.toUpper = c)
    (h : asBytes listValue <+: asBytes pan) : listValue.toUpper = listValue := by
  obtain ⟨rest, hrest⟩ := h
  have hsplit : pan = listValue ++ fromUtf8Lossy rest := by
    rw [← fromUtf8Lossy_asBytes_append, hrest, fromUtf8Lossy_asBytes]
  have hchars : listValue.toList.map Char.toUpper = listValue.toList := by
    refine List.map_congr_left (g := id) (fun c hc => hpan c ?_) |>.trans (List.map_id _)
    rw [hsplit, String.toList_append]
    exact List.mem_append_left _ hc
  exact String.toList_inj.mp (String.toList_map.trans hchars)

theorem purchasePan_toUpper (c : Char) (hc : c ∈ purchasePan.toList) : c.toUpper = c := by
  have hchars : purchasePan.toList = '4' :: List.replicate 15 '1' := by decide
  rw [hchars, List.mem_cons, List.mem_replicate] at hc
  rcases hc with rfl | ⟨_, rfl⟩ <;> rfl

/-- Where one BIN is listed, a PAN is clean that does not begin with it. -/
theorem clears_visaListed : ComplianceGuard.Clears String.toLower String.toUpper ⟨visaListed⟩
    (asBytes purchasePan) := by
  intro listType listValue ⟨hbin, hcached⟩ hbegins
  have hupper : listValue.toUpper = listValue := toUpper_of_isPrefix purchasePan_toUpper hbegins
  rw [hbin, hupper, visaListed, DashMap.get_put] at hcached
  have hkey : "bin" ++ ":" ++ listValue = "bin:411122" := by
    by_contra hne
    rw [if_neg hne] at hcached
    cases hcached
  obtain rfl : listValue = "411122" := by
    have hchars : ("bin:" ++ listValue).toList = ("bin:" ++ "411122").toList := congrArg _ hkey
    rw [String.toList_append, String.toList_append] at hchars
    exact String.toList_inj.mp (List.append_cancel_left hchars)
  revert hbegins
  decide

/-- Only the purchase is tested, against the one listed BIN, and nothing is a token. -/
def onlyPurchase (p : Engine × Screenings) : Action → Bool
  | .ingress w .run =>
      match p.1.ingress w with
      | .received ctx =>
          p.1.compliance.cache.entries = visaListed.entries &&
            ctx.transaction.fpan = asBytes purchasePan
      | .cleared ctx => !ctx.transaction.isTokenized
      | _ => true
  | _ => true

theorem vetted_of_onlyPurchase (p : Engine × Screenings) (a : Action)
    (h : onlyPurchase p a = true) : Vetted String.toLower String.toUpper p a := by
  rintro w ctx rfl
  constructor
  · intro hat _
    simp only [onlyPurchase, hat, Bool.and_eq_true, decide_eq_true_eq] at h
    obtain ⟨hcache, hfpan⟩ := h
    have hguard : p.1.compliance = ⟨visaListed⟩ := congrArg ComplianceGuard.mk (AList.ext hcache)
    rw [hguard, hfpan]
    exact .inl clears_visaListed
  · intro hat htoken
    simp [onlyPurchase, hat, htoken] at h

/-- A request from the terminal to the bank while one BIN is listed. -/
def screening (tx : UniversalPaymentEvent) : Engine × Screenings :=
  Transition.tracked step Screenings.track (start 100 ∅) Screenings.none
    (.storeRouter visaRouter :: .pollSanctions visaListed :: (accept 0 tx ++ forward 0 true))

set_option maxRecDepth 8000 in
theorem sanctioned_never_forwarded_purchase :
    ((screening (purchase "000100" "RRN000000001")).2.screened 1).Clears String.toLower
      String.toUpper (asBytes purchasePan) := by
  have hplaced : .placed (purchaseFrame 1 "000000") ∈
      (screening (purchase "000100" "RRN000000001")).1.trace := by decide
  exact sanctioned_never_forwarded
    (Transition.Tracked.of_complies vetted_of_onlyPurchase (start_initial 100 ∅) (by decide))
    hplaced rfl

/-- A purchase with the token that a new vault knows. -/
def tokenPurchase : UniversalPaymentEvent :=
  { purchase "000100" "RRN000000001" with fpan := asBytes "4000000000009999", isTokenized := true }

/-- The frame that the bank gets of it. -/
def tokenFrame : Frame :=
  ⟨.ingress 1, .externalNode "MockVisaNode", 0,
    { tokenPurchase with
      stan := "000000"
      fpan := asBytes "4111222233334444"
      dpan := some "4000000000009999" }⟩

set_option maxRecDepth 8000 in
/-- The PAN behind the token has a listed BIN. -/
theorem sanctioned_token_forwarded :
    ¬ ∀ p, Screened (fun _ _ => True) p → ∀ (frame : Frame) (i : Serial),
      .placed frame ∈ p.1.trace → frame.origin.request = some i →
        (p.2.screened i).Clears String.toLower String.toUpper frame.transaction.fpan := by
  intro h
  have hrun : Screened (fun _ _ => True) (screening tokenPurchase) :=
    Transition.Tracked.of_complies (P := fun _ _ => True) (fun _ _ => id) (start_initial 100 ∅)
      (by decide)
  have hclears := h _ hrun tokenFrame 1 (by decide) rfl
  have hlower : "bin".toLower = "bin" := String.toList_inj.mp (String.toList_map.trans (by decide))
  have hupper : "411122".toUpper = "411122" :=
    String.toList_inj.mp (String.toList_map.trans (by decide))
  refine hclears "bin" "411122" ⟨hlower, ?_⟩ (by decide)
  rw [hlower, hupper]
  decide

end Engine

end Iso8583Switch
