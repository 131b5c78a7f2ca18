import Iso8583Switch.Flow.Iteration
import Iso8583Switch.Hsm.HsmClient
import Iso8583Switch.Library.WrappingCounter

/-!
# Correlation numbers

A header of the HSM is a `u32` counter modulo 10000, and an egress STAN is a `u64` counter
modulo a million.  Neither divides the number of values of its counter.  So as many calls in
a row as there are numbers get different ones exactly where the counter does not wrap between
them.

In a run of the client the headers are those of calls in a row, however the calls overlap
(`HsmClient.counts`), and so are the egress STANs in a run of the engine (`Engine.counts`).
-/

namespace Iso8583Switch

open Text Transition WrappingCounter

/-! ## Numbers -/

/-- The texts are pairwise distinct and have this many characters. -/
def Distinct (width : Nat) (texts : List String) : Prop :=
  texts.Nodup ∧ ∀ text ∈ texts, text.length = width

section Readings

variable {γ : Type} {incr : γ → γ} {read : γ → String} {c : γ} {size width value n : Nat}

/-- The counter is at a value, and what is read off it is the residue of its value. -/
def Numbers (incr : γ → γ) (read : γ → String) (size width : Nat) (c : γ) (value : Nat) : Prop :=
  ∀ i, read (incr^[i] c) = zeroPadded width (residue size (10 ^ width) value i)

theorem Numbers.nodup_iff (h : Numbers incr read size width c value) :
    (readings incr read n c).Nodup ↔
      Set.InjOn (residue size (10 ^ width) value) (Set.Iio n) :=
  nodup_readings_iff fun i _ j _ => by rw [h i, h j, zeroPadded_inj]

theorem Numbers.length_eq (h : Numbers incr read size width c value) (hwidth : 0 < width)
    {text : String} (htext : text ∈ readings incr read n c) : text.length = width := by
  rw [readings_eq, List.mem_map] at htext
  obtain ⟨i, -, rfl⟩ := htext
  rw [h i]
  exact length_zeroPadded hwidth (Nat.mod_lt _ (Nat.pow_pos (by omega)))

theorem Numbers.distinct_of_le (h : Numbers incr read size width c value) (hwidth : 0 < width)
    (hn : n ≤ 10 ^ width) (hle : value + n ≤ size) : Distinct width (readings incr read n c) :=
  ⟨h.nodup_iff.mpr (injOn_residue_of_le hn hle), fun _ htext => h.length_eq hwidth htext⟩

theorem Numbers.distinct_iff (h : Numbers incr read size width c value) (hwidth : 0 < width)
    (hvalue : value < size) (hsize : ¬ 10 ^ width ∣ size) :
    Distinct width (readings incr read (10 ^ width) c) ↔ value + 10 ^ width ≤ size := by
  have hinj := (h.nodup_iff (n := 10 ^ width)).trans (injOn_residue_iff hvalue)
  rw [or_iff_right hsize] at hinj
  exact ⟨fun hdistinct => hinj.mp hdistinct.1,
    fun hle => h.distinct_of_le hwidth (Nat.le_refl _) hle⟩

end Readings

/-! ## The headers of the HSM client -/

namespace HsmClient

/-- The headers of `n` calls of `next_header` in a row. -/
def nextHeaders (n : Nat) (counter : UInt32) : List String := readings (· + 1) nextHeader n counter

theorem toNat_iterate (i : Nat) (counter : UInt32) :
    ((· + 1)^[i] counter).toNat = (counter.toNat + i) % 2 ^ 32 := by
  induction i with
  | zero => exact (Nat.mod_eq_of_lt counter.toNat_lt).symm
  | succ i ih =>
      rw [Function.iterate_succ_apply', UInt32.toNat_add, ih, Nat.mod_add_mod]
      rfl

theorem numbers_nextHeader (counter : UInt32) :
    Numbers (· + 1) nextHeader (2 ^ 32) 4 counter counter.toNat := by
  intro i
  rw [nextHeader, toNat_iterate]
  rfl

theorem nextHeaders_distinct_iff (counter : UInt32) :
    Distinct 4 (nextHeaders 10000 counter) ↔ counter.toNat + 10000 ≤ 2 ^ 32 :=
  (numbers_nextHeader counter).distinct_iff (by decide) counter.toNat_lt (by decide)

/-- The header that an action takes, if it takes one. -/
def headers (s : HsmClient) : HsmAction → List String
  | .begin _ _ => [nextHeader s.counter]
  | _ => []

/-- A call begins with the next header, and nothing else moves the counter. -/
theorem counts : Counts step headers counter (· + 1) nextHeader := by
  intro s a t h
  cases a with
  | begin c request =>
      simp only [step] at h
      split at h <;> cases h
      exact .inr ⟨rfl, rfl⟩
  | dispatch c =>
      refine .inl ⟨rfl, ?_⟩
      simp only [step] at h
      split at h <;> cases h
      rw [dispatch]
      split
      · split <;> rfl
      · rfl
  | write ok =>
      refine .inl ⟨rfl, ?_⟩
      simp only [step] at h
      split at h
      · cases ok <;> cases h <;> rfl
      · cases h
  | answer n command payload =>
      obtain ⟨e, -, rfl⟩ := Option.map_eq_some_iff.mp h
      exact .inl ⟨rfl, rfl⟩
  | read =>
      refine .inl ⟨rfl, ?_⟩
      simp only [step] at h
      split at h <;> cases h
      rw [read]
      split <;> rfl
  | lose c =>
      refine .inl ⟨rfl, ?_⟩
      simp only [step] at h
      split at h
      next request header _ _ =>
        split at h <;> cases h
        cases request <;> rfl
      next => cases h
  | insert | readError | send | receive | timeout | remove =>
      simp only [step] at h
      split at h <;> cases h
      exact .inl ⟨rfl, rfl⟩

/-- The headers of a run are distinct if they are at most 10000 and the counter does not
wrap. -/
theorem headers_distinct {s t : HsmClient} {as : List HsmAction} {taken : List String}
    (hrun : exec (noting step headers) (s, []) as = some (t, taken)) (hmany : taken.length ≤ 10000)
    (hwrap : s.counter.toNat + taken.length ≤ 2 ^ 32) : Distinct 4 taken := by
  rw [counts.noted hrun]
  exact (numbers_nextHeader s.counter).distinct_of_le (by decide) hmany hwrap

end HsmClient

/-! ## The egress STANs -/

/-- The STAN that is formatted from the result of a `fetch_add`. -/
def egressStan (counter : UInt64) : String := zeroPadded 6 (counter.toNat % 1000000)

/-- The STANs of `n` calls of `fetch_add` in a row. -/
def egressStans (n : Nat) (counter : UInt64) : List String := readings (· + 1) egressStan n counter

theorem GlobalState.nextEgressStan_eq (g : GlobalState) :
    g.nextEgressStan = egressStan g.stanCounter := rfl

theorem toNat_iterate_fetchAdd (i : Nat) (counter : UInt64) :
    ((· + 1)^[i] counter).toNat = (counter.toNat + i) % 2 ^ 64 := by
  induction i with
  | zero => exact (Nat.mod_eq_of_lt counter.toNat_lt).symm
  | succ i ih =>
      rw [Function.iterate_succ_apply', UInt64.toNat_add, ih, Nat.mod_add_mod]
      rfl

theorem numbers_egressStan (counter : UInt64) :
    Numbers (· + 1) egressStan (2 ^ 64) 6 counter counter.toNat := by
  intro i
  rw [egressStan, toNat_iterate_fetchAdd]
  rfl

theorem egressStans_distinct_iff (counter : UInt64) :
    Distinct 6 (egressStans 1000000 counter) ↔ counter.toNat + 1000000 ≤ 2 ^ 64 :=
  (numbers_egressStan counter).distinct_iff (by decide) counter.toNat_lt (by decide)

namespace Engine

/-- The egress STAN that an action takes, if it takes one. -/
def stans (s : Engine) : Action → List String
  | .ingress w .run =>
      match s.ingress w with
      | .carrying _ _ _ (.routed _ _) => [s.mem.nextEgressStan]
      | _ => []
  | _ => []

theorem stans_eq_nil {s : Engine} {w : Nat} (input : Input)
    (hpc : ∀ i key ctx destination channel,
      s.ingress w ≠ .carrying i key ctx (.routed destination channel)) :
    s.stans (.ingress w input) = [] := by
  cases input with
  | run =>
      rw [stans]
      split
      next hrouted => exact absurd hrouted (hpc _ _ _ _ _)
      next => rfl
  | receive | visit | skip | outcome | verifiedMac | verifiedPin | translatedPin => rfl

/-- A worker with a route takes the next STAN, and nothing else moves the counter. -/
theorem counts : Counts step stans (fun s => s.mem.stanCounter) (· + 1) egressStan := by
  intro s a t h
  dsimp only
  cases a with
  | ingress w input =>
      by_cases hpc : ∃ i key ctx destination channel,
          s.ingress w = .carrying i key ctx (.routed destination channel)
      · obtain ⟨i, key, ctx, destination, channel, hpc⟩ := hpc
        obtain ⟨rfl, rfl⟩ := ingressStep_routed hpc h
        refine .inr ⟨?_, rfl⟩
        rw [stans, hpc]
        exact congrArg (fun stan => [stan]) s.mem.nextEgressStan_eq
      · have hother (i : Serial) (key : String) (ctx : TransactionContext)
            (destination : RouteDestination) (channel : ChannelId) :
            s.ingress w ≠ .carrying i key ctx (.routed destination channel) :=
          fun hrouted => hpc ⟨i, key, ctx, destination, channel, hrouted⟩
        exact .inl ⟨stans_eq_nil input hother, by rw [ingressStep_mem hother h]⟩
  | hsm i input => exact .inl ⟨rfl, by rw [hsmStep_mem h]⟩
  | reaper input => obtain ⟨nat, hmem⟩ := reaperStep_mem h; exact .inl ⟨rfl, by rw [hmem]⟩
  | reply w input => obtain ⟨nat, hmem⟩ := replyStep_mem h; exact .inl ⟨rfl, by rw [hmem]⟩
  | probe node secs ok =>
      obtain ⟨channel, -, rfl⟩ := Option.map_eq_some_iff.mp h
      refine .inl ⟨rfl, ?_⟩
      unfold probe
      dsimp only
      split <;> rfl
  | bank | tick | storeStip | storeCrdb | storeRouter | pollSanctions =>
      cases h
      exact .inl ⟨rfl, rfl⟩

/-- The egress STANs of a run are distinct if they are at most a million and the counter does
not wrap. -/
theorem stans_distinct {s t : Engine} {as : List Action} {taken : List String}
    (hrun : exec (noting step stans) (s, []) as = some (t, taken))
    (hmany : taken.length ≤ 1000000)
    (hwrap : s.mem.stanCounter.toNat + taken.length ≤ 2 ^ 64) : Distinct 6 taken := by
  rw [counts.noted hrun]
  exact (numbers_egressStan s.mem.stanCounter).distinct_of_le (by decide) hmany hwrap

end Engine

/-! ## Both -/

/-- As many numbers in a row as there are get by without a repetition exactly where their
counter does not wrap between them. -/
theorem correlation_numbers_distinct_iff (counter : UInt32) (stanCounter : UInt64) :
    (Distinct 4 (HsmClient.nextHeaders 10000 counter) ↔ counter.toNat + 10000 ≤ 2 ^ 32) ∧
      (Distinct 6 (egressStans 1000000 stanCounter) ↔ stanCounter.toNat + 1000000 ≤ 2 ^ 64) :=
  ⟨HsmClient.nextHeaders_distinct_iff counter, egressStans_distinct_iff stanCounter⟩

/-- The last value of the counter of the headers is followed by zero. -/
theorem header_comes_again :
    ¬ ((∀ counter : UInt32, Distinct 4 (HsmClient.nextHeaders 10000 counter)) ∧
      ∀ counter : UInt64, Distinct 6 (egressStans 1000000 counter)) := by
  rintro ⟨hheaders, -⟩
  have hwrap := (HsmClient.nextHeaders_distinct_iff 4294967295).mp (hheaders 4294967295)
  exact absurd hwrap (by decide)

end Iso8583Switch
