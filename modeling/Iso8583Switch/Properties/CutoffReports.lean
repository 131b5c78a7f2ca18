import Iso8583Switch.Journal.Cutoff
import Iso8583Switch.Properties.IncrementalSweep
import Iso8583Switch.Properties.Settlement
import Mathlib.Algebra.Order.BigOperators.Group.List

/-!
# What the cutoffs report

Between two cutoffs the database holds the tallies of what was swept since the first, and
a cutoff reports them and leaves the cursor.  So what was reported and what is stored add
up to what was swept, and that is so for each acquirer on its own.

All of this rests on the keys.  An id that ends in `_count` is taken for the count of
another acquirer, and one that is the key of the cursor is overwritten by it.  The
results are about journals in which no record that counts has such an id (`PlainId`).
-/

namespace Iso8583Switch

open Text PrefixedLog

/-- What an acquirer gets for what is counted of it. -/
def settledAmount (codec : RecordCodec) (records : List Bytes) (acquirerId : String) : Nat :=
  ((countedFor codec records acquirerId).map (·.amount.toNatClampNeg)).sum

theorem settledAmount_append (codec : RecordCodec) (records more : List Bytes)
    (acquirerId : String) : settledAmount codec (records ++ more) acquirerId =
      settledAmount codec records acquirerId + settledAmount codec more acquirerId := by
  rw [settledAmount, countedFor_append, List.map_append, List.sum_append]
  rfl

/-! ## Tallies -/

namespace TallyDb

variable {codec : RecordCodec} {records : List Bytes} {db db' : TallyDb} {acquirerId : String}

/-- The keys that a sweep writes. -/
theorem isSome_foldl (codec : RecordCodec) (records : List Bytes) (db : TallyDb) (key : String) :
    (DashMap.get (records.foldl (tallySlice codec) db) key).isSome = true ↔
      (DashMap.get db key).isSome = true ∨ ∃ tx ∈ counted codec records,
        key = tx.acquirerId ∨ key = countKey tx.acquirerId := by
  induction records generalizing db with
  | nil => simp [counted]
  | cons record records ih =>
      rw [List.foldl_cons, ih]
      rcases counted_cons codec record records with ⟨tx, hslice, hcons⟩ | ⟨hslice, hcons⟩
      · rw [hslice, hcons, add, DashMap.get_put, DashMap.get_put]
        simp only [List.mem_cons, exists_eq_or_imp]
        by_cases hcount : key = countKey tx.acquirerId
        · simp [hcount]
        · by_cases htotal : key = tx.acquirerId
          · rw [if_neg hcount, if_pos htotal]
            simp [htotal]
          · simp [hcount, htotal]
      · rw [hslice, hcons]

theorem toNat_sum {l : List UInt64} (h : (l.map UInt64.toNat).sum < 2 ^ 64) :
    l.sum.toNat = (l.map UInt64.toNat).sum := by
  induction l with
  | nil => rfl
  | cons n l ih =>
      rw [List.map_cons, List.sum_cons] at h ⊢
      rw [List.sum_cons, UInt64.toNat_add, ih (by omega), Nat.mod_eq_of_lt h]

/-- A sweep adds up what counts, if the sum is a `u64`. -/
theorem total_foldl (hplains : ∀ tx ∈ counted codec records, PlainId tx.acquirerId)
    (hplain : PlainId acquirerId) (hamounts : ∀ tx ∈ counted codec records, 0 ≤ tx.amount)
    (hsum : (db.total acquirerId).toNat + settledAmount codec records acquirerId < 2 ^ 64) :
    (total (records.foldl (tallySlice codec) db) acquirerId).toNat =
      (db.total acquirerId).toNat + settledAmount codec records acquirerId := by
  have hamount : ((countedFor codec records acquirerId).map fun tx => tx.amount.toUInt64).map
      UInt64.toNat = (countedFor codec records acquirerId).map (·.amount.toNatClampNeg) := by
    rw [List.map_map]
    exact List.map_congr_left fun tx htx =>
      Int64.toNat_toUInt64_of_le (hamounts tx (List.mem_of_mem_filter htx))
  have hsettled : ((countedFor codec records acquirerId).map
      fun tx : Transaction => tx.amount.toUInt64).sum.toNat =
        settledAmount codec records acquirerId := by
    rw [settledAmount, ← hamount]
    refine toNat_sum ?_
    rw [hamount]
    exact Nat.lt_of_le_of_lt (Nat.le_add_left _ _) hsum
  rw [(foldl_tallySlice hplains hplain db).1, UInt64.toNat_add, hsettled, Nat.mod_eq_of_lt hsum]

theorem count_foldl (hplains : ∀ tx ∈ counted codec records, PlainId tx.acquirerId)
    (hplain : PlainId acquirerId)
    (hlength :
      (db.count acquirerId).toNat + (countedFor codec records acquirerId).length < 2 ^ 64) :
    (count (records.foldl (tallySlice codec) db) acquirerId).toNat =
      (db.count acquirerId).toNat + (countedFor codec records acquirerId).length := by
  rw [(foldl_tallySlice hplains hplain db).2, UInt64.toNat_add,
    UInt64.toNat_ofNat_of_lt' (by
      have hsize : UInt64.size = 2 ^ 64 := rfl
      omega), Nat.mod_eq_of_lt hlength]

/-! ## One cutoff -/

theorem isSystemKey_eq_false {key : String} : isSystemKey key = false ↔ PlainId key := by
  rw [isSystemKey, Bool.or_eq_false_iff, decide_eq_false_iff_not, ← Bool.not_eq_true,
    List.isSuffixOf_iff_suffix]
  exact ⟨fun h => ⟨h.2, h.1⟩, fun h => ⟨h.2, h.1⟩⟩

theorem map_cutoffRows (db : TallyDb) :
    db.cutoffRows.map (·.acquirerId) = db.keys.filter fun kStr => !isSystemKey kStr := by
  rw [cutoffRows, List.map_map]
  exact List.map_id _

theorem nodup_cutoffRows (db : TallyDb) : (db.cutoffRows.map (·.acquirerId)).Nodup := by
  rw [map_cutoffRows]
  exact db.nodupKeys.filter _

theorem mem_cutoffRows (db : TallyDb) {acquirerId : String} :
    acquirerId ∈ db.cutoffRows.map (·.acquirerId) ↔
      (DashMap.get db acquirerId).isSome = true ∧ PlainId acquirerId := by
  rw [map_cutoffRows, List.mem_filter, DashMap.mem_keys_iff, ← Option.isSome_iff_exists,
    Bool.not_eq_true', isSystemKey_eq_false]

/-- The row of an acquirer. -/
theorem cutoffRows_for (db : TallyDb) (h : PlainId acquirerId) :
    (db.cutoffRows.filter fun row => row.acquirerId = acquirerId) =
      if (DashMap.get db acquirerId).isSome then
        [⟨acquirerId, db.count acquirerId, db.total acquirerId⟩]
      else [] := by
  have hmem : acquirerId ∈ db.cutoffRows.map (·.acquirerId) ↔ _ := db.mem_cutoffRows
  have hone := (nodup_cutoffRows db).count (a := acquirerId)
  rw [map_cutoffRows] at hmem hone
  have hkeys : ((db.keys.filter fun kStr => !isSystemKey kStr).filter fun kStr =>
      decide (kStr = acquirerId)) =
        if (DashMap.get db acquirerId).isSome then [acquirerId] else [] := by
    rw [List.filter_eq, hone]
    by_cases hsome : (DashMap.get db acquirerId).isSome = true
    · rw [if_pos hsome, if_pos (hmem.mpr ⟨hsome, h⟩)]
      rfl
    · rw [if_neg hsome, if_neg fun hin => hsome (hmem.mp hin).1]
      rfl
  rw [cutoffRows, List.filter_map]
  refine (congrArg _ hkeys).trans ?_
  split <;> rfl

theorem mem_keysToReset {db : TallyDb} {key : String} : key ∈ keysToReset db.cutoffRows ↔
    ∃ acquirerId, (DashMap.get db acquirerId).isSome = true ∧ PlainId acquirerId ∧
      (key = acquirerId ∨ key = countKey acquirerId) := by
  simp only [keysToReset, List.mem_flatMap, List.mem_cons, List.not_mem_nil, or_false]
  constructor
  · rintro ⟨row, hrow, hkey⟩
    obtain ⟨hsome, hplain⟩ := db.mem_cutoffRows.mp (List.mem_map_of_mem hrow)
    exact ⟨row.acquirerId, hsome, hplain, hkey⟩
  · rintro ⟨acquirerId, hsome, hplain, hkey⟩
    obtain ⟨row, hrow, rfl⟩ := List.mem_map.mp (db.mem_cutoffRows.mpr ⟨hsome, hplain⟩)
    exact ⟨row, hrow, hkey⟩

/-- A cutoff never changes the cursor. -/
theorem executeCutoff_cursor (db : TallyDb) :
    DashMap.get db.executeCutoff.2 cursorKey = DashMap.get db cursorKey := by
  rw [executeCutoff, DashMap.get_foldl_remove, if_neg]
  intro hmem
  obtain ⟨acquirerId, -, hplain, htotal | hcount⟩ := mem_keysToReset.mp hmem
  · exact hplain.notCursor htotal.symm
  · exact countKey_ne_cursorKey acquirerId hcount.symm

/-- It takes out everything else. -/
theorem executeCutoff_tallies (hplains : ∀ tx ∈ counted codec records, PlainId tx.acquirerId)
    (h : SameTallies db (records.foldl (tallySlice codec) ∅)) :
    SameTallies db.executeCutoff.2 ∅ := by
  intro key hkey
  rw [executeCutoff, DashMap.get_foldl_remove, DashMap.get_empty]
  split
  next => rfl
  next hkept =>
    cases hget : DashMap.get db key with
    | none => rfl
    | some n =>
        refine absurd (mem_keysToReset.mpr ?_) hkept
        have hsome : (DashMap.get (records.foldl (tallySlice codec) ∅) key).isSome = true := by
          rw [← h key hkey, hget]
          rfl
        rcases (isSome_foldl codec records ∅ key).mp hsome with hempty | ⟨tx, htx, hkeys⟩
        · cases hempty
        · refine ⟨tx.acquirerId, ?_, hplains tx htx, hkeys⟩
          rw [h _ (hplains tx htx).notCursor]
          exact (isSome_foldl codec records ∅ _).mpr (.inr ⟨tx, htx, .inl rfl⟩)

end TallyDb

/-! ## Sweeps and cutoffs -/

theorem SameTallies.total {db db' : TallyDb} (h : SameTallies db db') {acquirerId : String}
    (hplain : PlainId acquirerId) : db.total acquirerId = db'.total acquirerId := by
  rw [TallyDb.total, h acquirerId hplain.notCursor]
  rfl

theorem SameTallies.count {db db' : TallyDb} (h : SameTallies db db') (acquirerId : String) :
    db.count acquirerId = db'.count acquirerId := by
  rw [TallyDb.count, h _ (countKey_ne_cursorKey acquirerId)]
  rfl

/-- What some rows say of an acquirer. -/
def rowsSum (value : CutoffRow → UInt64) (rows : List CutoffRow) (acquirerId : String) : Nat :=
  ((rows.filter (·.acquirerId = acquirerId)).map fun row => (value row).toNat).sum

namespace Settlement

/-- What all cutoffs have said of an acquirer. -/
def reported (s : Settlement) (value : CutoffRow → UInt64) (acquirerId : String) : Nat :=
  (s.reports.map fun report => rowsSum value report.2 acquirerId).sum

/-- What was reported and what is stored is what was swept, and every cutoff wrote one
row for each acquirer of which something was counted since the one before. -/
structure Conserved (codec : RecordCodec) (s : Settlement) : Prop where
  totals : ∀ acquirerId,
    (PlainId acquirerId ∨ ∃ tx ∈ counted codec s.records, tx.acquirerId = acquirerId) →
      s.reported CutoffRow.totalSettlementAmount acquirerId + (s.db.total acquirerId).toNat =
        settledAmount codec s.records acquirerId
  counts : ∀ acquirerId,
    (PlainId acquirerId ∨ ∃ tx ∈ counted codec s.records, tx.acquirerId = acquirerId) →
      s.reported CutoffRow.totalCount acquirerId + (s.db.count acquirerId).toNat =
        (countedFor codec s.records acquirerId).length
  rows : ∀ report ∈ s.reports, (report.2.map (·.acquirerId)).Nodup ∧ ∀ acquirerId,
    acquirerId ∈ report.2.map (·.acquirerId) ↔
      ∃ tx ∈ counted codec report.1, tx.acquirerId = acquirerId

/-- What is kept while a file of some length has been swept. -/
structure Kept (codec : RecordCodec) (length : Nat) (s : Settlement) : Prop where
  swept : Swept s.records length (s.recent.foldl (tallySlice codec) ∅) s.db
  recent : ∀ record ∈ s.recent, record ∈ s.records
  totals : ∀ acquirerId, PlainId acquirerId →
    s.reported CutoffRow.totalSettlementAmount acquirerId + (s.db.total acquirerId).toNat =
      settledAmount codec s.records acquirerId
  counts : ∀ acquirerId, PlainId acquirerId →
    s.reported CutoffRow.totalCount acquirerId + (s.db.count acquirerId).toNat =
      (countedFor codec s.records acquirerId).length
  rows : ∀ report ∈ s.reports, (report.2.map (·.acquirerId)).Nodup ∧ ∀ acquirerId,
    acquirerId ∈ report.2.map (·.acquirerId) ↔
      ∃ tx ∈ counted codec report.1, tx.acquirerId = acquirerId

/-- The amounts of what counts are not negative, and each acquirer's sum is a `u64`. -/
structure SumsFit (codec : RecordCodec) (records : List Bytes) : Prop where
  amounts : ∀ tx ∈ counted codec records, 0 ≤ tx.amount
  sums : ∀ acquirerId, settledAmount codec records acquirerId < 2 ^ 64

variable {codec : RecordCodec} {s : Settlement} {length : Nat}

theorem Kept.new (codec : RecordCodec) : Kept codec 0 .new where
  swept := .start rfl
  recent := nofun
  totals _ _ := rfl
  counts _ _ := rfl
  rows := nofun

theorem counted_subset {codec : RecordCodec} {records more : List Bytes}
    (h : ∀ record ∈ records, record ∈ more) :
    ∀ tx ∈ counted codec records, tx ∈ counted codec more := by
  intro tx htx
  obtain ⟨htx, hsettles⟩ := List.mem_filter.mp htx
  obtain ⟨record, hmem, hdecode⟩ := List.mem_filterMap.mp htx
  exact List.mem_filter.mpr ⟨List.mem_filterMap.mpr ⟨record, h record hmem, hdecode⟩, hsettles⟩

/-- A count is at most the length of the file. -/
theorem countedFor_lt {records : List Bytes} {tallies swept : TallyDb}
    (h : Swept records length tallies swept) (hsize : length < 2 ^ 64) (codec : RecordCodec)
    (acquirerId : String) : (countedFor codec records acquirerId).length < 2 ^ 64 := by
  have hcounted := length_countedFor_le codec records acquirerId
  have hframes := length_le_frames records
  have hfits := h.fits
  omega

theorem Kept.sweep (h : Kept codec length s) {appended : List Bytes} {padding : Nat}
    (hstorable : ∀ record ∈ appended, Storable record)
    (hgrows : length ≤ (paddedFile (s.records ++ appended) padding).length)
    (hsize : (paddedFile (s.records ++ appended) padding).length < 2 ^ 64)
    (hplains : ∀ tx ∈ counted codec (s.records ++ appended), PlainId tx.acquirerId)
    (hsums : SumsFit codec (s.records ++ appended)) :
    ∃ s', s.step codec (.sweep appended padding) = some s' ∧
      s'.records = s.records ++ appended ∧
      Kept codec (paddedFile (s.records ++ appended) padding).length s' := by
  have hmore : ∀ tx ∈ counted codec appended, tx ∈ counted codec (s.records ++ appended) :=
    counted_subset fun record hmem => List.mem_append_right _ hmem
  have hplains := fun tx htx => hplains tx (hmore tx htx)
  have hamounts := fun tx htx => hsums.amounts tx (hmore tx htx)
  obtain ⟨db, hsettle, hswept⟩ := h.swept.settle hstorable hgrows hsize
  rw [step, hsettle]
  refine ⟨_, rfl, rfl, ?_, fun record hmem => ?_, fun acquirerId hplain => ?_,
    fun acquirerId hplain => ?_, h.rows⟩
  · rw [List.foldl_append]
    exact hswept
  · rcases List.mem_append.mp hmem with hmem | hmem
    · exact List.mem_append_left _ (h.recent record hmem)
    · exact List.mem_append_right _ hmem
  · have hkept := h.totals acquirerId hplain
    have hsum := hsums.sums acquirerId
    rw [settledAmount_append, ← hkept] at hsum
    rw [h.swept.tallies.total hplain] at hkept hsum
    have hfits : (TallyDb.total (s.recent.foldl (tallySlice codec) ∅) acquirerId).toNat +
        settledAmount codec appended acquirerId < 2 ^ 64 := by omega
    have hadd := TallyDb.total_foldl hplains hplain hamounts hfits
    show s.reported _ _ + (db.total acquirerId).toNat = _
    rw [hswept.tallies.total hplain, hadd, settledAmount_append, ← hkept, Nat.add_assoc]
  · have hkept := h.counts acquirerId hplain
    have hlength := countedFor_lt hswept hsize codec acquirerId
    rw [countedFor_append, List.length_append, ← hkept] at hlength
    rw [h.swept.tallies.count] at hkept hlength
    have hfits : (TallyDb.count (s.recent.foldl (tallySlice codec) ∅) acquirerId).toNat +
        (countedFor codec appended acquirerId).length < 2 ^ 64 := by omega
    have hadd := TallyDb.count_foldl hplains hplain hfits
    show s.reported _ _ + (db.count acquirerId).toNat = _
    rw [hswept.tallies.count, hadd, countedFor_append, List.length_append, ← hkept, Nat.add_assoc]

/-- What a cutoff says of an acquirer. -/
theorem rowsSum_cutoffRows {db : TallyDb} {recent : List Bytes}
    (hplains : ∀ tx ∈ counted codec recent, PlainId tx.acquirerId)
    (h : SameTallies db (recent.foldl (tallySlice codec) ∅)) {acquirerId : String}
    (hplain : PlainId acquirerId) :
    rowsSum CutoffRow.totalSettlementAmount db.cutoffRows acquirerId =
        (db.total acquirerId).toNat ∧
      rowsSum CutoffRow.totalCount db.cutoffRows acquirerId = (db.count acquirerId).toNat := by
  rw [rowsSum, rowsSum, TallyDb.cutoffRows_for db hplain]
  cases htotal : DashMap.get db acquirerId with
  | some total => exact ⟨Nat.add_zero _, Nat.add_zero _⟩
  | none =>
      -- A count alone would be that of an acquirer with a total.
      have hcount : DashMap.get db (countKey acquirerId) = none := by
        rw [h _ (countKey_ne_cursorKey acquirerId), ← Option.not_isSome_iff_eq_none,
          TallyDb.isSome_foldl]
        rintro (hempty | ⟨tx, htx, hkey | hkey⟩)
        · cases hempty
        · exact (hplains tx htx).ne_countKey acquirerId hkey.symm
        · have hsome := (TallyDb.isSome_foldl codec recent ∅ acquirerId).mpr
            (.inr ⟨tx, htx, .inl (countKey_inj.mp hkey)⟩)
          rw [← h _ hplain.notCursor, htotal] at hsome
          cases hsome
      rw [TallyDb.total, TallyDb.count, htotal, hcount]
      exact ⟨rfl, rfl⟩

theorem step_cutoff (codec : RecordCodec) (s : Settlement) : s.step codec .cutoff =
    some ⟨s.db.executeCutoff.2, s.records, [], s.reports ++ [(s.recent, s.db.cutoffRows)]⟩ :=
  rfl

theorem reported_concat (s : Settlement) (db : TallyDb) (rows : List CutoffRow)
    (value : CutoffRow → UInt64) (acquirerId : String) :
    reported ⟨db, s.records, [], s.reports ++ [(s.recent, rows)]⟩ value acquirerId =
      s.reported value acquirerId + rowsSum value rows acquirerId := by
  rw [reported, List.map_append, List.sum_append, List.map_singleton, List.sum_singleton]
  rfl

theorem Kept.cutoff (h : Kept codec length s)
    (hplains : ∀ tx ∈ counted codec s.records, PlainId tx.acquirerId) :
    ∃ s', s.step codec .cutoff = some s' ∧ s'.records = s.records ∧ Kept codec length s' := by
  have hrecent : ∀ tx ∈ counted codec s.recent, PlainId tx.acquirerId :=
    fun tx htx => hplains tx (counted_subset h.recent tx htx)
  have hcleared := TallyDb.executeCutoff_tallies hrecent h.swept.tallies
  refine ⟨_, step_cutoff codec s, rfl, ⟨h.swept.fits, hcleared, ?_⟩, nofun,
    fun acquirerId hplain => ?_, fun acquirerId hplain => ?_, fun report hreport => ?_⟩
  · exact (TallyDb.executeCutoff_cursor s.db).trans h.swept.cursor
  · have hrows := (rowsSum_cutoffRows hrecent h.swept.tallies hplain).1
    rw [reported_concat, hrows, hcleared.total hplain]
    exact h.totals acquirerId hplain
  · have hrows := (rowsSum_cutoffRows hrecent h.swept.tallies hplain).2
    rw [reported_concat, hrows, hcleared.count]
    exact h.counts acquirerId hplain
  · rcases List.mem_append.mp hreport with hreport | hreport
    · exact h.rows report hreport
    · rw [List.mem_singleton] at hreport
      subst hreport
      refine ⟨TallyDb.nodup_cutoffRows s.db, fun acquirerId => ?_⟩
      rw [TallyDb.mem_cutoffRows]
      constructor
      · rintro ⟨hsome, hplain⟩
        rw [h.swept.tallies _ hplain.notCursor, TallyDb.isSome_foldl] at hsome
        rcases hsome with hempty | ⟨tx, htx, htotal | hcount⟩
        · cases hempty
        · exact ⟨tx, htx, htotal.symm⟩
        · exact absurd hcount (hplain.ne_countKey _)
      · rintro ⟨tx, htx, rfl⟩
        refine ⟨?_, hrecent tx htx⟩
        rw [h.swept.tallies _ (hrecent tx htx).notCursor, TallyDb.isSome_foldl]
        exact .inr ⟨tx, htx, .inl rfl⟩

/-! ## Any run -/

/-- What is appended before each sweep of a run. -/
def batches (ops : List SettlementOp) : List Batch :=
  ops.filterMap fun
    | .sweep appended padding => some (appended, padding)
    | .cutoff => none

theorem SumsFit.left {records more : List Bytes} (h : SumsFit codec (records ++ more)) :
    SumsFit codec records where
  amounts tx htx :=
    h.amounts tx (counted_subset (fun _ hmem => List.mem_append_left _ hmem) tx htx)
  sums acquirerId := by
    have hsum := h.sums acquirerId
    rw [settledAmount_append] at hsum
    omega

/-- Every run of sweeps and cutoffs gets to its end and keeps it. -/
theorem Kept.run (h : Kept codec length s) {ops : List SettlementOp}
    (hstorable : ∀ record ∈ allRecords (batches ops), Storable record)
    (hgrowing : Growing s.records length (batches ops))
    (hsums : SumsFit codec (s.records ++ allRecords (batches ops)))
    (hplains : ∀ tx ∈ counted codec (s.records ++ allRecords (batches ops)),
      PlainId tx.acquirerId) :
    ∃ s' length', s.run codec ops = some s' ∧ s'.records = s.records ++ allRecords (batches ops) ∧
      Kept codec length' s' := by
  induction ops generalizing s length with
  | nil => exact ⟨s, length, rfl, (List.append_nil _).symm, h⟩
  | cons op ops ih =>
      rw [Settlement.run, List.foldlM_cons]
      cases op with
      | sweep appended padding =>
          have hall : s.records ++ allRecords (batches (.sweep appended padding :: ops)) =
              s.records ++ appended ++ allRecords (batches ops) := (List.append_assoc _ _ _).symm
          rw [hall] at hsums hplains ⊢
          obtain ⟨hlength, hsize, hrest⟩ := hgrowing
          obtain ⟨s', hstep, hrecords, hkept⟩ := h.sweep
            (fun record hmem => hstorable record (List.mem_append_left _ hmem)) hlength hsize
            (fun tx htx =>
              hplains tx (counted_subset (fun _ hmem => List.mem_append_left _ hmem) tx htx))
            hsums.left
          rw [← hrecords] at hkept hrest hsums hplains ⊢
          rw [hstep]
          exact ih hkept (fun record hmem => hstorable record (List.mem_append_right _ hmem)) hrest
            hsums hplains
      | cutoff =>
          have hall : allRecords (batches (.cutoff :: ops)) = allRecords (batches ops) := rfl
          rw [hall] at hstorable hsums hplains ⊢
          obtain ⟨s', hstep, hrecords, hkept⟩ := h.cutoff fun tx htx =>
            hplains tx (counted_subset (fun _ hmem => List.mem_append_left _ hmem) tx htx)
          have hgrowing : Growing s.records length (batches ops) := hgrowing
          rw [← hrecords] at hgrowing hsums hplains ⊢
          rw [hstep]
          exact ih hkept hstorable hgrowing hsums hplains

/-- What is reported and stored is what was swept, if no record that counts has the key of
a count or of the cursor for an id.  A cutoff leaves the cursor in any case. -/
theorem cutoffs_conserve (codec : RecordCodec) (ops : List SettlementOp)
    (hstorable : ∀ record ∈ allRecords (batches ops), Storable record)
    (hgrowing : Growing [] 0 (batches ops))
    (hsums : SumsFit codec (allRecords (batches ops)))
    (hplains : ∀ tx ∈ counted codec (allRecords (batches ops)), PlainId tx.acquirerId) :
    ∃ s, new.run codec ops = some s ∧ s.records = allRecords (batches ops) ∧
      Conserved codec s ∧
      ∀ db : TallyDb, DashMap.get db.executeCutoff.2 cursorKey = DashMap.get db cursorKey := by
  obtain ⟨s, length, hrun, hrecords, hkept⟩ :=
    (Kept.new codec).run hstorable hgrowing hsums hplains
  have hrecords : s.records = allRecords (batches ops) := hrecords
  have hplain : ∀ acquirerId, (PlainId acquirerId ∨
      ∃ tx ∈ counted codec s.records, tx.acquirerId = acquirerId) → PlainId acquirerId := by
    rintro acquirerId (hplain | ⟨tx, htx, rfl⟩)
    · exact hplain
    · rw [hrecords] at htx
      exact hplains tx htx
  exact ⟨s, hrun, hrecords, ⟨fun acquirerId h => hkept.totals acquirerId (hplain acquirerId h),
    fun acquirerId h => hkept.counts acquirerId (hplain acquirerId h), hkept.rows⟩,
    TallyDb.executeCutoff_cursor⟩

/-- A record that counts and has such an id gets no row at the next cutoff. -/
theorem not_conserved_of_cutoff {tx : Transaction} (htx : tx ∈ counted codec s.recent)
    (hid : ¬ PlainId tx.acquirerId) {s' : Settlement} (hstep : s.step codec .cutoff = some s') :
    ¬ Conserved codec s' := by
  rw [step_cutoff, Option.some_inj] at hstep
  subst hstep
  intro hconserved
  have hreport : (s.recent, s.db.cutoffRows) ∈ s.reports ++ [(s.recent, s.db.cutoffRows)] :=
    List.mem_append_right _ (List.mem_singleton_self _)
  have hrow := ((hconserved.rows _ hreport).2 tx.acquirerId).mpr ⟨tx, htx, rfl⟩
  exact hid (s.db.mem_cutoffRows.mp hrow).2

/-- An approval of an acquirer. -/
def approvalOf (acquirerId : String) : Transaction :=
  { journalSample "0100" "1" "00" with acquirerId := acquirerId }

/-- Both acquirers are swept, cut off, and the first is swept again. -/
def sampleOps (first second : String) : List SettlementOp :=
  [.sweep [RecordCodec.protobuf (approvalOf first), RecordCodec.protobuf (approvalOf second)] 99,
    .cutoff, .sweep [RecordCodec.protobuf (approvalOf first)] 76, .cutoff]

theorem settledAmount_le (codec : RecordCodec) (records : List Bytes) (acquirerId : String) :
    settledAmount codec records acquirerId ≤
      ((counted codec records).map (·.amount.toNatClampNeg)).sum :=
  (List.filter_sublist.map _).sum_le_sum fun _ _ => Nat.zero_le _

theorem SumsFit.of_sum {records : List Bytes}
    (hamounts : ∀ tx ∈ counted codec records, 0 ≤ tx.amount)
    (hsum : ((counted codec records).map (·.amount.toNatClampNeg)).sum < 2 ^ 64) :
    SumsFit codec records :=
  ⟨hamounts, fun acquirerId => Nat.lt_of_le_of_lt (settledAmount_le codec records acquirerId) hsum⟩

set_option maxRecDepth 8000 in
theorem cutoffs_conserve_banks :
    ∃ s, new.run (.onSamples [approvalOf "A", approvalOf "B"]) (sampleOps "A" "B") = some s ∧
      s.records = allRecords (batches (sampleOps "A" "B")) ∧
      Conserved (.onSamples [approvalOf "A", approvalOf "B"]) s ∧
      ∀ db : TallyDb, DashMap.get db.executeCutoff.2 cursorKey = DashMap.get db cursorKey :=
  cutoffs_conserve (.onSamples [approvalOf "A", approvalOf "B"]) (sampleOps "A" "B") (by decide)
    ⟨by decide, by decide, by decide, by decide, trivial⟩
    (.of_sum (by decide +kernel) (by decide +kernel)) (by decide +kernel)

set_option maxRecDepth 8000 in
/-- The total of `A_count` is taken for the count of `A`, which has no row of its own. -/
theorem cutoff_misses_acquirer : ¬ ∀ (codec : RecordCodec) (ops : List SettlementOp),
    (∀ record ∈ allRecords (batches ops), Storable record) → Growing [] 0 (batches ops) →
    SumsFit codec (allRecords (batches ops)) →
    ∃ s, new.run codec ops = some s ∧ s.records = allRecords (batches ops) ∧
      Conserved codec s ∧
      ∀ db : TallyDb, DashMap.get db.executeCutoff.2 cursorKey = DashMap.get db cursorKey := by
  intro hevery
  obtain ⟨s, hrun, -, hconserved, -⟩ :=
    hevery (.onSamples [approvalOf "A", approvalOf "A_count"]) (sampleOps "A" "A_count")
      (by decide) ⟨by decide, by decide, by decide, by decide, trivial⟩
      (.of_sum (by decide +kernel) (by decide +kernel))
  have hreported : (new.run (.onSamples [approvalOf "A", approvalOf "A_count"])
      (sampleOps "A" "A_count")).map (·.reports.head?) =
      some (some ([RecordCodec.protobuf (approvalOf "A"),
        RecordCodec.protobuf (approvalOf "A_count")], [⟨"A", 1001, 1000⟩])) := by decide +kernel
  rw [hrun, Option.map_some, Option.some_inj] at hreported
  have hrows := (hconserved.rows _ (List.mem_of_mem_head? hreported)).2 "A_count"
  exact absurd (hrows.mpr ⟨approvalOf "A_count", by decide +kernel, rfl⟩) (by decide)

end Settlement

end Iso8583Switch
