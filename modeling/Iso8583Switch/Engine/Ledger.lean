import Iso8583Switch.Canonical
import Iso8583Switch.Library.DashMap

/-!
# The ledger worker

switch-core/src/ledger_worker.rs.  The worker takes the posted events off its
channel and inserts one row for each of them, with the principal and the fee negated
for a reversal.

Integer sums and negations wrap around, as in a release build.  The debug build that
RUN_INSTRUCTIONS.md starts panics where one of them overflows.

A row cuts the PAN in two places.  `isSome_row` says when both cuts are good.
-/

namespace Iso8583Switch

open Text

structure FeeRule where
  basePct : Float
  flatFeeCents : Int32
  fxMarkupPct : Float

structure AccountMapping where
  vostroAccountId : String
  nostroAccountId : String

structure LedgerRow where
  traceStan : String
  traceRrn : String
  maskedPan : String
  routingBin : String
  sourceAccountId : String
  targetAccountId : String
  principalAmount : Int64
  feeAmount : Int64
  fxRate : Float
  status : String
  institutionId : String

/-- The caches of the worker. -/
structure LedgerWorker where
  feeMatrix : DashMap String FeeRule
  chartOfAccounts : DashMap String AccountMapping

namespace LedgerWorker

def institutionId (panStr : String) : String :=
  if (asBytes "4").isPrefixOf (asBytes panStr) then "CITI"
  else if (asBytes "5").isPrefixOf (asBytes panStr) then "DANSKE_BANK"
  else "DEFAULT_INST"

def finalPrincipal (tx : UniversalPaymentEvent) : Int64 :=
  if tx.isReversal then -tx.amount.toInt64 else tx.amount.toInt64

def routingBin (panStr : String) : Option String :=
  if 6 ≤ len panStr then slice panStr 0 6 else some "000000"

/-- By the rule of the BIN, or else the default rule.  A short PAN has no fee. -/
def interchangeFee (worker : LedgerWorker) (tx : UniversalPaymentEvent) (routingBin : String) :
    Int64 :=
  let feeRule := if 6 ≤ len (fromUtf8Lossy tx.fpan) then
      (worker.feeMatrix.get routingBin).or (worker.feeMatrix.get "DEFAULT")
    else none
  match feeRule with
  | some rule => (tx.amount.toFloat * rule.basePct).toInt64 + rule.flatFeeCents.toInt64
  | none => 0

def finalFee (tx : UniversalPaymentEvent) (interchangeFee : Int64) : Int64 :=
  if tx.isReversal then -interchangeFee else interchangeFee

/-- The row of an event, or `none` where a slice of the PAN panics.  The key of
the fee rule is the slice that is stored as the routing BIN. -/
def row (worker : LedgerWorker) (tx : UniversalPaymentEvent) : Option LedgerRow := do
  let panStr := fromUtf8Lossy tx.fpan
  let routingBin ← routingBin panStr
  let account := worker.chartOfAccounts.get (institutionId panStr)
  let front ← slice panStr 0 (min 6 (len panStr))
  let back ← slice panStr (len panStr - 4) (len panStr)
  some
    { traceStan := tx.stan
      traceRrn := tx.rrn
      maskedPan := front ++ "****" ++ back
      routingBin := routingBin
      sourceAccountId := (account.map AccountMapping.vostroAccountId).getD "UNKNOWN"
      targetAccountId := (account.map AccountMapping.nostroAccountId).getD "UNKNOWN"
      principalAmount := finalPrincipal tx
      feeAmount := finalFee tx (worker.interchangeFee tx routingBin)
      fxRate := 1.00000
      status := if tx.isReversal then "reversed_offset_hold" else "shadow"
      institutionId := institutionId panStr }

/-- The BIN ends between two characters, if there are enough bytes for one. -/
def cutsFront (panStr : String) : Bool := len panStr < 6 || isCharBoundary panStr 6

/-- The last four bytes begin between two characters. -/
def cutsBack (panStr : String) : Bool := isCharBoundary panStr (len panStr - 4)

theorem isSome_front (panStr : String) :
    (slice panStr 0 (min 6 (len panStr))).isSome = cutsFront panStr := by
  rw [isSome_slice, isCharBoundary_zero, decide_eq_true (Nat.zero_le _), Bool.true_and,
    Bool.true_and, cutsFront]
  by_cases hlen : len panStr < 6
  · rw [Nat.min_eq_right (by omega), isCharBoundary_len, decide_eq_true hlen, Bool.true_or]
  · rw [Nat.min_eq_left (by omega), decide_eq_false hlen, Bool.false_or]

theorem isSome_back (panStr : String) :
    (slice panStr (len panStr - 4) (len panStr)).isSome = cutsBack panStr := by
  rw [isSome_slice, isCharBoundary_len, decide_eq_true (Nat.sub_le _ _), Bool.true_and,
    Bool.and_true, cutsBack]

theorem isSome_row (worker : LedgerWorker) (tx : UniversalPaymentEvent) :
    (worker.row tx).isSome =
      (cutsFront (fromUtf8Lossy tx.fpan) && cutsBack (fromUtf8Lossy tx.fpan)) := by
  rw [← isSome_front, ← isSome_back, row]
  generalize fromUtf8Lossy tx.fpan = panStr
  -- The routing BIN is the front of the PAN, or a constant.
  have hbin (hfront : (slice panStr 0 (min 6 (len panStr))).isSome) :
      (routingBin panStr).isSome := by
    by_cases hlen : 6 ≤ len panStr
    · rw [Nat.min_eq_left hlen] at hfront
      rw [routingBin, if_pos hlen]
      exact hfront
    · rw [routingBin, if_neg hlen]
      rfl
  cases hfront : slice panStr 0 (min 6 (len panStr)) with
  | none =>
      cases routingBin panStr with
      | none => rfl
      | some bin => rfl
  | some front =>
      obtain ⟨bin, hbin⟩ := Option.isSome_iff_exists.mp (hbin (by rw [hfront]; rfl))
      rw [hbin]
      cases slice panStr (len panStr - 4) (len panStr) with
      | none => rfl
      | some back => rfl

end LedgerWorker

end Iso8583Switch
