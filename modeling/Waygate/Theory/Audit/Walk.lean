import Waygate.Core.Audit.ChainVerify

/-!
# What a Walk Accepts

The verifier's walk described without its report, so that later arguments never unfold
the loop.

## Main definitions

* `ChainAccepted`
* `firstBad`: What the walk finds otherwise.

## Theorems

* `walkRows_eq`, `verifyChainRowsWithBridges_status_ok`
* `chainAccepted_append`, `firstBad_append`: Both split at any point.
-/

namespace Waygate.Audit

open List

section

variable (sha256 : List UInt8 → List UInt8)

/-- The row's link matches or is bridged, and its stored hash is the one its
    columns recompute to. -/
def RowAccepted (bridgeIndex : BridgeIndex) (expectedPrev : Option String)
    (row : ChainVerifyRow) : Prop :=
  (row.prevHash = expectedPrev
    ∨ markerBridgeReaches expectedPrev row.prevHash bridgeIndex none = true)
  ∧ recomputeRowHash sha256 row = row.rowHash

/-- Every row is accepted, each expected to follow the one before. -/
def ChainAccepted (bridgeIndex : BridgeIndex) (expectedPrev : Option String) :
    List ChainVerifyRow → Prop
  | [] => True
  | row :: rows => RowAccepted sha256 bridgeIndex expectedPrev row
      ∧ ChainAccepted bridgeIndex (some row.rowHash) rows

def lastHash (expectedPrev : Option String) (rows : List ChainVerifyRow) : Option String :=
  rows.foldl (fun _ row => some row.rowHash) expectedPrev

variable (bridgeIndex : BridgeIndex) (expectedPrev : Option String) (rows : List ChainVerifyRow)

theorem lastHash_append_singleton (row : ChainVerifyRow) :
    lastHash expectedPrev (rows ++ [row]) = some row.rowHash := by
  simp [lastHash]

theorem lastHash_eq_getLast :
    lastHash expectedPrev rows = (rows.getLast?.map ChainVerifyRow.rowHash).or expectedPrev := by
  rcases eq_nil_or_concat rows with hnil | ⟨init, row, hrows⟩
  · rw [hnil]
    rfl
  · rw [hrows, concat_eq_append, lastHash_append_singleton, getLast?_concat]
    rfl

variable (rows rest : List ChainVerifyRow)

theorem lastHash_append :
    lastHash expectedPrev (rows ++ rest) = lastHash (lastHash expectedPrev rows) rest :=
  foldl_append

theorem chainAccepted_append :
    ChainAccepted sha256 bridgeIndex expectedPrev (rows ++ rest) ↔
      ChainAccepted sha256 bridgeIndex expectedPrev rows ∧
      ChainAccepted sha256 bridgeIndex (lastHash expectedPrev rows) rest := by
  induction rows generalizing expectedPrev with
  | nil => exact (and_iff_right trivial).symm
  | cons row rows ih =>
    simp only [cons_append, ChainAccepted, ih, and_assoc]
    rfl

theorem chainAccepted_of_forall (h : ∀ before row after, rows = before ++ row :: after →
      RowAccepted sha256 bridgeIndex (lastHash expectedPrev before) row) :
    ChainAccepted sha256 bridgeIndex expectedPrev rows := by
  induction rows generalizing expectedPrev with
  | nil => trivial
  | cons row rows ih =>
    refine ⟨h [] row rows rfl, ih (some row.rowHash) (fun before r after hsplit => ?_)⟩
    exact h (row :: before) r after (by rw [hsplit, cons_append])

def firstBad (bridgeIndex : BridgeIndex) (expectedPrev : Option String) :
    List ChainVerifyRow → Option ChainMismatch
  | [] => none
  | row :: rows =>
    if row.prevHash ≠ expectedPrev
        ∧ markerBridgeReaches expectedPrev row.prevHash bridgeIndex none = false then
      some
        { rowId := row.id
          chainSeq := row.chainSeq
          kind := .brokenLink
          expected := expectedPrev.getD ""
          actual := row.prevHash.getD "" }
    else if recomputeRowHash sha256 row ≠ row.rowHash then
      some
        { rowId := row.id
          chainSeq := row.chainSeq
          kind := .badRowHash
          expected := recomputeRowHash sha256 row
          actual := row.rowHash }
    else firstBad bridgeIndex (some row.rowHash) rows

theorem firstBad_eq_none :
    firstBad sha256 bridgeIndex expectedPrev rows = none ↔
      ChainAccepted sha256 bridgeIndex expectedPrev rows := by
  induction rows generalizing expectedPrev with
  | nil => exact ⟨fun _ => trivial, fun _ => rfl⟩
  | cons row rows ih =>
    -- The walk's two tests are the two halves of acceptance.
    have hlink : (row.prevHash = expectedPrev
        ∨ markerBridgeReaches expectedPrev row.prevHash bridgeIndex none = true) ↔
        ¬ (row.prevHash ≠ expectedPrev
          ∧ markerBridgeReaches expectedPrev row.prevHash bridgeIndex none = false) := by
      rw [not_and_or, not_not, Bool.not_eq_false]
    unfold firstBad ChainAccepted RowAccepted
    rw [hlink, ← ih]
    by_cases hbroken : row.prevHash ≠ expectedPrev
        ∧ markerBridgeReaches expectedPrev row.prevHash bridgeIndex none = false
    · grind
    · grind

theorem firstBad_append :
    firstBad sha256 bridgeIndex expectedPrev (rows ++ rest)
      = (firstBad sha256 bridgeIndex expectedPrev rows).or
          (firstBad sha256 bridgeIndex (lastHash expectedPrev rows) rest) := by
  induction rows generalizing expectedPrev with
  | nil => exact Option.none_or.symm
  | cons row rows ih =>
    have hlast : lastHash expectedPrev (row :: rows) = lastHash (some row.rowHash) rows := rfl
    rw [cons_append, hlast, firstBad, firstBad]
    split
    · exact Option.some_or.symm
    · split
      · exact Option.some_or.symm
      · exact ih (some row.rowHash)

/-- The walk stops at the first bad row, or counts them all. -/
theorem walkRows_eq (report : ChainVerifyReport)
    (hreport : report.firstMismatch = none) (expectedPrev : Option String)
    (rows : List ChainVerifyRow) :
    (walkRows sha256 bridgeIndex report expectedPrev rows).firstMismatch
        = firstBad sha256 bridgeIndex expectedPrev rows ∧
    (walkRows sha256 bridgeIndex report expectedPrev rows).status
        = (if (firstBad sha256 bridgeIndex expectedPrev rows).isSome then .mismatch else .ok) := by
  induction rows generalizing report expectedPrev with
  | nil => exact ⟨hreport, rfl⟩
  | cons row rows ih =>
    unfold walkRows firstBad recomputeRowHash
    split
    · exact ⟨rfl, rfl⟩
    · dsimp only
      split
      · exact ⟨rfl, rfl⟩
      · exact ih { report with rowsWalked := report.rowsWalked + 1 } hreport _

theorem walkRows_status_ok (report : ChainVerifyReport)
    (hreport : report.firstMismatch = none) (expectedPrev : Option String)
    (rows : List ChainVerifyRow) :
    (walkRows sha256 bridgeIndex report expectedPrev rows).status = .ok ↔
      ChainAccepted sha256 bridgeIndex expectedPrev rows := by
  rw [(walkRows_eq sha256 bridgeIndex report hreport expectedPrev rows).2, ← firstBad_eq_none]
  cases firstBad sha256 bridgeIndex expectedPrev rows with
  | none => simp only [Option.isSome_none, Bool.false_eq_true, if_false]
  | some m => simp

/-- A verification succeeds exactly on a non-empty accepted chain. -/
theorem verifyChainRowsWithBridges_status_ok (tenantId : String)
    (fromTs toTs : Option OffsetDateTime) (prevHead : Option String)
    (rows : List ChainVerifyRow) (bridges : List RetentionBridge) :
    (verifyChainRowsWithBridges sha256 tenantId fromTs toTs prevHead rows bridges).status = .ok ↔
      rows ≠ [] ∧ ChainAccepted sha256 (bridgeIndexOf bridges) prevHead rows := by
  unfold verifyChainRowsWithBridges
  cases rows with
  | nil => simp only [isEmpty_nil, if_true, ChainVerifyReport.skeleton, reduceCtorEq, ne_eq,
      not_true_eq_false, false_and]
  | cons row rows => grind [walkRows_status_ok, ChainVerifyReport.skeleton]

end

theorem markerBridgeReaches_empty (start target : Option String) :
    markerBridgeReaches start target ∅ none = true ↔ start = target := by
  unfold markerBridgeReaches
  by_cases h : start = target
  · simp [h]
  · simp [h, AList.keys_empty, followBridges]

end Waygate.Audit
