import Mathlib.Data.List.AList
import Mathlib.Data.List.Destutter
import Mathlib.Data.List.Sort
import Waygate.Core.Audit.HashChain
import Waygate.Theory.Graph.Worklist

/-!
# The Chain Verifier

The pure half of audit verification, from `chain_verify.rs`. Retention deletes rows on
purpose, so a link that does not match is accepted when admitted markers bridge it. A
marker is a row of the same chain and is trusted only if its own link holds.

Hash maps are association lists with distinct keys. The digest and the JSON reader are
parameters.

## Main definitions

* `admitRetentionBridges`, `walkRows`
* `ChainVerifyRow`, `ChainVerifyReport`: What is walked, and what is reported.
* `RetentionMarker`, `RetentionBridge`: A deleted segment, and the edge over it.
* `verifyChainRowsWithBridges`: The report on a window.
-/

namespace Waygate

namespace Audit

structure ChainVerifyRow extends AuditColumns where
  chainSeq : Int
  prevHash : Option String
  rowHash : String
  deriving DecidableEq

inductive ChainVerifyStatus where
  | ok
  | mismatch
  | empty
  | incomplete
  deriving DecidableEq

inductive MismatchKind where
  | brokenLink
  | badRowHash
  deriving DecidableEq

structure ChainMismatch where
  rowId : Uuid
  chainSeq : Int
  kind : MismatchKind
  expected : String
  actual : String
  deriving DecidableEq

structure ChainHead where
  chainSeq : Int
  rowHash : String
  deriving DecidableEq

structure ChainVerifyReport where
  tenantId : String
  fromTs : Option OffsetDateTime
  toTs : Option OffsetDateTime
  rowsWalked : Nat
  status : ChainVerifyStatus
  firstMismatch : Option ChainMismatch
  truncated : Bool
  nextAfterChainSeq : Option Int
  chainHead : Option ChainHead
  deriving DecidableEq

structure DeletedRow where
  prevHash : Option String
  rowHash : String
  deriving DecidableEq

structure DeletedUnchainedRow where
  id : Uuid
  chainSeq : Int
  deriving DecidableEq

/-- The payload a sweep writes into the `reason` column of its marker row. -/
structure RetentionMarker where
  kind : String
  deletedRows : List DeletedRow
  deletedUnchainedRows : List DeletedUnchainedRow
  deletedChainSeqMin : Option Int
  deletedChainSeqMax : Option Int
  policy : Option String
  deriving DecidableEq

structure RetentionBridge where
  start : Option String
  endHash : String
  deriving DecidableEq

/-- One marker awaiting admission: its bridge, the hash of the row stored
    before it, and the hash it claims to follow. -/
structure RetentionBridgeCandidate where
  bridge : RetentionBridge
  expectedPrev : Option String
  markerPrev : Option String
  deriving DecidableEq

namespace RetentionMarker

def KIND : String :=
  "retention_sweep"

/-- Each entry's `prevHash` is the entry before it's `rowHash`. -/
def linked : List DeletedRow → Bool
  | prior :: next :: rest => next.prevHash == some prior.rowHash && linked (next :: rest)
  | _ => true

def validate (self : RetentionMarker) : Bool :=
  self.kind == KIND
    && !(self.deletedRows.isEmpty && self.deletedUnchainedRows.isEmpty)
    && linked self.deletedRows
    && decide (self.deletedRows.map DeletedRow.rowHash).Nodup
    && decide (self.deletedUnchainedRows.map DeletedUnchainedRow.id).Nodup

def fromReason (fromStr : String → Option RetentionMarker) (reason : String) :
    Option RetentionMarker :=
  match fromStr reason with
  | none => none
  | some parsed =>
    if parsed.kind ≠ KIND then none
    else if !parsed.validate then none
    else some parsed

def bridge (self : RetentionMarker) : Option RetentionBridge :=
  match self.deletedRows.head?, self.deletedRows.getLast? with
  | some first, some last => some { start := first.prevHash, endHash := last.rowHash }
  | _, _ => none

end RetentionMarker

section

variable (sha256 : List UInt8 → List UInt8)

def recomputeRowHash (row : ChainVerifyRow) : String :=
  computeRowHash sha256 row.prevHash (canonicalAuditBytesWithExt5 row.toAuditColumns)

end

abbrev GapJob := Option String × Option String

/-- The derived order on pairs, absent before present. -/
def gapJobLe (a b : GapJob) : Prop :=
  (compareLex (compareOn Prod.fst) (compareOn Prod.snd) a b).isLE = true

instance : DecidableRel gapJobLe :=
  fun _ _ => inferInstanceAs (Decidable (_ = true))

def brokenLinks (expectedPrev : Option String) : List ChainVerifyRow → List GapJob
  | [] => []
  | row :: rows =>
    if row.prevHash ≠ expectedPrev then
      (expectedPrev, row.prevHash) :: brokenLinks (some row.rowHash) rows
    else brokenLinks (some row.rowHash) rows

/-- The broken-link jobs a window needs markers to resolve, sorted and with
    repetitions removed. -/
def verificationGapJobs (prevHead : Option String) (rows : List ChainVerifyRow) : List GapJob :=
  ((brokenLinks prevHead rows).insertionSort gapJobLe).destutter (· ≠ ·)

abbrev StartIndex := AList (fun _ : Option String => Nat)

/-- Enter one candidate. A start already entered marks both holders as
    duplicates. -/
def enterStart (acc : List Bool × StartIndex) (entry : RetentionBridgeCandidate × Nat) :
    List Bool × StartIndex :=
  let duplicateStart := match acc.2.lookup entry.1.bridge.start with
    | some previous => (acc.1.set previous true).set entry.2 true
    | none => acc.1
  (duplicateStart, acc.2.insert entry.1.bridge.start entry.2)

def dropDuplicate (duplicateStart : List Bool) (bridgeIndex : StartIndex)
    (entry : RetentionBridgeCandidate × Nat) : StartIndex :=
  if duplicateStart.getD entry.2 false then bridgeIndex.erase entry.1.bridge.start
  else bridgeIndex

def indexStarts (candidates : List RetentionBridgeCandidate) : List Bool × StartIndex :=
  let entered := candidates.zipIdx.foldl enterStart
    (List.replicate candidates.length false, ∅)
  (entered.1, candidates.zipIdx.foldl (dropDuplicate entered.1) entered.2)

/-- Follow the index from `cursor` to `target` for at most the given number of
    hops, collecting the candidates used other than `index` itself. Stops at a
    candidate already used. -/
def traceDependencies (candidates : List RetentionBridgeCandidate) (bridgeIndex : StartIndex)
    (index : Nat) (target : Option String) :
    Nat → Option String → List Nat → List Nat → Option (List Nat)
  | 0, _, _, _ => none
  | hops + 1, cursor, seen, dependencies =>
    match bridgeIndex.lookup cursor with
    | none => none
    | some next =>
      if next ∈ seen then none
      else
        let dependencies := if next ≠ index then dependencies ++ [next] else dependencies
        let cursor := (candidates[next]?).map (fun c => c.bridge.endHash)
        if cursor = target then some dependencies
        else traceDependencies candidates bridgeIndex index target hops cursor
          (next :: seen) dependencies

/-- What candidate `index` waits for: nothing at all when its own link
    matches, the bridges its trace uses when the trace arrives, and no answer
    when it shares its start or the trace does not arrive. -/
def candidateDependencies (candidates : List RetentionBridgeCandidate)
    (duplicateStart : List Bool) (bridgeIndex : StartIndex) (index : Nat) :
    Option (List Nat) :=
  if duplicateStart.getD index false then none
  else match candidates[index]? with
    | none => none
    | some candidate =>
      if candidate.expectedPrev = candidate.markerPrev then some []
      else traceDependencies candidates bridgeIndex index candidate.markerPrev
        bridgeIndex.keys.length candidate.expectedPrev [] []

/-- `usize::MAX`, the count of a candidate that is never ready. -/
def usizeMax : Nat :=
  2 ^ 64 - 1

/-- The bridges that may authorise a gap. The dependency counts and the queue
    are those of `Worklist.run`. -/
def admitRetentionBridges (candidates : List RetentionBridgeCandidate) : List RetentionBridge :=
  let starts := indexStarts candidates
  let admitted := Worklist.run usizeMax candidates.length
    (candidateDependencies candidates starts.1 starts.2)
  ((candidates.zip admitted).filter Prod.snd).map (fun p => p.1.bridge)

abbrev BridgeIndex := AList (fun _ : Option String => RetentionBridge)

/-- Collect bridges into an index. A later bridge replaces an earlier one with
    the same start. -/
def bridgeIndexOf (bridges : List RetentionBridge) : BridgeIndex :=
  bridges.foldl (fun index b => index.insert b.start b) ∅

/-- The bridge leaving a hash, the fallback serving where the index has none. -/
def nextBridge (bridgeIndex : BridgeIndex) (fallback : Option RetentionBridge)
    (cursor : Option String) : Option RetentionBridge :=
  (bridgeIndex.lookup cursor).or (fallback.filter (fun b => b.start = cursor))

def followBridges (bridgeIndex : BridgeIndex) (fallback : Option RetentionBridge)
    (target : Option String) : Nat → Option String → Bool
  | 0, _ => false
  | hops + 1, cursor =>
    match nextBridge bridgeIndex fallback cursor with
    | none => false
    | some b =>
      if some b.endHash = target then true
      else followBridges bridgeIndex fallback target hops (some b.endHash)

def markerBridgeReaches (start target : Option String) (bridgeIndex : BridgeIndex)
    (fallback : Option RetentionBridge) : Bool :=
  let maxHops := bridgeIndex.keys.length + (if fallback.isSome then 1 else 0)
  if start = target then true
  else followBridges bridgeIndex fallback target maxHops start

def ChainVerifyReport.skeleton (tenantId : String) (fromTs toTs : Option OffsetDateTime) :
    ChainVerifyReport :=
  { tenantId := tenantId
    fromTs := fromTs
    toTs := toTs
    rowsWalked := 0
    status := .empty
    firstMismatch := none
    truncated := false
    nextAfterChainSeq := none
    chainHead := none }

def ChainVerifyReport.fail (report : ChainVerifyReport) (row : ChainVerifyRow)
    (kind : MismatchKind) (expected actual : String) : ChainVerifyReport :=
  { report with
    status := .mismatch
    firstMismatch := some
      { rowId := row.id
        chainSeq := row.chainSeq
        kind := kind
        expected := expected
        actual := actual } }

section

variable (sha256 : List UInt8 → List UInt8)

/-- Check the rows in turn, from the hash the first is expected to follow. -/
def walkRows (bridgeIndex : BridgeIndex) (report : ChainVerifyReport)
    (expectedPrev : Option String) : List ChainVerifyRow → ChainVerifyReport
  | [] => { report with status := .ok }
  | row :: rows =>
    if row.prevHash ≠ expectedPrev
        ∧ markerBridgeReaches expectedPrev row.prevHash bridgeIndex none = false then
      report.fail row .brokenLink (expectedPrev.getD "") (row.prevHash.getD "")
    else
      let expectedHash := computeRowHash sha256 row.prevHash
        (canonicalAuditBytesWithExt5 row.toAuditColumns)
      if expectedHash ≠ row.rowHash then
        report.fail row .badRowHash expectedHash row.rowHash
      else
        walkRows bridgeIndex { report with rowsWalked := report.rowsWalked + 1 }
          (some row.rowHash) rows

def verifyChainRowsWithBridges (tenantId : String) (fromTs toTs : Option OffsetDateTime)
    (prevHead : Option String) (rows : List ChainVerifyRow) (bridges : List RetentionBridge) :
    ChainVerifyReport :=
  let report := ChainVerifyReport.skeleton tenantId fromTs toTs
  if rows.isEmpty then report
  else walkRows sha256 (bridgeIndexOf bridges) report prevHead rows

def verifyChainRows (tenantId : String) (fromTs toTs : Option OffsetDateTime)
    (prevHead : Option String) (rows : List ChainVerifyRow) (markers : List RetentionMarker) :
    ChainVerifyReport :=
  verifyChainRowsWithBridges sha256 tenantId fromTs toTs prevHead rows
    (markers.filterMap RetentionMarker.bridge)

end

end Audit

end Waygate
