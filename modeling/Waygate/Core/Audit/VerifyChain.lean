import Waygate.Core.Audit.ChainVerify
import Waygate.Theory.Graph.RecursiveUnion

/-!
# Verification Over the Tables

The storage half of audit verification, from `audit.rs`: the two tables, the queries,
and `verify_chain`, which hands their results to the walk. Nothing makes `chain_seq`
unique; a query ordered by it is a stable sort, so a result about all states is one
about every way of breaking ties. Columns are stored decoded, except that a row keeps
the absence of `category`, which the queries can see.

## Main definitions

* `AuditTables`, `reachableRetentionMarkers`, `loadBridges`, `verifyChain`
* `orderedChain`: A tenant's chain.
-/

namespace Waygate.Audit

/-- A row of `audit_log`. `category` is nullable and decodes to the empty
    text when absent. -/
structure AuditLogRow where
  columns : AuditColumns
  category : Option String
  chainSeq : Int
  prevHash : Option String
  rowHash : Option String
  decoded : columns.category = category.getD ""
  deriving DecidableEq

/-- Decode a chained row; a row without a hash is not part of any chain. -/
def AuditLogRow.toChainVerifyRow (r : AuditLogRow) : Option ChainVerifyRow :=
  r.rowHash.map (fun h =>
    { r.columns with chainSeq := r.chainSeq, prevHash := r.prevHash, rowHash := h })

structure BridgeIndexEntry where
  markerId : Uuid
  tenantId : String
  startHash : Option String
  endHash : String
  deriving DecidableEq

def startKey (startHash : Option String) : String :=
  match startHash with
  | none => "null"
  | some h => "hash:" ++ h

/-- The two tables, with the constraints the schema declares. -/
structure AuditTables where
  auditLog : List AuditLogRow
  bridgeIndex : List BridgeIndexEntry
  primaryKey : (auditLog.map (fun r => r.columns.id)).Nodup
  markerKey : (bridgeIndex.map BridgeIndexEntry.markerId).Nodup
  startUnique : (bridgeIndex.map (fun e => (e.tenantId, startKey e.startHash))).Nodup
  reference : ∀ e ∈ bridgeIndex, e.markerId ∈ auditLog.map (fun r => r.columns.id)

theorem startUnique_nil : (([] : List BridgeIndexEntry).map
    (fun e => (e.tenantId, startKey e.startHash))).Nodup :=
  List.nodup_nil

def orderedChain (db : AuditTables) (tenantId : String) : List ChainVerifyRow :=
  ((db.auditLog.filter (fun r => r.columns.tenant = tenantId)).filterMap
    AuditLogRow.toChainVerifyRow).insertionSort (fun a b => a.chainSeq ≤ b.chainSeq)

def priorHash (db : AuditTables) (tenantId : String) (chainSeq : Int) : Option String :=
  ((orderedChain db tenantId).filter (fun r => r.chainSeq < chainSeq)).getLast?.map
    ChainVerifyRow.rowHash

def bridgeAt (db : AuditTables) (tenantId : String) (cursor : Option String) :
    Option BridgeIndexEntry :=
  db.bridgeIndex.find? (fun e => e.tenantId = tenantId ∧ startKey e.startHash = startKey cursor)

def markerRow (db : AuditTables) (tenantId : String) (markerId : Uuid) : Option ChainVerifyRow :=
  (db.auditLog.find? (fun r => r.columns.id = markerId ∧ r.columns.tenant = tenantId
    ∧ r.category = some RetentionMarker.KIND ∧ r.rowHash.isSome)).bind
    AuditLogRow.toChainVerifyRow

/-- The recursive term of the marker query: a job's bridge leads to the rest
    of the job, and its marker needs a proof of its own link. -/
def spawnJobs (db : AuditTables) (tenantId : String) (job : GapJob) : List GapJob :=
  match bridgeAt db tenantId job.1 with
  | none => []
  | some bridge => match markerRow db tenantId bridge.markerId with
    | none => []
    | some marker =>
      [(some bridge.endHash, job.2), (priorHash db tenantId marker.chainSeq, marker.prevHash)].filter
        (fun spawned => spawned.1 ≠ spawned.2)

/-- More rounds than the recursive query can need: one for every pair of a
    hash a job can be at and a hash a job can be after. -/
def jobRounds (db : AuditTables) (seeds : List GapJob) : Nat :=
  (seeds.length + db.bridgeIndex.length + db.auditLog.length + 1)
    * (seeds.length + db.auditLog.length) + 1

def markerJobs (db : AuditTables) (tenantId : String) (seeds : List GapJob) : List GapJob :=
  let seeds := (seeds.filter (fun seed => seed.1 ≠ seed.2))
  Reach.recursiveUnion (spawnJobs db tenantId) (jobRounds db seeds) seeds.dedup seeds.dedup

/-- A marker row as the query returns it, with the boundaries the index
    recorded for it and the hash stored before it. -/
structure MarkerAdmissionRow where
  row : ChainVerifyRow
  expectedPrev : Option String
  indexedStart : Option String
  indexedEnd : String
  deriving DecidableEq

def markerAdmissionRow (db : AuditTables) (tenantId : String) (bridge : BridgeIndexEntry) :
    Option MarkerAdmissionRow :=
  (markerRow db tenantId bridge.markerId).map (fun m =>
    { row := m
      expectedPrev := priorHash db tenantId m.chainSeq
      indexedStart := bridge.startHash
      indexedEnd := bridge.endHash })

/-- The marker query: the bridges its jobs are at, each once, with their
    marker rows in `chain_seq` order. -/
def reachableRetentionMarkers (db : AuditTables) (tenantId : String) (seeds : List GapJob) :
    List MarkerAdmissionRow :=
  ((((markerJobs db tenantId seeds).filterMap (fun job => bridgeAt db tenantId job.1)).dedup).filterMap
    (markerAdmissionRow db tenantId)).insertionSort (fun a b => a.row.chainSeq ≤ b.row.chainSeq)

section

variable (sha256 : List UInt8 → List UInt8) (fromStr : String → Option RetentionMarker)

def markerPayload (row : ChainVerifyRow) : Option RetentionMarker :=
  if recomputeRowHash sha256 row ≠ row.rowHash then none
  else row.reason.bind (RetentionMarker.fromReason fromStr)

/-- A candidate from a marker row: its hash recomputes, its payload validates,
    and the payload's boundaries are the ones the index recorded. -/
def admissionCandidate (m : MarkerAdmissionRow) : Option RetentionBridgeCandidate :=
  match (markerPayload sha256 fromStr m.row).bind RetentionMarker.bridge with
  | none => none
  | some bridge =>
    if bridge.start ≠ m.indexedStart ∨ bridge.endHash ≠ m.indexedEnd then none
    else some { bridge := bridge, expectedPrev := m.expectedPrev, markerPrev := m.row.prevHash }

/-- The bridges verification loads for the broken links of a window. -/
def loadBridges (db : AuditTables) (tenantId : String) (gapJobs : List GapJob) :
    List RetentionBridge :=
  if gapJobs.isEmpty then []
  else admitRetentionBridges
    ((reachableRetentionMarkers db tenantId gapJobs).filterMap (admissionCandidate sha256 fromStr))

/-- A `TIMESTAMPTZ` parameter holds whole microseconds. -/
def inWindow (fromTs toTs : Option OffsetDateTime) (r : ChainVerifyRow) : Bool :=
  fromTs.all (fun t => t.truncMicros.unixTimestampNanos ≤ r.ts.unixTimestampNanos)
    && toTs.all (fun t => r.ts.unixTimestampNanos ≤ t.truncMicros.unixTimestampNanos)

def tsRange (db : AuditTables) (tenantId : String) (fromTs toTs : Option OffsetDateTime) :
    Option Int × Option Int :=
  let matching := (orderedChain db tenantId).filter (inWindow fromTs toTs)
  (matching.head?.map ChainVerifyRow.chainSeq, matching.getLast?.map ChainVerifyRow.chainSeq)

/-- The `chain_seq` range a walk is confined to: `none` when the timestamp
    window matches no row, and no bounds when there is no window. -/
def chainSeqRange (db : AuditTables) (tenantId : String) (fromTs toTs : Option OffsetDateTime) :
    Option (Option (Int × Int)) :=
  if fromTs.isSome || toTs.isSome then
    match tsRange db tenantId fromTs toTs with
    | (some lo, some hi) => some (some (lo, hi))
    | (none, none) => none
    | _ => some none
  else some none

def selectRows (db : AuditTables) (tenantId : String) (range : Option (Int × Int))
    (afterChainSeq : Option Int) : List ChainVerifyRow :=
  (orderedChain db tenantId).filter (fun r => afterChainSeq.all (fun a => a < r.chainSeq)
    && range.all (fun b => b.1 ≤ r.chainSeq && r.chainSeq ≤ b.2))

def chainHead (db : AuditTables) (tenantId : String) : Option ChainHead :=
  (orderedChain db tenantId).getLast?.map
    (fun r => { chainSeq := r.chainSeq, rowHash := r.rowHash })

def clampLimit (limit : Int) : Nat :=
  (max 1 (min limit 10000)).toNat

/-- Whether more rows were selected than the limit. One row past the limit is
    fetched to find out. -/
def isTruncated (selected : List ChainVerifyRow) (limit : Nat) : Bool :=
  limit < (selected.take (limit + 1)).length

def pageRows (selected : List ChainVerifyRow) (limit : Nat) : List ChainVerifyRow :=
  let rows := selected.take (limit + 1)
  if isTruncated selected limit then rows.take limit else rows

def verifyPage (db : AuditTables) (tenantId : String) (fromTs toTs : Option OffsetDateTime)
    (selected : List ChainVerifyRow) (limit : Nat) : ChainVerifyReport :=
  let truncated := isTruncated selected limit
  let walkedRows := pageRows selected limit
  let nextAfterChainSeq :=
    if truncated then walkedRows.getLast?.map ChainVerifyRow.chainSeq else none
  let prevHead := walkedRows.head?.bind (fun first => priorHash db tenantId first.chainSeq)
  let bridges := loadBridges sha256 fromStr db tenantId (verificationGapJobs prevHead walkedRows)
  let report := verifyChainRowsWithBridges sha256 tenantId fromTs toTs prevHead walkedRows bridges
  { report with
    truncated := truncated
    nextAfterChainSeq := nextAfterChainSeq
    chainHead := chainHead db tenantId
    -- A truncated walk that found nothing wrong is not a verdict on the chain.
    status := if truncated ∧ report.status = .ok then .incomplete else report.status }

/-- Verify a tenant's chain over a window, from a pagination cursor. -/
def verifyChain (db : AuditTables) (tenantId : String) (fromTs toTs : Option OffsetDateTime)
    (afterChainSeq : Option Int) (limit : Int) : ChainVerifyReport :=
  match chainSeqRange db tenantId fromTs toTs with
  | none =>
    { ChainVerifyReport.skeleton tenantId fromTs toTs with chainHead := chainHead db tenantId }
  | some range =>
    verifyPage sha256 fromStr db tenantId fromTs toTs
      (selectRows db tenantId range afterChainSeq) (clampLimit limit)

end

end Waygate.Audit
