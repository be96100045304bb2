import Waygate.Core.Audit.VerifyChain
import Waygate.Core.Json

/-!
# Recording and Retention

The writers of the audit tables: the recorder's inserts from `audit.rs`, the retention
sweep from `sweep.rs`, and the database functions they go through. What the database or
the operating system chooses is an argument: the `chain_seq` a row draws, and for each
marker of a sweep its id and its instant.

Printing and parsing of a marker's payload, and the cast to `jsonb`, are collected in
`ReasonJson`; what is read out of the parsed value is spelled out as the SQL has it,
with `none` for `NULL`. Left out are the outbox rows of a chained insert and the locks
and timeouts around it, which touch neither table.

## Main definitions

* `auditRetentionBridgeIndexMarker`, `sweepCandidates`, `runRetentionSweep`, `Transaction`,
  `ReachableTables`
* `insertChainedEvent`: The recorder's insert.
* `auditLogSweepDelete`: The checked delete.
* `groupIntoChainSegments`: The segments of a batch.
-/

namespace Waygate.Audit

def riskStr : RiskTier → String
  | .low => "low"
  | .medium => "medium"
  | .high => "high"

inductive EvidenceCategory where
  | invocation
  | discovery
  | llmCompletion
  | adminMutation
  | authAttempt
  | policyReload
  | manifestReload
  | apiKeyLifecycle
  | oAuthEvent
  | upstreamHealth
  | approvalLifecycle
  | catalogDrift
  | dataInspection
  | fileTransfer
  | retentionSweep
  deriving DecidableEq

def EvidenceCategory.asStr : EvidenceCategory → String
  | .invocation => "invocation"
  | .discovery => "discovery"
  | .llmCompletion => "llm_completion"
  | .adminMutation => "admin_mutation"
  | .authAttempt => "auth_attempt"
  | .policyReload => "policy_reload"
  | .manifestReload => "manifest_reload"
  | .apiKeyLifecycle => "api_key_lifecycle"
  | .oAuthEvent => "oauth_event"
  | .upstreamHealth => "upstream_health"
  | .approvalLifecycle => "approval_lifecycle"
  | .catalogDrift => "catalog_drift"
  | .dataInspection => "data_inspection"
  | .fileTransfer => "file_transfer"
  | .retentionSweep => "retention_sweep"

inductive AuditOutcome where
  | success
  | executionError
  | denied
  | stepUpRequired
  deriving DecidableEq

def AuditOutcome.asStr : AuditOutcome → String
  | .success => "success"
  | .executionError => "execution_error"
  | .denied => "denied"
  | .stepUpRequired => "step_up_required"

structure AuditPrincipal where
  sub : String
  email : Option String
  groups : List String
  issuer : String
  scimActive : Option Bool
  scimGroups : List String
  deriving DecidableEq

structure AuditEvent where
  id : Uuid
  ts : OffsetDateTime
  category : EvidenceCategory
  tenant : String
  principal : Option AuditPrincipal
  action : String
  server : Option String
  tool : Option String
  operation : Option String
  outcome : AuditOutcome
  riskLevel : Option RiskTier
  pii : Option Bool
  policyIds : List String
  reason : Option String
  traceId : Option String
  latencyMs : Option Int64
  target : Option String
  reqScopes : List String
  authMethod : Option String
  reqRoles : List String
  sideEffects : Option Bool
  actingAgent : Option String
  invocationHierarchy : Option InvocationHierarchy
  deriving DecidableEq

def AuditEvent.columns (event : AuditEvent) : AuditColumns :=
  { id := event.id
    ts := event.ts
    category := event.category.asStr
    tenant := event.tenant
    action := event.action
    outcome := event.outcome.asStr
    principalSub := event.principal.map AuditPrincipal.sub
    principalEmail := event.principal.bind AuditPrincipal.email
    principalGroups := (event.principal.map AuditPrincipal.groups).getD []
    issuer := event.principal.map AuditPrincipal.issuer
    server := event.server
    tool := event.tool
    riskLevel := event.riskLevel.map riskStr
    pii := event.pii
    policyIds := event.policyIds
    reason := event.reason
    traceId := event.traceId
    latencyMs := event.latencyMs
    scimActive := event.principal.bind AuditPrincipal.scimActive
    scimGroups := (event.principal.map AuditPrincipal.scimGroups).getD []
    target := event.target
    reqScopes := event.reqScopes
    authMethod := event.authMethod
    reqRoles := event.reqRoles
    sideEffects := event.sideEffects
    actingAgent := event.actingAgent
    invocationHierarchy := event.invocationHierarchy
    operation := event.operation }

/-- The row columns are stored as. A `TIMESTAMPTZ` keeps microseconds; every
    other column comes back as it was bound. -/
def storedRow (c : AuditColumns) (chainSeq : Int) (prevHash rowHash : Option String) :
    AuditLogRow :=
  { columns := { c with ts := c.ts.truncMicros }
    category := some c.category
    chainSeq := chainSeq
    prevHash := prevHash
    rowHash := rowHash
    decoded := rfl }

theorem nodup_map_append_singleton {α β : Type} {f : α → β} {l : List α} {a : α}
    (h : (l.map f).Nodup) (ha : f a ∉ l.map f) : ((l ++ [a]).map f).Nodup := by
  rw [List.map_append, List.map_singleton]
  refine List.nodup_append.mpr ⟨h, List.nodup_singleton _, fun k hk k' hk' heq => ?_⟩
  rw [List.mem_singleton.mp hk'] at heq
  exact ha (heq ▸ hk)

inductive PgError where
  | uniqueViolation
  | foreignKeyViolation
  | noDataFound
  | invalidTextRepresentation
  | invalidParameterValue
  | raiseException (message : String)
  | other
  deriving DecidableEq

/-- The JSON code outside the repository: printing and parsing a payload, the
    database's cast, and the database's text of an array or object. -/
structure ReasonJson where
  toReason : RetentionMarker → String
  fromStr : String → Option RetentionMarker
  jsonb : String → Except PgError Json
  render : Json → String

def uuidText (u : Uuid) : String :=
  let digits := (hexEncode (uuidAsBytes u)).toList
  String.ofList (digits.take 8 ++ '-' :: (digits.drop 8).take 4 ++ '-' :: (digits.drop 12).take 4
    ++ '-' :: (digits.drop 16).take 4 ++ '-' :: digits.drop 20)

def optJson {α : Type} (f : α → Json) : Option α → Json
  | none => .null
  | some a => f a

def intJson (n : Int) : Json :=
  .number (toString n)

def markerJson (m : RetentionMarker) : Json :=
  .object
    [("kind", .string m.kind),
     ("deleted_rows", .array (m.deletedRows.map (fun d =>
       .object [("prev_hash", optJson .string d.prevHash), ("row_hash", .string d.rowHash)]))),
     ("deleted_unchained_rows", .array (m.deletedUnchainedRows.map (fun d =>
       .object [("id", .string (uuidText d.id)), ("chain_seq", intJson d.chainSeq)]))),
     ("deleted_chain_seq_min", optJson intJson m.deletedChainSeqMin),
     ("deleted_chain_seq_max", optJson intJson m.deletedChainSeqMax),
     ("policy", optJson .string m.policy)]

/-- What the JSON code is taken to do: a printed payload parses to itself and
    casts to the JSON it serializes to. -/
structure ReasonJson.Faithful (J : ReasonJson) : Prop where
  fromStr_toReason : ∀ m, J.fromStr (J.toReason m) = some m
  jsonb_toReason : ∀ m, J.jsonb (J.toReason m) = .ok (markerJson m)

section Database

variable (J : ReasonJson)

/-- The operator `->>`: a field as text. A JSON `null` is a SQL `NULL`. -/
def fieldText (j : Option Json) (name : String) : Option String :=
  match j.bind (fun v => v.get name) with
  | none => none
  | some .null => none
  | some (.string s) => some s
  | some (.number literal) => some literal
  | some (.bool b) => some (if b then "true" else "false")
  | some v => some (J.render v)

/-- `jsonb_typeof(j) <> 'array'`, which a `NULL` does not satisfy. -/
def notArray : Option Json → Bool
  | none => false
  | some (.array _) => false
  | some _ => true

/-- `jsonb_array_length(j)` of a value that is an array or `NULL`. -/
def arrayLength : Option Json → Option Nat
  | some (.array items) => some items.length
  | _ => none

/-- Insert an index entry. A marker already indexed is left alone; the unique
    start and the reference to the marker row are checked. -/
def insertBridge (db : AuditTables) (e : BridgeIndexEntry) : Except PgError AuditTables :=
  if hkey : e.markerId ∈ db.bridgeIndex.map BridgeIndexEntry.markerId then .ok db
  else if hstart : (e.tenantId, startKey e.startHash)
      ∈ db.bridgeIndex.map (fun e => (e.tenantId, startKey e.startHash)) then
    .error .uniqueViolation
  else if href : e.markerId ∈ db.auditLog.map (fun r => r.columns.id) then
    .ok
      { db with
        bridgeIndex := db.bridgeIndex ++ [e]
        markerKey := nodup_map_append_singleton db.markerKey hkey
        startUnique := nodup_map_append_singleton db.startUnique hstart
        reference := by
          intro e' he'
          rcases List.mem_append.mp he' with he' | he'
          · exact db.reference e' he'
          · exact List.mem_singleton.mp he' ▸ href }
  else .error .foreignKeyViolation

/-- `audit_retention_bridge_index_marker`: read the boundaries of a marker's
    segment out of its payload and index them. -/
def auditRetentionBridgeIndexMarker (db : AuditTables) (markerId : Uuid) :
    Except PgError (AuditTables × Bool) :=
  match db.auditLog.find? (fun r => r.columns.id = markerId ∧ r.category = some RetentionMarker.KIND
      ∧ r.rowHash.isSome ∧ r.columns.reason.isSome) with
  | none => .error .noDataFound
  | some marker => match J.jsonb (marker.columns.reason.getD "") with
    | .error e => .error e
    | .ok markerReason =>
      if (fieldText J (some markerReason) "kind").any (fun k => k ≠ RetentionMarker.KIND) then
        .error (.raiseException "retention bridge index: marker kind is invalid")
      else
        let deletedRows := markerReason.get "deleted_rows"
        if notArray deletedRows then
          .error (.raiseException "retention bridge index: deleted_rows must be an array")
        else if arrayLength deletedRows = some 0 then .ok (db, false)
        else
          let startHash := fieldText J (deletedRows.bind (fun v => v.item 0)) "prev_hash"
          let endHash := fieldText J ((arrayLength deletedRows).bind (fun n =>
            deletedRows.bind (fun v => v.item (n - 1)))) "row_hash"
          if endHash.getD "" = "" then
            .error (.raiseException "retention bridge index: final row_hash is required")
          else match insertBridge db
              { markerId := markerId
                tenantId := marker.columns.tenant
                startHash := startHash
                endHash := endHash.getD "" } with
            | .error e => .error e
            | .ok db => .ok (db, true)

/-- `audit_retention_bridge_index_after_insert`: index a new marker row. A
    payload that is not a marker's is not an error here. -/
def auditRetentionBridgeIndexAfterInsert (db : AuditTables) (row : AuditLogRow) :
    Except PgError AuditTables :=
  if row.category = some RetentionMarker.KIND ∧ row.rowHash.isSome ∧ row.columns.reason.isSome then
    match auditRetentionBridgeIndexMarker J db row.columns.id with
    | .ok (db, _) => .ok db
    | .error .invalidTextRepresentation => .ok db
    | .error (.raiseException _) => .ok db
    | .error e => .error e
  else .ok db

def insertAuditLog (db : AuditTables) (row : AuditLogRow) : Except PgError AuditTables :=
  if hkey : row.columns.id ∈ db.auditLog.map (fun r => r.columns.id) then .error .uniqueViolation
  else
    auditRetentionBridgeIndexAfterInsert J
      { db with
        auditLog := db.auditLog ++ [row]
        primaryKey := nodup_map_append_singleton db.primaryKey hkey
        reference := by
          intro e he
          rw [List.map_append]
          exact List.mem_append_left _ (db.reference e he) }
      row

/-- `jsonb_array_elements(COALESCE(j, '[]'))`. -/
def arrayElements : Option Json → Except PgError (List Json)
  | none => .ok []
  | some (.array items) => .ok items
  | some _ => .error .invalidParameterValue

/-- What one supplied marker row covers: its deleted rows and its deleted
    unchained rows. -/
def markerCoverage (marker : AuditLogRow) : Except PgError (List Json × List Json) :=
  match J.jsonb (marker.columns.reason.getD "") with
  | .error e => .error e
  | .ok reason => match arrayElements (reason.get "deleted_rows"),
      arrayElements (reason.get "deleted_unchained_rows") with
    | .ok deletedRows, .ok deletedUnchainedRows => .ok (deletedRows, deletedUnchainedRows)
    | .error e, _ => .error e
    | _, .error e => .error e

/-- Whether a marker's payload names the row: a chained row by its hash, an
    unchained one by its id and sequence number. -/
def coversRow (al : AuditLogRow) (coverage : List Json × List Json) : Bool :=
  match al.rowHash with
  | none => coverage.2.any (fun deleted =>
    fieldText J (some deleted) "id" = some (uuidText al.columns.id)
      ∧ fieldText J (some deleted) "chain_seq" = some (toString al.chainSeq))
  | some rowHash =>
    coverage.1.any (fun deleted => fieldText J (some deleted) "row_hash" = some rowHash)

def auditLogSweepDelete (db : AuditTables) (tenant : String) (ids markerIds : List Uuid) :
    Except PgError (AuditTables × Nat) :=
  if ids.length = 0 then .ok (db, 0)
  else if 500 < ids.length ∨ markerIds.length = 0 ∨ ids.length < markerIds.length then
    .error (.raiseException
      ("audit_log_sweep_delete: bounded marker-coverage precondition violated: "
        ++ toString ids.length ++ " ids and " ++ toString markerIds.length ++ " markers"))
  else match (db.auditLog.filter (fun m => m.columns.id ∈ markerIds ∧ m.columns.tenant = tenant
      ∧ m.category = some RetentionMarker.KIND ∧ m.columns.reason.isSome ∧ m.rowHash.isSome)).mapM
      (markerCoverage J) with
    | .error e => .error e
    | .ok coverages =>
      let covered := db.auditLog.filter (fun al => al.columns.id ∈ ids
        ∧ al.columns.tenant = tenant ∧ coverages.any (coversRow J al) = true)
      if covered.length ≠ ids.length then
        .error (.raiseException ("audit_log_sweep_delete: marker-coverage precondition violated: "
          ++ toString covered.length ++ " of " ++ toString ids.length
          ++ " ids covered by supplied chain-bearing retention markers"))
      else
        let keep : AuditLogRow → Bool := fun r => ¬ (r.columns.tenant = tenant
          ∧ r.columns.id ∈ ids ∧ r.category ≠ some RetentionMarker.KIND)
        if href : ∀ e ∈ db.bridgeIndex,
            e.markerId ∈ (db.auditLog.filter keep).map (fun r => r.columns.id) then
          .ok
            ({ db with
               auditLog := db.auditLog.filter keep
               primaryKey := db.primaryKey.sublist (List.filter_sublist.map _)
               reference := href },
             db.auditLog.length - (db.auditLog.filter keep).length)
        -- An index entry restricts the deletion of its marker row.
        else .error .foreignKeyViolation

end Database

section Recorder

variable (sha256 : List UInt8 → List UInt8) (J : ReasonJson)

def insertEvent (db : AuditTables) (event : AuditEvent) (chainSeq : Int)
    (prevHash rowHash : Option String) : Except PgError AuditTables :=
  insertAuditLog J db (storedRow event.columns chainSeq prevHash rowHash)

def selectPrevHash (db : AuditTables) (tenantId : String) : Option String :=
  (orderedChain db tenantId).getLast?.map ChainVerifyRow.rowHash

def insertChainedEvent (db : AuditTables) (event : AuditEvent) (chainSeq : Int) :
    Except PgError AuditTables :=
  let prevHash := selectPrevHash db event.tenant
  let rowHash := computeRowHash sha256 prevHash (canonicalAuditBytesWithExt5 event.columns)
  insertEvent J db event chainSeq prevHash (some rowHash)

end Recorder

structure CandidateRow where
  id : Uuid
  chainSeq : Int
  prevHash : Option String
  rowHash : Option String
  deriving DecidableEq

def AuditLogRow.candidate (r : AuditLogRow) : CandidateRow :=
  { id := r.columns.id, chainSeq := r.chainSeq, prevHash := r.prevHash, rowHash := r.rowHash }

structure Grouping where
  segments : List (List DeletedRow)
  current : List DeletedRow
  lastRowHash : Option String

def rowContinuous (lastRowHash prevHash : Option String) : Bool :=
  match lastRowHash, prevHash with
  | some prev, some this => prev == this
  | _, _ => false

/-- Take one candidate. A chained candidate that does not follow the last one
    closes the segment under way. -/
def Grouping.push (g : Grouping) (c : CandidateRow) : Grouping :=
  match c.rowHash with
  | none => g
  | some rowHash =>
    let closes := !g.current.isEmpty && !rowContinuous g.lastRowHash c.prevHash
    { segments := if closes then g.segments ++ [g.current] else g.segments
      current := (if closes then [] else g.current)
        ++ [{ prevHash := c.prevHash, rowHash := rowHash }]
      lastRowHash := some rowHash }

def groupIntoChainSegments (candidates : List CandidateRow) : List (List DeletedRow) :=
  let g := candidates.foldl Grouping.push { segments := [], current := [], lastRowHash := none }
  if g.current.isEmpty then g.segments else g.segments ++ [g.current]

def chainSeqForRowHash (candidates : List CandidateRow) (rowHash : String) : Option Int :=
  (candidates.find? (fun c => c.rowHash = some rowHash)).map CandidateRow.chainSeq

def RETENTION_SWEEP_BATCH_ROWS : Nat :=
  500

def RETENTION_SWEEP_QUERY_ROWS : Nat :=
  RETENTION_SWEEP_BATCH_ROWS + 1

def FORBIDDEN_SWEEP_CATEGORY : String :=
  "retention_sweep"

inductive SweepSelection where
  | exactCategory (category : String)
  | remainingCategories (excludedCategories : List String)
  deriving DecidableEq

def SweepSelection.reportLabel : SweepSelection → String
  | .exactCategory category => category
  | .remainingCategories _ => "*"

/-- A category as the queries compare it: absent is an invocation. -/
def AuditLogRow.sweepCategory (r : AuditLogRow) : String :=
  r.category.getD "invocation"

def SweepSelection.selects (selection : SweepSelection) (r : AuditLogRow) : Bool :=
  match selection with
  | .exactCategory category => r.sweepCategory = category
  | .remainingCategories excludedCategories => r.sweepCategory ∉ excludedCategories

def selectCandidates (db : AuditTables) (tenantId : String) (selection : SweepSelection)
    (cutoff : OffsetDateTime) : List AuditLogRow :=
  ((db.auditLog.filter (fun r => r.columns.tenant = tenantId ∧ selection.selects r = true
    ∧ r.sweepCategory ≠ RetentionMarker.KIND
    ∧ r.columns.ts.unixTimestampNanos < cutoff.truncMicros.unixTimestampNanos)).insertionSort
      (fun a b => a.columns.ts.unixTimestampNanos ≤ b.columns.ts.unixTimestampNanos)).take
    RETENTION_SWEEP_QUERY_ROWS

structure SweepReport where
  tenantId : String
  category : String
  cutoff : OffsetDateTime
  markersWritten : Nat
  rowsDeleted : Nat
  batchLimitReached : Bool
  deriving DecidableEq

structure RetentionPolicy where
  tenantId : String
  category : String
  deleteAfterDays : Int
  createdAt : OffsetDateTime
  updatedAt : OffsetDateTime
  deriving DecidableEq

inductive PolicyGuard where
  | effective (targetCategory : String) (expectedPolicy : RetentionPolicy)
  | wildcardTenant (expectedPolicies : List RetentionPolicy)
  deriving DecidableEq

inductive SweepError where
  | sqlx (e : PgError)
  | forbiddenCategory (category : String)
  | policyChanged (tenantId scope : String)
  deriving DecidableEq

/-- Refuse a sweep whose policies are no longer the tenant's current ones,
    which the query returns ordered by category. -/
def validatePolicyGuard (current : List RetentionPolicy) (tenantId : String) :
    PolicyGuard → Except SweepError Unit
  | .effective targetCategory expectedPolicy =>
    let effective := (current.find? (fun p => p.category = targetCategory)).or
      (current.find? (fun p => p.category = "*"))
    if effective ≠ some expectedPolicy then .error (.policyChanged tenantId targetCategory)
    else .ok ()
  | .wildcardTenant expectedPolicies =>
    let expected := expectedPolicies.insertionSort (fun a b => a.category ≤ b.category)
    if current = expected then .ok () else .error (.policyChanged tenantId "*")

/-- What is drawn for one marker: a fresh id, the current instant, and the
    next value of the sequence. -/
structure MarkerStamp where
  id : Uuid
  ts : OffsetDateTime
  chainSeq : Int

def markerColumns (tenantId reason : String) (stamp : MarkerStamp) : AuditColumns :=
  { id := stamp.id
    ts := stamp.ts
    category := "retention_sweep"
    tenant := tenantId
    action := "retention.sweep"
    outcome := "success"
    principalSub := none
    principalEmail := none
    principalGroups := []
    issuer := none
    server := none
    tool := none
    riskLevel := none
    pii := none
    policyIds := []
    reason := some reason
    traceId := none
    latencyMs := none
    scimActive := none
    scimGroups := []
    target := none
    reqScopes := []
    authMethod := none
    reqRoles := []
    sideEffects := none
    actingAgent := none
    invocationHierarchy := none
    operation := none }

/-- The payload for one segment of a batch. The first marker also names the
    unchained rows. -/
def segmentPayload (tenantId label : String) (candidates : List CandidateRow) (segmentIndex : Nat)
    (segment : List DeletedRow) : RetentionMarker :=
  { kind := RetentionMarker.KIND
    deletedRows := segment
    deletedUnchainedRows :=
      if segmentIndex = 0 then
        (candidates.filter (fun c => c.rowHash.isNone)).map
          (fun c => { id := c.id, chainSeq := c.chainSeq })
      else []
    deletedChainSeqMin := segment.head?.bind (fun d => chainSeqForRowHash candidates d.rowHash)
    deletedChainSeqMax := segment.getLast?.bind (fun d => chainSeqForRowHash candidates d.rowHash)
    policy := some ("retention/" ++ tenantId ++ "/" ++ label) }

section Sweep

variable (sha256 : List UInt8 → List UInt8) (J : ReasonJson)

def writeMarker (db : AuditTables) (tenantId : String) (chainHead : Option String)
    (stamp : MarkerStamp) (payload : RetentionMarker) : Except PgError (AuditTables × String) :=
  let c := markerColumns tenantId (J.toReason payload) stamp
  let rowHash := computeRowHash sha256 chainHead (canonicalAuditBytes c)
  match insertAuditLog J db (storedRow c stamp.chainSeq chainHead (some rowHash)) with
  | .error e => .error e
  | .ok db => match auditRetentionBridgeIndexMarker J db stamp.id with
    | .error e => .error e
    | .ok (db, _) => .ok (db, rowHash)

def writeMarkers (tenantId : String) :
    List (MarkerStamp × RetentionMarker) → AuditTables → Option String →
      Except PgError AuditTables
  | [], db, _ => .ok db
  | (stamp, payload) :: rest, db, chainHead =>
    match writeMarker sha256 J db tenantId chainHead stamp payload with
    | .error e => .error e
    | .ok (db, rowHash) => writeMarkers tenantId rest db (some rowHash)

/-- The segments of a batch; a batch of unchained rows still has one, which is
    empty. -/
def batchSegments (candidates : List CandidateRow) : List (List DeletedRow) :=
  let segments := groupIntoChainSegments candidates
  if segments.isEmpty then [[]] else segments

def batchMarkers (tenantId label : String) (stamps : Nat → MarkerStamp)
    (candidates : List CandidateRow) : List (MarkerStamp × RetentionMarker) :=
  (batchSegments candidates).zipIdx.map (fun s =>
    (stamps s.2, segmentPayload tenantId label candidates s.2 s.1))

/-- Sweep a batch: write its markers after the current head, then delete its
    rows. -/
def sweepCandidates (db : AuditTables) (tenantId label : String) (cutoff : OffsetDateTime)
    (stamps : Nat → MarkerStamp) (candidates : List CandidateRow) (batchLimitReached : Bool) :
    Except PgError (AuditTables × SweepReport) :=
  if candidates.isEmpty then
    .ok (db, ⟨tenantId, label, cutoff, 0, 0, false⟩)
  else
    let markers := batchMarkers tenantId label stamps candidates
    match writeMarkers sha256 J tenantId markers db (selectPrevHash db tenantId) with
    | .error e => .error e
    | .ok db => match auditLogSweepDelete J db tenantId (candidates.map CandidateRow.id)
        (markers.map (fun m => m.1.id)) with
      | .error e => .error e
      | .ok (db, rowsDeleted) =>
        .ok (db, ⟨tenantId, label, cutoff, markers.length, rowsDeleted, batchLimitReached⟩)

def batchOf (rows : List AuditLogRow) : List CandidateRow :=
  (rows.map AuditLogRow.candidate).insertionSort (fun a b => a.chainSeq ≤ b.chainSeq)

def runRetentionSweepSelection (db : AuditTables) (tenantId : String) (selection : SweepSelection)
    (cutoff : OffsetDateTime) (current : List RetentionPolicy) (policyGuard : Option PolicyGuard)
    (stamps : Nat → MarkerStamp) : Except SweepError (AuditTables × SweepReport) :=
  match policyGuard.elim (.ok ()) (validatePolicyGuard current tenantId) with
  | .error e => .error e
  | .ok () =>
    let rows := selectCandidates db tenantId selection cutoff
    (sweepCandidates sha256 J db tenantId selection.reportLabel cutoff stamps
      (batchOf (rows.take RETENTION_SWEEP_BATCH_ROWS))
      (decide (RETENTION_SWEEP_BATCH_ROWS < rows.length))).mapError .sqlx

/-- A sweep of one category, which may not be the markers' own. -/
def runRetentionSweep (db : AuditTables) (tenantId category : String) (cutoff : OffsetDateTime)
    (stamps : Nat → MarkerStamp) : Except SweepError (AuditTables × SweepReport) :=
  if category = FORBIDDEN_SWEEP_CATEGORY then .error (.forbiddenCategory category)
  else
    runRetentionSweepSelection sha256 J db tenantId (.exactCategory category) cutoff [] none stamps

/-- A transaction on the audit tables. A sweep is given the rows it has
    selected, in any order. -/
inductive Transaction where
  | insertEvent (event : AuditEvent) (chainSeq : Int)
  | insertChainedEvent (event : AuditEvent) (chainSeq : Int)
  | sweep (tenantId label : String) (cutoff : OffsetDateTime) (stamps : Nat → MarkerStamp)
      (rows : List AuditLogRow) (batchLimitReached : Bool)

def Transaction.run (db : AuditTables) : Transaction → Except PgError AuditTables
  | .insertEvent event chainSeq => Audit.insertEvent J db event chainSeq none none
  | .insertChainedEvent event chainSeq => Audit.insertChainedEvent sha256 J db event chainSeq
  | .sweep tenantId label cutoff stamps rows batchLimitReached =>
    (sweepCandidates sha256 J db tenantId label cutoff stamps (batchOf rows)
      batchLimitReached).map Prod.fst

def Transaction.exec (db : AuditTables) (tx : Transaction) : AuditTables :=
  match tx.run sha256 J db with
  | .ok db' => db'
  | .error _ => db

end Sweep

/-- What the database and the sweep's query see to: a chained row draws a
    `chain_seq` above those of its tenant's chain, and a sweep selects distinct
    rows of its tenant that are not markers. -/
def Transaction.Admissible (db : AuditTables) : Transaction → Prop
  | .insertEvent _ _ => True
  | .insertChainedEvent event chainSeq =>
    ∀ r ∈ orderedChain db event.tenant, r.chainSeq < chainSeq
  | .sweep tenantId _ _ stamps rows _ =>
    rows.Nodup
    ∧ (∀ r ∈ rows, r ∈ db.auditLog ∧ r.columns.tenant = tenantId
        ∧ r.category ≠ some RetentionMarker.KIND)
    ∧ (∀ i, ∀ r ∈ orderedChain db tenantId, r.chainSeq < (stamps i).chainSeq)
    ∧ ∀ i j, i < j → (stamps i).chainSeq < (stamps j).chainSeq

/-- The tables that runs of transactions reach from tables without a row of
    the tenant. The transactions may be any tenant's. -/
inductive ReachableTables (sha256 : List UInt8 → List UInt8) (J : ReasonJson) (tenantId : String) :
    AuditTables → Prop
  | start (db : AuditTables) (hempty : ∀ r ∈ db.auditLog, r.columns.tenant ≠ tenantId) :
      ReachableTables sha256 J tenantId db
  | step (db : AuditTables) (tx : Transaction) (hrun : ReachableTables sha256 J tenantId db)
      (hadm : tx.Admissible db) : ReachableTables sha256 J tenantId (tx.exec sha256 J db)

end Waygate.Audit
