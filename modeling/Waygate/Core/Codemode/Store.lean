import Waygate.Core.Audit.Retention

/-!
# The Execution Journal of Code Mode

The store of durable executions, from `waygate-codemode`. The row of an execution is its
present state, the events are its history, and a worker holds a claim on a row: an owner
and an epoch, with a lease.

Each operation is one transaction whose statements lock the row they address. A
statement that waited for its row takes the row as it is then, so the operation is one
function of the tables. Only a sub-select is not taken again: when reconciliation asks
for the outcomes of calls, it sees the events of its snapshot. Which of the last events
are missing from it is an argument.

`now` is the time the transaction began. A `TIMESTAMPTZ` is a number of microseconds,
and an interval added to one does not leave the range of the type. The constraints of
the table are a field of its rows: a write that would break one is an error of the
database.

## Main definitions

* `updateExecutions`, `insertEvent`, `reconcileAbandoned`, `Starts`
* `Execution`, `Row`, `Tables`: The columns, a row with its constraints, and the tables.
* `startOrReuse`, `claim`, `resume`: How a worker gets a claim.
* `appendEvent`, `appendEffectOutcome`: The two fences of the journal.
* `Op`, `effect`, `step`: The operations.
-/

namespace Waygate

namespace Codemode

inductive ExecutionStatus where
  | submitted
  | admitted
  | running
  | waitingForApproval
  | waitingForResume
  | compensating
  | compensated
  | succeeded
  | failed
  | cancelled
  | expired
  | ambiguous
  | reconciledApplied
  | reconciledNotApplied
  deriving DecidableEq

def ExecutionStatus.isTerminal : ExecutionStatus → Bool
  | .compensated | .succeeded | .failed | .cancelled | .expired | .reconciledApplied
  | .reconciledNotApplied => true
  | _ => false

inductive ExecutionEventKind where
  | submitted
  | admitted
  | claimed
  | running
  | stepStarted
  | connectorCallStarted
  | connectorCallSucceeded
  | connectorCallFailed
  | artifactEmitted
  | waitingForApproval
  | waitingForResume
  | resumed
  | cancellationRequested
  | cancelled
  | succeeded
  | failed
  | expired
  | ambiguous
  | reconciledApplied
  | reconciledNotApplied
  | compensating
  | compensated
  deriving DecidableEq

/-- The columns of a row. `startDedupeKey` is read by `startOrReuse` only. -/
structure Execution where
  id : Uuid
  tenantId : String
  principalSub : String
  principalIssuer : Option String
  source : Option String
  sourceDigest : String
  programInput : Option Json
  executionProfile : Json
  toolSnapshot : Option Json
  sdkContractVersion : Int
  runnerContractVersion : Int
  status : ExecutionStatus
  terminalReasonCode : Option String
  resultMetadata : Option Json
  resultPayload : Option Json
  resumeContext : Option Json
  claimOwner : Option Uuid
  claimEpoch : Int
  claimExpiresAt : Option Int
  cancellationRequestedAt : Option Int
  cancellationReasonCode : Option String
  submittedAt : Int
  updatedAt : Int
  completedAt : Option Int
  retentionUntil : Int
  startDedupeKey : Option String

/-- The constraints of `codemode_executions`. -/
def Execution.Checked (e : Execution) : Prop :=
  0 ≤ e.claimEpoch
  ∧ e.claimOwner.isNone = e.claimExpiresAt.isNone
  ∧ e.status.isTerminal = e.completedAt.isSome
  ∧ (e.status ∈ [.failed, .cancelled, .expired, .ambiguous] → e.terminalReasonCode.isSome = true)
  ∧ e.startDedupeKey ≠ some ""
  ∧ e.cancellationReasonCode ∈
    [none, some "cancelled_by_client", some "cancelled_by_operator"]

instance (e : Execution) : Decidable e.Checked :=
  inferInstanceAs (Decidable (_ ∧ _ ∧ _ ∧ (_ → _) ∧ _ ∧ _))

structure Row where
  execution : Execution
  checked : execution.Checked

structure ExecutionEvent where
  executionId : Uuid
  tenantId : String
  kind : ExecutionEventKind
  stepNumber : Option Int
  callId : Option Uuid
  attempt : Option Int
  detail : Json
  createdAt : Int

structure NewExecutionEvent where
  kind : ExecutionEventKind
  stepNumber : Option Int
  callId : Option Uuid
  attempt : Option Int
  detail : Json

structure SourceLocator where
  tenantId : String
  principalSub : String
  principalIssuer : String
  sourceLocator : String
  sourceDigest : String
  expiresAt : Int

structure Tables where
  executions : List Row
  events : List ExecutionEvent
  locators : List SourceLocator

def Tables.empty : Tables :=
  { executions := [], events := [], locators := [] }

inductive StoreError where
  | conflict
  | notFound
  | database
  deriving DecidableEq

structure ExecutionClaim where
  executionId : Uuid
  tenantId : String
  owner : Uuid
  epoch : Int
  deriving DecidableEq

structure NewExecution where
  id : Uuid
  tenantId : String
  principalSub : String
  principalIssuer : String
  source : Option String
  sourceDigest : String
  programInput : Option Json
  executionProfile : Json
  sdkContractVersion : Int
  runnerContractVersion : Int
  retentionUntil : Int

/-- A duration is in whole seconds: nothing below reads a finer part. -/
structure StartExecution where
  execution : NewExecution
  dedupeKey : String
  sourceLocator : Option String
  repeatAfter : Option Uuid
  owner : Uuid
  lease : Nat
  source : String
  toolSnapshot : Json

inductive StartExecutionResult where
  | claimed (execution : Execution) (claim : ExecutionClaim)
  | existing (execution : Execution)
  | repeatUnavailable
  | repeatNotTerminal (execution : Execution)

structure ResumeExecution where
  tenantId : String
  principalSub : String
  principalIssuer : String
  id : Uuid
  owner : Uuid
  lease : Nat
  expectedStatus : ExecutionStatus
  resumeContext : Json
  expectedClaimEpoch : Int
  expectedResumeContext : Option Json
  expectedSourceDigest : String
  expectedToolSnapshot : Json
  expectedSdkContractVersion : Int
  expectedRunnerContractVersion : Int
  nextSdkContractVersion : Int
  nextRunnerContractVersion : Int

structure ExecutionTransition where
  origin : List ExecutionStatus
  target : ExecutionStatus
  event : NewExecutionEvent
  terminalReasonCode : Option String
  resultMetadata : Option Json
  resultPayload : Option Json
  resumeContext : Option Json

def RETENTION_SWEEP_BATCH_SIZE : Nat := 100

def MAX_SOURCE_LOCATORS_PER_OWNER : Nat := 256

def MAX_SOURCE_LOCATORS_PER_TENANT : Nat := 4096

def leaseSeconds (lease : Nat) : Int :=
  min (max lease 1) 9223372036854775807

/-- `now() + ($n * interval '1 second')`. -/
def expiry (lease : Nat) (now : Int) : Int :=
  now + leaseSeconds lease * 1000000

/-- `document->>'name' = 'true'`. -/
def textIsTrue (document : Json) (name : String) : Bool :=
  match document.get name with
  | some (.bool b) => b
  | some (.string s) => s == "true"
  | _ => false

/-- A field put in its place among fields in order; it replaces one of its name. -/
def insertField (name : String) (value : Json) : List (String × Json) → List (String × Json)
  | [] => [(name, value)]
  | field :: rest =>
    if field.1 = name then (name, value) :: rest
    else if name < field.1 then (name, value) :: field :: rest
    else field :: insertField name value rest

def digitsValue (digits : List Char) : Nat :=
  digits.foldl (fun n c => n * 10 + (c.toNat - '0'.toNat)) 0

/-- A number in the form that all its literals share: digits that end in none of
    zero, and a power of ten. -/
def numeric (literal : String) : String :=
  let unsigned := literal.toList.dropWhile (· == '-')
  let power := (unsigned.dropWhile (fun c => c != 'e' && c != 'E')).drop 1
  let decimal := unsigned.takeWhile (fun c => c != 'e' && c != 'E')
  let fraction := (decimal.dropWhile (· != '.')).drop 1
  let digits := decimal.filter Char.isDigit
  let zeros := (digits.reverse.takeWhile (· == '0')).length
  let exponent : Int := digitsValue (power.filter Char.isDigit)
  let exponent := (if power.head? == some '-' then -exponent else exponent) - fraction.length + zeros
  let value := digitsValue (digits.take (digits.length - zeros))
  if value = 0 then "0"
  else (if literal.toList.head? == some '-' then "-" else "") ++ toString value ++ "e"
    ++ toString exponent

mutual

/-- The form `jsonb` compares a value in: the fields of an object are in order, and a
    number is its value. -/
def jsonb : Json → Json
  | .number literal => .number (numeric literal)
  | .array items => .array (jsonbItems items)
  | .object fields => .object (jsonbFields fields)
  | j => j

def jsonbItems : List Json → List Json
  | [] => []
  | item :: rest => jsonb item :: jsonbItems rest

def jsonbFields : List (String × Json) → List (String × Json)
  | [] => []
  | (name, value) :: rest => insertField name (jsonb value) (jsonbFields rest)

end

/-- The equality of `jsonb`. -/
def jsonbEq (a b : Json) : Bool :=
  (jsonb a).text == (jsonb b).text

/-- `a IS NOT DISTINCT FROM b`. -/
def notDistinct : Option Json → Option Json → Bool
  | none, none => true
  | some a, some b => jsonbEq a b
  | _, _ => false

/-- `a = b`, which is not true of a null. -/
def equals (a : Option Json) (b : Json) : Bool :=
  a.any (fun a => jsonbEq a b)

section Rows

variable (now : Int) (e : Execution)

namespace Execution

/-- `tenant_id = $1 AND id = $2`. -/
def addressed (tenantId : String) (id : Uuid) : Bool :=
  e.tenantId == tenantId && e.id == id

/-- `claim_expires_at > now()`. -/
def live : Bool :=
  e.claimExpiresAt.any (fun t => decide (now < t))

/-- `claim_expires_at <= now()`. -/
def lapsed : Bool :=
  e.claimExpiresAt.any (fun t => decide (t ≤ now))

/-- `claim_owner IS NULL OR claim_expires_at <= now()`. -/
def unattended : Bool :=
  e.claimOwner.isNone || e.lapsed now

def held (claim : ExecutionClaim) : Bool :=
  e.addressed claim.tenantId claim.executionId && e.claimOwner == some claim.owner
    && e.claimEpoch == claim.epoch

/-- `retention_until > now()`. -/
def retained : Bool :=
  decide (now < e.retentionUntil)

def touched : Execution :=
  { e with updatedAt := now }

end Execution

end Rows

section Statements

variable (s : Tables)

/-- `UPDATE codemode_executions`, of the rows that meet a condition. It returns
    the first of them as it is afterwards. -/
def updateExecutions (guard : Execution → Bool) (set : Execution → Execution)
    (now : Int) : Except StoreError (Option Execution × Tables) :=
  let written := fun e => (set e).touched now
  if ∀ r ∈ s.executions, guard r.execution = true → (written r.execution).Checked then
    .ok (((s.executions.find? (fun r => guard r.execution)).map (fun r => written r.execution)),
      { s with executions := s.executions.map (fun r =>
          if h : guard r.execution = true ∧ (written r.execution).Checked then
            { execution := written r.execution, checked := h.2 } else r) })
  else .error .database

def selectExecution (guard : Execution → Bool) : Option Execution :=
  (s.executions.find? (fun r => guard r.execution)).map Row.execution

/-- The primary key and the constraints may refuse the row. -/
def insertExecution (e : Execution) : Except StoreError Tables :=
  if s.executions.any (fun r => r.execution.id == e.id) then .error .conflict
  else if h : e.Checked then
    .ok { s with executions := s.executions ++ [{ execution := e, checked := h }] }
  else .error .database

/-- An event is of a row that exists, and its numbers are positive. -/
def insertEvent (executionId : Uuid) (tenantId : String) (event : NewExecutionEvent)
    (now : Int) : Except StoreError Tables :=
  if event.stepNumber.all (fun n => decide (0 < n)) && event.attempt.all (fun n => decide (0 < n))
      && s.executions.any (fun r => r.execution.addressed tenantId executionId) then
    .ok { s with events := s.events ++
      [{ executionId := executionId
         tenantId := tenantId
         kind := event.kind
         stepNumber := event.stepNumber
         callId := event.callId
         attempt := event.attempt
         detail := event.detail
         createdAt := now }] }
  else .error .database

def insertEvents (executionId : Uuid) (tenantId : String) (now : Int) :
    List NewExecutionEvent → Tables → Except StoreError Tables
  | [], s => .ok s
  | event :: rest, s => do
      let s ← insertEvent s executionId tenantId event now
      insertEvents executionId tenantId now rest s

def plainEvent (kind : ExecutionEventKind) (detail : Json) : NewExecutionEvent :=
  { kind := kind, stepNumber := none, callId := none, attempt := none, detail := detail }

end Statements

section Retention

structure Skipped where
  executions : List Uuid
  locators : List String

/-- `ORDER BY retention_until, id`. -/
def expiresBefore (a b : Execution) : Prop :=
  a.retentionUntil < b.retentionUntil ∨ (a.retentionUntil = b.retentionUntil ∧ a.id ≤ b.id)

instance : DecidableRel expiresBefore := fun a b =>
  inferInstanceAs (Decidable (a.retentionUntil < b.retentionUntil
    ∨ (a.retentionUntil = b.retentionUntil ∧ a.id ≤ b.id)))

/-- The rows one sweep deletes: the first that meet a condition and are not
    locked. -/
def batch (skipped : List Uuid) (p : Execution → Bool) (rows : List Row) : List Uuid :=
  ((((rows.map Row.execution).filter (fun e => p e && !skipped.contains e.id)).insertionSort
    expiresBefore).take RETENTION_SWEEP_BATCH_SIZE).map Execution.id

/-- `DELETE FROM codemode_executions`, and the events with their execution. -/
def deleteExecutions (s : Tables) (ids : List Uuid) : Tables :=
  { s with
    executions := s.executions.filter (fun r => !ids.contains r.execution.id)
    events := s.events.filter (fun event => !ids.contains event.executionId) }

def deleteLocators (s : Tables) (skipped : List String) (now : Int) : Tables :=
  let expired := (((s.locators.filter (fun l =>
      decide (l.expiresAt ≤ now) && !skipped.contains l.sourceLocator)).insertionSort
    (fun a b => a.expiresAt ≤ b.expiresAt)).take RETENTION_SWEEP_BATCH_SIZE)
  { s with locators := s.locators.filter (fun l => !expired.any (fun x =>
      x.tenantId == l.tenantId && x.principalIssuer == l.principalIssuer
      && x.principalSub == l.principalSub && x.sourceLocator == l.sourceLocator)) }

/-- What is past its retention and finished, and then what is past it and has no
    live claim. Retained sources and principal slots are in tables of their own. -/
def purgeExpiredState (s : Tables) (skipped : Skipped) (now : Int) : Tables :=
  let s := deleteLocators s skipped.locators now
  let s := deleteExecutions s (batch skipped.executions
    (fun e => !e.retained now && e.completedAt.isSome) s.executions)
  deleteExecutions s (batch skipped.executions
    (fun e => !e.retained now && e.completedAt.isNone && e.unattended now) s.executions)

end Retention

section Operations

variable (s : Tables) (now : Int)

def NewExecution.row (new : NewExecution) (now : Int) : Execution :=
  { id := new.id
    tenantId := new.tenantId
    principalSub := new.principalSub
    principalIssuer := some new.principalIssuer
    source := new.source
    sourceDigest := new.sourceDigest
    programInput := new.programInput
    executionProfile := new.executionProfile
    toolSnapshot := none
    sdkContractVersion := new.sdkContractVersion
    runnerContractVersion := new.runnerContractVersion
    status := .submitted
    terminalReasonCode := none
    resultMetadata := none
    resultPayload := none
    resumeContext := none
    claimOwner := none
    claimEpoch := 0
    claimExpiresAt := none
    cancellationRequestedAt := none
    cancellationReasonCode := none
    submittedAt := now
    updatedAt := now
    completedAt := none
    retentionUntil := new.retentionUntil
    startDedupeKey := none }

def submittedEvent (new : NewExecution) : NewExecutionEvent :=
  plainEvent .submitted (.object
    [("source_digest", .string new.sourceDigest),
     ("sdk_contract_version", .number (toString new.sdkContractVersion)),
     ("runner_contract_version", .number (toString new.runnerContractVersion))])

def submit (new : NewExecution) (skipped : Skipped) : Except StoreError (Execution × Tables) := do
  let s ← insertExecution (purgeExpiredState s skipped now) (new.row now)
  let s ← insertEvent s new.id new.tenantId (submittedEvent new) now
  .ok (new.row now, s)

def digestText (text : String) : Bool :=
  text.length == 64 && text.toList.all (fun c => c.isDigit || ('a' ≤ c && c ≤ 'f'))

/-- A locator of an owner is bound to one digest, and an owner and a tenant have a
    bounded number of live ones. -/
def bindSourceLocatorRow (tenantId principalSub principalIssuer locator digest : String)
    (expiresAt : Int) : Except StoreError Tables :=
  let current := s.locators.filter (fun l => l.tenantId == tenantId && decide (now < l.expiresAt))
  let owned := fun l : SourceLocator =>
    l.principalSub == principalSub && l.principalIssuer == principalIssuer
  let tenantCount := current.countP (fun l => !(owned l && l.sourceLocator == locator))
  let ownerCount := current.countP (fun l => owned l && l.sourceLocator != locator)
  let key := fun l : SourceLocator =>
    l.tenantId == tenantId && owned l && l.sourceLocator == locator
  if MAX_SOURCE_LOCATORS_PER_TENANT < tenantCount + 1
      || MAX_SOURCE_LOCATORS_PER_OWNER < ownerCount + 1 then .error .conflict
  else if !(digestText locator && digestText digest) then .error .database
  else match s.locators.find? key with
    | none => .ok { s with locators := s.locators ++
        [{ tenantId := tenantId
           principalSub := principalSub
           principalIssuer := principalIssuer
           sourceLocator := locator
           sourceDigest := digest
           expiresAt := expiresAt }] }
    | some bound =>
      if bound.sourceDigest == digest then
        .ok { s with locators := s.locators.map (fun l =>
          if key l then { l with expiresAt := max l.expiresAt expiresAt } else l) }
      else .error .conflict

def bindSourceLocatorTx (new : NewExecution) : Option String → Except StoreError Tables
  | none => .ok s
  | some locator => bindSourceLocatorRow s now new.tenantId new.principalSub new.principalIssuer
      locator new.sourceDigest new.retentionUntil

def StartExecution.matching (start : StartExecution) (e : Execution) : Bool :=
  e.tenantId == start.execution.tenantId && e.principalSub == start.execution.principalSub
    && e.principalIssuer == some start.execution.principalIssuer
    && e.startDedupeKey == some start.dedupeKey
    && e.sourceDigest == start.execution.sourceDigest
    && jsonbEq e.executionProfile start.execution.executionProfile && e.retained now

/-- `ORDER BY submitted_at DESC, id DESC`: which row comes first. -/
def Execution.newer (a b : Execution) : Bool :=
  decide (b.submittedAt < a.submittedAt) || (a.submittedAt == b.submittedAt && decide (b.id < a.id))

def newest : List Execution → Option Execution
  | [] => none
  | e :: rest =>
    match newest rest with
    | none => some e
    | some m => some (if m.newer e then m else e)

def StartExecution.row (start : StartExecution) (now : Int) : Execution :=
  { start.execution.row now with
    source := some start.source
    toolSnapshot := some start.toolSnapshot
    status := .running
    startDedupeKey := some start.dedupeKey
    claimOwner := some start.owner
    claimEpoch := 1
    claimExpiresAt := some (expiry start.lease now) }

def claimedDetail (owner : Uuid) (epoch : Int) : Json :=
  .object [("owner", .string (Audit.uuidText owner)), ("epoch", .number (toString epoch))]

def Execution.claimed (e : Execution) (owner : Uuid) : ExecutionClaim :=
  { executionId := e.id, tenantId := e.tenantId, owner := owner, epoch := e.claimEpoch }

def admittedEvents (owner : Uuid) (epoch : Int) : List NewExecutionEvent :=
  [plainEvent .admitted (.object []), plainEvent .claimed (claimedDetail owner epoch),
    plainEvent .running (.object [])]

def createStarted (start : StartExecution) : Except StoreError (StartExecutionResult × Tables) := do
  let row := start.row now
  let s ← insertExecution s row
  let s ← bindSourceLocatorTx s now start.execution start.sourceLocator
  let s ← insertEvents row.id row.tenantId now
    (submittedEvent start.execution :: admittedEvents start.owner row.claimEpoch) s
  .ok (.claimed row (row.claimed start.owner), s)

def reuseStarted (start : StartExecution) (latest : Execution) :
    Except StoreError (StartExecutionResult × Tables) := do
  let s ← bindSourceLocatorTx s now start.execution start.sourceLocator
  .ok (.existing latest, s)

def startOrReuse (start : StartExecution) (skipped : Skipped) :
    Except StoreError (StartExecutionResult × Tables) :=
  let s := purgeExpiredState s skipped now
  let latest := newest ((s.executions.map Row.execution).filter (start.matching now))
  match latest, start.repeatAfter with
  | some latest, none => reuseStarted s now start latest
  | some latest, some id =>
    if latest.id = id then
      if latest.status.isTerminal then createStarted s now start
      else .ok (.repeatNotTerminal latest, s)
    else match selectExecution s (fun e => start.matching now e && e.id == id) with
      | none => .ok (.repeatUnavailable, s)
      | some target =>
        if target.status.isTerminal then reuseStarted s now start latest
        else .ok (.repeatNotTerminal target, s)
  | none, some _ => .ok (.repeatUnavailable, s)
  | none, none => createStarted s now start

def whenUpdated {α : Type} (updated : Except StoreError (Option Execution × Tables)) (missing : α)
    (body : Execution → Tables → Except StoreError (α × Tables)) :
    Except StoreError (α × Tables) := do
  match ← updated with
  | (some e, s') => body e s'
  | (none, _) => .ok (missing, s)

def claim (tenantId : String) (id owner : Uuid) (lease : Nat) (source : String)
    (toolSnapshot : Json) : Except StoreError (Option (Execution × ExecutionClaim) × Tables) :=
  whenUpdated s
    (updateExecutions s
      (fun e => e.addressed tenantId id && e.status == .submitted && e.claimOwner.isNone)
      (fun e => { e with
        status := .running
        source := some source
        toolSnapshot := some toolSnapshot
        claimOwner := some owner
        claimEpoch := e.claimEpoch + 1
        claimExpiresAt := some (expiry lease now) }) now)
    none
    (fun e s => do
      let s ← insertEvents id tenantId now (admittedEvents owner e.claimEpoch) s
      .ok (some (e, ⟨id, tenantId, owner, e.claimEpoch⟩), s))

def Execution.withLease (lease : Nat) (now : Int) (e : Execution) : Execution :=
  { e with claimExpiresAt := some (expiry lease now) }

/-- `append_event` and `renew` ask that the claim is live and not cancelled. -/
def Execution.working (claim : ExecutionClaim) (now : Int) (e : Execution) : Bool :=
  e.held claim && e.live now && e.cancellationRequestedAt.isNone && e.completedAt.isNone

/-- The outcome of an effect, and the lease while it is awaited, ask less. -/
def Execution.unfinished (claim : ExecutionClaim) (e : Execution) : Bool :=
  e.held claim && e.completedAt.isNone

def renew (claim : ExecutionClaim) (lease : Nat) : Except StoreError (Bool × Tables) := do
  let (row, s) ← updateExecutions s (Execution.working claim now) (Execution.withLease lease now)
    now
  .ok (row.isSome, s)

def renewEffectLease (claim : ExecutionClaim) (lease : Nat) :
    Except StoreError (Bool × Tables) := do
  let (row, s) ← updateExecutions s (Execution.unfinished claim) (Execution.withLease lease now)
    now
  .ok (row.isSome, s)

/-- The row is as the caller has read it, and waits. -/
def ResumeExecution.expected (r : ResumeExecution) (now : Int) (e : Execution) : Bool :=
  e.addressed r.tenantId r.id && e.principalSub == r.principalSub
    && e.principalIssuer == some r.principalIssuer && e.status == r.expectedStatus
    && e.claimOwner.isNone && e.cancellationRequestedAt.isNone && e.source.isSome
    && e.sourceDigest == r.expectedSourceDigest && equals e.toolSnapshot r.expectedToolSnapshot
    && e.sdkContractVersion == r.expectedSdkContractVersion
    && e.runnerContractVersion == r.expectedRunnerContractVersion && e.completedAt.isNone
    && e.retained now && e.claimEpoch == r.expectedClaimEpoch
    && notDistinct e.resumeContext r.expectedResumeContext

def resume (r : ResumeExecution) :
    Except StoreError (Option (Execution × ExecutionClaim) × Tables) :=
  whenUpdated s
    (updateExecutions s (r.expected now)
      (fun e => { e with
        status := .running
        resumeContext := some r.resumeContext
        claimOwner := some r.owner
        claimEpoch := e.claimEpoch + 1
        claimExpiresAt := some (expiry r.lease now)
        terminalReasonCode := none
        sdkContractVersion := r.nextSdkContractVersion
        runnerContractVersion := r.nextRunnerContractVersion }) now)
    none
    (fun e s => do
      let s ← insertEvents r.id r.tenantId now
        [plainEvent .claimed (claimedDetail r.owner e.claimEpoch),
          plainEvent .resumed (.object [("epoch", .number (toString e.claimEpoch))]),
          plainEvent .running (.object [])] s
      .ok (some (e, ⟨r.id, r.tenantId, r.owner, e.claimEpoch⟩), s))

def appendFenced (fence : Execution → Bool) (claim : ExecutionClaim)
    (event : NewExecutionEvent) : Except StoreError (Bool × Tables) :=
  match selectExecution s fence with
  | none => .ok (false, s)
  | some _ => do
      let s ← insertEvent s claim.executionId claim.tenantId event now
      .ok (true, s)

def appendEvent (claim : ExecutionClaim) (event : NewExecutionEvent) :
    Except StoreError (Bool × Tables) :=
  appendFenced s now (Execution.working claim now) claim event

def appendEffectOutcome (claim : ExecutionClaim) (event : NewExecutionEvent) :
    Except StoreError (Bool × Tables) :=
  appendFenced s now (Execution.unfinished claim) claim event

def releasesClaim (target : ExecutionStatus) : Bool :=
  target.isTerminal || target == .waitingForApproval || target == .waitingForResume

def ExecutionTransition.apply (t : ExecutionTransition) (now : Int) (e : Execution) :
    Execution :=
  { e with
    status := t.target
    terminalReasonCode := t.terminalReasonCode
    resultMetadata := t.resultMetadata
    resultPayload := t.resultPayload
    resumeContext := t.resumeContext
    completedAt := if t.target.isTerminal then some now else none
    claimOwner := if releasesClaim t.target then none else e.claimOwner
    claimExpiresAt := if releasesClaim t.target then none else e.claimExpiresAt }

def ExecutionTransition.allowed (t : ExecutionTransition) (claim : ExecutionClaim)
    (now : Int) (e : Execution) : Bool :=
  e.held claim && e.live now && t.origin.contains e.status
    && (t.target == .cancelled || e.cancellationRequestedAt.isNone) && e.completedAt.isNone

def transition (claim : ExecutionClaim) (t : ExecutionTransition) :
    Except StoreError (Option Execution × Tables) :=
  whenUpdated s (updateExecutions s (t.allowed claim now) (t.apply now) now) none
    (fun e s => do
      let s ← insertEvent s claim.executionId claim.tenantId t.event now
      .ok (some e, s))

def failSubmission (tenantId : String) (id : Uuid) (event : NewExecutionEvent)
    (reasonCode : String) : Except StoreError (Option Execution × Tables) :=
  whenUpdated s
    (updateExecutions s
      (fun e => e.addressed tenantId id && e.status == .submitted && e.claimOwner.isNone
        && e.claimExpiresAt.isNone && e.completedAt.isNone)
      (fun e => { e with
        status := .failed
        terminalReasonCode := some reasonCode
        completedAt := some now
        claimOwner := none
        claimExpiresAt := none }) now)
    none
    (fun e s => do
      let s ← insertEvent s id tenantId event now
      .ok (some e, s))

/-- A row without a live claim is finished at once; otherwise its worker is left
    to finish it. The first request is the one that is attributed. -/
def Execution.cancel (reasonCode : String) (now : Int) (e : Execution) : Execution :=
  let first := e.cancellationRequestedAt.isNone
  { e with
    cancellationReasonCode := if first then some reasonCode else e.cancellationReasonCode
    cancellationRequestedAt := some (e.cancellationRequestedAt.getD now)
    status := if e.unattended now then .cancelled else e.status
    terminalReasonCode := if e.unattended now then
        some (e.cancellationReasonCode.getD (if first then reasonCode else "cancelled_by_client"))
      else e.terminalReasonCode
    completedAt := if e.unattended now then some now else e.completedAt
    claimOwner := if e.unattended now then none else e.claimOwner
    claimExpiresAt := if e.unattended now then none else e.claimExpiresAt }

/-- The events of a cancellation. The notification of its worker is no part of the
    tables. -/
def cancelEvents (first : Bool) (reasonCode : String) (detail : Json) (e : Execution) :
    List NewExecutionEvent :=
  (if first then [plainEvent .cancellationRequested detail] else [])
  ++ (if e.status == .cancelled then
      [plainEvent .cancelled (.object
        [("reason_code", .string (e.terminalReasonCode.getD reasonCode))])] else [])

/-- An owner is a subject and an issuer; an operator has the rows of the tenant. -/
def cancelScoped (tenantId : String) (id : Uuid) (owner : Option (String × String))
    (reasonCode : String) (detail : Json) : Except StoreError (Option Execution × Tables) :=
  let visible := fun e : Execution => e.addressed tenantId id
    && owner.all (fun o => e.principalSub == o.1 && e.principalIssuer == some o.2)
  match selectExecution s visible with
  | none => .ok (none, s)
  | some execution =>
    if execution.status.isTerminal then .ok (some execution, s)
    else whenUpdated s
      (updateExecutions s (fun e => e.addressed tenantId id && e.completedAt.isNone)
        (Execution.cancel reasonCode now) now)
      none
      (fun e s => do
        let s ← insertEvents id tenantId now
          (cancelEvents execution.cancellationRequestedAt.isNone reasonCode detail e) s
        .ok (some e, s))

def requestCancellation (tenantId principalSub principalIssuer : String) (id : Uuid) :
    Except StoreError (Option Execution × Tables) :=
  cancelScoped s now tenantId id (some (principalSub, principalIssuer)) "cancelled_by_client"
    (.object [])

def requestCancellationForOperator (tenantId : String) (id : Uuid) (operatorSub : String) :
    Except StoreError (Option Execution × Tables) :=
  cancelScoped s now tenantId id none "cancelled_by_operator"
    (.object [("requested_by", .string "operator"), ("operator_sub", .string operatorSub)])

def denyWaitingApproval (tenantId : String) (id : Uuid) (approver : String)
    (reason : Option String) (expectedApproval : Option Json) : Except StoreError (Bool × Tables) :=
  whenUpdated s
    (updateExecutions s
      (fun e => e.addressed tenantId id && e.status == .waitingForApproval
        && expectedApproval.all (fun expected =>
          equals (e.resumeContext.bind (fun c => c.get "approval")) expected)
        && e.claimOwner.isNone && e.cancellationRequestedAt.isNone && e.completedAt.isNone
        && e.retained now)
      (fun e => { e with
        status := .failed
        terminalReasonCode := some "approval_denied"
        completedAt := some now }) now)
    false
    (fun _ s => do
      let s ← insertEvent s id tenantId (plainEvent .failed (.object
        [("reason_code", .string "approval_denied"), ("approver", .string approver),
         ("reason", Json.ofOption .string reason)])) now
      .ok (true, s))

def ExecutionEvent.of (event : ExecutionEvent) (e : Execution) : Bool :=
  event.tenantId == e.tenantId && event.executionId == e.id

def ExecutionEvent.startsEffect (event : ExecutionEvent) : Bool :=
  event.kind == .connectorCallStarted && textIsTrue event.detail "side_effects"

def ExecutionEvent.endedBy (started outcome : ExecutionEvent) : Bool :=
  outcome.tenantId == started.tenantId && outcome.executionId == started.executionId
    && outcome.callId == started.callId && outcome.attempt == started.attempt
    && (outcome.kind == .connectorCallSucceeded || outcome.kind == .connectorCallFailed)

def outcomeUnknown (events : List ExecutionEvent) (e : Execution) : Bool :=
  events.any (fun started => started.of e && started.startsEffect
    && !events.any (fun outcome => started.endedBy outcome))

def Execution.resumable (now : Int) (e : Execution) : Bool :=
  textIsTrue e.executionProfile "resumable" && e.source.isSome && e.toolSnapshot.isSome
    && e.retained now

def Execution.expiryReason (events : List ExecutionEvent) (lapsedReason : String)
    (now : Int) (e : Execution) : String :=
  if !e.retained now then "retention_expired"
  else if e.status == .submitted then "worker_never_claimed"
  else if outcomeUnknown events e then "effect_outcome_unknown"
  else lapsedReason

def Execution.reconcile (events : List ExecutionEvent) (lapsedReason : String) (now : Int)
    (e : Execution) : Execution :=
  { e with
    status := if e.resumable now then .waitingForResume else .expired
    terminalReasonCode := if e.resumable now then none
      else some (e.expiryReason events lapsedReason now)
    resumeContext := if e.resumable now then
        some (e.resumeContext.getD (.object [("checkpoint", .null)]))
      else e.resumeContext
    completedAt := if e.resumable now then none else some now
    claimOwner := none
    claimExpiresAt := none }

def Execution.abandoned (grace : Nat) (now : Int) (e : Execution) : Bool :=
  (e.status == .submitted && e.claimOwner.isNone
      && decide (e.submittedAt ≤ now - leaseSeconds grace * 1000000))
    || (e.status == .running && e.claimOwner.isSome && e.lapsed now)
    || ((e.status == .waitingForApproval || e.status == .waitingForResume)
      && e.claimOwner.isNone && !e.retained now)

def Execution.owned (tenantId principalSub principalIssuer : String) (id : Uuid)
    (e : Execution) : Bool :=
  e.addressed tenantId id && e.principalSub == principalSub
    && e.principalIssuer == some principalIssuer

def reconciledEvent (e : Execution) : NewExecutionEvent :=
  if e.status == .waitingForResume then
    plainEvent .waitingForResume (.object [("reason_code", .string "worker_interrupted")])
  else plainEvent .expired (.object
    [("reason_code", .string (e.terminalReasonCode.getD ""))])

/-- End the execution if it is abandoned, or return it as it is. -/
def reconcileAbandonedIn (tenantId principalSub principalIssuer : String) (id : Uuid)
    (grace : Nat) (lapsedReason : String) (seen : List ExecutionEvent) :
    Except StoreError (Option Execution × Tables) := do
  match ← updateExecutions s
      (fun e => e.owned tenantId principalSub principalIssuer id && e.completedAt.isNone
        && e.abandoned grace now)
      (Execution.reconcile seen lapsedReason now) now with
  | (some e, s') =>
    let s' ← insertEvent s' id tenantId (reconciledEvent e) now
    .ok (some e, s')
  | (none, s') =>
    .ok (selectExecution s' (Execution.owned tenantId principalSub principalIssuer id), s')

/-- The last events may have been committed while the statement waited for its row. -/
def reconcileAbandoned (tenantId principalSub principalIssuer : String) (id : Uuid)
    (grace unseen : Nat) : Except StoreError (Option Execution × Tables) :=
  reconcileAbandonedIn s now tenantId principalSub principalIssuer id grace "worker_lease_expired"
    (s.events.take (s.events.length - unseen))

/-- The claim ends now, and the execution is then reconciled. The row is locked before
    the second statement takes its snapshot. -/
def interruptClaimed (claim : ExecutionClaim) (principalSub principalIssuer : String) :
    Except StoreError (Option Execution × Tables) :=
  whenUpdated s
    (updateExecutions s
      (fun e => e.held claim && e.status == .running && e.completedAt.isNone)
      (fun e => { e with claimExpiresAt := some now }) now)
    none
    (fun _ s => reconcileAbandonedIn s now claim.tenantId principalSub principalIssuer
      claim.executionId 0 "worker_interrupted" s.events)

end Operations

inductive Op where
  | purgeExpiredState (skipped : Skipped)
  | submit (new : NewExecution) (skipped : Skipped)
  | startOrReuse (start : StartExecution) (skipped : Skipped)
  | claim (tenantId : String) (id owner : Uuid) (lease : Nat) (source : String)
      (toolSnapshot : Json)
  | renew (claim : ExecutionClaim) (lease : Nat)
  | renewEffectLease (claim : ExecutionClaim) (lease : Nat)
  | resume (r : ResumeExecution)
  | appendEvent (claim : ExecutionClaim) (event : NewExecutionEvent)
  | appendEffectOutcome (claim : ExecutionClaim) (event : NewExecutionEvent)
  | transition (claim : ExecutionClaim) (t : ExecutionTransition)
  | failSubmission (tenantId : String) (id : Uuid) (event : NewExecutionEvent)
      (reasonCode : String)
  | requestCancellation (tenantId principalSub principalIssuer : String) (id : Uuid)
  | requestCancellationForOperator (tenantId : String) (id : Uuid) (operatorSub : String)
  | denyWaitingApproval (tenantId : String) (id : Uuid) (approver : String)
      (reason : Option String) (expectedApproval : Option Json)
  | reconcileAbandoned (tenantId principalSub principalIssuer : String) (id : Uuid)
      (grace unseen : Nat)
  | interruptClaimed (claim : ExecutionClaim) (principalSub principalIssuer : String)

inductive Response where
  | failed (error : StoreError)
  | swept
  | submitted (execution : Execution)
  | started (result : StartExecutionResult)
  | claimed (granted : Option (Execution × ExecutionClaim))
  | accepted (accepted : Bool)
  | current (execution : Option Execution)

def granted : Response → Option ExecutionClaim
  | .claimed (some (_, claim)) => some claim
  | .started (.claimed _ claim) => some claim
  | _ => none

def commit {α : Type} (s : Tables) (answer : α → Response) :
    Except StoreError (α × Tables) → Response × Tables
  | .ok (a, s') => (answer a, s')
  | .error error => (.failed error, s)

def effect (s : Tables) (now : Int) : Op → Response × Tables
  | .purgeExpiredState skipped => (.swept, purgeExpiredState s skipped now)
  | .submit new skipped => commit s .submitted (submit s now new skipped)
  | .startOrReuse start skipped => commit s .started (startOrReuse s now start skipped)
  | .claim tenantId id owner lease source toolSnapshot =>
    commit s .claimed (claim s now tenantId id owner lease source toolSnapshot)
  | .renew claim lease => commit s .accepted (renew s now claim lease)
  | .renewEffectLease claim lease => commit s .accepted (renewEffectLease s now claim lease)
  | .resume r => commit s .claimed (resume s now r)
  | .appendEvent claim event => commit s .accepted (appendEvent s now claim event)
  | .appendEffectOutcome claim event => commit s .accepted (appendEffectOutcome s now claim event)
  | .transition claim t => commit s .current (transition s now claim t)
  | .failSubmission tenantId id event reasonCode =>
    commit s .current (failSubmission s now tenantId id event reasonCode)
  | .requestCancellation tenantId principalSub principalIssuer id =>
    commit s .current (requestCancellation s now tenantId principalSub principalIssuer id)
  | .requestCancellationForOperator tenantId id operatorSub =>
    commit s .current (requestCancellationForOperator s now tenantId id operatorSub)
  | .denyWaitingApproval tenantId id approver reason expectedApproval =>
    commit s .accepted (denyWaitingApproval s now tenantId id approver reason expectedApproval)
  | .reconcileAbandoned tenantId principalSub principalIssuer id grace unseen =>
    commit s .current
      (reconcileAbandoned s now tenantId principalSub principalIssuer id grace unseen)
  | .interruptClaimed claim principalSub principalIssuer =>
    commit s .current (interruptClaimed s now claim principalSub principalIssuer)

structure Call where
  op : Op
  now : Int

def step (s : Tables) (call : Call) : Tables :=
  (effect s call.now call.op).2

def run (calls : List Call) : Tables :=
  calls.foldl step Tables.empty

section Starts

structure StartIdentity where
  tenantId : String
  principalSub : String
  principalIssuer : String
  dedupeKey : String
  sourceDigest : String
  executionProfile : Json

def StartIdentity.same (a b : StartIdentity) : Bool :=
  a.tenantId == b.tenantId && a.principalSub == b.principalSub
    && a.principalIssuer == b.principalIssuer && a.dedupeKey == b.dedupeKey
    && a.sourceDigest == b.sourceDigest && jsonbEq a.executionProfile b.executionProfile

def StartExecution.identity (start : StartExecution) : StartIdentity :=
  { tenantId := start.execution.tenantId
    principalSub := start.execution.principalSub
    principalIssuer := start.execution.principalIssuer
    dedupeKey := start.dedupeKey
    sourceDigest := start.execution.sourceDigest
    executionProfile := start.execution.executionProfile }

structure Waiting where
  start : StartExecution
  skipped : Skipped
  now : Int

structure Created where
  id : Uuid
  named : Option Uuid
  deriving DecidableEq

/-- The starts of one identity, beside the tables: those that wait, the identifiers
    that were returned, and the rows that were created, in order. -/
structure Starts where
  tables : Tables
  clock : Int
  waiting : List Waiting
  returned : List Uuid
  created : List Created

def Starts.empty : Starts :=
  { tables := Tables.empty, clock := 0, waiting := [], returned := [], created := [] }

inductive StartAction where
  | begin (start : StartExecution) (skipped : Skipped) (now : Int)
  | finish (i : Nat)
  | other (call : Call)

def Response.returnedIds : Response → List Uuid
  | .started (.claimed e _) => [e.id]
  | .started (.existing e) => [e.id]
  | .started (.repeatNotTerminal e) => [e.id]
  | _ => []

def Response.createdId : Response → Option Uuid
  | .started (.claimed e _) => some e.id
  | _ => none

/-- A start reads the clock when its transaction begins, and does the rest when it
    has the lock, which it keeps until it commits. -/
def Starts.step (s : Starts) : StartAction → Starts
  | .begin start skipped now =>
    { s with clock := now, waiting := s.waiting ++ [⟨start, skipped, now⟩] }
  | .finish i =>
    match s.waiting[i]? with
    | none => s
    | some w =>
      let result := effect s.tables w.now (.startOrReuse w.start w.skipped)
      { s with
        tables := result.2
        waiting := s.waiting.eraseIdx i
        returned := s.returned ++ result.1.returnedIds
        created := s.created ++
          result.1.createdId.toList.map (fun id => ⟨id, w.start.repeatAfter⟩) }
  | .other call => { s with tables := Codemode.step s.tables call }

end Starts

end Codemode

end Waygate
