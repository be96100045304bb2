import Waygate.Core.Json
import Waygate.Core.Primitive
import Waygate.Theory.Table.Update

/-!
# Change Requests

The store of `waygate-changeset`: a request is proposed, approved by one or by several,
executed once, and its secret read once. Each statement is one function of the tables,
and the recording of an approval is one transaction under the lock of the request. It
also reads the gateway's clock, once it has the lock. Any operation may fail, and its
effect may then have happened or not.

## Main definitions

* `recordApproval`
* `ChangeRequest`, `Tables`: A request, and the tables.
* `tryBeginExecution`, `tryBurnSecret`: What happens once.
* `Op`, `step`, `run`: Operations, with their faults, and runs of them.
-/

namespace Waygate.Changeset

open Table

inductive ChangeRequestStatus where
  | pending
  | approved
  | executing
  | executed
  | failed
  | denied
  | expired
  deriving DecidableEq

inductive ApprovalFactor where
  | mfa
  | passkey
  | breakGlass
  deriving DecidableEq

def ApprovalFactor.fromDbStr (s : String) : Option ApprovalFactor :=
  if s = "mfa" then some .mfa
  else if s = "passkey" then some .passkey
  else if s = "break_glass" then some .breakGlass
  else none

structure ApprovalRequirement where
  requiredApprovals : Int
  eligibleRole : String
  factors : List String
  cooldownSeconds : Option Int

structure NewChangeRequest where
  tenantId : String
  requestedBy : String
  clientId : Option String
  actionType : String
  params : Json
  preview : Option Json
  targetEtag : Option String
  justification : String
  requirement : ApprovalRequirement
  expiresAt : OffsetDateTime

inductive ChangeRequestError where
  | database
  | emptyJustification
  | emptyActionType
  | invalidApprovalCount (count : Int)
  | emptyEligibleRole
  | invalidCooldown (seconds : Int)
  | unknownFactor (factor : String)
  deriving DecidableEq

/-- `s.trim().is_empty()`. -/
def blank (s : String) : Bool :=
  s.toList.all whiteSpace

def NewChangeRequest.validate (new : NewChangeRequest) : Except ChangeRequestError Unit := do
  if blank new.justification then throw .emptyJustification
  if blank new.actionType then throw .emptyActionType
  if new.requirement.requiredApprovals < 1 then
    throw (.invalidApprovalCount new.requirement.requiredApprovals)
  if blank new.requirement.eligibleRole then throw .emptyEligibleRole
  match new.requirement.cooldownSeconds with
  | some seconds => if seconds < 0 then throw (.invalidCooldown seconds)
  | none => pure ()
  match new.requirement.factors.find? (fun f => (ApprovalFactor.fromDbStr f).isNone) with
  | some bad => throw (.unknownFactor bad)
  | none => pure ()

structure ChangeRequest where
  id : Uuid
  tenantId : String
  requestedBy : String
  clientId : Option String
  actionType : String
  params : Json
  preview : Option Json
  targetEtag : Option String
  justification : String
  bindingCode : String
  requiredApprovals : Int
  eligibleRole : String
  requiredFactors : List String
  cooldownSeconds : Option Int
  status : ChangeRequestStatus
  approverSub : Option String
  deniedReason : Option String
  executionResult : Option Json
  errorMessage : Option String
  createdAt : OffsetDateTime
  expiresAt : OffsetDateTime
  decidedAt : Option OffsetDateTime
  executedAt : Option OffsetDateTime

structure Approval where
  id : Uuid
  changeRequestId : Uuid
  tenantId : String
  approverSub : String
  createdAt : OffsetDateTime

structure StoredSecret where
  ciphertext : List UInt8
  keyId : String
  deriving DecidableEq

structure Secret where
  changeRequestId : Uuid
  tenantId : String
  stored : StoredSecret
  createdAt : OffsetDateTime
  retrievedAt : Option OffsetDateTime

structure Tables where
  requests : List ChangeRequest
  approvals : List Approval
  secrets : List Secret

structure ApprovalProgress where
  collected : Nat
  required : Int
  recorded : Bool
  counted : Bool
  approved : Option ChangeRequest

def bindingAdjectives : List String :=
  ["AMBER", "AZURE", "BRAVE", "CRISP", "DUSKY", "EAGER", "FROST", "GOLD", "HAZEL", "IVORY",
    "JADE", "LUNAR", "MOSSY", "NOBLE", "OPAL", "PRISM"]

def bindingNouns : List String :=
  ["OTTER", "FALCON", "HERON", "LYNX", "MARTEN", "NEWT", "ORCA", "PUMA", "QUAIL", "RAVEN",
    "SABLE", "TERN", "URCHIN", "VOLE", "WREN", "YAK"]

def uuidByte (id : Uuid) (i : Nat) : Nat :=
  ((uuidAsBytes id).getD i 0).toNat

def bindingCodeFromUuid (id : Uuid) : String :=
  let number := uuidByte id 14 % 100
  bindingAdjectives.getD (uuidByte id 10 % bindingAdjectives.length) "" ++ "-"
    ++ bindingNouns.getD (uuidByte id 12 % bindingNouns.length) "" ++ "-"
    ++ (if number < 10 then "0" else "") ++ toString number

def before (a b : OffsetDateTime) : Bool :=
  decide (a.unixTimestampNanos < b.unixTimestampNanos)

section Operations

variable (s : Tables)

def NewChangeRequest.row (new : NewChangeRequest) (id : Uuid) (now : OffsetDateTime) :
    ChangeRequest :=
  { id := id
    tenantId := new.tenantId
    requestedBy := new.requestedBy
    clientId := new.clientId
    actionType := new.actionType
    params := new.params
    preview := new.preview
    targetEtag := new.targetEtag
    justification := new.justification
    bindingCode := bindingCodeFromUuid id
    requiredApprovals := new.requirement.requiredApprovals
    eligibleRole := new.requirement.eligibleRole
    requiredFactors := new.requirement.factors
    cooldownSeconds := new.requirement.cooldownSeconds
    status := .pending
    approverSub := none
    deniedReason := none
    executionResult := none
    errorMessage := none
    createdAt := now
    expiresAt := new.expiresAt
    decidedAt := none
    executedAt := none }

/-- The primary key may refuse the row. -/
def propose (new : NewChangeRequest) (id : Uuid) (now : OffsetDateTime) :
    Except ChangeRequestError ChangeRequest × Tables :=
  match new.validate with
  | .error e => (.error e, s)
  | .ok () =>
    if s.requests.any (fun r => r.id == id) then (.error .database, s)
    else (.ok (new.row id now), { s with requests := s.requests ++ [new.row id now] })

def addressed (tenantId : String) (id : Uuid) (r : ChangeRequest) : Bool :=
  r.id == id && r.tenantId == tenantId

/-- `UPDATE change_requests`, of the row that is addressed when it meets a
    condition. -/
def updateRequest (tenantId : String) (id : Uuid) (guard : ChangeRequest → Bool)
    (set : ChangeRequest → ChangeRequest) : Option ChangeRequest × Tables :=
  let updated := updateWhere (fun r => addressed tenantId id r && guard r) set s.requests
  (updated.1, { s with requests := updated.2 })

def ChangeRequest.isOpen (now : OffsetDateTime) (r : ChangeRequest) : Bool :=
  r.status == .pending && before now r.expiresAt

def ChangeRequest.approve (approverSub : String) (now : OffsetDateTime) (r : ChangeRequest) :
    ChangeRequest :=
  { r with status := .approved, approverSub := some approverSub, decidedAt := some now }

def tryApprove (tenantId : String) (id : Uuid) (approverSub : String) (now : OffsetDateTime) :
    Option ChangeRequest × Tables :=
  updateRequest s tenantId id (fun r => r.isOpen now && r.requiredApprovals == 1)
    (ChangeRequest.approve approverSub now)

def collectedFor (id : Uuid) (approvals : List Approval) : Nat :=
  approvals.countP (fun a => a.changeRequestId == id)

/-- One transaction. The gate is read under the lock, the approval is recorded if
    it still counts, and the request is approved when there are enough. -/
def recordApproval (tenantId : String) (id : Uuid) (approverSub : String) (rowId : Uuid)
    (now clock : OffsetDateTime) : ApprovalProgress × Tables :=
  match s.requests.find? (addressed tenantId id) with
  | none =>
    ({ collected := 0, required := 0, recorded := false, counted := false, approved := none }, s)
  | some gate =>
    let counted := gate.isOpen clock
    let recorded := counted && !s.approvals.any (fun a =>
      a.changeRequestId == id && a.approverSub == approverSub)
    let approvals := if recorded then s.approvals ++
      [{ id := rowId
         changeRequestId := id
         tenantId := tenantId
         approverSub := approverSub
         createdAt := now }] else s.approvals
    let collected := collectedFor id approvals
    let flipped := updateRequest { s with approvals := approvals } tenantId id
      (fun r => r.isOpen now && decide (r.requiredApprovals ≤ collected))
      (ChangeRequest.approve approverSub now)
    ({ collected := collected
       required := gate.requiredApprovals
       recorded := recorded
       counted := counted
       approved := flipped.1 }, flipped.2)

def tryDeny (tenantId : String) (id : Uuid) (approverSub reason : String) (now : OffsetDateTime) :
    Option ChangeRequest × Tables :=
  updateRequest s tenantId id (fun r => r.isOpen now)
    (fun r => { r with
      status := .denied
      approverSub := some approverSub
      deniedReason := some reason
      decidedAt := some now })

def tryBeginExecution (tenantId : String) (id : Uuid) : Option ChangeRequest × Tables :=
  updateRequest s tenantId id (fun r => r.status == .approved)
    (fun r => { r with status := .executing })

def markExecuted (tenantId : String) (id : Uuid) (result : Json) (now : OffsetDateTime) :
    Option ChangeRequest × Tables :=
  updateRequest s tenantId id (fun r => r.status == .executing)
    (fun r => { r with
      status := .executed
      executionResult := some result
      executedAt := some now })

def markFailed (tenantId : String) (id : Uuid) (error : String) (now : OffsetDateTime) :
    Option ChangeRequest × Tables :=
  updateRequest s tenantId id (fun r => r.status == .executing)
    (fun r => { r with
      status := .failed
      errorMessage := some error
      executedAt := some now })

/-- One secret for each request that exists. -/
def storeSecret (tenantId : String) (id : Uuid) (stored : StoredSecret) (now : OffsetDateTime) :
    Except ChangeRequestError Unit × Tables :=
  if s.secrets.any (fun t => t.changeRequestId == id) || !s.requests.any (fun r => r.id == id) then
    (.error .database, s)
  else
    (.ok (), { s with secrets := s.secrets ++
      [{ changeRequestId := id
         tenantId := tenantId
         stored := stored
         createdAt := now
         retrievedAt := none }] })

def tryBurnSecret (tenantId : String) (id : Uuid) (now : OffsetDateTime) :
    Option StoredSecret × Tables :=
  let updated := updateWhere (fun t : Secret => t.changeRequestId == id && t.tenantId == tenantId
    && t.retrievedAt.isNone) (fun t => { t with retrievedAt := some now }) s.secrets
  (updated.1.map Secret.stored, { s with secrets := updated.2 })

end Operations

/-- The operations. The gateway's clock, in the recording of an approval, is not
    behind the time of its transaction. -/
inductive Op where
  | propose (new : NewChangeRequest) (id : Uuid) (now : OffsetDateTime)
  | tryApprove (tenantId : String) (id : Uuid) (approverSub : String) (now : OffsetDateTime)
  | recordApproval (tenantId : String) (id : Uuid) (approverSub : String) (rowId : Uuid)
      (now clock : OffsetDateTime) (le : now.unixTimestampNanos ≤ clock.unixTimestampNanos)
  | tryDeny (tenantId : String) (id : Uuid) (approverSub reason : String) (now : OffsetDateTime)
  | tryBeginExecution (tenantId : String) (id : Uuid) (now : OffsetDateTime)
  | markExecuted (tenantId : String) (id : Uuid) (result : Json) (now : OffsetDateTime)
  | markFailed (tenantId : String) (id : Uuid) (error : String) (now : OffsetDateTime)
  | storeSecret (tenantId : String) (id : Uuid) (stored : StoredSecret) (now : OffsetDateTime)
  | tryBurnSecret (tenantId : String) (id : Uuid) (now : OffsetDateTime)

inductive Response where
  | proposed (result : Except ChangeRequestError ChangeRequest)
  | progress (progress : ApprovalProgress)
  | changed (row : Option ChangeRequest)
  | stored (result : Except ChangeRequestError Unit)
  | burned (secret : Option StoredSecret)
  | failed

/-- How an operation ends: it is answered, or it fails with or without its
    effect. -/
inductive Fault where
  | answered
  | failed
  | replyLost
  deriving DecidableEq

structure Event where
  op : Op
  fault : Fault

def effect (s : Tables) : Op → Response × Tables
  | .propose new id now =>
    let result := propose s new id now
    (.proposed result.1, result.2)
  | .tryApprove tenantId id approverSub now =>
    let result := tryApprove s tenantId id approverSub now
    (.changed result.1, result.2)
  | .recordApproval tenantId id approverSub rowId now clock _ =>
    let result := recordApproval s tenantId id approverSub rowId now clock
    (.progress result.1, result.2)
  | .tryDeny tenantId id approverSub reason now =>
    let result := tryDeny s tenantId id approverSub reason now
    (.changed result.1, result.2)
  | .tryBeginExecution tenantId id _ =>
    let result := tryBeginExecution s tenantId id
    (.changed result.1, result.2)
  | .markExecuted tenantId id value now =>
    let result := markExecuted s tenantId id value now
    (.changed result.1, result.2)
  | .markFailed tenantId id error now =>
    let result := markFailed s tenantId id error now
    (.changed result.1, result.2)
  | .storeSecret tenantId id stored now =>
    let result := storeSecret s tenantId id stored now
    (.stored result.1, result.2)
  | .tryBurnSecret tenantId id now =>
    let result := tryBurnSecret s tenantId id now
    (.burned result.1, result.2)

def step (s : Tables) (e : Event) : Response × Tables :=
  match e.fault with
  | .answered => effect s e.op
  | .failed => (.failed, s)
  | .replyLost => (.failed, (effect s e.op).2)

def run (events : List Event) : Tables :=
  events.foldl (fun s e => (step s e).2) { requests := [], approvals := [], secrets := [] }

end Waygate.Changeset
