import Waygate.Core.Audit.Retention
import Waygate.Core.Authz.Cedar

/-!
# The Authorization Gate and Its Override

A decision becomes a verdict in `gate.rs`, and a token of the table of `break_glass.rs`
may turn a deny into an allow in `break_glass_gate.rs`. Each statement is one function
of the rows; the listing asks for no order, so it comes with one. The uuid of an audit
event and the debug form of a string are parameters.

## Main definitions

* `cedarGate`, `scopePatternMatches`, `applicable`, `claimWithFault`
* `tryOverride`: The walk over the candidates.
* `probeToolCall`, `authorizeToolCall`: The gate with the override.
-/

namespace Waygate

namespace Authz

inductive AuthzVerdict where
  | allow (policyIds : List String)
  | deny (reason : String) (policyIds : List String) (reasons : List String)
  | stepUpRequired (requiredScope reason : String) (policyIds : List String)
  | approvalRequired (reason : String) (policyIds : List String)
  deriving DecidableEq

/-- `[String]::join`. -/
def joinWith (sep : String) : List String → String
  | [] => ""
  | [s] => s
  | s :: rest => s ++ sep ++ joinWith sep rest

section CedarGate

variable {C : CedarCrate} (ps : PolicySet C)

/-- `CedarGate::evaluate_verdict`. -/
def evaluateVerdict (facts : Facts) : AuthzVerdict :=
  let result := evaluateFacts ps facts
  match result.decision with
  | .allow => .allow result.policyIds
  | .deny =>
    .deny (if result.policyIds.isEmpty then "denied by baseline forbid"
      else "forbid policies: " ++ joinWith ", " result.policyIds) result.policyIds result.reasons
  | .stepUpRequired =>
    .stepUpRequired (facts.action.requiredScope.getD "mcp:invoke") (joinWith "; " result.reasons)
      result.policyIds
  | .approvalRequired =>
    .approvalRequired (if result.reasons.isEmpty then "a live per-call approval grant is required"
      else joinWith "; " result.reasons) result.policyIds

end CedarGate

inductive ProbeVerdict where
  | settled (verdict : AuthzVerdict)
  | consumingOverridePossible
  deriving DecidableEq

structure InnerGate where
  authorizeToolCall : Facts → AuthzVerdict
  probeToolCall : Facts → ProbeVerdict
  mayCallTool : Principal → ToolFacts → AuthzVerdict

/-- `CedarGate`: the probe is the verdict, and discovery asks about a call with
    no arguments. -/
def cedarGate {C : CedarCrate} (ps : PolicySet C) : InnerGate :=
  { authorizeToolCall := evaluateVerdict ps
    probeToolCall := fun facts => .settled (evaluateVerdict ps facts)
    mayCallTool := fun principal tool => evaluateVerdict ps
      { buildCallFacts principal tool with
        request := some { RequestFacts.default with discoveryOnly := true } } }

structure BreakGlassToken where
  id : Uuid
  tenantId : String
  issuedTo : String
  issuedBy : String
  reason : String
  scopePattern : String
  requiresAmr : List String
  expiresAt : OffsetDateTime
  usedAt : Option OffsetDateTime
  createdAt : OffsetDateTime
  deriving DecidableEq

def amrSubsetSatisfied (required presented : List String) : Bool :=
  required.all (fun r => presented.any (fun p => p == r))

/-- Whether a pattern covers a tool: the tool itself, or `server.*` for every
    tool of the server. -/
def scopePatternMatches (pattern fqToolName : String) : Bool :=
  if pattern.isEmpty then false
  else if pattern == fqToolName then true
  else
    let chars := pattern.toList
    if ['.', '*'].isSuffixOf chars then
      let stem := chars.take (chars.length - 2)
      if stem.isPrefixOf fqToolName.toList then
        let rest := fqToolName.toList.drop stem.length
        rest.head? == some '.' && decide (1 < rest.length)
      else false
    else false

section Store

def BreakGlassToken.live (now : OffsetDateTime) (token : BreakGlassToken) : Bool :=
  token.usedAt.isNone && decide (now.unixTimestampNanos < token.expiresAt.unixTimestampNanos)

/-- `INSERT`, which the primary key may refuse. -/
def mintToken (token : BreakGlassToken) (store : List BreakGlassToken) : List BreakGlassToken :=
  if store.any (fun t => t.id == token.id) then store
  else store ++ [{ token with usedAt := none }]

/-- `DELETE`, within the tenant. -/
def deleteToken (tenantId : String) (tokenId : Uuid) (store : List BreakGlassToken) :
    List BreakGlassToken :=
  store.filter (fun t => !(t.id == tokenId && t.tenantId == tenantId))

abbrev RowOrder :=
  { order : List BreakGlassToken → List BreakGlassToken // ∀ rows, (order rows).Perm rows }

def listCandidates (order : RowOrder) (now : OffsetDateTime)
    (tenantId principalSub fqToolName : String) (store : List BreakGlassToken) :
    List BreakGlassToken :=
  (order.val (store.filter (fun t => t.tenantId == tenantId && t.issuedTo == principalSub
    && t.live now))).filter (fun t => scopePatternMatches t.scopePattern fqToolName)

/-- The conditional `UPDATE`, and the row it returns when it found one. -/
def tryClaim (now : OffsetDateTime) (tokenId : Uuid) (store : List BreakGlassToken) :
    Option BreakGlassToken × List BreakGlassToken :=
  let claim := fun t : BreakGlassToken => { t with usedAt := some now }
  let matched := fun t : BreakGlassToken => t.id == tokenId && t.live now
  ((store.find? matched).map claim, store.map (fun t => if matched t then claim t else t))

end Store

def fqTool (facts : Facts) : String :=
  facts.resource.server ++ "." ++ facts.resource.tool

/-- The caller's authentication methods, which a principal does not carry. -/
def principalAmr : List String :=
  []

/-- Whether a listed token may be claimed for the call. -/
def applicable (facts : Facts) (token : BreakGlassToken) : Bool :=
  scopePatternMatches token.scopePattern (fqTool facts)
    && amrSubsetSatisfied token.requiresAmr principalAmr

/-- How a claim ends: it is answered, or it fails with or without having been
    applied. -/
inductive ClaimFault where
  | answered
  | failed
  | replyLost
  deriving DecidableEq

/-- One claim: the row that was won, and the rows after it. -/
def claimWithFault (fault : ClaimFault) (now : OffsetDateTime) (tokenId : Uuid)
    (store : List BreakGlassToken) : Option BreakGlassToken × List BreakGlassToken :=
  match fault with
  | .answered => tryClaim now tokenId store
  | .failed => (none, store)
  | .replyLost => (none, (tryClaim now tokenId store).2)

def breakGlassReason (debugStr : String → String) (facts : Facts) (token : BreakGlassToken)
    (deniedReason : String) : String :=
  "break-glass override: token=" ++ Audit.uuidText token.id ++ " issued_to=" ++ token.issuedTo
    ++ " issued_by=" ++ token.issuedBy ++ " acting_principal_sub=" ++ facts.principal.sub
    ++ " mint_reason=" ++ debugStr token.reason ++ " overrode Deny: " ++ deniedReason

def breakGlassUse (debugStr : String → String) (eventId : Uuid) (now : OffsetDateTime)
    (facts : Facts) (token : BreakGlassToken) (deniedReason : String) : Audit.AuditEvent :=
  { id := eventId
    ts := now
    category := .adminMutation
    tenant := facts.tenant.tenantId.asStr
    principal := none
    action := "BreakGlassUse"
    server := some facts.resource.server
    tool := some facts.resource.tool
    operation := none
    outcome := .success
    riskLevel := some facts.resource.risk
    pii := some facts.resource.pii
    policyIds := []
    reason := some (breakGlassReason debugStr facts token deniedReason)
    traceId := none
    latencyMs := none
    target := none
    reqScopes := []
    authMethod := none
    reqRoles := []
    sideEffects := none
    actingAgent := none
    invocationHierarchy := none }

/-- What the database and the recorder do during one call. The clock is the
    database's, and stands still for the length of the call. -/
structure BreakGlassRun where
  now : OffsetDateTime
  order : RowOrder
  lookupFails : Bool
  claimFault : Uuid → ClaimFault
  recordFails : Bool

def tryOverrideWalk (run : BreakGlassRun) (facts : Facts) :
    List BreakGlassToken → List BreakGlassToken → Option BreakGlassToken × List BreakGlassToken
  | [], store => (none, store)
  | token :: rest, store =>
    if applicable facts token then
      match claimWithFault (run.claimFault token.id) run.now token.id store with
      | (some claimed, store') => (some claimed, store')
      | (none, store') => tryOverrideWalk run facts rest store'
    else tryOverrideWalk run facts rest store

def candidates (run : BreakGlassRun) (facts : Facts) (store : List BreakGlassToken) :
    Option (List BreakGlassToken) :=
  if run.lookupFails then none
  else some (listCandidates run.order run.now facts.tenant.tenantId.asStr facts.principal.sub
    (fqTool facts) store)

def tryOverride (run : BreakGlassRun) (facts : Facts) (store : List BreakGlassToken) :
    Option BreakGlassToken × List BreakGlassToken :=
  match candidates run facts store with
  | none => (none, store)
  | some listed => tryOverrideWalk run facts listed store

/-- The read-only twin: a lookup that fails leaves it possible. -/
def overrideCouldApply (run : BreakGlassRun) (facts : Facts) (store : List BreakGlassToken) :
    Bool :=
  match candidates run facts store with
  | none => true
  | some listed => listed.any (applicable facts)

namespace BreakGlassGate

variable (inner : InnerGate)

def mayCallTool (principal : Principal) (tool : ToolFacts) : AuthzVerdict :=
  inner.mayCallTool principal tool

def probeToolCall (run : BreakGlassRun) (store : List BreakGlassToken) (facts : Facts) :
    ProbeVerdict :=
  match inner.probeToolCall facts with
  | .settled (.deny reason policyIds reasons) =>
    if overrideCouldApply run facts store then .consumingOverridePossible
    else .settled (.deny reason policyIds reasons)
  | other => other

/-- The verdict of a call run on its own, and the rows after it. A use whose
    event cannot be recorded is refused, with the token spent. -/
def authorizeToolCall (run : BreakGlassRun) (store : List BreakGlassToken) (facts : Facts) :
    AuthzVerdict × List BreakGlassToken :=
  match inner.authorizeToolCall facts with
  | .deny reason policyIds reasons =>
    match tryOverride run facts store with
    | (none, store') => (.deny reason policyIds reasons, store')
    | (some _, store') =>
      if run.recordFails then (.deny reason policyIds reasons, store') else (.allow [], store')
  | verdict => (verdict, store)

end BreakGlassGate

end Authz

end Waygate
