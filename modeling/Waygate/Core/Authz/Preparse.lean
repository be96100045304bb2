import Waygate.Core.Authz.BreakGlass
import Waygate.Core.Quota.Service

/-!
# The Pre-Parse Gate and the Pipeline

Two places authorize one tool call. `mcp_preparse_gate.rs` decides from the request's
headers, before its body is read, and may refuse early. The pipeline of
`invocation/mod.rs` decides again with the arguments at hand. Of a catalog snapshot,
what is modelled is what authorization reads of it. The hash of the arguments is a
parameter.

## Main definitions

* `evaluate`, `authorizeCall`
* `resolveOperation`, `factsFor`: What the arguments select.
-/

namespace Waygate

namespace Authz

structure OperationClassification where
  value : String
  risk : RiskTier
  sideEffects : Bool
  pii : Bool

structure InvocationToolSnapshot where
  facts : ToolFacts
  discriminator : Option String
  operations : List OperationClassification

structure OperationResolution where
  requested : Option String
  classified : Bool
  inadmissible : Bool
  deriving DecidableEq

namespace OperationResolution

def default : OperationResolution :=
  { requested := none, classified := false, inadmissible := false }

end OperationResolution

/-- `char::is_ascii_graphic`. -/
def isAdmissibleInOperation (c : Char) : Bool :=
  decide (33 ≤ c.toNat ∧ c.toNat ≤ 126)

def MAX_OPERATION_VALUE_LEN : Nat :=
  256

abbrev Arguments := List (String × Json)

namespace InvocationToolSnapshot

def factsVaryByArguments (snapshot : InvocationToolSnapshot) : Bool :=
  snapshot.discriminator.isSome || !snapshot.operations.isEmpty

def resolveOperation (snapshot : InvocationToolSnapshot) (arguments : Option Arguments) :
    OperationResolution :=
  match snapshot.discriminator with
  | none => .default
  | some discriminator =>
    match arguments.bind (fun a => a.lookup discriminator) with
    | some (.string requested) =>
      if requested.isEmpty || decide (MAX_OPERATION_VALUE_LEN < requested.length)
          || !requested.toList.all isAdmissibleInOperation then
        { requested := none, classified := false, inadmissible := true }
      else
        { requested := some requested
          classified := snapshot.operations.any (fun o => o.value == requested)
          inadmissible := false }
    | _ => .default

def factsFor (snapshot : InvocationToolSnapshot) (arguments : Option Arguments) : ToolFacts :=
  let resolution := snapshot.resolveOperation arguments
  let operation := (resolution.requested.filter (fun _ => resolution.classified)).bind
    (fun value => snapshot.operations.find? (fun o => o.value == value))
  match operation with
  | none => snapshot.facts
  | some o => { snapshot.facts with risk := o.risk, sideEffects := o.sideEffects, pii := o.pii }

end InvocationToolSnapshot

inductive ResolvedInvocationTool where
  | ready (snapshot : InvocationToolSnapshot)
  | refused
  | unavailable

/-- What the gate evaluates with: the catalog by tenant, server and tool, the
    gate over its store, and the quota service. -/
structure GateState where
  catalog : String → String → String → ResolvedInvocationTool
  inner : InnerGate
  store : List BreakGlassToken
  quota : Option (Quota.QuotaContext → List Quota.QuotaAction → Except Quota.QuotaError Unit)

inductive GateDecision where
  | pass
  | forbidden (reason : String) (policyIds reasons : List String) (risk : RiskTier)
      (pii sideEffects : Bool)
  | rateLimited (policyId : Uuid) (policyName : String) (retryAfterSeconds : Nat)
      (risk : RiskTier) (pii : Bool)
  deriving DecidableEq

def RESERVED_BUILTIN_NAMESPACES : List String :=
  ["gateway-admin", "gateway-observe", "gateway-control", "gateway-files", "gateway-skills",
    "codemode", "gateway-discovery"]

def LLM_RESERVED_NAMESPACE : String :=
  "llm"

inductive ProfileError where
  | profileServerNotAllowed (profileId profileName server : String)
  | profileToolNotAllowed (profileId profileName tool : String)

/-- The bounds of an API-key profile. An empty list bounds nothing. -/
def evaluateProfileRestrictions (restrictions : ApiKeyProfileRestrictions) (server tool : String) :
    Except ProfileError Unit :=
  if restrictions.allowedServers.any (fun servers => !servers.isEmpty && !servers.contains server)
  then
    .error (.profileServerNotAllowed restrictions.profileId restrictions.profileName server)
  else if restrictions.allowedTools.any (fun tools => !tools.isEmpty
      && !tools.contains (server ++ "." ++ tool)) then
    .error (.profileToolNotAllowed restrictions.profileId restrictions.profileName
      (server ++ "." ++ tool))
  else .ok ()

def probeQuota (state : GateState) (principal : Principal) (server tool : String)
    (facts : ToolFacts) : GateDecision :=
  match state.quota with
  | none => .pass
  | some check =>
    let actions := if facts.sideEffects then [.call, .sideEffectingCall] else [.call]
    match check { tenantId := principal.tenant.asStr
                  principalSub := some principal.sub
                  clientId := none
                  server := server
                  fqTool := server ++ "." ++ tool } actions with
    | .error (.rateLimited policyId name retryAfterSeconds) =>
      .rateLimited policyId name retryAfterSeconds facts.risk facts.pii
    | _ => .pass

/-- `mcp_preparse_gate::evaluate`. -/
def evaluate (state : GateState) (run : BreakGlassRun) (principal : Principal)
    (server tool : String) : GateDecision :=
  if RESERVED_BUILTIN_NAMESPACES.contains server || server == LLM_RESERVED_NAMESPACE then .pass
  else match state.catalog principal.tenant.asStr server tool with
    | .refused => .pass
    | .unavailable => .pass
    | .ready snapshot =>
      if snapshot.factsVaryByArguments then .pass
      else
        match BreakGlassGate.probeToolCall state.inner run state.store
            (buildCallFacts principal snapshot.facts) with
        | .settled (.deny reason policyIds reasons) =>
          .forbidden reason policyIds reasons snapshot.facts.risk snapshot.facts.pii
            snapshot.facts.sideEffects
        | .settled (.allow _) =>
          if principal.apiKeyProfileRestrictions.any (fun restrictions =>
              !(evaluateProfileRestrictions restrictions server tool).isOk) then .pass
          else probeQuota state principal server tool snapshot.facts
        | .settled (.stepUpRequired _ _ _) => .pass
        | .settled (.approvalRequired _ _) => .pass
        | .consumingOverridePossible => .pass

/-- Stage 3: the facts of a call with its arguments. -/
def extractFacts (argumentHash : Option Arguments → String) (principal : Principal)
    (snapshot : InvocationToolSnapshot) (arguments : Option Arguments) : Facts :=
  let facts := buildCallFacts principal (snapshot.factsFor arguments)
  { facts with
    context := { facts.context with channel := .direct }
    resource := { facts.resource with operation := (snapshot.resolveOperation arguments).requested }
    request := some { RequestFacts.default with
      emailRecipients := some (EmailRecipients.fromArguments arguments)
      argumentHash := argumentHash arguments } }

inductive InvocationError where
  | forbidden (reason : String) (policyIds reasons : List String)
  | stepUpRequired (requiredScope reason : String)
  deriving DecidableEq

/-- Stage 4: a verdict that stops the call is its error. An approval gate lets
    it proceed, to the stage that claims a grant. -/
def authorize (state : GateState) (run : BreakGlassRun) (facts : Facts) :
    Except InvocationError (List String) :=
  match (BreakGlassGate.authorizeToolCall state.inner run state.store facts).1 with
  | .allow policyIds => .ok policyIds
  | .deny reason policyIds reasons => .error (.forbidden reason policyIds reasons)
  | .stepUpRequired requiredScope reason _ => .error (.stepUpRequired requiredScope reason)
  | .approvalRequired _ policyIds => .ok policyIds

/-- The two stages on a call of a tool, when the catalog admits it. -/
def authorizeCall (state : GateState) (run : BreakGlassRun)
    (argumentHash : Option Arguments → String) (principal : Principal) (server tool : String)
    (arguments : Option Arguments) : Option (Except InvocationError (List String)) :=
  match state.catalog principal.tenant.asStr server tool with
  | .ready snapshot =>
    some (authorize state run (extractFacts argumentHash principal snapshot arguments))
  | _ => none

end Authz

end Waygate
