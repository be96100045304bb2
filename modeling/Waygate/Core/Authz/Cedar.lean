import Waygate.Core.Authz.Facts
import Waygate.Theory.Policy.DenyOverrides

/-!
# Cedar Decisions

The policy engine of `cedar.rs`: what it builds from the facts, one pass over the policy
set, and the step-up and approval inferences. Attributes are listed in the order they
are inserted; the source has hash maps, and inserts no attribute of an entity twice.

## Main definitions

* `CedarCrate`, `decideFacts`, `evaluateFacts`
* `buildRequest`: Entities, context and request.
* `evaluateRawFacts`: One pass.
* `anyPolicyReferencesApproval`: The guard of the inferences.
-/

namespace Waygate.Authz

open Policy

inductive RestrictedExpression where
  | string (s : String)
  | bool (b : Bool)
  | long (n : Int)
  | set (elements : List RestrictedExpression)
  | record (fields : List (String × RestrictedExpression))

structure PolicyId where
  raw : String
  deriving DecidableEq

/-- The answer of the authorizer, with the ids of the policies behind it and of
    the policies that failed to evaluate. -/
structure Response where
  allow : Bool
  reason : List PolicyId
  errors : List PolicyId

/-- The part of the `cedar_policy` crate that the engine calls. -/
structure CedarCrate where
  EntityUid : Type
  Entity : Type
  Entities : Type
  Context : Type
  Request : Type
  uidFromStr : String → Except String EntityUid
  newRecord : List (String × RestrictedExpression) → Except String RestrictedExpression
  withUid : EntityUid → Entity
  newEntity : EntityUid → List (String × RestrictedExpression) → List EntityUid →
    Except String Entity
  fromEntities : List Entity → Except String Entities
  emptyContext : Context
  contextFromPairs : List (String × RestrictedExpression) → Except String Context
  newRequest : EntityUid → EntityUid → EntityUid → Context → Except String Request
  idToString : PolicyId → String
  idFromStr : String → Option PolicyId
  Policy : Type
  policyId : Policy → PolicyId
  effect : Policy → Effect
  annotation : Policy → String → Option String
  policyToString : Policy → String
  isAuthorized : Request → List Policy → Entities → Response

inductive CedarError where
  | uid (uid err : String)
  | entities (message : String)
  | buildContext (message : String)
  | buildRequest (message : String)
  | eval (message : String)
  deriving DecidableEq

inductive Decision where
  | allow
  | deny
  | stepUpRequired
  | approvalRequired
  deriving DecidableEq

structure AuthzResult where
  decision : Decision
  reasons : List String
  policyIds : List String
  deriving DecidableEq

section Build

variable (C : CedarCrate)

/-- `str::replace`, of a character. -/
def replaceChar (c : Char) (text : String) (s : String) : String :=
  String.ofList (s.toList.flatMap (fun d => if d = c then text.toList else [d]))

def makeUid (ty id : String) : Except CedarError C.EntityUid :=
  let quoted := replaceChar '"' "\\\"" (replaceChar '\\' "\\\\" id)
  let raw := ty ++ "::\"" ++ quoted ++ "\""
  (C.uidFromStr raw).mapError (.uid raw)

def resourceIsTool (facts : Facts) : Bool :=
  facts.action.kind == "CallTool"

def resourceIsModel (facts : Facts) : Bool :=
  facts.resource.resourceType == some MODEL_RESOURCE_TYPE

def resourceIsMcpResource (facts : Facts) : Bool :=
  facts.resource.resourceType == some MCP_RESOURCE_TYPE

def resourceIsSkill (facts : Facts) : Bool :=
  facts.resource.resourceType == some SKILL_RESOURCE_TYPE

def governsDataPlane (actionKind : String) : Bool :=
  actionKind == "CallTool" || actionKind == "ReadResource" || actionKind == "ReadSkill"

def digitsValue (digits : List Char) : Option Nat :=
  if digits.isEmpty || !digits.all Char.isDigit then none
  else some (digits.foldl (fun n c => 10 * n + (c.toNat - '0'.toNat)) 0)

/-- `Number::as_i64`: an integer literal that fits in 64 bits with its sign. -/
def asI64 (literal : String) : Option Int :=
  let value := match literal.toList with
    | '-' :: digits => (digitsValue digits).map (fun n => -(n : Int))
    | digits => (digitsValue digits).map Int.ofNat
  value.filter (fun n => decide (-2 ^ 63 ≤ n ∧ n < 2 ^ 63))

def jsonStringToRestricted : Json → Option RestrictedExpression
  | .string s => some (.string s)
  | _ => none

def jsonValueToRestricted : Json → Option RestrictedExpression
  | .string s => some (.string s)
  | .bool b => some (.bool b)
  | .number literal => (asI64 literal).map .long
  | .array items => (items.mapM jsonStringToRestricted).map .set
  | .object _ => none
  | .null => none

def stringSet (values : List String) : RestrictedExpression :=
  .set (values.map .string)

def optionalAttr (name : String) (value : Option String) : List (String × RestrictedExpression) :=
  (value.map (fun v => (name, .string v))).toList

/-- The record of the SCIM attributes that Cedar has a type for. It is left out
    when it is empty or when the crate refuses it. -/
def scimAttrsRecord (attrs : Json) : List (String × RestrictedExpression) :=
  match attrs with
  | .object fields =>
    let record := fields.filterMap (fun f => (jsonValueToRestricted f.2).map (fun e => (f.1, e)))
    if record.isEmpty then []
    else match C.newRecord record with
      | .ok e => [("scim_attrs", e)]
      | .error _ => []
  | _ => []

def scimAttrs (scim : ScimFacts) : List (String × RestrictedExpression) :=
  [("scim_user_name", .string scim.userName), ("scim_active", .bool scim.active),
    ("scim_groups", stringSet scim.groupNames)]
    ++ optionalAttr "scim_external_id" scim.externalId
    ++ scimAttrsRecord C scim.attrs

def userAttrs (facts : Facts) : List (String × RestrictedExpression) :=
  optionalAttr "email" facts.principal.email
    ++ [("groups", stringSet facts.principal.groups), ("scopes", stringSet facts.principal.scopes),
      ("auth_method", .string facts.principal.authMethod),
      ("tenant", .string facts.tenant.tenantId.asStr),
      ("roles", stringSet facts.principal.roles),
      ("scim_present", .bool facts.principal.scim.isSome)]
    ++ (facts.principal.scim.map (scimAttrs C)).getD []

def skillAttrs (r : ResourceFacts) : List (String × RestrictedExpression) :=
  optionalAttr "source_origin" r.sourceOrigin
    ++ optionalAttr "artifact_digest" r.artifactDigest
    ++ optionalAttr "source_tree_digest" r.sourceTreeDigest
    ++ optionalAttr "skill_uri" r.skillUri
    ++ optionalAttr "revision_digest" r.revisionDigest
    ++ optionalAttr "content_digest" r.contentDigest
    ++ optionalAttr "source_path" r.sourcePath
    ++ optionalAttr "source_object" r.sourceObject

def resourceUid (facts : Facts) : Except CedarError C.EntityUid :=
  let r := facts.resource
  if resourceIsMcpResource facts || resourceIsSkill facts then
    match r.uri with
    | none => .error (.entities "resource facts are missing the URI")
    | some uri => makeUid C "Resource" uri
  else if resourceIsTool facts then
    makeUid C (if resourceIsModel facts then "Model" else "Tool") (r.server ++ "." ++ r.tool)
  else makeUid C "Server" r.server

def resourceEntity (facts : Facts) (serverUid : C.EntityUid) :
    Except CedarError (Option C.Entity) :=
  let r := facts.resource
  if resourceIsMcpResource facts || resourceIsSkill facts then
    match r.uri with
    | none => .error (.entities "resource facts are missing the URI")
    | some uri => do
        let uid ← makeUid C "Resource" uri
        let attrs := [("server", .string r.server), ("uri", .string uri),
          ("risk", .string r.risk.asStr)] ++ (if resourceIsSkill facts then skillAttrs r else [])
        let entity ← (C.newEntity uid attrs [serverUid]).mapError .entities
        pure (some entity)
  else if resourceIsTool facts then do
    let uid ← makeUid C (if resourceIsModel facts then "Model" else "Tool")
      (r.server ++ "." ++ r.tool)
    let attrs := [("server", .string r.server), ("name", .string r.tool),
      ("risk", .string r.risk.asStr), ("side_effects", .bool r.sideEffects), ("pii", .bool r.pii)]
      ++ optionalAttr "operation" r.operation
    let entity ← (C.newEntity uid attrs [serverUid]).mapError .entities
    pure (some entity)
  else .ok none

def buildEntities (facts : Facts) : Except CedarError (C.EntityUid × C.Entities) := do
  let userUid ← makeUid C "User" facts.principal.sub
  let groupUids ← facts.principal.groups.mapM (makeUid C "Group")
  let user ← (C.newEntity userUid (userAttrs C facts) groupUids).mapError .entities
  let serverUid ← makeUid C "Server" facts.resource.server
  let server ← (C.newEntity serverUid [("name", .string facts.resource.server)] []).mapError
    .entities
  let resource ← resourceEntity C facts serverUid
  let entities ← (C.fromEntities
    (groupUids.map C.withUid ++ [user, server] ++ resource.toList)).mapError .entities
  pure (userUid, entities)

def recipientsRecord (email : EmailRecipients) : Except CedarError RestrictedExpression :=
  (C.newRecord [("valid", .bool email.valid),
    ("domains", stringSet (inOrder email.domains))]).mapError .buildContext

def recipientsPair (facts : Facts) : Except CedarError (List (String × RestrictedExpression)) :=
  match facts.request.bind RequestFacts.emailRecipients with
  | none => .ok []
  | some email => (recipientsRecord C email).map (fun record => [("email_recipients", record)])

def buildContext (facts : Facts) : Except CedarError C.Context := do
  let recipients ← recipientsPair C facts
  let pairs :=
    (if facts.action.kind = "CallTool" then
      [("discovery", .bool (facts.request.any RequestFacts.discoveryOnly))] else [])
    ++ recipients
    ++ optionalAttr "client_id" facts.client.clientId
    ++ (if facts.action.kind = "CallTool" then
      [("channel", .string facts.context.channel.asStr)] else [])
    ++ (if governsDataPlane facts.action.kind then
      [("approval_present", .bool facts.context.approvalPresent)] else [])
  if pairs.isEmpty then .ok C.emptyContext
  else (C.contextFromPairs pairs).mapError .buildContext

def buildRequest (facts : Facts) : Except CedarError (C.Request × C.Entities) := do
  let (principalUid, entities) ← buildEntities C facts
  let actionUid ← makeUid C "Action" facts.action.kind
  let resourceUid ← resourceUid C facts
  let context ← buildContext C facts
  let req ← (C.newRequest principalUid actionUid resourceUid context).mapError .buildRequest
  pure (req, entities)

end Build

/-- The policies of an engine. Their ids are distinct. -/
structure PolicySet (C : CedarCrate) where
  policies : List C.Policy
  ids : (policies.map C.policyId).Nodup

section Decide

variable {C : CedarCrate} (ps : PolicySet C)

def PolicySet.policy (id : PolicyId) : Option C.Policy :=
  ps.policies.find? (fun p => C.policyId p = id)

/-- A failed policy that is not known to be a permit. -/
def restricting (id : PolicyId) : Bool :=
  match ps.policy id with
  | none => true
  | some p => C.effect p = .forbid

/-- What is made of the authorizer's answer. A forbid that failed to evaluate
    fails the pass, and so does any policy on the strict path. -/
def judge (resp : Response) (strict : Bool) : Except CedarError AuthzResult :=
  if (strict && !resp.errors.isEmpty) || resp.errors.any (restricting ps) then
    .error (.eval "policy evaluation error; failing closed")
  else
    .ok
      { decision := if resp.allow then .allow else .deny
        reasons := resp.reason.filterMap (fun id =>
          (ps.policy id).bind (fun p => C.annotation p "reason"))
        policyIds := resp.reason.map C.idToString }

def evaluateRawFacts (facts : Facts) (strict : Bool) : Except CedarError AuthzResult :=
  match buildRequest C facts with
  | .error e => .error e
  | .ok (req, entities) => judge ps (C.isAuthorized req ps.policies entities) strict

def Facts.withScope (facts : Facts) (scope : String) : Facts :=
  { facts with principal := { facts.principal with scopes := facts.principal.scopes ++ [scope] } }

def Facts.approved (facts : Facts) : Facts :=
  { facts with context := { facts.context with approvalPresent := true } }

def Facts.missingScope (facts : Facts) : Option String :=
  facts.action.requiredScope.filter (fun scope => scope ∉ facts.principal.scopes)

def mentionsApproval (text : String) : Bool :=
  "approval_present".toList <:+: text.toList

def anyPolicyReferencesApproval (policyIds : List String) : Bool :=
  policyIds.any (fun id => match (C.idFromStr id).bind ps.policy with
    | none => true
    | some p => mentionsApproval (C.policyToString p))

def stepUpResult (first : AuthzResult) (scope : String) : AuthzResult :=
  { decision := .stepUpRequired
    reasons := ["denied without `" ++ scope ++ "`; re-authorize with the scope to proceed"]
    policyIds := first.policyIds }

/-- The approval inference, and the inference of both gates together. -/
def inferApproval (facts : Facts) (strict : Bool) (first : AuthzResult) :
    Except CedarError AuthzResult :=
  if governsDataPlane facts.action.kind && !facts.context.approvalPresent
      && !first.policyIds.isEmpty then
    match evaluateRawFacts ps facts.approved strict with
    | .error e => .error e
    | .ok second =>
      if second.decision = .allow ∧ anyPolicyReferencesApproval ps second.policyIds = false then
        .ok
          { decision := .approvalRequired
            reasons := first.reasons
            policyIds := first.policyIds }
      else match facts.missingScope with
        | none => .ok first
        | some scope => match evaluateRawFacts ps (facts.approved.withScope scope) strict with
          | .error e => .error e
          | .ok third =>
            if third.decision = .allow
                ∧ anyPolicyReferencesApproval ps third.policyIds = false then
              .ok (stepUpResult first scope)
            else .ok first
  else .ok first

/-- The uncached decision: one Cedar pass, and the inferences a deny may
    require. -/
def decideFacts (facts : Facts) (strict : Bool) : Except CedarError AuthzResult :=
  match evaluateRawFacts ps facts strict with
  | .error e => .error e
  | .ok first =>
    if first.decision = .allow then .ok first
    else match facts.missingScope with
      | none => inferApproval ps facts strict first
      | some scope => match evaluateRawFacts ps (facts.withScope scope) strict with
        | .error e => .error e
        | .ok second =>
          if second.decision = .allow then .ok (stepUpResult first scope)
          else inferApproval ps facts strict first

/-- The engine's answer, with a failure to decide turned into a deny. -/
def evaluateFacts (facts : Facts) : AuthzResult :=
  match decideFacts ps facts false with
  | .ok result => result
  | .error _ => { decision := .deny, reasons := [], policyIds := [] }

end Decide

end Waygate.Authz
