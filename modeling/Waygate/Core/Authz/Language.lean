import Waygate.Core.Authz.Cedar

/-!
# A Fragment of the Policy Language

The part of Cedar that the shipped policies are written in, with its text and its
meaning, and a crate to run it on. What the engine promises is proved for every crate;
this one meets the assumptions.

As in Cedar, an absent attribute or an operand of the wrong type is an error, and an
operand that is not needed is not evaluated. An entity has no ancestors but its parents,
which is all that `build_entities` gives one.

## Main definitions

* `plainCrate`, `emailPolicies`, `overlayPolicies`
* `Expr`, `SourcePolicy`: Expressions and policies.
* `eval`, `render`, `reads`: Their meaning, their text, and what they read.
-/

namespace Waygate

namespace Authz

open Policy

structure PlainEntity where
  uid : String
  attrs : List (String × RestrictedExpression)
  parents : List String

structure PlainRequest where
  principal : String
  action : String
  resource : String
  context : List (String × RestrictedExpression)

inductive Variable where
  | principal
  | resource

def Variable.uid (req : PlainRequest) : Variable → String
  | .principal => req.principal
  | .resource => req.resource

def Variable.render : Variable → String
  | .principal => "principal"
  | .resource => "resource"

inductive Expr where
  | bool (b : Bool)
  | context (name : String)
  | attr (v : Variable) (name : String)
  | field (e : Expr) (name : String)
  | not (e : Expr)
  | and (l r : Expr)
  | or (l r : Expr)
  | eqString (e : Expr) (s : String)
  | contains (e : Expr) (s : String)
  | containsAll (strings : List String) (e : Expr)

namespace RestrictedExpression

def asBool : RestrictedExpression → Option Bool
  | .bool b => some b
  | _ => none

def asSet : RestrictedExpression → Option (List RestrictedExpression)
  | .set elements => some elements
  | _ => none

def getField (name : String) : RestrictedExpression → Option RestrictedExpression
  | .record fields => fields.lookup name
  | _ => none

def isString (s : String) : RestrictedExpression → Bool
  | .string t => t == s
  | _ => false

end RestrictedExpression

namespace Expr

open RestrictedExpression

/-- The value of an expression, or nothing when it fails to evaluate. -/
def eval (req : PlainRequest) (entities : List PlainEntity) : Expr → Option RestrictedExpression
  | .bool b => some (.bool b)
  | .context name => req.context.lookup name
  | .attr v name =>
    (entities.find? (fun e => e.uid == v.uid req)).bind (fun e => e.attrs.lookup name)
  | .field e name => (e.eval req entities).bind (getField name)
  | .not e => ((e.eval req entities).bind asBool).map (fun b => .bool !b)
  | .and l r => ((l.eval req entities).bind asBool).bind (fun b =>
    if b then ((r.eval req entities).bind asBool).map .bool else some (.bool false))
  | .or l r => ((l.eval req entities).bind asBool).bind (fun b =>
    if b then some (.bool true) else ((r.eval req entities).bind asBool).map .bool)
  | .eqString e s => (e.eval req entities).map (fun v => .bool (v.isString s))
  | .contains e s => ((e.eval req entities).bind asSet).map (fun elements =>
    .bool (elements.any (isString s)))
  | .containsAll strings e => ((e.eval req entities).bind asSet).map (fun elements =>
    .bool (elements.all (fun v => strings.any (fun s => v.isString s))))

def reads : Expr → List String
  | .bool _ => []
  | .context name => [name]
  | .attr _ _ => []
  | .field e _ => e.reads
  | .not e => e.reads
  | .and l r => l.reads ++ r.reads
  | .or l r => l.reads ++ r.reads
  | .eqString e _ => e.reads
  | .contains e _ => e.reads
  | .containsAll _ e => e.reads

def renderStrings : List String → String
  | [] => ""
  | [s] => "\"" ++ s ++ "\""
  | s :: rest => "\"" ++ s ++ "\", " ++ renderStrings rest

def render : Expr → String
  | .bool b => if b then "true" else "false"
  | .context name => "context." ++ name
  | .attr v name => v.render ++ "." ++ name
  | .field e name => e.render ++ "." ++ name
  | .not e => "!(" ++ e.render ++ ")"
  | .and l r => "(" ++ l.render ++ " && " ++ r.render ++ ")"
  | .or l r => "(" ++ l.render ++ " || " ++ r.render ++ ")"
  | .eqString e s => "(" ++ e.render ++ " == \"" ++ s ++ "\")"
  | .contains e s => e.render ++ ".contains(\"" ++ s ++ "\")"
  | .containsAll strings e => "[" ++ renderStrings strings ++ "].containsAll(" ++ e.render ++ ")"

end Expr

inductive Scope where
  | any
  | eq (uid : String)
  | within (uids : List String)
  | is (type : String)

namespace Scope

def holds (entities : List PlainEntity) (uid : String) : Scope → Bool
  | .any => true
  | .eq other => uid == other
  | .within uids => uids.any (fun other => uid == other
      || (entities.find? (fun e => e.uid == uid)).any (fun e => e.parents.contains other))
  | .is type => (type ++ "::\"").toList.isPrefixOf uid.toList

def renderUids : List String → String
  | [] => ""
  | [uid] => uid
  | uid :: rest => uid ++ ", " ++ renderUids rest

def render (name : String) : Scope → String
  | .any => name
  | .eq uid => name ++ " == " ++ uid
  | .within uids => name ++ " in [" ++ renderUids uids ++ "]"
  | .is type => name ++ " is " ++ type

end Scope

structure SourcePolicy where
  id : String
  reason : Option String
  effect : Effect
  principal : Scope
  action : Scope
  resource : Scope
  condition : Expr

namespace SourcePolicy

def renderHead (p : SourcePolicy) : String :=
  "@id(\"" ++ p.id ++ "\")\n"
    ++ (match p.reason with
      | none => ""
      | some reason => "@reason(\"" ++ reason ++ "\")\n")
    ++ (match p.effect with
      | .permit => "permit ("
      | .forbid => "forbid (")
    ++ p.principal.render "principal" ++ ", " ++ p.action.render "action" ++ ", "
    ++ p.resource.render "resource" ++ ") when \x7b "

def render (p : SourcePolicy) : String :=
  p.renderHead ++ p.condition.render ++ " \x7d;"

def eval (p : SourcePolicy) (req : PlainRequest) (entities : List PlainEntity) : Outcome :=
  if p.principal.holds entities req.principal && p.action.holds entities req.action
      && p.resource.holds entities req.resource then
    match (p.condition.eval req entities).bind RestrictedExpression.asBool with
    | some true => .satisfied
    | some false => .unsatisfied
    | none => .errored
  else .unsatisfied

end SourcePolicy

/-- `str::escape_debug`, of the characters of ASCII that have an escape of their own. -/
def escapeDebug (s : String) : String :=
  String.ofList (s.toList.flatMap (fun c =>
    if c = '\n' then ['\\', 'n']
    else if c = '\t' then ['\\', 't']
    else if c = '\r' then ['\\', 'r']
    else if c = '\\' ∨ c = '"' ∨ c = '\x27' then ['\\', c]
    else [c]))

/-- A crate that keeps whatever it is given. A policy is keyed by its `@id`. An id is
    displayed with escapes and read without them. -/
@[reducible] def plainCrate : CedarCrate where
  EntityUid := String
  Entity := PlainEntity
  Entities := List PlainEntity
  Context := List (String × RestrictedExpression)
  Request := PlainRequest
  uidFromStr := .ok
  newRecord := fun fields => .ok (.record fields)
  withUid := fun uid => { uid := uid, attrs := [], parents := [] }
  newEntity := fun uid attrs parents => .ok { uid := uid, attrs := attrs, parents := parents }
  fromEntities := .ok
  emptyContext := []
  contextFromPairs := .ok
  newRequest := fun principal action resource context =>
    .ok { principal := principal, action := action, resource := resource, context := context }
  idToString := fun id => escapeDebug id.raw
  idFromStr := fun s => some { raw := s }
  Policy := SourcePolicy
  policyId := fun p => { raw := p.id }
  effect := SourcePolicy.effect
  annotation := fun p name => if name = "reason" then p.reason else none
  policyToString := SourcePolicy.render
  isAuthorized := fun req policies entities =>
    let outcome := fun p : SourcePolicy => p.eval req entities
    { allow := allows SourcePolicy.effect outcome policies
      reason := (behind SourcePolicy.effect outcome policies).map (fun p => { raw := p.id })
      errors := (failed outcome policies).map (fun p => { raw := p.id }) }

section Shipped

def notDiscovery : Expr :=
  .not (.context "discovery")

def discoverMail : SourcePolicy :=
  { id := "discover-mail"
    reason := none
    effect := .permit
    principal := .within ["Group::\"mail-assistants\""]
    action := .within ["Action::\"ListTools\"", "Action::\"SearchTools\""]
    resource := .eq "Server::\"example-messages\""
    condition := .bool true }

def sendEmail : SourcePolicy :=
  { id := "send-email"
    reason := none
    effect := .permit
    principal := .within ["Group::\"mail-assistants\""]
    action := .eq "Action::\"CallTool\""
    resource := .eq "Tool::\"example-messages.send\""
    condition := .bool true }

def requireExplicitRecipients : SourcePolicy :=
  { id := "require-explicit-recipients"
    reason := some "Provide bare email addresses in To, Cc, and Bcc."
    effect := .forbid
    principal := .any
    action := .eq "Action::\"CallTool\""
    resource := .eq "Tool::\"example-messages.send\""
    condition := .and notDiscovery (.not (.field (.context "email_recipients") "valid")) }

def approveExternalEmail : SourcePolicy :=
  { id := "approve-external-email"
    reason := some "An external recipient requires approval for this exact message."
    effect := .forbid
    principal := .any
    action := .eq "Action::\"CallTool\""
    resource := .eq "Tool::\"example-messages.send\""
    condition := .and (.and notDiscovery
        (.not (.containsAll ["example.com"] (.field (.context "email_recipients") "domains"))))
      (.not (.context "approval_present")) }

/-- `examples/email-policy/email.cedar`. -/
def emailPolicies : PolicySet plainCrate :=
  { policies := [discoverMail, sendEmail, requireExplicitRecipients, approveExternalEmail]
    ids := by decide }

def adminAllowAll : SourcePolicy :=
  { id := "baseline-admin-allow-all"
    reason := none
    effect := .permit
    principal := .within ["Group::\"mcp-admins\""]
    action := .any
    resource := .any
    condition := .bool true }

def stepUpDeleteDataset : SourcePolicy :=
  { id := "step-up-delete-dataset"
    reason := some ("delete_dataset requires the mcp:invoke:high step-up scope — re-authorize with "
      ++ "the elevated scope and retry")
    effect := .forbid
    principal := .any
    action := .eq "Action::\"CallTool\""
    resource := .is "Tool"
    condition := .and (.eqString (.attr .resource "name") "delete_dataset")
      (.not (.contains (.attr .principal "scopes") "mcp:invoke:high")) }

def codemodeMutationApproval : SourcePolicy :=
  { id := "codemode-mutation-approval"
    reason := some "side-effecting Code Mode calls require administrator approval of the exact call"
    effect := .forbid
    principal := .any
    action := .eq "Action::\"CallTool\""
    resource := .is "Tool"
    condition := .and (.and (.eqString (.context "channel") "codemode")
        (.attr .resource "side_effects"))
      (.not (.context "approval_present")) }

/-- Three of the fixture policies, which stack both gates on one tool. -/
def overlayPolicies : PolicySet plainCrate :=
  { policies := [adminAllowAll, stepUpDeleteDataset, codemodeMutationApproval]
    ids := by decide }

def memberOf (group : String) (scopes : List String) : Principal :=
  { sub := "alice"
    email := none
    groups := [group]
    scopes := scopes
    tenant := { asStr := "example", valid := by decide }
    authMethod := .oauth
    scim := none
    roles := []
    apiKeyProfileRestrictions := none }

def sendTool : ToolFacts :=
  { server := "example-messages", name := "send", risk := .medium
    sideEffects := true, pii := false }

end Shipped

end Authz

end Waygate
