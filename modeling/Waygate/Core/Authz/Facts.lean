import Mathlib.Data.Finset.Insert
import Mathlib.Data.Finset.Sort
import Mathlib.Data.String.Basic
import Waygate.Core.Json
import Waygate.Core.Primitive

/-!
# Authorization Facts

The typed facts a policy decision reasons about, from `facts.rs`. Domain names are a
finite set, which every user of it iterates in order, as the source does its `BTreeSet`.

## Main definitions

* `Facts`, `EmailRecipients.fromArguments`
* `buildCallFacts`: The facts of a tool call.
-/

namespace Waygate

namespace Authz

/-- Lowercase letters, digits, dashes and underscores, one to sixty-four, with
    a letter or digit at either end. -/
def TenantId.validate (s : String) : Bool :=
  let isAlnum : Char → Bool := fun c => c.isLower || c.isDigit
  decide (1 ≤ s.utf8ByteSize ∧ s.utf8ByteSize ≤ 64)
    && s.toList.head?.any isAlnum && s.toList.getLast?.any isAlnum
    && s.toList.all (fun c => isAlnum c || c == '-' || c == '_')

structure TenantId where
  asStr : String
  valid : TenantId.validate asStr = true
  deriving DecidableEq

/-- A `BTreeSet` is iterated in order. -/
def inOrder (set : Finset String) : List String :=
  set.sort (· ≤ ·)

theorem length_inOrder (set : Finset String) : (inOrder set).length = set.card :=
  Finset.length_sort (· ≤ ·)

theorem toFinset_inOrder (set : Finset String) : (inOrder set).toFinset = set :=
  Finset.sort_toFinset set (· ≤ ·)

structure EmailRecipients where
  valid : Bool
  domains : Finset String
  deriving DecidableEq

namespace EmailRecipients

def default : EmailRecipients :=
  { valid := false, domains := ∅ }

end EmailRecipients

/-- `str::split_once`, at the first occurrence of a character. -/
def splitOnce (c : Char) : List Char → Option (List Char × List Char)
  | [] => none
  | d :: rest =>
    if d = c then some ([], rest)
    else (splitOnce c rest).map (fun p => (d :: p.1, p.2))

def mailboxSymbols : List Char :=
  ".!#$%&'*+-/=?^_`\x7b|\x7d~".toList

def labelOk (label : List Char) : Bool :=
  !label.isEmpty && decide (label.length ≤ 63) && label.head? != some '-'
    && label.getLast? != some '-' && label.all (fun c => c.isAlphanum || c == '-')

/-- The domain of a bare ASCII mailbox. Once the address is known to be ASCII,
    its bytes are its characters. -/
def mailboxDomain (address : String) : Option String :=
  if 254 < address.utf8ByteSize ∨ ¬ address.toList.all (fun c => c.toNat < 128) then none
  else match splitOnce '@' address.toList with
    | none => none
    | some (name, domain) =>
      if name.isEmpty ∨ 64 < name.length ∨ name.head? = some '.' ∨ name.getLast? = some '.'
          ∨ ['.', '.'] <:+: name ∨ ¬ name.all (fun c => c.isAlphanum || mailboxSymbols.contains c)
      then none
      else if domain.isEmpty ∨ '.' ∉ domain ∨ 253 < domain.length
          ∨ ¬ (domain.splitOn '.').all labelOk
      then none
      else some (String.ofList domain)

def toAsciiLowercase (s : String) : String :=
  String.ofList (s.toList.map Char.toLower)

structure RecipientScan where
  count : Nat
  domains : Finset String

/-- Read one recipient. An address that is not a bare mailbox, or one too
    many, invalidates the envelope. -/
def RecipientScan.push (scan : RecipientScan) (value : Json) : Option RecipientScan :=
  if 1000 < scan.count + 1 then none
  else match value with
    | .string address => (mailboxDomain address).map (fun domain =>
      { count := scan.count + 1, domains := insert (toAsciiLowercase domain) scan.domains })
    | _ => none

def RecipientScan.pushField (arguments : List (String × Json)) (scan : RecipientScan)
    (field : String) : Option RecipientScan :=
  match arguments.lookup field with
  | none => some scan
  | some (.string s) => [Json.string s].foldlM RecipientScan.push scan
  | some (.array values) => values.foldlM RecipientScan.push scan
  | some _ => none

/-- The recipients' domains of a call whose delivery envelope is `to`, `cc` and
    `bcc`. -/
def EmailRecipients.fromArguments (arguments : Option (List (String × Json))) : EmailRecipients :=
  match arguments with
  | none => EmailRecipients.default
  | some arguments =>
    match ["to", "cc", "bcc"].foldlM (RecipientScan.pushField arguments)
        { count := 0, domains := ∅ } with
    | none => EmailRecipients.default
    | some scan => { valid := decide (0 < scan.count), domains := scan.domains }

structure ScimFacts where
  userId : String
  userName : String
  externalId : Option String
  active : Bool
  groupNames : List String
  attrs : Json

structure PrincipalFacts where
  sub : String
  email : Option String
  groups : List String
  scopes : List String
  authMethod : String
  roles : List String
  scim : Option ScimFacts

structure ClientFacts where
  clientId : Option String

structure TenantFacts where
  tenantId : TenantId

structure ActionFacts where
  kind : String
  requiredScope : Option String

def MODEL_RESOURCE_TYPE : String :=
  "model"

def MCP_RESOURCE_TYPE : String :=
  "mcp_resource"

def SKILL_RESOURCE_TYPE : String :=
  "skill_resource"

structure ResourceFacts where
  server : String
  tool : String
  risk : RiskTier
  sideEffects : Bool
  pii : Bool
  dataClassification : Option String
  costClass : Option String
  uri : Option String
  sourceOrigin : Option String
  artifactDigest : Option String
  sourceTreeDigest : Option String
  skillUri : Option String
  revisionDigest : Option String
  contentDigest : Option String
  sourcePath : Option String
  sourceObject : Option String
  resourceType : Option String
  operation : Option String

structure RequestFacts where
  discoveryOnly : Bool
  emailRecipients : Option EmailRecipients
  targetDomain : Option String
  recipientCount : Option UInt32
  destructive : Option Bool
  filePaths : List String
  argumentHash : String

namespace RequestFacts

def default : RequestFacts :=
  { discoveryOnly := false
    emailRecipients := none
    targetDomain := none
    recipientCount := none
    destructive := none
    filePaths := []
    argumentHash := "" }

end RequestFacts

inductive IpAddr where
  | v4 (octets : Vector UInt8 4)
  | v6 (octets : Vector UInt8 16)
  deriving DecidableEq

inductive InvocationChannelFact where
  | direct
  | codeMode
  deriving DecidableEq

def InvocationChannelFact.asStr : InvocationChannelFact → String
  | .direct => "direct"
  | .codeMode => "codemode"

structure RuntimeContextFacts where
  approvalPresent : Bool
  mfa : Bool
  time : OffsetDateTime
  sourceIp : Option IpAddr
  channel : InvocationChannelFact

/-- Everything a policy decision can reason about, assembled per call. -/
structure Facts where
  principal : PrincipalFacts
  client : ClientFacts
  tenant : TenantFacts
  action : ActionFacts
  resource : ResourceFacts
  request : Option RequestFacts
  context : RuntimeContextFacts

inductive AuthMethod where
  | oauth
  | apiKey
  | peerAssertion
  deriving DecidableEq

def AuthMethod.asStr : AuthMethod → String
  | .oauth => "oauth"
  | .apiKey => "api_key"
  | .peerAssertion => "peer_assertion"

structure ScimGroupRef where
  id : String
  displayName : String

structure ScimPrincipalAttrs where
  userId : String
  userName : String
  externalId : Option String
  active : Bool
  attrs : Json
  groups : List ScimGroupRef

structure ApiKeyProfileRestrictions where
  profileId : String
  profileName : String
  allowedServers : Option (List String)
  allowedTools : Option (List String)

structure Principal where
  sub : String
  email : Option String
  groups : List String
  scopes : List String
  tenant : TenantId
  authMethod : AuthMethod
  scim : Option ScimPrincipalAttrs
  roles : List String
  apiKeyProfileRestrictions : Option ApiKeyProfileRestrictions

structure ToolFacts where
  server : String
  name : String
  risk : RiskTier
  sideEffects : Bool
  pii : Bool

def requiredScopeFor : RiskTier → Option String
  | .low => none
  | .medium => none
  | .high => some "mcp:invoke:high"

def buildCallFacts (principal : Principal) (facts : ToolFacts) : Facts :=
  { principal :=
      { sub := principal.sub
        email := principal.email
        groups := principal.groups
        scopes := principal.scopes
        authMethod := principal.authMethod.asStr
        roles := principal.roles
        scim := principal.scim.map (fun s =>
          { userId := s.userId
            userName := s.userName
            externalId := s.externalId
            active := s.active
            groupNames := s.groups.map ScimGroupRef.displayName
            attrs := s.attrs }) }
    client := { clientId := none }
    tenant := { tenantId := principal.tenant }
    action := { kind := "CallTool", requiredScope := requiredScopeFor facts.risk }
    resource :=
      { server := facts.server
        tool := facts.name
        risk := facts.risk
        sideEffects := facts.sideEffects
        pii := facts.pii
        dataClassification := none
        costClass := none
        uri := none
        sourceOrigin := none
        artifactDigest := none
        sourceTreeDigest := none
        skillUri := none
        revisionDigest := none
        contentDigest := none
        sourcePath := none
        sourceObject := none
        resourceType := none
        operation := none }
    request := none
    context :=
      { approvalPresent := false
        mfa := false
        time := .unixEpoch
        sourceIp := none
        channel := .direct } }

end Authz

end Waygate
