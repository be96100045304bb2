import Mathlib.Data.List.AList
import Waygate.Core.Authz.Cedar

/-!
# The Decision Cache

`decision_cache.rs` and the cached entry point of `cedar.rs`. A hasher is fed one chunk
after another, so the functions that feed it are modelled by the bytes they feed. The
digest is a parameter. The queue has the oldest key first.

## Main definitions

* `evaluateFactsInner`
* `hashFacts`: Every fact but the time of the call.
* `Inner`: The entries and the queue.
* `insert`: A new entry, after evictions.
-/

namespace Waygate

namespace Authz

section Hash

def hashCount (count : Nat) : List UInt8 :=
  u64ToLeBytes count

def hashStr (value : String) : List UInt8 :=
  hashCount value.utf8ByteSize ++ asBytes value

def hashOption {α : Type} (hashPresent : α → List UInt8) : Option α → List UInt8
  | none => [0]
  | some present => 1 :: hashPresent present

def hashOptStr (value : Option String) : List UInt8 :=
  hashOption hashStr value

def hashStrs (values : List String) : List UInt8 :=
  hashCount values.length ++ values.flatMap hashStr

def hashBool (value : Bool) : List UInt8 :=
  [if value then 1 else 0]

def hashRisk : RiskTier → List UInt8
  | .low => [0]
  | .medium => [1]
  | .high => [2]

def hashChannel : InvocationChannelFact → List UInt8
  | .direct => [0]
  | .codeMode => [1]

def hashIp : IpAddr → List UInt8
  | .v4 octets => 4 :: octets.toList
  | .v6 octets => 6 :: octets.toList

/-- The context, without its time. -/
def hashContext (context : RuntimeContextFacts) : List UInt8 :=
  hashBool context.approvalPresent ++ hashBool context.mfa ++ hashOption hashIp context.sourceIp
    ++ hashChannel context.channel

def hashEmailRecipients (recipients : EmailRecipients) : List UInt8 :=
  hashBool recipients.valid ++ hashCount recipients.domains.card
    ++ (inOrder recipients.domains).flatMap hashStr

def hashRequest (request : RequestFacts) : List UInt8 :=
  hashBool request.discoveryOnly ++ hashOption hashEmailRecipients request.emailRecipients
    ++ hashOptStr request.targetDomain
    ++ hashOption (fun count : UInt32 => Codec.leBytes 4 count.toNat) request.recipientCount
    ++ hashOption hashBool request.destructive ++ hashStrs request.filePaths
    ++ hashStr request.argumentHash

def hashResource (resource : ResourceFacts) : List UInt8 :=
  hashStr resource.server ++ hashStr resource.tool ++ hashRisk resource.risk
    ++ hashBool resource.sideEffects ++ hashBool resource.pii
    ++ hashOptStr resource.dataClassification ++ hashOptStr resource.costClass
    ++ hashOptStr resource.uri ++ hashOptStr resource.sourceOrigin
    ++ hashOptStr resource.artifactDigest ++ hashOptStr resource.sourceTreeDigest
    ++ hashOptStr resource.skillUri ++ hashOptStr resource.revisionDigest
    ++ hashOptStr resource.contentDigest ++ hashOptStr resource.sourcePath
    ++ hashOptStr resource.sourceObject ++ hashOptStr resource.resourceType
    ++ hashOptStr resource.operation

def hashAction (action : ActionFacts) : List UInt8 :=
  hashStr action.kind ++ hashOptStr action.requiredScope

def hashTenant (tenant : TenantFacts) : List UInt8 :=
  hashStr tenant.tenantId.asStr

def hashClient (client : ClientFacts) : List UInt8 :=
  hashOptStr client.clientId

def hashScim (scim : ScimFacts) : List UInt8 :=
  hashStr scim.userId ++ hashStr scim.userName ++ hashOptStr scim.externalId
    ++ hashBool scim.active ++ hashStrs scim.groupNames ++ hashStr scim.attrs.toText

def hashPrincipal (principal : PrincipalFacts) : List UInt8 :=
  hashStr principal.sub ++ hashOptStr principal.email ++ hashStrs principal.groups
    ++ hashStrs principal.scopes ++ hashStr principal.authMethod ++ hashStrs principal.roles
    ++ hashOption hashScim principal.scim

def hashFacts (facts : Facts) : List UInt8 :=
  hashPrincipal facts.principal ++ hashClient facts.client ++ hashTenant facts.tenant
    ++ hashAction facts.action ++ hashResource facts.resource
    ++ hashOption hashRequest facts.request ++ hashContext facts.context

def hashQuestion (facts : Facts) (strict : Bool) : List UInt8 :=
  hashBool strict ++ hashFacts facts

end Hash

abbrev DecisionKey := Vector UInt8 32

def DecisionKey.new (digest : List UInt8 → DecisionKey) (facts : Facts) (strict : Bool) :
    DecisionKey :=
  digest (hashQuestion facts strict)

def CAPACITY : Nat :=
  4096

structure Inner where
  entries : AList (fun _ : DecisionKey => AuthzResult)
  order : List DecisionKey

namespace Inner

def new : Inner :=
  { entries := ∅, order := [] }

def get (cache : Inner) (key : DecisionKey) : Option AuthzResult :=
  cache.entries.lookup key

/-- The eviction loop: keys leave at the front while the queue is full. -/
def evict (entries : AList (fun _ : DecisionKey => AuthzResult)) :
    List DecisionKey → Inner
  | [] => { entries := entries, order := [] }
  | oldest :: rest =>
    if CAPACITY ≤ rest.length + 1 then evict (entries.erase oldest) rest
    else { entries := entries, order := oldest :: rest }

def insert (cache : Inner) (key : DecisionKey) (result : AuthzResult) : Inner :=
  if key ∈ cache.entries then cache
  else
    let kept := evict cache.entries cache.order
    { entries := kept.entries.insert key result, order := kept.order ++ [key] }

end Inner

section Engine

variable {C : CedarCrate} (ps : PolicySet C) (digest : List UInt8 → DecisionKey)

/-- Decide, serving a question that is already decided from the cache. Only a
    verdict is retained. -/
def evaluateFactsInner (cache : Inner) (facts : Facts) (strict : Bool) :
    Except CedarError AuthzResult × Inner :=
  let key := DecisionKey.new digest facts strict
  match cache.get key with
  | some cached => (.ok cached, cache)
  | none => match decideFacts ps facts strict with
    | .error e => (.error e, cache)
    | .ok decided => (.ok decided, cache.insert key decided)

end Engine

end Authz

end Waygate
