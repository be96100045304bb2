import Waygate.Core.Authz.DecisionCache
import Waygate.Core.Authz.Language
import Waygate.Theory.Codec.JsonText
import Waygate.Theory.Memo.Table

/-!
# The Cache Is Transparent

The bytes a question feeds to the hasher determine every fact but the time of the call,
and the time is no part of what a policy sees. So two questions with one key have one
answer. Lengths are written in eight bytes, and every string and vector of the source is
shorter than that can hold (`Facts.Sized`).

## Main definitions

* `Inner.Queued`
* `Facts.timeless`: The facts without the time.

## Theorems

* `delimits_facts`, `decideFacts_timeless`, `evaluateFactsInner_transparent`
* `Inner.Queued.insert`: What an insert keeps.
-/

namespace Waygate.Authz

open Codec List

section Sizes

structure ScimFacts.Sized (scim : ScimFacts) : Prop where
  userId : StrSized scim.userId
  userName : StrSized scim.userName
  externalId : OptSized scim.externalId
  groupNames : VecSized scim.groupNames
  attrs : StrSized scim.attrs.toText
  numeric : scim.attrs.Numeric

structure PrincipalFacts.Sized (principal : PrincipalFacts) : Prop where
  sub : StrSized principal.sub
  email : OptSized principal.email
  groups : VecSized principal.groups
  scopes : VecSized principal.scopes
  authMethod : StrSized principal.authMethod
  roles : VecSized principal.roles
  scim : ∀ scim ∈ principal.scim, scim.Sized

structure ActionFacts.Sized (action : ActionFacts) : Prop where
  kind : StrSized action.kind
  requiredScope : OptSized action.requiredScope

structure ResourceFacts.Sized (resource : ResourceFacts) : Prop where
  server : StrSized resource.server
  tool : StrSized resource.tool
  dataClassification : OptSized resource.dataClassification
  costClass : OptSized resource.costClass
  uri : OptSized resource.uri
  sourceOrigin : OptSized resource.sourceOrigin
  artifactDigest : OptSized resource.artifactDigest
  sourceTreeDigest : OptSized resource.sourceTreeDigest
  skillUri : OptSized resource.skillUri
  revisionDigest : OptSized resource.revisionDigest
  contentDigest : OptSized resource.contentDigest
  sourcePath : OptSized resource.sourcePath
  sourceObject : OptSized resource.sourceObject
  resourceType : OptSized resource.resourceType
  operation : OptSized resource.operation

structure EmailRecipients.Sized (recipients : EmailRecipients) : Prop where
  domains : VecSized (inOrder recipients.domains)

structure RequestFacts.Sized (request : RequestFacts) : Prop where
  emailRecipients : ∀ recipients ∈ request.emailRecipients, recipients.Sized
  targetDomain : OptSized request.targetDomain
  filePaths : VecSized request.filePaths
  argumentHash : StrSized request.argumentHash

/-- Every length the hasher is fed fits in 64 bits, and the numbers of the SCIM
    attributes are numbers. -/
structure Facts.Sized (facts : Facts) : Prop where
  principal : facts.principal.Sized
  clientId : OptSized facts.client.clientId
  action : facts.action.Sized
  resource : facts.resource.Sized
  request : ∀ request ∈ facts.request, request.Sized

end Sizes

section Fields

theorem delimits_hashStr : Delimits StrSized Eq hashStr :=
  delimits_sizedStr

theorem hashOption_eq {α : Type} (enc : α → List UInt8) : hashOption enc = marked 0 1 enc := by
  funext value
  cases value with
  | none => rfl
  | some present => rfl

theorem delimits_hashOption {α : Type} {P : α → Prop} {enc : α → List UInt8}
    (h : Delimits P Eq enc) : Delimits (fun o : Option α => ∀ a ∈ o, P a) Eq (hashOption enc) := by
  rw [hashOption_eq]
  exact delimits_marked (by decide) h

theorem delimits_hashOptStr : Delimits OptSized Eq hashOptStr :=
  delimits_hashOption delimits_hashStr

theorem delimits_hashStrs : Delimits VecSized Eq hashStrs :=
  delimits_counted delimits_u64 delimits_hashStr

theorem delimits_hashBool : Delimits (fun _ => True) Eq hashBool := by
  refine delimits_of_length 1 (fun _ => rfl) (fun a b _ _ h => ?_)
  cases a <;> cases b <;> first | rfl | exact absurd h (by decide)

theorem delimits_hashRisk : Delimits (fun _ => True) Eq hashRisk := by
  refine delimits_of_length 1 (fun a => by cases a <;> rfl) (fun a b _ _ h => ?_)
  cases a <;> cases b <;> first | rfl | exact absurd h (by decide)

theorem delimits_hashChannel : Delimits (fun _ => True) Eq hashChannel := by
  refine delimits_of_length 1 (fun a => by cases a <;> rfl) (fun a b _ _ h => ?_)
  cases a <;> cases b <;> first | rfl | exact absurd h (by decide)

theorem delimits_count32 :
    Delimits (fun _ => True) Eq (fun count : UInt32 => leBytes 4 count.toNat) := by
  refine delimits_of_length 4 (fun v => leBytes_length 4 _) (fun a b _ _ h => ?_)
  exact UInt32.toNat_inj.mp (leBytes_inj 4 _ _ (lt_of_lt_of_eq a.toNat_lt (by decide))
    (lt_of_lt_of_eq b.toNat_lt (by decide)) h)

theorem delimits_hashIp : Delimits (fun _ => True) Eq hashIp := by
  intro a b _ _ r s h
  cases a with
  | v4 x =>
    cases b with
    | v4 y =>
      rcases append_inj (List.cons.inj h).2 (by simp only [Vector.length_toList]) with
        ⟨hxy, hrs⟩
      exact ⟨by rw [Vector.toList_inj.mp hxy], hrs⟩
    | v6 y => exact absurd (List.cons.inj h).1 (by decide)
  | v6 x =>
    cases b with
    | v4 y => exact absurd (List.cons.inj h).1 (by decide)
    | v6 y =>
      rcases append_inj (List.cons.inj h).2 (by simp only [Vector.length_toList]) with
        ⟨hxy, hrs⟩
      exact ⟨by rw [Vector.toList_inj.mp hxy], hrs⟩

end Fields

section Structures

theorem delimits_hashEmailRecipients :
    Delimits EmailRecipients.Sized Eq hashEmailRecipients := by
  have h := delimits_append (P := EmailRecipients.Sized)
    (delimits_comap delimits_hashBool EmailRecipients.valid fun _ _ => trivial)
    (delimits_comap delimits_hashStrs (fun r => inOrder r.domains) fun _ hr => hr.domains)
  intro a b ha hb r s hrs
  simp only [hashEmailRecipients, ← length_inOrder, append_assoc] at hrs
  rw [← append_assoc, ← append_assoc (hashCount (inOrder b.domains).length),
    ← append_assoc, ← append_assoc] at hrs
  rcases h a b ha hb r s hrs with ⟨⟨hvalid, hdomains⟩, hrest⟩
  refine ⟨?_, hrest⟩
  have hsets := congrArg List.toFinset hdomains
  rw [toFinset_inOrder, toFinset_inOrder] at hsets
  cases a
  cases b
  cases hvalid
  cases hsets
  rfl

theorem delimits_hashRequest : Delimits RequestFacts.Sized Eq hashRequest := by
  have h := delimits_append (P := RequestFacts.Sized)
    (delimits_comap delimits_hashBool RequestFacts.discoveryOnly fun _ _ => trivial)
    (delimits_comap (delimits_hashOption delimits_hashEmailRecipients) RequestFacts.emailRecipients
      fun _ hr => hr.emailRecipients)
  have h := delimits_field h delimits_hashOptStr RequestFacts.targetDomain
    fun _ hr => hr.targetDomain
  have h := delimits_field h (delimits_hashOption delimits_count32) RequestFacts.recipientCount
    fun _ _ _ _ => trivial
  have h := delimits_field h (delimits_hashOption delimits_hashBool) RequestFacts.destructive
    fun _ _ _ _ => trivial
  have h := delimits_field h delimits_hashStrs RequestFacts.filePaths fun _ hr => hr.filePaths
  have h := delimits_field h delimits_hashStr RequestFacts.argumentHash fun _ hr => hr.argumentHash
  refine h.imp (fun a b _ _ hab => ?_)
  cases a
  cases b
  simp_all

theorem delimits_hashResource : Delimits ResourceFacts.Sized Eq hashResource := by
  have h := delimits_append (P := ResourceFacts.Sized)
    (delimits_comap delimits_hashStr ResourceFacts.server fun _ hr => hr.server)
    (delimits_comap delimits_hashStr ResourceFacts.tool fun _ hr => hr.tool)
  have h := delimits_field h delimits_hashRisk ResourceFacts.risk fun _ _ => trivial
  have h := delimits_field h delimits_hashBool ResourceFacts.sideEffects fun _ _ => trivial
  have h := delimits_field h delimits_hashBool ResourceFacts.pii fun _ _ => trivial
  have h := delimits_field h delimits_hashOptStr ResourceFacts.dataClassification
    fun _ hr => hr.dataClassification
  have h := delimits_field h delimits_hashOptStr ResourceFacts.costClass fun _ hr => hr.costClass
  have h := delimits_field h delimits_hashOptStr ResourceFacts.uri fun _ hr => hr.uri
  have h := delimits_field h delimits_hashOptStr ResourceFacts.sourceOrigin
    fun _ hr => hr.sourceOrigin
  have h := delimits_field h delimits_hashOptStr ResourceFacts.artifactDigest
    fun _ hr => hr.artifactDigest
  have h := delimits_field h delimits_hashOptStr ResourceFacts.sourceTreeDigest
    fun _ hr => hr.sourceTreeDigest
  have h := delimits_field h delimits_hashOptStr ResourceFacts.skillUri fun _ hr => hr.skillUri
  have h := delimits_field h delimits_hashOptStr ResourceFacts.revisionDigest
    fun _ hr => hr.revisionDigest
  have h := delimits_field h delimits_hashOptStr ResourceFacts.contentDigest
    fun _ hr => hr.contentDigest
  have h := delimits_field h delimits_hashOptStr ResourceFacts.sourcePath fun _ hr => hr.sourcePath
  have h := delimits_field h delimits_hashOptStr ResourceFacts.sourceObject
    fun _ hr => hr.sourceObject
  have h := delimits_field h delimits_hashOptStr ResourceFacts.resourceType
    fun _ hr => hr.resourceType
  have h := delimits_field h delimits_hashOptStr ResourceFacts.operation fun _ hr => hr.operation
  refine h.imp (fun a b _ _ hab => ?_)
  cases a
  cases b
  simp_all

theorem delimits_hashAction : Delimits ActionFacts.Sized Eq hashAction := by
  have h := delimits_append (P := ActionFacts.Sized)
    (delimits_comap delimits_hashStr ActionFacts.kind fun _ ha => ha.kind)
    (delimits_comap delimits_hashOptStr ActionFacts.requiredScope fun _ ha => ha.requiredScope)
  refine h.imp (fun a b _ _ hab => ?_)
  cases a
  cases b
  simp_all

theorem TenantId.strSized (tenantId : TenantId) : StrSized tenantId.asStr := by
  have hvalid := tenantId.valid
  simp only [TenantId.validate, Bool.and_eq_true, decide_eq_true_eq] at hvalid
  exact lt_of_le_of_lt hvalid.1.1.1.2 (by decide)

theorem delimits_hashTenant : Delimits (fun _ => True) Eq hashTenant := by
  intro a b _ _ r s h
  rcases delimits_hashStr _ _ a.tenantId.strSized b.tenantId.strSized r s h with ⟨hab, hrest⟩
  refine ⟨?_, hrest⟩
  cases a with
  | mk x =>
    cases b with
    | mk y =>
      cases x
      cases y
      cases hab
      rfl

theorem delimits_hashScim : Delimits ScimFacts.Sized Eq hashScim := by
  have h := delimits_append (P := ScimFacts.Sized)
    (delimits_comap delimits_hashStr ScimFacts.userId fun _ hs => hs.userId)
    (delimits_comap delimits_hashStr ScimFacts.userName fun _ hs => hs.userName)
  have h := delimits_field h delimits_hashOptStr ScimFacts.externalId fun _ hs => hs.externalId
  have h := delimits_field h delimits_hashBool ScimFacts.active fun _ _ => trivial
  have h := delimits_field h delimits_hashStrs ScimFacts.groupNames fun _ hs => hs.groupNames
  have h := delimits_field h delimits_hashStr (fun scim => scim.attrs.toText) fun _ hs => hs.attrs
  refine h.imp (fun a b ha hb hab => ?_)
  have hattrs := Json.toText_inj ha.numeric hb.numeric hab.2
  cases a
  cases b
  simp_all

theorem delimits_hashPrincipal : Delimits PrincipalFacts.Sized Eq hashPrincipal := by
  have h := delimits_append (P := PrincipalFacts.Sized)
    (delimits_comap delimits_hashStr PrincipalFacts.sub fun _ hp => hp.sub)
    (delimits_comap delimits_hashOptStr PrincipalFacts.email fun _ hp => hp.email)
  have h := delimits_field h delimits_hashStrs PrincipalFacts.groups fun _ hp => hp.groups
  have h := delimits_field h delimits_hashStrs PrincipalFacts.scopes fun _ hp => hp.scopes
  have h := delimits_field h delimits_hashStr PrincipalFacts.authMethod fun _ hp => hp.authMethod
  have h := delimits_field h delimits_hashStrs PrincipalFacts.roles fun _ hp => hp.roles
  have h := delimits_field h (delimits_hashOption delimits_hashScim) PrincipalFacts.scim
    fun _ hp => hp.scim
  refine h.imp (fun a b _ _ hab => ?_)
  cases a
  cases b
  simp_all

def Facts.timeless (facts : Facts) : Facts :=
  { facts with context := { facts.context with time := .unixEpoch } }

/-- The bytes of the facts determine all but the time. -/
theorem delimits_facts :
    Delimits Facts.Sized (fun a b => a.timeless = b.timeless) hashFacts := by
  have h := delimits_append (P := Facts.Sized)
    (delimits_comap delimits_hashPrincipal Facts.principal fun _ hf => hf.principal)
    (delimits_comap delimits_hashOptStr (fun f => f.client.clientId) fun _ hf => hf.clientId)
  have h := delimits_field h delimits_hashTenant Facts.tenant fun _ _ => trivial
  have h := delimits_field h delimits_hashAction Facts.action fun _ hf => hf.action
  have h := delimits_field h delimits_hashResource Facts.resource fun _ hf => hf.resource
  have h := delimits_field h (delimits_hashOption delimits_hashRequest) Facts.request
    fun _ hf => hf.request
  have h := delimits_append h
    (delimits_append (delimits_append (delimits_append
      (delimits_comap delimits_hashBool (fun f => f.context.approvalPresent) fun _ _ => trivial)
      (delimits_comap delimits_hashBool (fun f => f.context.mfa) fun _ _ => trivial))
      (delimits_comap (delimits_hashOption delimits_hashIp) (fun f => f.context.sourceIp)
        fun _ _ _ _ => trivial))
      (delimits_comap delimits_hashChannel (fun f => f.context.channel) fun _ _ => trivial))
  refine h.imp (fun a b _ _ hab => ?_)
  have hclient : a.client = b.client := congrArg ClientFacts.mk hab.1.1.1.1.1.2
  simp_all [Facts.timeless]

/-- What one call asks. Its lengths are those of values in memory. -/
structure Question where
  facts : Facts
  strict : Bool
  sized : facts.Sized

theorem hashQuestion_inj {p q : Question}
    (h : hashQuestion p.facts p.strict = hashQuestion q.facts q.strict) :
    p.facts.timeless = q.facts.timeless ∧ p.strict = q.strict := by
  rcases delimits_hashBool p.strict q.strict trivial trivial _ _ h with ⟨hstrict, hfacts⟩
  have hnil : hashFacts p.facts ++ [] = hashFacts q.facts ++ [] := by
    rw [append_nil, append_nil]
    exact hfacts
  exact ⟨(delimits_facts _ _ p.sized q.sized _ _ hnil).1, hstrict⟩

end Structures

section Decision

variable {C : CedarCrate} (ps : PolicySet C)

/-- The decision does not depend on the time. -/
theorem decideFacts_timeless (facts : Facts) (strict : Bool) :
    decideFacts ps facts.timeless strict = decideFacts ps facts strict :=
  rfl

end Decision

section Queue

/-- The queue lists the keys of the entries, each once, and is within the
    capacity. -/
structure Inner.Queued (cache : Inner) : Prop where
  nodup : cache.order.Nodup
  keys : ∀ key, key ∈ cache.order ↔ key ∈ cache.entries
  bounded : cache.order.length ≤ CAPACITY

theorem Inner.queued_new : Inner.new.Queued where
  nodup := nodup_nil
  keys := fun key => ⟨nofun, fun h => absurd h (AList.notMem_empty key)⟩
  bounded := Nat.zero_le _

theorem Inner.evict_queued {entries : AList (fun _ : DecisionKey => AuthzResult)}
    {order : List DecisionKey} (hnodup : order.Nodup)
    (hkeys : ∀ key, key ∈ order ↔ key ∈ entries) :
    (Inner.evict entries order).order.Nodup
      ∧ (∀ key, key ∈ (Inner.evict entries order).order ↔ key ∈ (Inner.evict entries order).entries)
      ∧ (Inner.evict entries order).order.length < CAPACITY
      ∧ (Inner.evict entries order).order ⊆ order := by
  induction order generalizing entries with
  | nil => exact ⟨hnodup, hkeys, Nat.zero_lt_succ 4095, List.Subset.refl _⟩
  | cons oldest rest ih =>
    rw [Inner.evict]
    split
    · rcases nodup_cons.mp hnodup with ⟨hnot, hrest⟩
      have hkeys' : ∀ key, key ∈ rest ↔ key ∈ entries.erase oldest := by
        intro key
        rw [AList.mem_erase, ← hkeys key, mem_cons]
        constructor
        · exact fun hkey => ⟨fun heq => hnot (heq ▸ hkey), Or.inr hkey⟩
        · grind
      rcases ih hrest hkeys' with ⟨h1, h2, h3, h4⟩
      exact ⟨h1, h2, h3, fun key hkey => mem_cons_of_mem oldest (h4 hkey)⟩
    · rename_i hroom
      exact ⟨hnodup, hkeys, not_le.mp hroom, List.Subset.refl _⟩

theorem Inner.evict_lookup {entries : AList (fun _ : DecisionKey => AuthzResult)}
    {order : List DecisionKey} {key : DecisionKey} {result : AuthzResult}
    (h : (Inner.evict entries order).entries.lookup key = some result) :
    entries.lookup key = some result := by
  induction order generalizing entries with
  | nil => exact h
  | cons oldest rest ih =>
    rw [Inner.evict] at h
    split at h
    · have herased := ih h
      by_cases heq : key = oldest
      · rw [heq, AList.lookup_erase] at herased
        cases herased
      · rw [AList.lookup_erase_ne heq] at herased
        exact herased
    · exact h

theorem Inner.Queued.insert {cache : Inner} (h : cache.Queued) (key : DecisionKey)
    (result : AuthzResult) : (cache.insert key result).Queued := by
  unfold Inner.insert
  split
  · exact h
  · rename_i hkey
    rcases Inner.evict_queued h.nodup h.keys with ⟨hnodup, hkeys, hroom, hsub⟩
    have hnot : key ∉ (Inner.evict cache.entries cache.order).order :=
      fun hmem => hkey ((h.keys key).mp (hsub hmem))
    refine ⟨?_, fun k => ?_, ?_⟩
    · grind
    · rw [mem_append, mem_singleton, AList.mem_insert, hkeys k, or_comm]
    · rw [length_append, length_singleton]
      exact hroom

theorem Inner.Queued.keys_length {cache : Inner} (h : cache.Queued) :
    cache.entries.keys.length ≤ CAPACITY := by
  have hperm : cache.order.Perm cache.entries.keys :=
    (perm_ext_iff_of_nodup h.nodup cache.entries.nodupKeys).mpr h.keys
  rw [← hperm.length_eq]
  exact h.bounded

end Queue

section Transparency

open Memo

variable {C : CedarCrate} (ps : PolicySet C) (digest : List UInt8 → DecisionKey)

/-- One call after another on one engine, with the answer and the cache after
    each. -/
def runCalls (cache : Inner) : List Question → List (Except CedarError AuthzResult × Inner)
  | [] => []
  | q :: rest =>
    let done := evaluateFactsInner ps digest cache q.facts q.strict
    done :: runCalls done.2 rest

def Inner.table : Table Inner DecisionKey AuthzResult :=
  { lookup := Inner.get, store := Inner.insert }

theorem Inner.table_lawful : Inner.table.Lawful := by
  intro cache key result key' result' h
  have hget : (cache.insert key result).get key' = some result' := h
  unfold Inner.insert at hget
  split at hget
  · exact Or.inr hget
  · by_cases heq : key' = key
    · refine Or.inl ⟨heq, ?_⟩
      rw [heq, Inner.get, AList.lookup_insert] at hget
      exact (Option.some.inj hget).symm
    · rw [Inner.get, AList.lookup_insert_ne heq] at hget
      exact Or.inr (Inner.evict_lookup hget)

theorem evaluateFactsInner_eq_call (cache : Inner) (q : Question) :
    evaluateFactsInner ps digest cache q.facts q.strict
      = Inner.table.call (fun q : Question => DecisionKey.new digest q.facts q.strict)
          (fun q => decideFacts ps q.facts q.strict) cache q := by
  simp only [evaluateFactsInner, Table.call, Inner.table]
  cases cache.get (DecisionKey.new digest q.facts q.strict) with
  | some cached => rfl
  | none => cases decideFacts ps q.facts q.strict <;> rfl

theorem runCalls_eq_run (cache : Inner) (calls : List Question) :
    runCalls ps digest cache calls
      = Inner.table.run (fun q : Question => DecisionKey.new digest q.facts q.strict)
          (fun q => decideFacts ps q.facts q.strict) cache calls := by
  induction calls generalizing cache with
  | nil => rfl
  | cons q rest ih => simp only [runCalls, Table.run, evaluateFactsInner_eq_call, ih]

/-- Caching is transparent: when the digest tells the questions of a run apart,
    every call gets the decision for its own facts. After each call the queue
    lists every held key once, and there are at most as many as fit. -/
theorem evaluateFactsInner_transparent (calls : List Question)
    (hfree : ∀ p ∈ calls, ∀ q ∈ calls,
      digest (hashQuestion p.facts p.strict) = digest (hashQuestion q.facts q.strict) →
        hashQuestion p.facts p.strict = hashQuestion q.facts q.strict) :
    (runCalls ps digest Inner.new calls).map Prod.fst
        = calls.map (fun q => decideFacts ps q.facts q.strict)
      ∧ ∀ done ∈ runCalls ps digest Inner.new calls,
        done.2.order.Nodup ∧ (∀ key, key ∈ done.2.order ↔ key ∈ done.2.entries)
          ∧ done.2.entries.keys.length ≤ CAPACITY := by
  rw [runCalls_eq_run]
  constructor
  · refine Table.run_answers {q | q ∈ calls} Inner.table_lawful ?_ calls (fun q hq => hq) ?_
    · intro p hp q hq hkey
      rcases hashQuestion_inj (hfree p hp q hq hkey) with ⟨hfacts, hstrict⟩
      rw [← decideFacts_timeless, hfacts, hstrict, decideFacts_timeless]
    · intro q _ v hv
      cases hv
  · intro done hdone
    have hqueued : done.2.Queued := Table.run_invariant
      (fun cache key result hcache _ => hcache.insert key result) calls Inner.queued_new done hdone
    exact ⟨hqueued.nodup, hqueued.keys, hqueued.keys_length⟩

def sampleFacts : Facts :=
  buildCallFacts (memberOf "mail-assistants" []) sendTool

theorem sampleFacts_sized : sampleFacts.Sized := by
  have hnone : OptSized none := nofun
  refine ⟨⟨by decide, hnone, ⟨by decide, by decide⟩, ⟨by decide, by decide⟩, by decide,
    ⟨by decide, by decide⟩, nofun⟩, hnone, ⟨by decide, hnone⟩, ⟨by decide,
    by decide, hnone, hnone, hnone, hnone, hnone, hnone, hnone, hnone, hnone, hnone, hnone, hnone,
    hnone⟩, nofun⟩

def sampleQuestion (strict : Bool) (time : OffsetDateTime) : Question :=
  { facts := { sampleFacts with context := { sampleFacts.context with time := time } }
    strict := strict
    sized :=
      { principal := sampleFacts_sized.principal
        clientId := sampleFacts_sized.clientId
        action := sampleFacts_sized.action
        resource := sampleFacts_sized.resource
        request := sampleFacts_sized.request } }

def headDigest (bytes : List UInt8) : DecisionKey :=
  Vector.replicate 32 (bytes.headD 0)

theorem headDigest_free {strict strict' : Bool} {time time' : OffsetDateTime}
    (h : headDigest (hashQuestion (sampleQuestion strict time).facts strict)
      = headDigest (hashQuestion (sampleQuestion strict' time').facts strict')) :
    hashQuestion (sampleQuestion strict time).facts strict
      = hashQuestion (sampleQuestion strict' time').facts strict' := by
  have hhead : (if strict then (1 : UInt8) else 0) = if strict' then 1 else 0 :=
    congrArg (fun v : DecisionKey => v.toList.headD 0) h
  have hstrict : strict = strict' := by
    cases strict <;> cases strict' <;> first | rfl | exact absurd hhead (by decide)
  rw [hstrict]
  rfl

def sampleCalls : List Question :=
  [(false, .unixEpoch), (false, { unixTimestampNanos := 1, lower := by decide, upper := by decide }),
    (true, .unixEpoch)].map (fun x => sampleQuestion x.1 x.2)

/-- The second call differs from the first in its time only, and is served from the
    cache. -/
theorem evaluateFactsInner_transparent_repeated :
    (runCalls overlayPolicies headDigest Inner.new sampleCalls).map (fun done =>
        (done.1.toOption.map AuthzResult.decision, done.2.order.length))
      = [(some .deny, 1), (some .deny, 1), (some .deny, 2)]
    ∧ (runCalls overlayPolicies headDigest Inner.new sampleCalls).map Prod.fst
        = sampleCalls.map (fun q => decideFacts overlayPolicies q.facts q.strict)
      ∧ ∀ done ∈ runCalls overlayPolicies headDigest Inner.new sampleCalls,
        done.2.order.Nodup ∧ (∀ key, key ∈ done.2.order ↔ key ∈ done.2.entries)
          ∧ done.2.entries.keys.length ≤ CAPACITY := by
  refine ⟨by decide +kernel, evaluateFactsInner_transparent overlayPolicies headDigest sampleCalls
    (fun p hp q hq h => ?_)⟩
  rcases mem_map.mp hp with ⟨x, -, rfl⟩
  rcases mem_map.mp hq with ⟨y, -, rfl⟩
  exact headDigest_free h

end Transparency

end Waygate.Authz
