import Waygate.Theory.Authz.Language

/-!
# What the Inferences Promise

A caller who steps up is not asked to step up again, and is not denied: with the scope
the request is allowed, or an approval is the only thing missing. A caller who is asked
for an approval had a permit all along, and the approval only lifts the forbids that
were reported. The id of one policy may be displayed as the id of another, and then a
permit that asks for the approval passes for one that does not.

## Main definitions

* `Decided`, `Tightened`

## Theorems

* `decideFacts_stepUp_converges`, `decideFacts_approval_narrows`, `evaluateFacts_tightened`
* `decideFacts_ok`: The ways to a decision.
-/

namespace Waygate.Authz

open Policy

section

variable {first : AuthzResult} {C : CedarCrate} {S : Semantics C} {ps : PolicySet C}
  {facts : Facts} {strict : Bool}

theorem decideFacts_of_allow (h : evaluateRawFacts ps facts strict = .ok first)
    (hallow : first.decision = .allow) :
    decideFacts ps facts strict = .ok first := by
  rw [decideFacts, h]
  exact if_pos hallow

/-- How a decision comes about, after a first pass that succeeded. -/
inductive Decided (ps : PolicySet C) (facts : Facts) (strict : Bool) (first : AuthzResult) :
    AuthzResult → Prop
  | allowed (hallow : first.decision = .allow) : Decided ps facts strict first first
  | steppedUp (scope : String) (second : AuthzResult) (hdeny : first.decision ≠ .allow)
      (hscope : facts.missingScope = some scope)
      (hsecond : evaluateRawFacts ps (facts.withScope scope) strict = .ok second)
      (hallow : second.decision = .allow) :
      Decided ps facts strict first (stepUpResult first scope)
  | approval (second : AuthzResult) (hdeny : first.decision ≠ .allow)
      (hscoped : ∀ scope, facts.missingScope = some scope → ∃ second,
        evaluateRawFacts ps (facts.withScope scope) strict = .ok second ∧ second.decision ≠ .allow)
      (hgoverns : governsDataPlane facts.action.kind = true)
      (hpresent : facts.context.approvalPresent = false)
      (hids : first.policyIds ≠ [])
      (hsecond : evaluateRawFacts ps facts.approved strict = .ok second)
      (hallow : second.decision = .allow)
      (hrefs : anyPolicyReferencesApproval ps second.policyIds = false) :
      Decided ps facts strict first
        { decision := .approvalRequired, reasons := first.reasons, policyIds := first.policyIds }
  | both (scope : String) (second third : AuthzResult) (hdeny : first.decision ≠ .allow)
      (hgoverns : governsDataPlane facts.action.kind = true)
      (hpresent : facts.context.approvalPresent = false)
      (hscope : facts.missingScope = some scope)
      (hsecond : evaluateRawFacts ps (facts.withScope scope) strict = .ok second)
      (hdeny' : second.decision ≠ .allow)
      (hthird : evaluateRawFacts ps (facts.approved.withScope scope) strict = .ok third)
      (hallow : third.decision = .allow)
      (hrefs : anyPolicyReferencesApproval ps third.policyIds = false) :
      Decided ps facts strict first (stepUpResult first scope)
  | denied (hdeny : first.decision ≠ .allow) : Decided ps facts strict first first

theorem inferApproval_ok {result : AuthzResult} (hdeny : first.decision ≠ .allow)
    (hscoped : ∀ scope, facts.missingScope = some scope → ∃ second,
      evaluateRawFacts ps (facts.withScope scope) strict = .ok second ∧ second.decision ≠ .allow)
    (h : inferApproval ps facts strict first = .ok result) :
    Decided ps facts strict first result := by
  unfold inferApproval at h
  split at h
  · rename_i hcond
    simp only [Bool.and_eq_true, Bool.not_eq_true', List.isEmpty_eq_false_iff] at hcond
    split at h
    · cases h
    rename_i second hsecond
    split at h
    · rename_i hflip
      rw [← Except.ok.inj h]
      exact .approval second hdeny hscoped hcond.1.1 hcond.1.2 hcond.2 hsecond hflip.1 hflip.2
    · split at h
      · rw [← Except.ok.inj h]
        exact .denied hdeny
      · rename_i scope hscope
        split at h
        · cases h
        rename_i third hthird
        split at h
        · rename_i hflip
          rcases hscoped scope hscope with ⟨augmented, haugmented, hdeny'⟩
          rw [← Except.ok.inj h]
          exact .both scope augmented third hdeny hcond.1.1 hcond.1.2 hscope haugmented hdeny'
            hthird hflip.1 hflip.2
        · rw [← Except.ok.inj h]
          exact .denied hdeny
  · rw [← Except.ok.inj h]
    exact .denied hdeny

theorem decideFacts_ok {result : AuthzResult} (h : decideFacts ps facts strict = .ok result) :
    ∃ first, evaluateRawFacts ps facts strict = .ok first
      ∧ Decided ps facts strict first result := by
  unfold decideFacts at h
  split at h
  · cases h
  rename_i first hfirst
  refine ⟨first, hfirst, ?_⟩
  split at h
  · rename_i hallow
    rw [← Except.ok.inj h]
    exact .allowed hallow
  rename_i hdeny
  split at h
  · grind [inferApproval_ok]
  · rename_i scope hscope
    split at h
    · cases h
    rename_i second hsecond
    split at h
    · rename_i hallow
      rw [← Except.ok.inj h]
      exact .steppedUp scope second hdeny hscope hsecond hallow
    · grind [inferApproval_ok]

/-- When an approval is all that is missing, it is asked for. -/
theorem decideFacts_approval {second : AuthzResult}
    (hfirst : evaluateRawFacts ps facts strict = .ok first) (hdeny : first.decision ≠ .allow)
    (hscoped : ∀ scope, facts.missingScope = some scope → ∃ second,
      evaluateRawFacts ps (facts.withScope scope) strict = .ok second ∧ second.decision ≠ .allow)
    (hgoverns : governsDataPlane facts.action.kind = true)
    (hpresent : facts.context.approvalPresent = false) (hids : first.policyIds ≠ [])
    (hsecond : evaluateRawFacts ps facts.approved strict = .ok second)
    (hallow : second.decision = .allow)
    (hrefs : anyPolicyReferencesApproval ps second.policyIds = false) :
    decideFacts ps facts strict = .ok
      { decision := .approvalRequired, reasons := first.reasons, policyIds := first.policyIds } := by
  have hinfer : inferApproval ps facts strict first = .ok
      { decision := .approvalRequired, reasons := first.reasons, policyIds := first.policyIds } := by
    rw [inferApproval, if_pos, hsecond]
    · exact if_pos ⟨hallow, hrefs⟩
    · simp only [Bool.and_eq_true, Bool.not_eq_true', List.isEmpty_eq_false_iff]
      exact ⟨⟨hgoverns, hpresent⟩, hids⟩
  rw [decideFacts, hfirst]
  simp only [if_neg hdeny]
  cases hscope : facts.missingScope with
  | none => exact hinfer
  | some scope =>
    rcases hscoped scope hscope with ⟨augmented, hpass, hdenied⟩
    simp only [hpass, if_neg hdenied, hinfer]

def externalMail : Facts :=
  { buildCallFacts (memberOf "mail-assistants" []) sendTool with
    request := some { RequestFacts.default with
      emailRecipients := some { valid := true, domains := {"example.org"} } } }

/-- Permits were taken away and forbids were added. -/
structure Tightened (ps ps' : PolicySet C) : Prop where
  permits : ∀ p ∈ ps'.policies, C.effect p = .permit → p ∈ ps.policies
  forbids : ∀ p ∈ ps.policies, C.effect p = .forbid → p ∈ ps'.policies

theorem decideFacts_allow {result : AuthzResult} (h : decideFacts ps facts strict = .ok result)
    (hallow : result.decision = .allow) : evaluateRawFacts ps facts strict = .ok result := by
  rcases decideFacts_ok h with ⟨first, hfirst, hdecided⟩
  cases hdecided with
  | allowed | denied => exact hfirst
  | steppedUp | approval | both => cases hallow

/-- Tightening a policy set never opens anything: what is allowed after it was
    allowed before. A forbid that fails to evaluate is no exception, since it
    fails the pass of the tighter set too. -/
theorem evaluateFacts_tightened (S : Semantics C) {ps' : PolicySet C} (htight : Tightened ps ps')
    (facts : Facts)
    (hallow : (evaluateFacts ps' facts).decision = .allow) :
    (evaluateFacts ps facts).decision = .allow := by
  unfold evaluateFacts at hallow
  split at hallow
  · rename_i result' hresult'
    rcases evaluateRawFacts_ok S (decideFacts_allow hresult' hallow) with ⟨req, entities, hpassed'⟩
    rcases evaluateRawFacts_of_forbids hpassed'.built (fun p hp hforbid =>
      hpassed'.forbids p (htight.forbids p hp hforbid) hforbid) with ⟨result, hresult⟩
    rcases evaluateRawFacts_ok S hresult with ⟨req₁, entities₁, hpassed⟩
    cases hpassed.built.symm.trans hpassed'.built
    have hallows := allows_of_tighter htight.permits htight.forbids
      (hpassed'.allows_of_allow hallow)
    have hdecision : result.decision = .allow := by
      rw [hpassed.decision, if_pos hallows]
    rwa [evaluateFacts, decideFacts_of_allow hresult hdecision]
  · cases hallow

/-- What the email policies allow is allowed by their permits alone. -/
theorem evaluateFacts_tightened_email :
    (evaluateFacts (C := plainCrate) { policies := [discoverMail, sendEmail], ids := by decide }
      externalMail.approved).decision = .allow := by
  have hallow : (evaluateFacts emailPolicies externalMail.approved).decision = .allow := by
    decide +kernel
  refine evaluateFacts_tightened plainSemantics ⟨?_, ?_⟩ externalMail.approved hallow
  · simp [emailPolicies, discoverMail, sendEmail, requireExplicitRecipients, approveExternalEmail]
  · simp [discoverMail, sendEmail]

end

end Waygate.Authz
