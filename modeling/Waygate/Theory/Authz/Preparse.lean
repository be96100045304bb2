import Waygate.Core.Authz.Preparse
import Waygate.Theory.Authz.Inference

/-!
# What the Pre-Parse Gate May Refuse

The gate decides from facts without the recipients the arguments name, and the shipped
email policies are a set for which it is wrong. Policies that do not depend on the
recipients are safe with it. The gate passes on tools whose classification the arguments
can select, and stands aside for a token that could override the deny.

## Main definitions

* `RecipientsUnread`

## Theorems

* `evaluate_forbidden_sound`, `evaluate_forbidden_sound_email`
* `tryOverride_eq_none`: A token the gate did not see is not seen later.
* `evaluateFacts_unread`: With recipients, nothing more is allowed.
-/

namespace Waygate.Authz

open Policy (allows_congr behind_congr)

section Override

variable {run run' : BreakGlassRun} {facts facts' : Facts} {store : List BreakGlassToken}

theorem live_mono {token : BreakGlassToken} {now now' : OffsetDateTime}
    (hnow : now.unixTimestampNanos ≤ now'.unixTimestampNanos) (h : token.live now' = true) :
    token.live now = true := by
  simp only [BreakGlassToken.live, Bool.and_eq_true, decide_eq_true_eq] at h ⊢
  exact ⟨h.1, lt_of_le_of_lt hnow h.2⟩

theorem mem_listCandidates {order : RowOrder} {now : OffsetDateTime}
    {tenantId principalSub fqToolName : String} {token : BreakGlassToken} :
    token ∈ listCandidates order now tenantId principalSub fqToolName store ↔
      token ∈ store ∧ token.tenantId = tenantId ∧ token.issuedTo = principalSub
        ∧ token.live now = true ∧ scopePatternMatches token.scopePattern fqToolName = true := by
  rw [listCandidates, List.mem_filter, (order.property _).mem_iff, List.mem_filter]
  simp only [Bool.and_eq_true, beq_iff_eq]
  tauto

theorem tryOverrideWalk_eq_none {listed : List BreakGlassToken}
    (h : ∀ token ∈ listed, applicable facts token = false) :
    tryOverrideWalk run facts listed store = (none, store) := by
  induction listed with
  | nil => rfl
  | cons token rest ih =>
    rw [tryOverrideWalk, h token List.mem_cons_self, if_neg Bool.false_ne_true]
    exact ih (fun t ht => h t (List.mem_cons_of_mem token ht))

theorem tryOverride_eq_none (hprobe : overrideCouldApply run facts store = false)
    (htenant : facts'.tenant = facts.tenant) (hsub : facts'.principal.sub = facts.principal.sub)
    (htool : fqTool facts' = fqTool facts)
    (hnow : run.now.unixTimestampNanos ≤ run'.now.unixTimestampNanos) :
    tryOverride run' facts' store = (none, store) := by
  unfold tryOverride
  split
  · rfl
  rename_i listed hlisted
  refine tryOverrideWalk_eq_none (fun token htoken => ?_)
  unfold overrideCouldApply at hprobe
  split at hprobe
  · cases hprobe
  rename_i probed hprobed
  have happlies : applicable facts' token = applicable facts token := by
    rw [applicable, applicable, htool]
  rw [happlies]
  simp only [candidates] at hlisted hprobed
  split at hlisted
  · cases hlisted
  split at hprobed
  · cases hprobed
  rw [← Option.some.inj hlisted, mem_listCandidates] at htoken
  rcases htoken with ⟨hmem, htenants, hsubs, hlive, hscope⟩
  refine Bool.eq_false_of_not_eq_true (List.any_eq_false.mp hprobe token ?_)
  rw [← Option.some.inj hprobed, mem_listCandidates]
  exact ⟨hmem, by rw [htenants, htenant], by rw [hsubs, hsub], live_mono hnow hlive,
    by rw [← htool]; exact hscope⟩

end Override

section Gate

variable {C : CedarCrate} {S : Semantics C} {ps : PolicySet C}

def Facts.withRecipients (facts : Facts) (recipients : EmailRecipients) : Facts :=
  { facts with request := some { RequestFacts.default with emailRecipients := some recipients } }

def GateDecision.isForbidden : GateDecision → Bool
  | .forbidden _ _ _ _ _ _ => true
  | _ => false

theorem authorize_error (state : GateState) (hinner : state.inner = cedarGate ps)
    {run : BreakGlassRun} {facts : Facts}
    (hoverride : tryOverride run facts state.store = (none, state.store))
    (hallow : (evaluateFacts ps facts).decision ≠ .allow)
    (happroval : (evaluateFacts ps facts).decision ≠ .approvalRequired) :
    ∃ e, authorize state run facts = .error e := by
  simp only [authorize, BreakGlassGate.authorizeToolCall, hinner, cedarGate, evaluateVerdict]
  cases hdecision : (evaluateFacts ps facts).decision with
  | allow => exact absurd hdecision hallow
  | deny =>
    rw [hoverride]
    exact ⟨_, rfl⟩
  | stepUpRequired => exact ⟨_, rfl⟩
  | approvalRequired => exact absurd hdecision happroval

theorem factsFor_of_fixed {snapshot : InvocationToolSnapshot}
    (h : snapshot.factsVaryByArguments = false) (arguments : Option Arguments) :
    snapshot.resolveOperation arguments = .default
      ∧ snapshot.factsFor arguments = snapshot.facts := by
  simp only [InvocationToolSnapshot.factsVaryByArguments, Bool.or_eq_false_iff,
    Option.isSome_eq_false_iff, Option.isNone_iff_eq_none] at h
  have hresolve : snapshot.resolveOperation arguments = .default := by
    rw [InvocationToolSnapshot.resolveOperation, h.1]
  refine ⟨hresolve, ?_⟩
  rw [InvocationToolSnapshot.factsFor, hresolve]
  rfl

/-- The gate refuses on a deny that no token could override. -/
theorem evaluate_forbidden (state : GateState) (hinner : state.inner = cedarGate ps)
    {run : BreakGlassRun} {principal : Principal} {server tool : String}
    (h : (evaluate state run principal server tool).isForbidden = true) :
    ∃ snapshot, state.catalog principal.tenant.asStr server tool = .ready snapshot
      ∧ snapshot.factsVaryByArguments = false
      ∧ (evaluateFacts ps (buildCallFacts principal snapshot.facts)).decision = .deny
      ∧ overrideCouldApply run (buildCallFacts principal snapshot.facts) state.store = false := by
  unfold evaluate at h
  split at h
  · cases h
  split at h
  · cases h
  · cases h
  rename_i snapshot hsnapshot
  split at h
  · cases h
  rename_i hfixed
  refine ⟨snapshot, hsnapshot, Bool.eq_false_of_not_eq_true hfixed, ?_⟩
  simp only [BreakGlassGate.probeToolCall, hinner, cedarGate, evaluateVerdict] at h
  -- Every verdict but a deny is passed on, and so is a deny with a token about.
  cases hdecision : (evaluateFacts ps (buildCallFacts principal snapshot.facts)).decision with
  | deny =>
    refine ⟨rfl, Bool.eq_false_of_not_eq_true (fun hcould => ?_)⟩
    simp only [hdecision, hcould, if_true] at h
    cases h
  | allow =>
    simp only [hdecision, probeQuota] at h
    split at h
    · cases h
    split at h
    · cases h
    split at h <;> cases h
  | stepUpRequired | approvalRequired =>
    simp only [hdecision] at h
    cases h

theorem evaluateFacts_extractFacts {snapshot : InvocationToolSnapshot}
    (h : snapshot.factsVaryByArguments = false) (argumentHash : Option Arguments → String)
    (principal : Principal) (arguments : Option Arguments) :
    evaluateFacts ps (extractFacts argumentHash principal snapshot arguments)
      = evaluateFacts ps ((buildCallFacts principal snapshot.facts).withRecipients
          (EmailRecipients.fromArguments arguments)) := by
  rcases factsFor_of_fixed h arguments with ⟨hresolve, hfacts⟩
  simp only [extractFacts, hresolve, hfacts]
  rfl

/-- No policy depends on the recipients. A request that can be made with them can be
    made without them, and every policy comes out the same on both. -/
def RecipientsUnread (S : Semantics C) (ps : PolicySet C) : Prop :=
  ∀ facts : Facts, facts.request = none → ∀ recipients req' entities',
    buildRequest C (facts.withRecipients recipients) = .ok (req', entities') →
      ∃ req entities, buildRequest C facts = .ok (req, entities)
        ∧ ∀ p ∈ ps.policies, S.eval req' entities' p = S.eval req entities p

/-- A pass over facts with recipients has the result of a pass without them. -/
theorem evaluateRawFacts_unread (hunread : RecipientsUnread S ps) {facts : Facts}
    {recipients : EmailRecipients} {result' : AuthzResult}
    (h : evaluateRawFacts ps (facts.withRecipients recipients) false = .ok result')
    (hnone : facts.request = none) :
    ∃ result, evaluateRawFacts ps facts false = .ok result ∧ result.decision = result'.decision
      ∧ result.policyIds.Perm result'.policyIds := by
  rcases evaluateRawFacts_ok S h with ⟨req', entities', hpassed'⟩
  rcases hunread facts hnone recipients req' entities' hpassed'.built with
    ⟨req, entities, hbuilt, hsame⟩
  rcases evaluateRawFacts_of_forbids (S := S) hbuilt (fun p hp hforbid => by
    rw [← hsame p hp]
    exact hpassed'.forbids p hp hforbid) with ⟨result, hresult⟩
  rcases evaluateRawFacts_ok S hresult with ⟨req₁, entities₁, hpassed⟩
  cases hpassed.built.symm.trans hbuilt
  refine ⟨result, hresult, ?_, ?_⟩
  · rw [hpassed.decision, hpassed'.decision, allows_congr hsame]
  · exact hpassed.policyIds.trans (behind_congr hsame ▸ hpassed'.policyIds.symm)

/-- A decision that lets a call go on with recipients lets it go on without them. -/
theorem decideFacts_unread (hunread : RecipientsUnread S ps) {facts : Facts}
    {recipients : EmailRecipients} {result' : AuthzResult}
    (hresult' : decideFacts ps (facts.withRecipients recipients) false = .ok result')
    (hnone : facts.request = none)
    (hgoes : result'.decision = .allow ∨ result'.decision = .approvalRequired) :
    ∃ result, decideFacts ps facts false = .ok result ∧ result.decision ≠ .deny := by
  rcases decideFacts_ok hresult' with ⟨first', hfirst', hdecided⟩
  rcases evaluateRawFacts_unread hunread hfirst' hnone with ⟨first, hfirst, hsame, hids⟩
  cases hdecided with
  | allowed hallow =>
    rw [← hsame] at hallow
    exact ⟨first, decideFacts_of_allow hfirst hallow, by simp [hallow]⟩
  | approval second' hdeny hscoped hgoverns hpresent hreported hsecond' hallow hrefs =>
    have happroved : evaluateRawFacts ps (facts.approved.withRecipients recipients) false
        = .ok second' := hsecond'
    rcases evaluateRawFacts_unread hunread happroved hnone with ⟨second, hsecond, hflip, hperm⟩
    refine ⟨_, decideFacts_approval hfirst (hsame ▸ hdeny) (fun scope hscope => ?_) hgoverns
      hpresent (fun hnil => hreported ?_) hsecond (hflip.trans hallow) ?_, Decision.noConfusion⟩
    · rcases hscoped scope hscope with ⟨augmented', haugmented', hdenied⟩
      have hwith : evaluateRawFacts ps ((facts.withScope scope).withRecipients recipients) false
          = .ok augmented' := haugmented'
      rcases evaluateRawFacts_unread hunread hwith hnone with ⟨augmented, haugmented, heq, -⟩
      exact ⟨augmented, haugmented, heq ▸ hdenied⟩
    · exact (hnil ▸ hids).nil_eq.symm
    · rw [anyPolicyReferencesApproval, hperm.any_eq]
      exact hrefs
  | steppedUp | both => rcases hgoes with hgoes | hgoes <;> cases hgoes
  | denied hdeny =>
    rcases evaluateRawFacts_ok S hfirst' with ⟨req, entities, hpassed⟩
    rw [hpassed.decision] at hgoes
    split at hgoes
    · rename_i hallows
      rw [hpassed.decision, if_pos hallows] at hdeny
      exact absurd rfl hdeny
    · rcases hgoes with hgoes | hgoes <;> cases hgoes

theorem evaluateFacts_unread (hunread : RecipientsUnread S ps) {facts : Facts}
    (hnone : facts.request = none) (recipients : EmailRecipients)
    (h : (evaluateFacts ps facts).decision = .deny) :
    (evaluateFacts ps (facts.withRecipients recipients)).decision ≠ .allow
      ∧ (evaluateFacts ps (facts.withRecipients recipients)).decision ≠ .approvalRequired := by
  have hnot : ¬ ((evaluateFacts ps (facts.withRecipients recipients)).decision = .allow
      ∨ (evaluateFacts ps (facts.withRecipients recipients)).decision = .approvalRequired) := by
    intro hgoes
    cases hdecide : decideFacts ps (facts.withRecipients recipients) false with
    | error e =>
      rw [evaluateFacts, hdecide] at hgoes
      rcases hgoes with hgoes | hgoes <;> cases hgoes
    | ok result' =>
      rw [evaluateFacts, hdecide] at hgoes
      rcases decideFacts_unread hunread hdecide hnone hgoes with ⟨result, hresult, hne⟩
      rw [evaluateFacts, hresult] at h
      exact hne h
  exact ⟨fun hallow => hnot (.inl hallow), fun happroval => hnot (.inr happroval)⟩

/-- When no policy depends on the recipients, the gate refuses only calls that the
    pipeline refuses, whatever their arguments. -/
theorem evaluate_forbidden_sound (S : Semantics C)
    (catalog : String → String → String → ResolvedInvocationTool) (ps : PolicySet C)
    (hunread : RecipientsUnread S ps) (store : List BreakGlassToken)
    (quota : Option (Quota.QuotaContext → List Quota.QuotaAction → Except Quota.QuotaError Unit))
    (argumentHash : Option Arguments → String) (run : BreakGlassRun) (principal : Principal)
    (server tool : String) :
    let state : GateState :=
      { catalog := catalog, inner := cedarGate ps, store := store, quota := quota }
    (evaluate state run principal server tool).isForbidden = true →
      ∀ run', run.now.unixTimestampNanos ≤ run'.now.unixTimestampNanos → ∀ arguments policyIds,
        authorizeCall state run' argumentHash principal server tool arguments
          ≠ some (.ok policyIds) := by
  intro state hforbidden run' hnow arguments policyIds hcall
  rcases evaluate_forbidden state rfl hforbidden with
    ⟨snapshot, hsnapshot, hfixed, hdeny, hprobe⟩
  have hdecision := evaluateFacts_unread hunread rfl (EmailRecipients.fromArguments arguments)
    hdeny
  rw [← evaluateFacts_extractFacts hfixed argumentHash] at hdecision
  have hoverride : tryOverride run' (extractFacts argumentHash principal snapshot arguments)
      state.store = (none, state.store) := by
    refine tryOverride_eq_none hprobe rfl rfl ?_ hnow
    rw [fqTool, fqTool, extractFacts, (factsFor_of_fixed hfixed arguments).2]
  rcases authorize_error state rfl hoverride hdecision.1 hdecision.2 with ⟨e, herror⟩
  simp only [authorizeCall, hsnapshot] at hcall
  rw [herror] at hcall
  cases hcall

/-- A policy of the fragment that does not name the recipients does not depend on them. -/
theorem recipientsUnread_plain {ps : PolicySet plainCrate}
    (h : ∀ p ∈ ps.policies, "email_recipients" ∉ p.condition.reads) :
    RecipientsUnread plainSemantics ps := by
  intro facts hnone recipients req' entities' hbuilt'
  rcases buildRequest_plain facts hbuilt' rfl rfl rfl with ⟨hbuilt, hcontext⟩
  refine ⟨_, entities', hbuilt, fun p hp => ?_⟩
  refine p.eval_plain "email_recipients" (h p hp) entities' hcontext (fun other hother => ?_)
  simp only [plainContext, List.lookup_append, Facts.withRecipients, hnone, Option.bind_some,
    Option.bind_none, Option.map_some, Option.map_none, Option.toList_some, Option.toList_none,
    List.lookup_cons, List.lookup_nil, beq_eq_false_iff_ne.mpr hother]
  rfl

def overlayGate : GateState :=
  { catalog := fun _ server tool => .ready
      { facts :=
          { server := server, name := tool, risk := .high, sideEffects := true, pii := false }
        discriminator := none
        operations := [] }
    inner := cedarGate overlayPolicies
    store := []
    quota := none }

def quietRun : BreakGlassRun :=
  { now := .unixEpoch
    order := ⟨id, fun rows => List.Perm.refl rows⟩
    lookupFails := false
    claimFault := fun _ => .answered
    recordFails := false }

/-- A caller without a permit is refused by the gate, and by the pipeline whatever the
    arguments are. -/
theorem evaluate_forbidden_sound_overlay :
    (evaluate overlayGate quietRun (memberOf "nobody" []) "example-catalog"
        "delete_dataset").isForbidden = true
      ∧ ∀ arguments policyIds, authorizeCall overlayGate quietRun (fun _ => "")
          (memberOf "nobody" []) "example-catalog" "delete_dataset" arguments
            ≠ some (.ok policyIds) := by
  have hforbidden : (evaluate overlayGate quietRun (memberOf "nobody" []) "example-catalog"
      "delete_dataset").isForbidden = true := by
    decide +kernel
  exact ⟨hforbidden, evaluate_forbidden_sound plainSemantics overlayGate.catalog overlayPolicies
    (recipientsUnread_plain (by decide +kernel)) [] none (fun _ => "") quietRun
    (memberOf "nobody" []) "example-catalog" "delete_dataset" hforbidden quietRun le_rfl⟩

def colleagueArguments : Arguments :=
  [("to", .array [.string "alice@example.com"])]

def mailGate : GateState :=
  { catalog := fun _ _ _ =>
      .ready { facts := sendTool, discriminator := none, operations := [] }
    inner := cedarGate emailPolicies
    store := []
    quota := none }

/-- A message within the company is refused by the gate and allowed by the
    pipeline: without recipients in the context, both forbids fail to evaluate,
    and the gate takes that for a deny. -/
theorem evaluate_forbidden_sound_email :
    (evaluate mailGate quietRun (memberOf "mail-assistants" []) "example-messages"
        "send").isForbidden = true
      ∧ authorizeCall mailGate quietRun (fun _ => "") (memberOf "mail-assistants" [])
          "example-messages" "send" (some colleagueArguments) = some (.ok ["send-email"]) := by
  decide +kernel

end Gate

end Waygate.Authz
