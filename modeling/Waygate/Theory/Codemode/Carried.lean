import Waygate.Theory.Codemode.Advance
import Waygate.Theory.Loop.Emits

/-!
# What Operations Do to the Table

Retention deletes rows, an operation advances the rows that are left, and a submission
or a start adds one. An operation that fails changes nothing.

## Main definitions

* `Carried`, `Granting`, `Outcome`

## Theorems

* `startOrReuse_ok`, `effect_outcome`, `effect_fenced`
* `updateExecutions_ok`, `insertEvent_ok`: The statements.
-/

namespace Waygate.Codemode

open Loop List

def rows (s : Tables) : List Execution :=
  s.executions.map Row.execution

theorem checked_of_mem {s : Tables} {e : Execution} (h : e ∈ rows s) : e.Checked := by
  rcases mem_map.mp h with ⟨r, _, rfl⟩
  exact r.checked

section Statements

variable {id : Uuid} {tenantId : String} {s s' : Tables} {guard : Execution → Bool}
  {set : Execution → Execution} {now : Int}

def updated (guard : Execution → Bool) (set : Execution → Execution) (now : Int)
    (e : Execution) : Execution :=
  if guard e = true then (set e).touched now else e

theorem updateExecutions_ok {row : Option Execution}
    (h : updateExecutions s guard set now = .ok (row, s')) :
    rows s' = (rows s).map (updated guard set now) ∧ s'.events = s.events
      ∧ s'.locators = s.locators
      ∧ row = ((rows s).find? guard).map (fun e => (set e).touched now) := by
  rw [updateExecutions] at h
  split at h
  · rename_i hall
    cases h
    refine ⟨?_, rfl, rfl, ?_⟩
    · rw [rows, rows, map_map, map_map]
      refine map_congr_left (fun r hr => ?_)
      rw [Function.comp_apply, Function.comp_apply, updated]
      by_cases hguard : guard r.execution = true
      · rw [dif_pos ⟨hguard, hall r hr hguard⟩, if_pos hguard]
      · rw [dif_neg (fun hboth => hguard hboth.1), if_neg hguard]
    · rw [rows, find?_map, Option.map_map]
      rfl
  · cases h

theorem find_rows (guard : Execution → Bool) :
    selectExecution s guard = (rows s).find? guard := by
  rw [selectExecution, rows, find?_map]
  rfl

theorem insertExecution_ok {e : Execution} (h : insertExecution s e = .ok s') :
    rows s' = rows s ++ [e] ∧ s'.events = s.events ∧ s'.locators = s.locators
      ∧ ∀ x ∈ rows s, x.id ≠ e.id := by
  rw [insertExecution] at h
  split at h
  · cases h
  · rename_i hfresh
    split at h
    · cases h
      refine ⟨map_append, rfl, rfl, fun x hx heq => hfresh ?_⟩
      rcases mem_map.mp hx with ⟨r, hr, rfl⟩
      exact any_eq_true.mpr ⟨r, hr, beq_iff_eq.mpr heq⟩
    · cases h

theorem insertEvent_ok {event : NewExecutionEvent}
    (h : insertEvent s id tenantId event now = .ok s') :
    s'.executions = s.executions ∧ s'.locators = s.locators
      ∧ s'.events = s.events ++ [⟨id, tenantId, event.kind, event.stepNumber, event.callId,
        event.attempt, event.detail, now⟩] := by
  rw [insertEvent] at h
  split at h
  · cases h
    exact ⟨rfl, rfl, rfl⟩
  · cases h

theorem insertEvents_ok {events : List NewExecutionEvent}
    (h : insertEvents id tenantId now events s = .ok s') :
    s'.executions = s.executions ∧ s'.locators = s.locators := by
  induction events generalizing s with
  | nil =>
    cases h
    exact ⟨rfl, rfl⟩
  | cons event rest ih =>
    rw [insertEvents, bind_eq_ok] at h
    rcases h with ⟨t, hfirst, h⟩
    rcases insertEvent_ok hfirst with ⟨hexecutions, hlocators, -⟩
    rcases ih h with ⟨hrest, hrest'⟩
    exact ⟨hrest.trans hexecutions, hrest'.trans hlocators⟩

theorem bindSourceLocatorTx_ok {new : NewExecution} {locator : Option String}
    (h : bindSourceLocatorTx s now new locator = .ok s') :
    s'.executions = s.executions ∧ s'.events = s.events := by
  cases locator with
  | none =>
    cases h
    exact ⟨rfl, rfl⟩
  | some locator =>
    simp only [bindSourceLocatorTx, bindSourceLocatorRow] at h
    split at h
    · cases h
    · split at h
      · cases h
      · grind

theorem rows_congr (h : s'.executions = s.executions) : rows s' = rows s := by
  rw [rows, rows, h]

theorem whenUpdated_ok {α : Type} {upd : Except StoreError (Option Execution × Tables)}
    {missing a : α} {body : Execution → Tables → Except StoreError (α × Tables)}
    (h : whenUpdated s upd missing body = .ok (a, s')) :
    (∃ e t, upd = .ok (some e, t) ∧ body e t = .ok (a, s')) ∨ (a = missing ∧ s' = s) := by
  rw [whenUpdated, bind_eq_ok] at h
  rcases h with ⟨⟨row, t⟩, hupd, h⟩
  cases row with
  | none =>
    cases h
    exact .inr ⟨rfl, rfl⟩
  | some e => exact .inl ⟨e, t, hupd, h⟩

end Statements

section Retention

variable {s : Tables} {now : Int} {skipped : Skipped}

def swept (s : Tables) (skipped : Skipped) (now : Int) (id : Uuid) : Bool :=
  !(rows (purgeExpiredState s skipped now)).any (fun e => e.id == id)

theorem rows_deleteExecutions (s : Tables) (ids : List Uuid) :
    rows (deleteExecutions s ids) = (rows s).filter (fun e => !ids.contains e.id) := by
  rw [rows, rows, deleteExecutions, filter_map]
  rfl

theorem keyed_delete {t : Tables}
    (h : ∃ key : Uuid → Bool, rows t = (rows s).filter (fun e => key e.id)) (ids : List Uuid) :
    ∃ key : Uuid → Bool, rows (deleteExecutions t ids) = (rows s).filter (fun e => key e.id) := by
  rcases h with ⟨key, hkey⟩
  refine ⟨fun id => !ids.contains id && key id, ?_⟩
  rw [rows_deleteExecutions, hkey, filter_filter]

theorem rows_purge (s : Tables) (skipped : Skipped) (now : Int) :
    rows (purgeExpiredState s skipped now)
      = (rows s).filter (fun e => !swept s skipped now e.id) := by
  obtain ⟨key, hkey⟩ : ∃ key : Uuid → Bool, rows (purgeExpiredState s skipped now)
      = (rows s).filter (fun e => key e.id) :=
    keyed_delete (keyed_delete ⟨fun _ => true, by rw [filter_true]; rfl⟩ _) _
  rw [hkey]
  refine filter_congr (fun e he => ?_)
  rw [swept, hkey, Bool.not_not, Bool.eq_iff_iff, any_eq_true]
  constructor
  · intro h
    exact ⟨e, mem_filter.mpr ⟨he, h⟩, beq_self_eq_true _⟩
  · grind

end Retention

section Effects

variable {guard : Execution → Bool} {set : Execution → Execution}

def presented : Op → Option ExecutionClaim
  | .renew claim _ => some claim
  | .renewEffectLease claim _ => some claim
  | .appendEvent claim _ => some claim
  | .appendEffectOutcome claim _ => some claim
  | .transition claim _ => some claim
  | .interruptClaimed claim _ _ => some claim
  | _ => none

def Response.committed : Response → Bool
  | .failed _ => false
  | _ => true

def purges (s : Tables) (call : Call) (id : Uuid) : Bool :=
  (effect s call.now call.op).1.committed && match call.op with
    | .purgeExpiredState skipped => swept s skipped call.now id
    | .submit _ skipped => swept s skipped call.now id
    | .startOrReuse _ skipped => swept s skipped call.now id
    | _ => false

def leaves (call : Call) (e : Execution) : Prop :=
  match call.op with
  | .transition claim _ => e.held claim = true
  | _ => False

/-- What becomes of the rows: some are gone, the others advance, and there may be
    a new one. -/
structure Carried (leave : Execution → Prop) (gone : Uuid → Bool) (g : Execution → Execution)
    (new : List Execution) (s s' : Tables) : Prop where
  rows_eq : rows s' = ((rows s).filter (fun e => !gone e.id)).map g ++ new
  advance : ∀ e ∈ rows s, Advance (leave e) e (g e)
  fresh : new = [] ∨ ∃ e, new = [e] ∧ Attended e ∧ e.status.isTerminal = false
    ∧ e.cancellationRequestedAt = none ∧ ∀ x ∈ rows s, gone x.id = false → x.id ≠ e.id

/-- A claim is of a row that was not held and now is, or of the new row. -/
def Granting (gone : Uuid → Bool) (g : Execution → Execution) (new : List Execution) (s : Tables)
    (c : ExecutionClaim) : Prop :=
  (∃ e ∈ rows s, gone e.id = false ∧ e.id = c.executionId ∧ (g e).claimEpoch = c.epoch
    ∧ (g e).claimOwner.isSome = true ∧ e.claimEpoch < c.epoch ∧ e.claimOwner = none
    ∧ (Attended e → e.cancellationRequestedAt = none))
  ∨ ∃ e ∈ new, e.id = c.executionId ∧ e.claimEpoch = c.epoch ∧ e.claimOwner.isSome = true

def born (call : Call) : List Execution :=
  match call.op with
  | .submit new _ => [new.row call.now]
  | .startOrReuse start _ => [start.row call.now]
  | _ => []

/-- What an operation has done to the rows, given the identifiers it deletes and
    the row it may add. -/
def Outcome (leave : Execution → Prop) (gone : Uuid → Bool) (born : List Execution) (s : Tables)
    (res : Response) (s' : Tables) : Prop :=
  ∃ g new, Carried leave gone g new s s' ∧ new ⊆ born
    ∧ ∀ c, granted res = some c → Granting gone g new s c

variable {s s' : Tables} {res : Response} {now : Int} {leave : Execution → Prop}

theorem outcome_same {born : List Execution} (hrows : rows s' = rows s)
    (hgrant : granted res = none) : Outcome leave (fun _ => false) born s res s' := by
  refine ⟨id, [], ⟨?_, fun e _ => Advance.refl e, .inl rfl⟩, nil_subset _, fun c hc => ?_⟩
  · simp [hrows]
  · rw [hgrant] at hc
    cases hc

theorem advance_updated {e : Execution} {p : Prop}
    (h : guard e = true → Advance p e ((set e).touched now)) :
    Advance p e (updated guard set now e) := by
  rw [updated]
  split
  · rename_i hguard
    exact h hguard
  · exact Advance.refl e

theorem outcome_updated (hrows : rows s' = (rows s).map (updated guard set now))
    (hadvance : ∀ e ∈ rows s, guard e = true → Advance (leave e) e ((set e).touched now))
    (hgrant : ∀ c, granted res = some c → ∃ e ∈ rows s, guard e = true ∧ e.id = c.executionId
      ∧ (set e).claimEpoch = c.epoch ∧ (set e).claimOwner.isSome = true
      ∧ e.claimEpoch < c.epoch ∧ e.claimOwner = none
      ∧ (Attended e → e.cancellationRequestedAt = none)) :
    Outcome leave (fun _ => false) [] s res s' := by
  refine ⟨updated guard set now, [], ⟨?_, fun e he => advance_updated (hadvance e he), .inl rfl⟩,
    nil_subset _, fun c hc => ?_⟩
  · simp [hrows]
  · rcases hgrant c hc with ⟨e, he, hguard, hid, hepoch, hheld, hrest⟩
    have hupdated : updated guard set now e = (set e).touched now := if_pos hguard
    exact .inl ⟨e, he, rfl, hid, hupdated ▸ hepoch, hupdated ▸ hheld, hrest⟩

theorem outcome_twice {t : Tables} {g g' : Execution → Execution}
    (hrows : rows t = (rows s).map g) (hrows' : rows s' = (rows t).map g')
    (hadvance : ∀ e ∈ rows s, Advance (leave e) e (g e))
    (hadvance' : ∀ p : Prop, ∀ e ∈ rows t, Advance p e (g' e))
    (hgrant : granted res = none) : Outcome leave (fun _ => false) [] s res s' := by
  refine ⟨g' ∘ g, [], ⟨?_, fun e he => ?_, .inl rfl⟩, nil_subset _, fun c hc => ?_⟩
  · simp [hrows', hrows]
  · exact (hadvance e he).trans (hadvance' _ (g e) (hrows ▸ mem_map_of_mem he))
  · rw [hgrant] at hc
    cases hc

theorem outcome_whenUpdated {α : Type} {answer : α → Response} {missing a : α}
    {body : Execution → Tables → Except StoreError (α × Tables)}
    (h : whenUpdated s (updateExecutions s guard set now) missing body = .ok (a, s'))
    (hanswer : granted (answer a) = none)
    (hbody : ∀ e t, body e t = .ok (a, s') → s'.executions = t.executions)
    (hadvance : ∀ e ∈ rows s, guard e = true → Advance (leave e) e ((set e).touched now)) :
    Outcome leave (fun _ => false) [] s (answer a) s' := by
  rcases whenUpdated_ok h with ⟨e, t, hupdate, hrest⟩ | ⟨-, rfl⟩
  · refine outcome_updated ((rows_congr (hbody e t hrest)).trans (updateExecutions_ok hupdate).1)
      hadvance (fun c hc => ?_)
    rw [hanswer] at hc
    cases hc
  · exact outcome_same rfl hanswer

theorem outcome_granting {result : Option (Execution × ExecutionClaim)} {id owner : Uuid}
    {tenantId : String} {events : Execution → List NewExecutionEvent}
    (h : whenUpdated s (updateExecutions s guard set now) none (fun e s => do
      let s ← insertEvents id tenantId now (events e) s
      .ok (some (e, ⟨id, tenantId, owner, e.claimEpoch⟩), s)) = .ok (result, s'))
    (hid : ∀ e, guard e = true → e.id = id) (hepoch : ∀ e, (set e).claimEpoch = e.claimEpoch + 1)
    (hheld : ∀ e, (set e).claimOwner = some owner)
    (howner : ∀ e, guard e = true → e.claimOwner = none)
    (hcancelled : ∀ e, guard e = true → Attended e → e.cancellationRequestedAt = none)
    (hadvance : ∀ e ∈ rows s, guard e = true → Advance (leave e) e ((set e).touched now)) :
    Outcome leave (fun _ => false) [] s (.claimed result) s' := by
  rcases whenUpdated_ok h with ⟨e', t, hupdate, hrest⟩ | ⟨rfl, rfl⟩
  · rcases bind_eq_ok.mp hrest with ⟨u, hevents, hu⟩
    cases hu
    rcases updateExecutions_ok hupdate with ⟨hrows, -, -, hrow⟩
    refine outcome_updated ((rows_congr (insertEvents_ok hevents).1).trans hrows) hadvance
      (fun c hc => ?_)
    cases hc
    -- The row that is returned is the one that was found, as it was written.
    rcases Option.map_eq_some_iff.mp hrow.symm with ⟨e, hfind, rfl⟩
    have hguard := find?_some hfind
    refine ⟨e, mem_of_find?_eq_some hfind, hguard, hid e hguard, rfl, ?_, ?_,
      howner e hguard, hcancelled e hguard⟩
    · rw [hheld]
      rfl
    · show e.claimEpoch < (set e).claimEpoch
      rw [hepoch]
      exact Int.lt_add_one_iff.mpr (Int.le_refl _)
  · exact outcome_same rfl rfl

end Effects

section Operations

variable {reasonCode : String} {α : Type} {event : NewExecutionEvent} {accepted : Bool}
  {result : Option Execution} {id : Uuid} {tenantId : String} {e : Execution}
  {guard : Execution → Bool} {principalIssuer principalSub : String} {res : Response}
  {skipped : Skipped} {start : StartExecution} {s s' : Tables} {now : Int}
  {leave : Execution → Prop}

theorem addressed_id (h : e.addressed tenantId id = true) :
    e.id = id := by
  rw [Execution.addressed, Bool.and_eq_true, beq_iff_eq, beq_iff_eq] at h
  exact h.2

theorem claim_outcome {owner : Uuid} {lease : Nat} {source : String} {toolSnapshot : Json}
    {result : Option (Execution × ExecutionClaim)}
    (h : claim s now tenantId id owner lease source toolSnapshot = .ok (result, s')) :
    Outcome leave (fun _ => false) [] s (.claimed result) s' := by
  refine outcome_granting h (fun e hguard => ?_) (fun _ => rfl) (fun _ => rfl)
    (fun e hguard => ?_) (fun e hguard ha => ?_) (fun e _ hguard => ?_)
  all_goals
    simp only [Bool.and_eq_true, beq_iff_eq, Option.isNone_iff_eq_none] at hguard
  · exact addressed_id hguard.1.1
  · exact hguard.2
  · exact ha.submitted hguard.1.2
  · -- A submitted row is not cancelled, so claiming does not have to ask.
    exact advance_grant rfl (by rw [hguard.1.2]; rfl) hguard.2 rfl rfl rfl
      (fun ha => ha.submitted hguard.1.2) rfl

theorem resume_outcome {r : ResumeExecution} {result : Option (Execution × ExecutionClaim)}
    (h : resume s now r = .ok (result, s')) :
    Outcome leave (fun _ => false) [] s (.claimed result) s' := by
  refine outcome_granting h (fun e hguard => ?_) (fun _ => rfl) (fun _ => rfl)
    (fun e hguard => ?_) (fun e hguard _ => ?_) (fun e he hguard => ?_)
  all_goals
    simp only [ResumeExecution.expected, Bool.and_eq_true, beq_iff_eq,
      Option.isNone_iff_eq_none] at hguard
    obtain ⟨⟨⟨⟨⟨⟨⟨⟨⟨⟨⟨⟨⟨⟨haddressed, -⟩, -⟩, -⟩, howner⟩, hcancelled⟩, -⟩, -⟩, -⟩, -⟩, -⟩,
      hcompleted⟩, -⟩, -⟩, -⟩ := hguard
  · exact addressed_id haddressed
  · exact howner
  · exact hcancelled
  · exact advance_grant rfl (not_terminal (checked_of_mem he) hcompleted) howner rfl rfl rfl
      (fun _ => hcancelled) rfl

variable {claim : ExecutionClaim}

theorem unfinished_completedAt (h : e.unfinished claim = true) :
    e.held claim = true ∧ e.completedAt = none := by
  rw [Execution.unfinished, Bool.and_eq_true, Option.isNone_iff_eq_none] at h
  exact h

theorem working_unfinished (h : e.working claim now = true) :
    e.unfinished claim = true := by
  simp only [Execution.working, Execution.unfinished, Bool.and_eq_true] at h ⊢
  exact ⟨h.1.1.1, h.2⟩

theorem lease_outcome {lease : Nat} (hfence : ∀ e, guard e = true → e.unfinished claim = true)
    (h : (do
      let (row, s) ← updateExecutions s guard (Execution.withLease lease now) now
      .ok (row.isSome, s)) = Except.ok (accepted, s')) :
    Outcome leave (fun _ => false) [] s (.accepted accepted) s' := by
  rcases bind_eq_ok.mp h with ⟨⟨row, t⟩, hupdate, hrest⟩
  cases hrest
  refine outcome_updated (updateExecutions_ok hupdate).1 (fun e he hguard => ?_)
    (nofun)
  exact advance_lease _ (checked_of_mem he) (unfinished_completedAt (hfence e hguard)).2

theorem append_outcome {fence : Execution → Bool}
    (h : appendFenced s now fence claim event = .ok (accepted, s')) :
    Outcome leave (fun _ => false) [] s (.accepted accepted) s' := by
  rw [appendFenced] at h
  split at h
  · cases h
    exact outcome_same rfl rfl
  · rcases bind_eq_ok.mp h with ⟨t, hevent, hrest⟩
    cases hrest
    exact outcome_same (rows_congr (insertEvent_ok hevent).1) rfl

theorem executions_of_event {a b : α} {t : Tables} (h : (do
      let s ← insertEvent t id tenantId event now
      .ok (a, s)) = Except.ok (b, s')) : s'.executions = t.executions := by
  rcases bind_eq_ok.mp h with ⟨u, hevent, hrest⟩
  cases hrest
  exact (insertEvent_ok hevent).1

theorem transition_outcome {t : ExecutionTransition} (htarget : t.target ∈ targets)
    (h : transition s now claim t = .ok (result, s')) :
    Outcome (fun e => e.held claim = true) (fun _ => false) [] s (.current result) s' := by
  refine outcome_whenUpdated h rfl (fun _ _ => executions_of_event) (fun e he hguard => ?_)
  simp only [ExecutionTransition.allowed, Bool.and_eq_true, Bool.or_eq_true, beq_iff_eq,
    Option.isNone_iff_eq_none] at hguard
  exact advance_transition t hguard.1.1.1.1 htarget (checked_of_mem he) hguard.2 hguard.1.2

theorem failSubmission_outcome
    (h : failSubmission s now tenantId id event reasonCode = .ok (result, s')) :
    Outcome leave (fun _ => false) [] s (.current result) s' := by
  refine outcome_whenUpdated h rfl (fun _ _ => executions_of_event) (fun e _ hguard => ?_)
  simp only [Bool.and_eq_true, beq_iff_eq] at hguard
  exact advance_failSubmission reasonCode hguard.1.1.1.2

theorem cancelScoped_outcome {owner : Option (String × String)} {detail : Json}
    {result : Option Execution}
    (h : cancelScoped s now tenantId id owner reasonCode detail = .ok (result, s')) :
    Outcome leave (fun _ => false) [] s (.current result) s' := by
  simp only [cancelScoped] at h
  split at h
  · cases h
    exact outcome_same rfl rfl
  · split at h
    · cases h
      exact outcome_same rfl rfl
    · refine outcome_whenUpdated h rfl (fun _ _ h => ?_) (fun e he hguard => ?_)
      · rcases bind_eq_ok.mp h with ⟨u, hevents, hrest⟩
        cases hrest
        exact (insertEvents_ok hevents).1
      rw [Bool.and_eq_true, Option.isNone_iff_eq_none] at hguard
      exact advance_cancel reasonCode (checked_of_mem he) hguard.2

theorem denyWaitingApproval_outcome {approver : String} {reason : Option String}
    {expectedApproval : Option Json}
    (h : denyWaitingApproval s now tenantId id approver reason expectedApproval
      = .ok (accepted, s')) : Outcome leave (fun _ => false) [] s (.accepted accepted) s' := by
  refine outcome_whenUpdated h rfl (fun _ _ => executions_of_event) (fun e _ hguard => ?_)
  simp only [Bool.and_eq_true, beq_iff_eq, Option.isNone_iff_eq_none] at hguard
  refine advance_finish rfl (by rw [hguard.1.1.1.1.1.2]; rfl) rfl hguard.1.1.1.2 rfl
    (fun h => h) (fun _ hrequested => ?_)
  rw [Execution.touched, hguard.1.1.2] at hrequested
  cases hrequested

theorem reconcileAbandonedIn_ok {principalSub principalIssuer lapsedReason : String} {grace : Nat}
    {seen : List ExecutionEvent}
    (h : reconcileAbandonedIn s now tenantId principalSub principalIssuer id grace lapsedReason seen
      = .ok (result, s')) :
    rows s' = (rows s).map (updated
      (fun e => e.owned tenantId principalSub principalIssuer id && e.completedAt.isNone
        && e.abandoned grace now)
      (Execution.reconcile seen lapsedReason now) now) := by
  rw [reconcileAbandonedIn, bind_eq_ok] at h
  rcases h with ⟨⟨row, t⟩, hupdate, hrest⟩
  cases row with
  | none =>
    cases hrest
    exact (updateExecutions_ok hupdate).1
  | some e =>
    rw [rows_congr (executions_of_event hrest)]
    exact (updateExecutions_ok hupdate).1

theorem reconcile_advance {lapsedReason : String} {grace : Nat} {events : List ExecutionEvent}
    {p : Prop} (hc : e.Checked)
    (hguard : (e.owned tenantId principalSub principalIssuer id && e.completedAt.isNone
      && e.abandoned grace now) = true) :
    Advance p e ((e.reconcile events lapsedReason now).touched now) := by
  rw [Bool.and_eq_true, Bool.and_eq_true, Option.isNone_iff_eq_none] at hguard
  exact advance_reconcile events lapsedReason hc hguard.1.2

theorem reconcileAbandoned_outcome {tenantId : String} {id : Uuid} {grace unseen : Nat}
    {result : Option Execution}
    (h : reconcileAbandoned s now tenantId principalSub principalIssuer id grace unseen
      = .ok (result, s')) :
    Outcome leave (fun _ => false) [] s (.current result) s' :=
  outcome_updated (reconcileAbandonedIn_ok h)
    (fun _ he hguard => reconcile_advance (checked_of_mem he) hguard) (nofun)

theorem interruptClaimed_outcome
    (h : interruptClaimed s now claim principalSub principalIssuer = .ok (result, s')) :
    Outcome leave (fun _ => false) [] s (.current result) s' := by
  rcases whenUpdated_ok h with ⟨e, t, hupdate, hrest⟩ | ⟨rfl, rfl⟩
  · -- The claim ends first, and the row is then reconciled as it is in between.
    refine outcome_twice (updateExecutions_ok hupdate).1 (reconcileAbandonedIn_ok hrest)
      (fun e he => advance_updated (fun hguard => ?_))
      (fun _ e he => advance_updated (fun hguard => reconcile_advance (checked_of_mem he) hguard))
      rfl
    rw [Bool.and_eq_true, Option.isNone_iff_eq_none] at hguard
    exact advance_lease now (checked_of_mem he) hguard.2
  · exact outcome_same rfl rfl

theorem purge_outcome (s : Tables) (skipped : Skipped) (now : Int) {born : List Execution}
    (hrows : rows s' = rows (purgeExpiredState s skipped now)) (hgrant : granted res = none) :
    Outcome leave (swept s skipped now) born s res s' := by
  refine ⟨id, [], ⟨?_, fun e _ => Advance.refl e, .inl rfl⟩, nil_subset _, fun c hc => ?_⟩
  · rw [hrows, rows_purge, map_id, append_nil]
  · rw [hgrant] at hc
    cases hc

theorem insert_outcome (hrows : rows s' = rows (purgeExpiredState s skipped now) ++ [e])
    (hfresh : ∀ x ∈ rows (purgeExpiredState s skipped now), x.id ≠ e.id) (hattended : Attended e)
    (hopen : e.status.isTerminal = false) (hcancelled : e.cancellationRequestedAt = none)
    (hgrant : ∀ c, granted res = some c → e.id = c.executionId ∧ e.claimEpoch = c.epoch
      ∧ e.claimOwner.isSome = true) :
    Outcome leave (swept s skipped now) [e] s res s' := by
  refine ⟨id, [e], ⟨?_, fun e _ => Advance.refl e, .inr ⟨e, rfl, hattended, hopen, hcancelled,
    fun x hx hkept => hfresh x ?_⟩⟩, List.Subset.refl _,
    fun c hc => .inr ⟨e, mem_singleton_self e, hgrant c hc⟩⟩
  · rw [hrows, rows_purge, map_id]
  · rw [rows_purge]
    exact mem_filter.mpr ⟨hx, by rw [hkept]; rfl⟩

theorem attended_submitted (new : NewExecution) : Attended (new.row now) :=
  ⟨iff_of_false Bool.false_ne_true nofun, fun _ => rfl⟩

theorem attended_started (start : StartExecution) : Attended (start.row now) :=
  ⟨iff_of_true rfl rfl, nofun⟩

theorem submit_outcome {new : NewExecution} {skipped : Skipped}
    (h : submit s now new skipped = .ok (e, s')) :
    Outcome leave (swept s skipped now) [new.row now] s (.submitted e) s' := by
  rw [submit, bind_eq_ok] at h
  rcases h with ⟨t, hinsert, hrest⟩
  rcases insertExecution_ok hinsert with ⟨hrows, -, -, hfresh⟩
  refine insert_outcome ((rows_congr (executions_of_event hrest)).trans hrows) hfresh
    (attended_submitted new) rfl rfl (fun c hc => ?_)
  cases hc

theorem createStarted_ok {result : StartExecutionResult}
    (h : createStarted s now start = .ok (result, s')) :
    rows s' = rows s ++ [start.row now] ∧ (∀ x ∈ rows s, x.id ≠ start.execution.id)
      ∧ result = .claimed (start.row now) ((start.row now).claimed start.owner) := by
  simp only [createStarted] at h
  rcases bind_eq_ok.mp h with ⟨t, hinsert, h⟩
  rcases bind_eq_ok.mp h with ⟨u, hlocator, h⟩
  rcases bind_eq_ok.mp h with ⟨v, hevents, h⟩
  cases h
  rcases insertExecution_ok hinsert with ⟨hrows, -, -, hfresh⟩
  refine ⟨?_, hfresh, rfl⟩
  rw [rows_congr (insertEvents_ok hevents).1, rows_congr (bindSourceLocatorTx_ok hlocator).1, hrows]

theorem reuseStarted_ok {latest : Execution} {result : StartExecutionResult}
    (h : reuseStarted s now start latest = .ok (result, s')) :
    rows s' = rows s ∧ result = .existing latest := by
  grind [reuseStarted, bind_eq_ok, rows_congr, bindSourceLocatorTx_ok]

theorem newer_iff {a b : Execution} : a.newer b = true
    ↔ b.submittedAt < a.submittedAt
      ∨ (a.submittedAt = b.submittedAt ∧ b.id.toNat < a.id.toNat) := by
  rw [Execution.newer, Bool.or_eq_true, Bool.and_eq_true, decide_eq_true_eq, decide_eq_true_eq,
    beq_iff_eq, BitVec.lt_def]

theorem newest_none {l : List Execution} (h : newest l = none) : l = [] := by
  cases l with
  | nil => rfl
  | cons e rest =>
    rw [newest] at h
    split at h <;> cases h

theorem newest_some {l : List Execution} {m : Execution} (h : newest l = some m) :
    m ∈ l ∧ ∀ e ∈ l, e.newer m = false := by
  simp only [← Bool.not_eq_true, newer_iff]
  induction l generalizing m with
  | nil => cases h
  | cons e rest ih =>
    rw [newest] at h
    cases hrest : newest rest with
    | none => grind [newest_none]
    | some m' =>
      rw [hrest] at h
      cases h
      rcases ih hrest with ⟨hmem, hmax⟩
      by_cases hnewer : m'.newer e = true
      · grind [newer_iff]
      · grind [newer_iff]

/-- The newest row with the identity of a start, when it reads the table. -/
def latest (s : Tables) (start : StartExecution) (now : Int) : Option Execution :=
  newest ((rows s).filter (start.matching now))

/-- What a start that succeeds has done. It creates a row when there is none and it
    names none, or when it names the newest and that is terminal. -/
theorem startOrReuse_ok {result : StartExecutionResult}
    (h : startOrReuse s now start skipped = .ok (result, s')) :
    let t := purgeExpiredState s skipped now
    (rows s' = rows t ++ [start.row now] ∧ (∀ x ∈ rows t, x.id ≠ start.execution.id)
      ∧ result = .claimed (start.row now) ((start.row now).claimed start.owner)
      ∧ ((latest t start now = none ∧ start.repeatAfter = none)
        ∨ ∃ e, latest t start now = some e ∧ start.repeatAfter = some e.id
          ∧ e.status.isTerminal = true))
    ∨ (rows s' = rows t
      ∧ ((∃ e, latest t start now = some e ∧ result = .existing e)
        ∨ (∃ e ∈ rows t, start.matching now e = true ∧ start.repeatAfter = some e.id
          ∧ e.status.isTerminal = false ∧ result = .repeatNotTerminal e)
        ∨ ((∀ e ∈ rows t, start.matching now e = true → start.repeatAfter ≠ some e.id)
          ∧ start.repeatAfter ≠ none ∧ result = .repeatUnavailable))) := by
  intro t
  simp only [startOrReuse] at h
  cases hlatest : latest t start now with
  | none =>
    rw [show newest ((t.executions.map Row.execution).filter (start.matching now)) = none
      from hlatest] at h
    cases hrepeat : start.repeatAfter with
    | none => grind [createStarted_ok]
    | some id =>
      rw [hrepeat] at h
      cases h
      refine .inr ⟨rfl, .inr (.inr ⟨fun e he hmatch => ?_, Option.some_ne_none id, rfl⟩)⟩
      have hmem : e ∈ (rows t).filter (start.matching now) := mem_filter.mpr ⟨he, hmatch⟩
      rw [newest_none hlatest] at hmem
      cases hmem
  | some e =>
    rw [show newest ((t.executions.map Row.execution).filter (start.matching now)) = some e
      from hlatest] at h
    cases hrepeat : start.repeatAfter with
    | none =>
      rw [hrepeat] at h
      rcases reuseStarted_ok h with ⟨hrows, hresult⟩
      exact .inr ⟨hrows, .inl ⟨e, rfl, hresult⟩⟩
    | some id =>
      rw [hrepeat] at h
      have hmem := (newest_some hlatest).1
      rw [mem_filter] at hmem
      by_cases hid : e.id = id
      · grind [createStarted_ok]
      · -- The row that is named is not the newest: it is looked up on its own.
        simp only [if_neg hid, find_rows] at h
        cases htarget : (rows t).find? (fun e => start.matching now e && e.id == id) with
        | none => grind
        | some target =>
          rw [htarget] at h
          have hfound := find?_some htarget
          rw [Bool.and_eq_true, beq_iff_eq] at hfound
          by_cases hterminal : target.status.isTerminal = true
          · simp only [if_pos hterminal] at h
            rcases reuseStarted_ok h with ⟨hrows, hresult⟩
            exact .inr ⟨hrows, .inl ⟨e, rfl, hresult⟩⟩
          · grind

theorem startOrReuse_outcome {result : StartExecutionResult}
    (h : startOrReuse s now start skipped = .ok (result, s')) :
    Outcome leave (swept s skipped now) [start.row now] s (.started result) s' := by
  rcases startOrReuse_ok h with ⟨hrows, hfresh, rfl, -⟩ | ⟨hrows, hresult⟩
  · refine insert_outcome hrows hfresh (attended_started start) rfl rfl (fun c hc => ?_)
    cases hc
    exact ⟨rfl, rfl, rfl⟩
  · refine purge_outcome s skipped now hrows ?_
    rcases hresult with ⟨e, -, rfl⟩ | ⟨e, -, -, -, -, rfl⟩ | ⟨-, -, rfl⟩ <;> rfl

def Listed (call : Call) : Prop :=
  match call.op with
  | .transition _ t => t.origin = [.running] ∧ t.target ∈ targets
  | _ => True

theorem outcome_swept {answer : α → Response} {tx : Except StoreError (α × Tables)}
    {gone : Uuid → Bool} {born : List Execution} (hanswer : ∀ a, (answer a).committed = true)
    (h : ∀ a t, tx = .ok (a, t) → Outcome leave gone born s (answer a) t) :
    Outcome leave (fun id => (commit s answer tx).1.committed && gone id) born s
      (commit s answer tx).1 (commit s answer tx).2 := by
  cases tx with
  | error error => exact outcome_same rfl rfl
  | ok result =>
    simp only [commit, hanswer, Bool.true_and]
    exact h result.1 result.2 rfl

theorem outcome_op {answer : α → Response} {tx : Except StoreError (α × Tables)} {call : Call}
    (hnone : ∀ id, purges s call id = false)
    (h : ∀ a t, tx = .ok (a, t) → Outcome leave (fun _ => false) [] s (answer a) t) :
    Outcome leave (purges s call) (born call) s (commit s answer tx).1 (commit s answer tx).2 := by
  rw [funext hnone]
  cases tx with
  | error error => exact outcome_same rfl rfl
  | ok result =>
    rcases h result.1 result.2 rfl with ⟨g, new, hcarried, hnew, hgranting⟩
    exact ⟨g, new, hcarried, fun e he => absurd (hnew he) not_mem_nil, hgranting⟩

/-- Every operation carries the table and grants at most one claim. -/
theorem effect_outcome (s : Tables) (call : Call) (hlisted : Listed call) :
    Outcome (leaves call) (purges s call) (born call) s (effect s call.now call.op).1
      (effect s call.now call.op).2 := by
  rcases call with ⟨op, now⟩
  cases op
  case purgeExpiredState skipped => exact purge_outcome s skipped now rfl rfl
  case submit => exact outcome_swept (fun _ => rfl) (fun _ _ h => submit_outcome h)
  case startOrReuse => exact outcome_swept (fun _ => rfl) (fun _ _ h => startOrReuse_outcome h)
  -- No other operation deletes or adds a row.
  all_goals refine outcome_op (fun _ => Bool.and_false _) (fun _ _ h => ?_)
  case claim => exact claim_outcome h
  case renew => exact lease_outcome (fun _ => working_unfinished) h
  case renewEffectLease => exact lease_outcome (fun _ hguard => hguard) h
  case resume => exact resume_outcome h
  case appendEvent => exact append_outcome h
  case appendEffectOutcome => exact append_outcome h
  case transition => exact transition_outcome hlisted.2 h
  case failSubmission => exact failSubmission_outcome h
  case requestCancellation => exact cancelScoped_outcome h
  case requestCancellationForOperator => exact cancelScoped_outcome h
  case denyWaitingApproval => exact denyWaitingApproval_outcome h
  case reconcileAbandoned => exact reconcileAbandoned_outcome h
  case interruptClaimed => exact interruptClaimed_outcome h

theorem updateExecutions_none {set : Execution → Execution} (h : ∀ e ∈ rows s, guard e = false) :
    updateExecutions s guard set now = .ok (none, s) := by
  have hguard (r : Row) (hr : r ∈ s.executions) : guard r.execution = false :=
    h r.execution (mem_map_of_mem hr)
  have hall : ∀ r ∈ s.executions, guard r.execution = true →
      ((set r.execution).touched now).Checked := by grind
  have hfind : s.executions.find? (fun r => guard r.execution) = none :=
    find?_eq_none.mpr (fun r hr => by rw [hguard r hr]; exact Bool.false_ne_true)
  have hmap : s.executions.map (fun r =>
      if hboth : guard r.execution = true ∧ ((set r.execution).touched now).Checked then
        { execution := (set r.execution).touched now, checked := hboth.2 } else r)
      = s.executions := by
    refine (map_congr_left (fun r hr => ?_)).trans (map_id _)
    rw [dif_neg (fun hboth => by rw [hguard r hr] at hboth; cases hboth.1)]
    rfl
  rw [updateExecutions, if_pos hall, hfind, hmap]
  rfl

theorem selectExecution_none (h : ∀ e ∈ rows s, guard e = false) :
    selectExecution s guard = none := by
  rw [find_rows, find?_eq_none]
  intro e he
  rw [h e he]
  exact Bool.false_ne_true

/-- An operation with a claim that no row holds changes nothing. -/
theorem effect_fenced {call : Call} (hpresented : presented call.op = some claim)
    (h : ∀ e ∈ rows s, e.held claim = false) :
    (effect s call.now call.op).2 = s := by
  rcases call with ⟨op, now⟩
  have hunfinished (e : Execution) (he : e ∈ rows s) : e.unfinished claim = false := by
    rw [Execution.unfinished, h e he, Bool.false_and]
  have hworking (e : Execution) (he : e ∈ rows s) : e.working claim now = false := by
    simp [Execution.working, h e he]
  cases op with
  | renew claim' lease =>
    cases hpresented
    simp only [effect, renew, updateExecutions_none hworking]
    rfl
  | renewEffectLease claim' lease =>
    cases hpresented
    simp only [effect, renewEffectLease, updateExecutions_none hunfinished]
    rfl
  | appendEvent claim' event =>
    cases hpresented
    simp only [effect, appendEvent, appendFenced, selectExecution_none hworking]
    rfl
  | appendEffectOutcome claim' event =>
    cases hpresented
    simp only [effect, appendEffectOutcome, appendFenced, selectExecution_none hunfinished]
    rfl
  | transition claim' t =>
    cases hpresented
    have hguard : ∀ e ∈ rows s, t.allowed claim now e = false := by
      intro e he
      simp [ExecutionTransition.allowed, h e he]
    simp only [effect, transition, updateExecutions_none hguard]
    rfl
  | interruptClaimed claim' principalSub principalIssuer =>
    cases hpresented
    have hguard : ∀ e ∈ rows s, (e.held claim && e.status == .running && e.completedAt.isNone)
        = false := by
      intro e he
      simp [h e he]
    simp only [effect, interruptClaimed, updateExecutions_none hguard]
    rfl
  | _ => cases hpresented

end Operations

end Waygate.Codemode
