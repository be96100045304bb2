import Waygate.Core.Codemode.Store
import Waygate.Theory.Lease.Job

/-!
# What Operations Do to Rows

Every statement of the store has guards of its own, and several leave out a check that
others make. What is shown for each is that it takes a row that is attended to along the
steps of a job, and that the row is attended to afterwards.

## Main definitions

* `Advance`
* `Execution.job`: An execution as a job.

## Theorems

* `advance_grant`, `advance_transition`, `advance_cancel`, `advance_reconcile`: Each of the
  statements.
-/

namespace Waygate.Codemode

open Lease

def barred (status : ExecutionStatus) : Prop :=
  status = .succeeded ∨ status = .failed

def Execution.phase (e : Execution) : Phase Uuid ExecutionStatus :=
  if e.status.isTerminal then .done e.status
  else e.claimOwner.elim .idle .held

def Execution.job (e : Execution) : Job Uuid ExecutionStatus :=
  { phase := e.phase, epoch := e.claimEpoch, cancelled := e.cancellationRequestedAt.isSome }

structure Attended (e : Execution) : Prop where
  owner : e.claimOwner.isSome = true ↔ e.status = .running
  submitted : e.status = .submitted → e.cancellationRequestedAt = none

/-- What no operation changes in a row. -/
structure Identity where
  id : Uuid
  tenantId : String
  principalSub : String
  principalIssuer : Option String
  sourceDigest : String
  executionProfile : Json
  startDedupeKey : Option String
  submittedAt : Int
  retentionUntil : Int

def Execution.identity (e : Execution) : Identity :=
  { id := e.id
    tenantId := e.tenantId
    principalSub := e.principalSub
    principalIssuer := e.principalIssuer
    sourceDigest := e.sourceDigest
    executionProfile := e.executionProfile
    startDedupeKey := e.startDedupeKey
    submittedAt := e.submittedAt
    retentionUntil := e.retentionUntil }

/-- A row that is not resumable after its worker is lost. -/
def Execution.Direct (e : Execution) : Prop :=
  textIsTrue e.executionProfile "resumable" = false

/-- A row goes on as its job may. Its worker may leave it to wait. -/
structure Advance (leave : Prop) (e e' : Execution) : Prop where
  identity : e'.identity = e.identity
  attended : Attended e → Attended e'
  steps : Attended e → Job.Steps barred e.job e'.job
  final : e.status.isTerminal = true → e' = e
  stays : e.Direct → e.claimOwner.isSome = true →
    e'.claimOwner.isSome = true ∨ e'.status.isTerminal = true ∨ leave

theorem Advance.refl {leave : Prop} (e : Execution) : Advance leave e e :=
  { identity := rfl
    attended := id
    steps := fun _ => .refl
    final := fun _ => rfl
    stays := fun _ => .inl }

theorem Advance.direct {leave : Prop} {e e' : Execution} (h : Advance leave e e')
    (hdirect : e.Direct) : e'.Direct := by
  rw [Execution.Direct, show e'.executionProfile = e.executionProfile from
    congrArg Identity.executionProfile h.identity]
  exact hdirect

theorem Advance.trans {leave : Prop} {e e' e'' : Execution} (h : Advance leave e e')
    (h' : Advance leave e' e'') : Advance leave e e'' := by
  refine ⟨h'.identity.trans h.identity, fun ha => h'.attended (h.attended ha),
    fun ha => (h.steps ha).trans (h'.steps (h.attended ha)), fun hfinal => ?_,
    fun hdirect howner => ?_⟩
  · have heq := h.final hfinal
    subst heq
    exact h'.final hfinal
  · rcases h.stays hdirect howner with howner | hterminal | hleave
    · exact h'.stays (h.direct hdirect) howner
    · rw [h'.final hterminal]
      exact .inr (.inl hterminal)
    · exact .inr (.inr hleave)

theorem Advance.id_eq {leave : Prop} {e e' : Execution} (h : Advance leave e e') :
    e'.id = e.id :=
  congrArg Identity.id h.identity

section Phases

variable {e : Execution}

theorem phase_done (h : e.status.isTerminal = true) : e.phase = .done e.status :=
  if_pos h

theorem phase_idle (h : e.status.isTerminal = false) (howner : e.claimOwner = none) :
    e.phase = .idle := by
  rw [Execution.phase, h, if_neg Bool.false_ne_true, howner]
  rfl

theorem phase_held {owner : Uuid} (h : e.status.isTerminal = false)
    (howner : e.claimOwner = some owner) : e.phase = .held owner := by
  rw [Execution.phase, h, if_neg Bool.false_ne_true, howner]
  rfl

theorem phase_congr {e' : Execution} (hstatus : e'.status = e.status)
    (howner : e'.claimOwner = e.claimOwner) : e'.phase = e.phase := by
  rw [Execution.phase, Execution.phase, hstatus, howner]

theorem phase_open (h : e.status.isTerminal = false) : e.phase.Open := by
  cases howner : e.claimOwner with
  | none =>
    rw [phase_idle h howner]
    trivial
  | some owner =>
    rw [phase_held h howner]
    trivial

theorem not_terminal (hc : e.Checked) (h : e.completedAt = none) :
    e.status.isTerminal = false := by
  rw [hc.2.2.1, h]
  rfl

end Phases

section Ways

variable {leave : Prop} {e e' : Execution}

/-- The row stays as it is and where it is. -/
theorem advance_kept (hid : e'.identity = e.identity) (hopen : e.status.isTerminal = false)
    (hstatus : e'.status = e.status) (howner : e'.claimOwner = e.claimOwner)
    (hsubmitted : Attended e → e.status = .submitted → e'.cancellationRequestedAt = none)
    (hsteps : Job.Steps barred e.job e'.job) : Advance leave e e' := by
  refine ⟨hid, fun ha => ⟨?_, ?_⟩, fun _ => hsteps, fun hfinal => ?_, fun _ hheld => .inl ?_⟩
  · rw [howner, hstatus]
    exact ha.owner
  · rw [hstatus]
    exact hsubmitted ha
  · rw [hopen] at hfinal
    cases hfinal
  · rwa [howner]

theorem advance_grant {owner : Uuid} (hid : e'.identity = e.identity)
    (hopen : e.status.isTerminal = false) (howner : e.claimOwner = none)
    (hstatus : e'.status = .running) (howner' : e'.claimOwner = some owner)
    (hepoch : e'.claimEpoch = e.claimEpoch + 1)
    (hcancelled : Attended e → e.cancellationRequestedAt = none)
    (hcancelled' : e'.cancellationRequestedAt = e.cancellationRequestedAt) :
    Advance leave e e' := by
  refine ⟨hid, fun ha => ⟨?_, ?_⟩, fun ha => ?_, fun hfinal => ?_, fun _ _ => .inl ?_⟩
  · rw [howner', hstatus]
    exact iff_of_true rfl rfl
  · rw [hstatus]
    nofun
  · have hopen' : e'.status.isTerminal = false := by rw [hstatus]; rfl
    rw [Execution.job, Execution.job, phase_idle hopen howner, phase_held hopen' howner', hepoch,
      hcancelled', hcancelled ha]
    exact .single (.grant owner e.claimEpoch)
  · rw [hopen] at hfinal
    cases hfinal
  · rw [howner']
    rfl

theorem advance_pause (hleave : e.Direct → leave) (hid : e'.identity = e.identity)
    (hopen : e.status.isTerminal = false)
    (hopen' : e'.status.isTerminal = false) (howner' : e'.claimOwner = none)
    (hrunning : e'.status ≠ .running) (hsubmitted : e'.status ≠ .submitted)
    (hepoch : e'.claimEpoch = e.claimEpoch)
    (hcancelled : e'.cancellationRequestedAt = e.cancellationRequestedAt) : Advance leave e e' := by
  refine ⟨hid, fun ha => ⟨?_, fun h => absurd h hsubmitted⟩, fun ha => ?_, fun hfinal => ?_,
    fun hdirect _ => .inr (.inr (hleave hdirect))⟩
  · rw [howner']
    exact iff_of_false Bool.false_ne_true hrunning
  · rw [Execution.job, Execution.job, phase_idle hopen' howner', hepoch, hcancelled]
    cases howner : e.claimOwner with
    | none =>
      rw [phase_idle hopen howner]
    | some owner =>
      rw [phase_held hopen howner]
      exact .single (.release owner _ _)
  · rw [hopen] at hfinal
    cases hfinal

theorem advance_finish (hid : e'.identity = e.identity) (hopen : e.status.isTerminal = false)
    (hterminal : e'.status.isTerminal = true) (howner' : e'.claimOwner = none)
    (hepoch : e'.claimEpoch = e.claimEpoch)
    (hcancelled : e.cancellationRequestedAt.isSome = true →
      e'.cancellationRequestedAt.isSome = true)
    (hbarred : Attended e → e'.cancellationRequestedAt.isSome = true → ¬barred e'.status) :
    Advance leave e e' := by
  refine ⟨hid, fun ha => ⟨?_, fun h => ?_⟩, fun ha => ?_, fun hfinal => ?_,
    fun _ _ => .inr (.inl hterminal)⟩
  · rw [howner']
    refine iff_of_false Bool.false_ne_true (fun h => ?_)
    rw [h] at hterminal
    cases hterminal
  · rw [h] at hterminal
    cases hterminal
  · rw [Execution.job, Execution.job, phase_done hterminal, hepoch]
    exact .single (.finish _ _ _ _ _ (phase_open hopen) hcancelled (hbarred ha))
  · rw [hopen] at hfinal
    cases hfinal

end Ways

section Statements

variable {leave : Prop} {e : Execution} {now : Int}

theorem advance_lease (expires : Int) (hc : e.Checked) (hcompleted : e.completedAt = none) :
    Advance leave e (Execution.touched now { e with claimExpiresAt := some expires }) :=
  advance_kept rfl (not_terminal hc hcompleted) rfl rfl (·.submitted) .refl

def targets : List ExecutionStatus :=
  [.succeeded, .failed, .cancelled, .waitingForApproval, .waitingForResume]

theorem releasesClaim_targets {target : ExecutionStatus} (h : target ∈ targets) :
    releasesClaim target = true ∧ target ≠ .running ∧ target ≠ .submitted :=
  (by decide : ∀ target ∈ targets,
    releasesClaim target = true ∧ target ≠ .running ∧ target ≠ .submitted) target h

theorem advance_transition (t : ExecutionTransition) (hleave : leave) (htarget : t.target ∈ targets)
    (hc : e.Checked) (hcompleted : e.completedAt = none)
    (hcancelled : t.target = .cancelled ∨ e.cancellationRequestedAt = none) :
    Advance leave e ((t.apply now e).touched now) := by
  have hopen := not_terminal hc hcompleted
  rcases releasesClaim_targets htarget with ⟨hreleases, hrunning, hsubmitted⟩
  have howner : ((t.apply now e).touched now).claimOwner = none := if_pos hreleases
  by_cases hterminal : t.target.isTerminal = true
  · refine advance_finish rfl hopen hterminal howner rfl id (fun _ hrequested hbarred => ?_)
    rcases hcancelled with hcancelled | hcancelled
    · -- A worker may finish a cancellation, and that outcome is not barred.
      rcases hbarred with hbarred | hbarred
      · exact absurd (hcancelled.symm.trans hbarred) (by decide)
      · exact absurd (hcancelled.symm.trans hbarred) (by decide)
    · exact absurd hrequested (by rw [Execution.touched, ExecutionTransition.apply, hcancelled]
                                  exact Bool.false_ne_true)
  · exact advance_pause (fun _ => hleave) rfl hopen (Bool.eq_false_iff.mpr hterminal) howner
      hrunning hsubmitted rfl rfl

theorem advance_failSubmission (reasonCode : String) (hstatus : e.status = .submitted) :
    Advance leave e (Execution.touched now { e with
      status := .failed
      terminalReasonCode := some reasonCode
      completedAt := some now
      claimOwner := none
      claimExpiresAt := none }) := by
  refine advance_finish rfl (by rw [hstatus]; rfl) rfl rfl rfl id (fun ha hrequested => ?_)
  rw [Execution.touched, ha.submitted hstatus] at hrequested
  cases hrequested

theorem advance_cancel (reasonCode : String) (hc : e.Checked) (hcompleted : e.completedAt = none) :
    Advance leave e ((e.cancel reasonCode now).touched now) := by
  have hopen := not_terminal hc hcompleted
  by_cases hdead : e.unattended now = true
  · have hstatus : ((e.cancel reasonCode now).touched now).status = .cancelled := if_pos hdead
    refine advance_finish rfl hopen (by rw [hstatus]; rfl) (if_pos hdead) rfl (fun _ => rfl)
      (fun _ _ hbarred => ?_)
    rw [hstatus] at hbarred
    rcases hbarred with hbarred | hbarred <;> cases hbarred
  · -- A claim that is live is left with its worker.
    have howner : e.claimOwner.isSome = true := by
      rw [Option.isSome_iff_ne_none]
      intro howner
      rw [Execution.unattended, howner] at hdead
      exact hdead rfl
    have hstatus : ((e.cancel reasonCode now).touched now).status = e.status := if_neg hdead
    have howner' : ((e.cancel reasonCode now).touched now).claimOwner = e.claimOwner :=
      if_neg hdead
    refine advance_kept rfl hopen hstatus howner' (fun ha h => ?_) ?_
    · rw [ha.owner.mp howner] at h
      cases h
    · rw [Execution.job, Execution.job, phase_congr hstatus howner']
      exact .single (.request _ _ _ (phase_open hopen))

theorem advance_reconcile (events : List ExecutionEvent) (lapsedReason : String)
    (hc : e.Checked) (hcompleted : e.completedAt = none) :
    Advance leave e ((e.reconcile events lapsedReason now).touched now) := by
  have hopen := not_terminal hc hcompleted
  by_cases hresumable : e.resumable now = true
  · have hstatus : ((e.reconcile events lapsedReason now).touched now).status
        = .waitingForResume := if_pos hresumable
    refine advance_pause (fun hdirect => ?_) rfl hopen (by rw [hstatus]; rfl) rfl ?_ ?_ rfl rfl
    · rw [Execution.resumable, show textIsTrue e.executionProfile "resumable" = false from hdirect,
        Bool.false_and] at hresumable
      cases hresumable
    · rw [hstatus]
      decide
    · rw [hstatus]
      decide
  · have hstatus : ((e.reconcile events lapsedReason now).touched now).status = .expired :=
      if_neg hresumable
    refine advance_finish rfl hopen (by rw [hstatus]; rfl) rfl rfl id (fun _ _ hbarred => ?_)
    rw [hstatus] at hbarred
    rcases hbarred with hbarred | hbarred <;> cases hbarred

end Statements

end Waygate.Codemode
