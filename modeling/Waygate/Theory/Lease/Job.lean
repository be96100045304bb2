import Mathlib.Logic.Relation

/-!
# Jobs With One Worker at a Time

A job waits, is held by a worker, or is done. Every time it is given to a worker it gets
a new epoch. Once a request to cancel is recorded, the job is given to nobody and cannot
end in an outcome that is barred.

## Main definitions

* `Job`, `Step`: A job, and its steps.

## Theorems

* `Steps.epoch_le`: No epoch is taken back.
* `Steps.cancelled`: A request is not withdrawn, and no epoch follows it.
-/

namespace Waygate

namespace Lease

inductive Phase (ω κ : Type*) where
  | idle
  | held (owner : ω)
  | done (outcome : κ)

/-- The job is not done. -/
def Phase.Open {ω κ : Type*} : Phase ω κ → Prop
  | .done _ => False
  | _ => True

structure Job (ω κ : Type*) where
  phase : Phase ω κ
  epoch : Int
  cancelled : Bool

namespace Job

variable {ω κ : Type*} {barred : κ → Prop} {j j' : Job ω κ}

inductive Step (barred : κ → Prop) : Job ω κ → Job ω κ → Prop
  | grant (owner : ω) (epoch : Int) :
      Step barred ⟨.idle, epoch, false⟩ ⟨.held owner, epoch + 1, false⟩
  | release (owner : ω) (epoch : Int) (cancelled : Bool) :
      Step barred ⟨.held owner, epoch, cancelled⟩ ⟨.idle, epoch, cancelled⟩
  | request (phase : Phase ω κ) (epoch : Int) (cancelled : Bool) (hopen : phase.Open) :
      Step barred ⟨phase, epoch, cancelled⟩ ⟨phase, epoch, true⟩
  | finish (phase : Phase ω κ) (epoch : Int) (cancelled requested : Bool) (outcome : κ)
      (hopen : phase.Open) (hrequested : cancelled = true → requested = true)
      (hbarred : requested = true → ¬barred outcome) :
      Step barred ⟨phase, epoch, cancelled⟩ ⟨.done outcome, epoch, requested⟩

abbrev Steps (barred : κ → Prop) : Job ω κ → Job ω κ → Prop :=
  Relation.ReflTransGen (Step barred)

/-- A job that was cancelled has not ended in a barred outcome. -/
def Sound (barred : κ → Prop) (j : Job ω κ) : Prop :=
  j.cancelled = true → ∀ outcome, j.phase = .done outcome → ¬barred outcome

theorem Step.epoch_le (h : Step barred j j') : j.epoch ≤ j'.epoch := by
  cases h with
  | grant owner epoch => exact Int.le_add_one (Int.le_refl epoch)
  | release | request | finish => exact Int.le_refl _

theorem Step.cancelled (h : Step barred j j') (hj : j.cancelled = true) :
    j'.cancelled = true ∧ j'.epoch = j.epoch := by
  cases h with
  | grant owner epoch => cases hj
  | release owner epoch cancelled => exact ⟨hj, rfl⟩
  | request phase epoch cancelled _ => exact ⟨rfl, rfl⟩
  | finish phase epoch cancelled requested outcome _ hrequested _ => exact ⟨hrequested hj, rfl⟩

theorem Step.sound (h : Step barred j j') : Sound barred j' := by
  cases h with
  | grant owner epoch =>
    nofun
  | release owner epoch cancelled =>
    nofun
  | request phase epoch cancelled hopen =>
    rintro - outcome rfl
    exact hopen.elim
  | finish phase epoch cancelled requested outcome _ _ hbarred =>
    rintro hc outcome' hdone
    cases hdone
    exact hbarred hc

theorem Steps.epoch_le (h : Steps barred j j') : j.epoch ≤ j'.epoch := by
  induction h with
  | refl => exact Int.le_refl _
  | tail _ hstep ih => exact Int.le_trans ih hstep.epoch_le

theorem Steps.cancelled (h : Steps barred j j') (hj : j.cancelled = true) :
    j'.cancelled = true ∧ j'.epoch = j.epoch := by
  induction h with
  | refl => exact ⟨hj, rfl⟩
  | tail _ hstep ih =>
    rcases hstep.cancelled ih.1 with ⟨hcancelled, hepoch⟩
    exact ⟨hcancelled, hepoch.trans ih.2⟩

theorem Steps.sound (h : Steps barred j j') (hj : Sound barred j) : Sound barred j' := by
  induction h with
  | refl => exact hj
  | tail _ hstep _ => exact hstep.sound

end Job

end Lease

end Waygate
