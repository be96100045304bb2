import Mathlib.Data.List.Basic

/-!
# Runs of a Machine

A machine is a step function, and a run is a list of inputs. What a step keeps, a run
keeps. Often a step keeps it only under a condition on the state it is taken in, and
then the run must meet that condition all along.

## Main definitions

* `Along`: A condition at every step of a run.

## Theorems

* `along_iff_split`, `foldlM_traced`
* `foldl_invariant`, `Along.invariant`: What a run keeps.
-/

namespace Waygate.Machine

variable {σ α : Type*} {step : σ → α → σ}

theorem foldl_invariant {I : σ → Prop} {l : List α} (hstep : ∀ s a, a ∈ l → I s → I (step s a))
    {s : σ} (hs : I s) : I (l.foldl step s) := by
  induction l generalizing s with
  | nil => exact hs
  | cons a rest ih =>
    refine ih (fun s b hb => hstep s b (List.mem_cons_of_mem a hb)) ?_
    exact hstep s a List.mem_cons_self hs

def Along (step : σ → α → σ) (P : σ → α → Prop) : σ → List α → Prop
  | _, [] => True
  | s, a :: rest => P s a ∧ Along step P (step s a) rest

variable {P : σ → α → Prop}

instance Along.decidable [∀ s a, Decidable (P s a)] : ∀ s l, Decidable (Along step P s l)
  | _, [] => isTrue trivial
  | s, a :: rest => @instDecidableAnd _ _ _ (Along.decidable (step s a) rest)

/-- A run is along a condition when the condition holds wherever it is cut. -/
theorem along_iff_split {s : σ} {l : List α} :
    Along step P s l ↔ ∀ before a after, l = before ++ a :: after →
      P (before.foldl step s) a := by
  induction l generalizing s with
  | nil =>
    refine iff_of_true trivial (fun before a after h => ?_)
    cases before <;> cases h
  | cons b rest ih =>
    refine ⟨fun h before a after heq => ?_, fun h => ⟨h [] b rest rfl, ?_⟩⟩
    · cases before with
      | nil =>
        cases heq
        exact h.1
      | cons c before =>
        cases heq
        exact ih.mp h.2 before a after rfl
    · exact ih.mpr (fun before a after heq => h (b :: before) a after (by rw [heq]; rfl))

theorem Along.invariant {I : σ → Prop} (hstep : ∀ s a, P s a → I s → I (step s a)) {s : σ}
    {l : List α} (hs : I s) (h : Along step P s l) : I (l.foldl step s) := by
  induction l generalizing s with
  | nil => exact hs
  | cons a rest ih => exact ih (hstep s a h.1 hs) h.2

/-- A step that may be impossible. What it keeps may speak of the run so far. -/
theorem foldlM_traced {step : σ → α → Option σ} {I : List α → σ → Prop}
    (hstep : ∀ before a s s', I before s → step s a = some s' → I (before ++ [a]) s')
    {before l : List α} {s s' : σ} (hs : I before s) (h : l.foldlM step s = some s') :
    I (before ++ l) s' := by
  induction l generalizing before s with
  | nil =>
    cases h
    rwa [List.append_nil]
  | cons a rest ih =>
    rw [List.foldlM_cons] at h
    rcases Option.bind_eq_some_iff.mp h with ⟨t, ht, h⟩
    have hrest := ih (hstep before a s t hs ht) h
    rwa [List.append_assoc] at hrest

end Waygate.Machine
