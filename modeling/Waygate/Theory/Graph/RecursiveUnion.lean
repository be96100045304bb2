import Mathlib.Data.List.Dedup
import Mathlib.Data.List.Perm.Subperm

/-!
# Recursive Union

Evaluation of a recursive query whose rounds are joined by set union. Any bound on the
rounds above the size of a closed set that contains the seeds will do.

## Main definitions

* `Closure`, `recursiveUnion`

## Theorems

* `recursiveUnion_closed`, `mem_recursiveUnion`
-/

namespace Waygate.Reach

open List

variable {α : Type*} (step : α → List α)

/-- The least set containing the seeds and closed under the query. -/
inductive Closure (seeds : List α) : α → Prop
  | seed {a : α} (h : a ∈ seeds) : Closure seeds a
  | next {a b : α} (h : Closure seeds a) (hb : b ∈ step a) : Closure seeds b

variable [DecidableEq α]

/-- The rows one round adds: the query's output on the working table, without
    repetitions and without what the result already has. -/
def freshRows (result working : List α) : List α :=
  (working.flatMap step).dedup.filter (fun b => b ∉ result)

/-- Rounds of the query, until one adds nothing or the bound is reached. -/
def recursiveUnion : Nat → List α → List α → List α
  | 0, result, _ => result
  | _ + 1, result, [] => result
  | n + 1, result, working@(_ :: _) =>
    let fresh := freshRows step result working
    recursiveUnion n (result ++ fresh) fresh

theorem mem_freshRows (result working : List α) (b : α) :
    b ∈ freshRows step result working ↔ (∃ a ∈ working, b ∈ step a) ∧ b ∉ result := by
  simp [freshRows]

theorem recursiveUnion_sound (seeds : List α) :
    ∀ (n : Nat) (result working : List α), (∀ a ∈ result, Closure step seeds a) →
      (∀ a ∈ working, a ∈ result) →
      ∀ a ∈ recursiveUnion step n result working, Closure step seeds a := by
  intro n
  induction n with
  | zero => exact fun result _ hresult _ => hresult
  | succ n ih =>
    intro result working hresult hworking
    cases working with
    | nil => exact hresult
    | cons w ws =>
      refine ih _ _ (fun a ha => ?_) (fun a ha => mem_append_right _ ha)
      rcases mem_append.mp ha with ha | ha
      · exact hresult a ha
      · rcases (mem_freshRows step _ _ a).mp ha with ⟨⟨c, hc, hac⟩, -⟩
        exact Closure.next (hresult c (hworking c hc)) hac

/-- With enough rounds the result keeps what it started with and is closed.
    The invariant is that only rows of the working table may still have
    successors outside the result. -/
theorem recursiveUnion_closed (all : List α)
    (hclosed : ∀ a ∈ all, ∀ b ∈ step a, b ∈ all) :
    ∀ (n : Nat) (result working : List α), result.Nodup → (∀ a ∈ result, a ∈ all) →
      (∀ a ∈ working, a ∈ result) →
      (∀ a ∈ result, a ∉ working → ∀ b ∈ step a, b ∈ result) →
      all.length < n + result.length →
      (∀ a ∈ result, a ∈ recursiveUnion step n result working) ∧
      (∀ a ∈ recursiveUnion step n result working, ∀ b ∈ step a,
        b ∈ recursiveUnion step n result working) := by
  intro n
  induction n with
  | zero =>
    intro result working hnd hsub _ _ hlen
    have hle := (subperm_of_subset hnd hsub).length_le
    omega
  | succ n ih =>
    intro result working hnd hsub hworking hdone hlen
    cases working with
    | nil => exact ⟨fun a ha => ha, fun a ha => hdone a ha not_mem_nil⟩
    | cons w ws =>
      have hmem := mem_freshRows step result (w :: ws)
      -- A row's successors are old, or this round adds them.
      have hnext : ∀ a ∈ result, ∀ b ∈ step a, b ∈ result ++ freshRows step result (w :: ws) := by
        grind
      by_cases hfresh : freshRows step result (w :: ws) = []
      · have hstop : recursiveUnion step (n + 1) result (w :: ws) = result := by
          rw [recursiveUnion]
          simp only [hfresh, append_nil]
          cases n <;> rfl
        rw [hstop]
        refine ⟨fun a ha => ha, fun a ha b hb => ?_⟩
        have := hnext a ha b hb
        rwa [hfresh, append_nil] at this
      · have hpos := length_pos_iff.mpr hfresh
        rcases ih (result ++ freshRows step result (w :: ws)) (freshRows step result (w :: ws))
          (nodup_append.mpr ⟨hnd, (nodup_dedup _).filter _, fun a ha b hb hab =>
            ((hmem b).mp hb).2 (hab ▸ ha)⟩)
          (fun a ha => by
            rcases mem_append.mp ha with ha | ha
            · exact hsub a ha
            · rcases (hmem a).mp ha with ⟨⟨c, hc, hac⟩, -⟩
              exact hclosed c (hsub c (hworking c hc)) a hac)
          (fun a ha => mem_append_right _ ha)
          (fun a ha hnew b hb => by
            rcases mem_append.mp ha with ha | ha
            · exact hnext a ha b hb
            · exact absurd ha hnew)
          (by rw [length_append]; omega) with ⟨hkeep, hcl⟩
        exact ⟨fun a ha => hkeep a (mem_append_left _ ha), hcl⟩

/-- With enough rounds the evaluation computes the least closed set. -/
theorem mem_recursiveUnion (seeds all : List α) (n : Nat)
    (hseeds : ∀ a ∈ seeds, a ∈ all)
    (hclosed : ∀ a ∈ all, ∀ b ∈ step a, b ∈ all) (hn : all.length < n) (a : α) :
    a ∈ recursiveUnion step n seeds.dedup seeds.dedup ↔ Closure step seeds a := by
  rcases recursiveUnion_closed step all hclosed n seeds.dedup seeds.dedup
    (nodup_dedup _) (fun b hb => hseeds b (mem_dedup.mp hb)) (fun _ hb => hb)
    (fun b hb hnb => absurd hb hnb) (by omega) with ⟨hkeep, hcl⟩
  constructor
  · exact recursiveUnion_sound step seeds n _ _
      (fun b hb => Closure.seed (mem_dedup.mp hb)) (fun _ hb => hb) a
  · intro h
    induction h with
    | seed h => exact hkeep _ (mem_dedup.mpr h)
    | next _ hb ih => exact hcl _ ih _ hb

end Waygate.Reach
