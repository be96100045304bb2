import Mathlib.Algebra.Order.Field.Basic
import Mathlib.Tactic.Linarith
import Mathlib.Tactic.Ring

/-!
# Token Buckets Without a Clock That Advances

A bucket fills at a rate up to a capacity. The debits need not come in the order of
their times. So the argument is not about the tokens at a time but about the whole line
they lie on, the tokens there would be at every time if nothing more were spent and
nothing capped.

## Main definitions

* `Level.line`, `Spends`

## Theorems

* `Spends.window`
* `line_spend`: A debit lowers the line by one.
-/

namespace Waygate.RateLimit

variable {K : Type*} [Field K]

structure Level (K : Type*) where
  tokens : K
  since : K

/-- The tokens there would be at `t`, uncapped. -/
def Level.line (refill : K) (l : Level K) (t : K) : K :=
  l.tokens + (t - l.since) * refill

theorem line_shift (refill : K) (l : Level K) (t u : K) :
    l.line refill u = l.line refill t + (u - t) * refill := by
  simp only [Level.line]
  ring

variable [LinearOrder K]

/-- A debit at `t`. No level is a full bucket. -/
def spend (capacity refill t : K) : Option (Level K) → Option (Level K)
  | none => some { tokens := capacity - 1, since := t }
  | some l =>
    if 1 ≤ min capacity (l.line refill t) then
      some { tokens := min capacity (l.line refill t) - 1, since := t }
    else none

/-- Debits at these times, in this order, lead from one level to another. -/
inductive Spends (capacity refill : K) : Option (Level K) → List K → Option (Level K) → Prop
  | nil (a : Option (Level K)) : Spends capacity refill a [] a
  | cons {a b : Option (Level K)} {l : Level K} {t : K} {ts : List K}
      (head : spend capacity refill t a = some l) (tail : Spends capacity refill (some l) ts b) :
      Spends capacity refill a (t :: ts) b

variable {a b : Option (Level K)} {ts : List K} {t : K} {l : Level K}

theorem Spends.append {capacity refill : K} {c : Option (Level K)} {us : List K}
    (h : Spends capacity refill a ts b) (h' : Spends capacity refill b us c) :
    Spends capacity refill a (ts ++ us) c := by
  induction h with
  | nil a => exact h'
  | cons head tail ih => exact .cons head (ih h')

theorem Spends.single {capacity refill : K} (h : spend capacity refill t a = some l) :
    Spends capacity refill a [t] (some l) :=
  .cons h (.nil _)

variable [IsStrictOrderedRing K] {capacity refill : K}

theorem line_mono (hrefill : 0 ≤ refill) (l : Level K) {u : K} (h : t ≤ u) :
    l.line refill t ≤ l.line refill u := by
  rw [line_shift refill l t u]
  have : 0 ≤ (u - t) * refill := mul_nonneg (sub_nonneg.mpr h) hrefill
  linarith

theorem line_spend {l' : Level K} (h : spend capacity refill t (some l) = some l') (u : K) :
    l'.line refill u ≤ l.line refill u - 1 ∧ 1 ≤ l.line refill t := by
  simp only [spend] at h
  split at h
  · grind [line_shift, Level.line]
  · cases h

theorem line_spend_self (h : spend capacity refill t a = some l) :
    l.line refill t ≤ capacity - 1 := by
  cases a with
  | none =>
    cases h
    simp [Level.line]
  | some l' =>
    simp only [spend] at h
    split at h
    · cases h
      have := min_le_left capacity (l'.line refill t)
      simp only [Level.line, sub_self, zero_mul, add_zero] at this ⊢
      linarith
    · cases h

theorem spend_bounded (hcapacity : 1 ≤ capacity) (h : spend capacity refill t a = some l) :
    0 ≤ l.tokens ∧ l.tokens ≤ capacity := by
  cases a with
  | none =>
    cases h
    exact ⟨sub_nonneg.mpr hcapacity, sub_le_self _ zero_le_one⟩
  | some old =>
    rw [spend] at h
    split_ifs at h with htoken
    cases h
    exact ⟨sub_nonneg.mpr htoken, (sub_le_self _ zero_le_one).trans (min_le_left _ _)⟩

theorem Spends.bounded (hcapacity : 1 ≤ capacity) (h : Spends capacity refill a ts b)
    (ha : ∀ l ∈ a, 0 ≤ l.tokens ∧ l.tokens ≤ capacity) :
    ∀ l ∈ b, 0 ≤ l.tokens ∧ l.tokens ≤ capacity := by
  induction h with
  | nil => exact ha
  | cons head _ ih =>
    refine ih (fun l hl => ?_)
    cases hl
    exact spend_bounded hcapacity head

theorem count_le_line (hrefill : 0 ≤ refill) {s e : K} (h : Spends capacity refill (some l) ts b) :
    ts.countP (fun t => s ≤ t ∧ t ≤ e) = 0
      ∨ (ts.countP (fun t => s ≤ t ∧ t ≤ e) : K) ≤ l.line refill e := by
  generalize ha : (some l : Option (Level K)) = a at h
  induction h generalizing l with
  | nil a => exact Or.inl rfl
  | @cons a b l₁ t ts head tail ih =>
    rw [← ha] at head
    rcases line_spend head e with ⟨hdrop, htoken⟩
    rw [List.countP_cons]
    by_cases hin : s ≤ t ∧ t ≤ e
    · have hend := htoken.trans (line_mono hrefill l hin.2)
      rw [if_pos (decide_eq_true hin), Nat.cast_add, Nat.cast_one]
      rcases ih rfl with hnone | hsome
      · right
        rw [hnone, Nat.cast_zero]
        linarith
      · right
        linarith
    · rw [if_neg (by rw [decide_eq_true_eq]; exact hin), Nat.add_zero]
      rcases ih rfl with hnone | hsome
      · exact Or.inl hnone
      · right
        linarith

/-- In a window there are at most as many debits as the capacity, and the
    window's refill, whatever the order of their times. -/
theorem Spends.window (hcapacity : 1 ≤ capacity) (hrefill : 0 ≤ refill) {s e : K} (hse : s ≤ e)
    (h : Spends capacity refill a ts b) :
    (ts.countP (fun t => s ≤ t ∧ t ≤ e) : K) ≤ capacity + (e - s) * refill := by
  have hroom : 0 ≤ (e - s) * refill := mul_nonneg (sub_nonneg.mpr hse) hrefill
  induction h with
  | nil a =>
    simp only [List.countP_nil, Nat.cast_zero]
    linarith
  | @cons a b l t ts head tail ih =>
    rw [List.countP_cons]
    by_cases hin : s ≤ t ∧ t ≤ e
    · -- The first debit of the window leaves less than the capacity.
      have hself := line_spend_self head
      have hshift := line_shift refill l t e
      have helapsed : (e - t) * refill ≤ (e - s) * refill :=
        mul_le_mul_of_nonneg_right (by linarith [hin.1]) hrefill
      rw [if_pos (decide_eq_true hin), Nat.cast_add, Nat.cast_one]
      rcases count_le_line hrefill tail with hnone | hsome
      · rw [hnone, Nat.cast_zero]
        linarith
      · linarith
    · rw [if_neg (by rw [decide_eq_true_eq]; exact hin), Nat.add_zero]
      exact ih

end Waygate.RateLimit
