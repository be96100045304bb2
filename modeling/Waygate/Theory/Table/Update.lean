import Mathlib.Data.List.Nodup

/-!
# Conditional Updates

A conditional update changes the rows that meet a condition and returns one of them. An
update that makes its own condition false is a claim: of many that race for a row, one
wins.

## Main definitions

* `updateWhere`

## Theorems

* `mem_updateWhere_of_not`: A row that does not meet the condition stays.
* `map_updateWhere`: What the update does not touch stays.
-/

namespace Waygate.Table

open List

variable {α β : Type*} {p : α → Bool} {f : α → α} {rows : List α}

/-- Change the rows that meet the condition, and return the first of them. -/
def updateWhere (p : α → Bool) (f : α → α) (rows : List α) : Option α × List α :=
  ((rows.find? p).map f, rows.map (fun x => if p x then f x else x))

theorem mem_updateWhere {x' : α} (h : x' ∈ (updateWhere p f rows).2) :
    (x' ∈ rows ∧ p x' = false) ∨ ∃ x ∈ rows, p x = true ∧ x' = f x := by
  rcases mem_map.mp h with ⟨x, hx, rfl⟩
  by_cases hp : p x = true
  · rw [if_pos hp]
    exact .inr ⟨x, hx, hp, rfl⟩
  · rw [if_neg hp]
    exact .inl ⟨hx, eq_false_of_ne_true hp⟩

theorem updateWhere_some {y : α} (h : (updateWhere p f rows).1 = some y) :
    ∃ x ∈ rows, p x = true ∧ y = f x ∧ y ∈ (updateWhere p f rows).2 := by
  rcases Option.map_eq_some_iff.mp h with ⟨x, hfind, rfl⟩
  have hx := mem_of_find?_eq_some hfind
  have hp := find?_some hfind
  exact ⟨x, hx, hp, rfl, mem_map.mpr ⟨x, hx, by rw [if_pos hp]⟩⟩

theorem mem_updateWhere_of_not {x : α} (hx : x ∈ rows) (hp : p x = false) :
    x ∈ (updateWhere p f rows).2 :=
  mem_map.mpr ⟨x, hx, by rw [hp, if_neg Bool.false_ne_true]⟩

theorem map_updateWhere {key : α → β} (hf : ∀ x, key (f x) = key x) :
    (updateWhere p f rows).2.map key = rows.map key := by
  rw [updateWhere, map_map]
  refine map_congr_left (fun x _ => ?_)
  rw [Function.comp_apply]
  split
  · exact hf x
  · rfl

end Waygate.Table
