import Mathlib.Data.List.Basic
import Mathlib.Data.List.Count

/-!
# Exclusive Locks

A pool of processes, each holding some locks. A process that moves may give locks up,
and may take a lock that nobody holds.

## Main definitions

* `Exclusive`: One process at most holds a lock.

## Theorems

* `Exclusive.set`: A process that moves.
* `Exclusive.append`: A process that comes.
* `countP_set_add`: Counting after a move.
-/

namespace Waygate.Machine

variable {α κ : Type*} {locks : α → List κ} {pool : List α}

def Exclusive (locks : α → List κ) (pool : List α) : Prop :=
  ∀ ⦃i j : Nat⦄ ⦃a b : α⦄ ⦃k : κ⦄, pool[i]? = some a → pool[j]? = some b →
    k ∈ locks a → k ∈ locks b → i = j

theorem Exclusive.set (h : Exclusive locks pool) {i : Nat} {a a' : α} (hi : pool[i]? = some a)
    (hnew : ∀ k ∈ locks a', k ∈ locks a ∨ ∀ b ∈ pool, k ∉ locks b) :
    Exclusive locks (pool.set i a') := by
  -- A lock of the moved process is its own from before, or is free.
  have hother : ∀ {j : Nat} {b k}, pool[j]? = some b → k ∈ locks b → k ∈ locks a' → i = j := by
    intro j b k hj hb ha
    rcases hnew k ha with hold | hfree
    · exact h hi hj hold hb
    · exact absurd hb (hfree b (List.mem_of_getElem? hj))
  intro j l b c k hj hl hb hc
  rw [List.getElem?_set] at hj hl
  by_cases hij : i = j
  · grind
  · rw [if_neg hij] at hj
    by_cases hil : i = l
    · grind
    · rw [if_neg hil] at hl
      exact h hj hl hb hc

theorem Exclusive.append (h : Exclusive locks pool) {a : α} (ha : locks a = []) :
    Exclusive locks (pool ++ [a]) := by
  -- The new process holds nothing, so a holder is an old one.
  have hold : ∀ {j : Nat} {b k}, (pool ++ [a])[j]? = some b → k ∈ locks b → pool[j]? = some b := by
    grind
  intro i j b c k hi hj hb hc
  exact h (hold hi hb) (hold hj hc) hb hc

theorem countP_set_add {i : Nat} {a a' : α} (hi : pool[i]? = some a) (p : α → Bool) :
    (pool.set i a').countP p + (if p a then 1 else 0) =
      pool.countP p + (if p a' then 1 else 0) := by
  rcases List.getElem?_eq_some_iff.mp hi with ⟨hlt, ha⟩
  have hpos : (if p a then 1 else 0) ≤ pool.countP p := by
    split
    · next hp => exact List.countP_pos_iff.mpr ⟨a, List.mem_of_getElem? hi, hp⟩
    · exact Nat.zero_le _
  rw [List.countP_set hlt, ha]
  omega

end Waygate.Machine
