import Mathlib.Data.List.Forall2
import Mathlib.Data.List.Perm.Subperm

/-!
# First Paths in a Functional Graph

Following a partial function from a node until a target is met. A walk that returns to a
node it has left never meets the target, so a first path visits each node once, and a
search given as many hops as there are edges misses nothing.

## Main definitions

* `FirstPath`

## Theorems

* `firstPath_nodup`, `firstPath_length_le`
* `firstPath_unique`: There is one at most.
* `firstPath_restrict`, `firstPath_simulate`: First paths of another graph.
-/

namespace Waygate.Reach

open List

variable {α ε : Type*} {f g : α → Option (ε × α)} {t : α}

/-- The edges followed from a node until the target is first visited. -/
inductive FirstPath (f : α → Option (ε × α)) (t : α) : α → List ε → Prop
  | here : FirstPath f t t []
  | step {a b : α} {e : ε} {es : List ε} (hne : a ≠ t) (hf : f a = some (e, b))
      (hrest : FirstPath f t b es) : FirstPath f t a (e :: es)

variable {a : α} {es : List ε}

theorem firstPath_unique {ds : List ε} (h : FirstPath f t a es) (h' : FirstPath f t a ds) :
    es = ds := by
  induction h generalizing ds with
  | here =>
    cases h' with
    | here => rfl
    | step hne _ _ => exact absurd rfl hne
  | step hne hf _ ih =>
    cases h' with
    | here => exact absurd rfl hne
    | step _ hf' hrest => grind

theorem firstPath_restrict (hfg : ∀ x e y, e ∈ es → f x = some (e, y) → g x = some (e, y))
    (h : FirstPath f t a es) : FirstPath g t a es := by
  induction h with
  | here => exact FirstPath.here
  | step hne hf _ ih =>
    exact FirstPath.step hne (hfg _ _ _ mem_cons_self hf)
      (ih (fun x e y he => hfg x e y (mem_cons_of_mem _ he)))

theorem firstPath_simulate {δ : Type*} {k : α → Option (δ × α)} (R : ε → δ → Prop)
    (hfk : ∀ x e y, e ∈ es → f x = some (e, y) → ∃ d, k x = some (d, y) ∧ R e d)
    (h : FirstPath f t a es) : ∃ ds, FirstPath k t a ds ∧ List.Forall₂ R es ds := by
  induction h with
  | here => exact ⟨[], FirstPath.here, List.Forall₂.nil⟩
  | step hne hf _ ih =>
    rcases hfk _ _ _ mem_cons_self hf with ⟨d, hk, hR⟩
    rcases ih (fun x e y he => hfk x e y (mem_cons_of_mem _ he)) with ⟨ds, hpath, hds⟩
    exact ⟨d :: ds, FirstPath.step hne hk hpath, List.Forall₂.cons hR hds⟩

theorem firstPath_edge (h : FirstPath f t a es) :
    ∀ e ∈ es, ∃ x y, f x = some (e, y) := by
  induction h with
  | here => exact nofun
  | step _ hf _ ih => grind

theorem firstPath_suffix (h : FirstPath f t a es) :
    ∀ e ∈ es, ∃ x y es', f x = some (e, y) ∧ FirstPath f t x (e :: es') ∧
      es'.length < es.length := by
  induction h with
  | here => exact nofun
  | @step a b e' es hne hf hrest ih =>
    intro e he
    rcases mem_cons.mp he with he | he
    · subst he
      exact ⟨a, b, es, hf, FirstPath.step hne hf hrest, Nat.lt_succ_self _⟩
    · rcases ih e he with ⟨x, y, es', hx, hpath, hlen⟩
      exact ⟨x, y, es', hx, hpath, Nat.lt_succ_of_lt hlen⟩

/-- Where each label leaves only one node, the edges of a first path are
    distinct: a second use of an edge would start the same walk again, and
    that walk would have to be shorter than itself. -/
theorem firstPath_nodup (hsrc : ∀ x x' e y y', f x = some (e, y) → f x' = some (e, y') → x = x')
    (h : FirstPath f t a es) : es.Nodup := by
  induction h with
  | here => exact nodup_nil
  | @step a b e es hne hf hrest ih =>
    refine nodup_cons.mpr ⟨fun he => ?_, ih⟩
    rcases firstPath_suffix hrest e he with ⟨x, y, es', hx, hpath, hlen⟩
    have hxa : x = a := hsrc x a e y b hx hf
    subst hxa
    have heq := firstPath_unique hpath (FirstPath.step hne hf hrest)
    have := congrArg List.length heq
    simp only [length_cons] at this
    omega

/-- Distinct edges drawn from a list are no more than the list holds, so a
    search with that many hops misses no first path. -/
theorem firstPath_length_le (edges : List ε)
    (hsrc : ∀ x x' e y y', f x = some (e, y) → f x' = some (e, y') → x = x')
    (hedges : ∀ x e y, f x = some (e, y) → e ∈ edges) (h : FirstPath f t a es) :
    es.length ≤ edges.length := by
  have hsub : es ⊆ edges := by
    intro e he
    rcases firstPath_edge h e he with ⟨x, y, hxy⟩
    exact hedges x e y hxy
  exact (subperm_of_subset (firstPath_nodup hsrc h) hsub).length_le

end Waygate.Reach
