import Mathlib.Data.List.Forall2

/-!
# Loops That Emit

A loop over a list that may fail, and that writes something at each turn. Whether a turn
fails depends on the item alone, and so does what it writes.

## Main definitions

* `Emits`

## Theorems

* `loop`: A loop is one.
* `isOk_iff`: A loop ends exactly if every item is good.
* `wrote`: What a loop has written.
-/

namespace Waygate

namespace Loop

variable {ε σ α γ : Type}

variable {β : Type} {f : α → Except ε β} {as : List α}

theorem ok_bind (a : α) (f : α → Except ε β) : Except.ok a >>= f = f a :=
  rfl

theorem bind_eq_ok {x : Except ε α} {b : β} :
    x >>= f = .ok b ↔ ∃ a, x = .ok a ∧ f a = .ok b := by
  cases x with
  | error e =>
    refine iff_of_false (nofun) ?_
    rintro ⟨a, ha, -⟩
    cases ha
  | ok a =>
    constructor
    · intro h
      exact ⟨a, rfl, h⟩
    · rintro ⟨a', ha, h⟩
      cases ha
      exact h

theorem mapM_eq_ok {bs : List β} :
    as.mapM f = .ok bs ↔ List.Forall₂ (fun a b => f a = .ok b) as bs := by
  induction as generalizing bs with
  | nil =>
    rw [List.mapM_nil, List.forall₂_nil_left_iff]
    constructor
    · intro h
      cases h
      rfl
    · rintro rfl
      rfl
  | cons a rest ih =>
    simp only [List.mapM_cons, bind_eq_ok, List.forall₂_cons_left_iff, ih]
    constructor
    · rintro ⟨b, hb, bs', hbs', h⟩
      cases h
      exact ⟨b, bs', hb, hbs', rfl⟩
    · rintro ⟨b, bs', hb, hbs', rfl⟩
      exact ⟨b, hb, bs', hbs', rfl⟩

theorem exists_of_mapM {bs : List β} (h : as.mapM f = .ok bs) {b : β} (hb : b ∈ bs) :
    ∃ a ∈ as, f a = .ok b := by
  have hpair := mapM_eq_ok.mp h
  induction hpair with
  | nil => cases hb
  | cons hhead htail ih => grind [mapM_eq_ok]

theorem foldlM_invariant {step : σ → α → Except ε σ} {I : σ → Prop}
    (hstep : ∀ s a s', step s a = .ok s' → I s → I s') {s s' : σ} (hrun : as.foldlM step s = .ok s')
    (hs : I s) : I s' := by
  induction as generalizing s with
  | nil =>
    cases hrun
    exact hs
  | cons a rest ih =>
    rw [List.foldlM_cons, bind_eq_ok] at hrun
    rcases hrun with ⟨next, hnext, hrest⟩
    exact ih hrest (hstep s a next hnext hs)

/-- A turn that ends exactly for good items, and writes what the item gives. -/
structure Emits (step : σ → α → Except ε σ) (good : α → Prop) (out : σ → List γ)
    (emit : α → List γ) : Prop where
  total : ∀ s a, good a → ∃ s', step s a = .ok s'
  only : ∀ s a s', step s a = .ok s' → good a ∧ out s' = out s ++ emit a

namespace Emits

open List

variable {step : σ → α → Except ε σ} {good : α → Prop} {out : σ → List γ} {emit : α → List γ}

theorem loop (h : Emits step good out emit) :
    Emits (fun s as => List.foldlM step s as) (fun as => ∀ a ∈ as, good a) out
      (List.flatMap emit) := by
  constructor
  · intro s as hgood
    induction as generalizing s with
    | nil => exact ⟨s, rfl⟩
    | cons a rest ih =>
      rcases h.total s a (hgood a mem_cons_self) with ⟨next, hnext⟩
      rcases ih next (fun b hb => hgood b (mem_cons_of_mem a hb)) with ⟨s', hs'⟩
      refine ⟨s', ?_⟩
      rw [foldlM_cons, hnext]
      exact hs'
  · intro s as s' hrun
    induction as generalizing s with
    | nil =>
      cases hrun
      simp
    | cons a rest ih =>
      simp only [foldlM_cons, bind_eq_ok] at hrun
      rcases hrun with ⟨next, hnext, hrun⟩
      rcases h.only s a next hnext with ⟨hgood, hout⟩
      rcases ih next hrun with ⟨hrest, hrestOut⟩
      refine ⟨?_, ?_⟩
      · grind
      · rw [hrestOut, hout, flatMap_cons, append_assoc]

theorem isOk_iff (h : Emits step good out emit) (as : List α) (s : σ) :
    (∃ s', as.foldlM step s = .ok s') ↔ ∀ a ∈ as, good a := by
  constructor
  · rintro ⟨s', hrun⟩
    exact (h.loop.only s as s' hrun).1
  · exact h.loop.total s as

theorem wrote (h : Emits step good out emit) {s s' : σ} (hrun : as.foldlM step s = .ok s') :
    out s' = out s ++ as.flatMap emit :=
  (h.loop.only s as s' hrun).2

end Emits

end Loop

end Waygate
