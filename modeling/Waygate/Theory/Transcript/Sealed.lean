import Mathlib.Data.List.Basic

/-!
# Lists That a Last Item Closes

A reader takes items one after another and knows from some of them that nothing follows.

## Main definitions

* `Unsealed`, `Sealed`: No item says so, or just the last.

## Theorems

* `Sealed.initial`: What has been read of a sealed list is all of it, or says nothing.
-/

namespace Waygate.Transcript

variable {α : Type*} {closes : α → Prop} {l l' : List α} {x : α}

def Unsealed (closes : α → Prop) (l : List α) : Prop :=
  ∀ x ∈ l, ¬ closes x

def Sealed (closes : α → Prop) (l : List α) : Prop :=
  ∃ before last, l = before ++ [last] ∧ Unsealed closes before ∧ closes last

theorem Unsealed.nil : Unsealed closes [] := by
  simp [Unsealed]

theorem Unsealed.append (h : Unsealed closes l) (h' : Unsealed closes l') :
    Unsealed closes (l ++ l') := by
  intro x hx
  rcases List.mem_append.mp hx with hx | hx
  · exact h x hx
  · exact h' x hx

theorem Unsealed.initial (h : Unsealed closes l) (hp : l' <+: l) : Unsealed closes l' :=
  fun x hx => h x (hp.subset hx)

theorem Unsealed.concat (h : Unsealed closes l) (hx : closes x) : Sealed closes (l ++ [x]) :=
  ⟨l, x, rfl, h, hx⟩

theorem Unsealed.append_sealed (h : Unsealed closes l) (h' : Sealed closes l') :
    Sealed closes (l ++ l') := by
  rcases h' with ⟨before, last, rfl, hbefore, hlast⟩
  refine ⟨l ++ before, last, ?_, h.append hbefore, hlast⟩
  rw [List.append_assoc]

theorem Sealed.not_unsealed (h : Sealed closes l) : ¬ Unsealed closes l := by
  rcases h with ⟨before, last, rfl, -, hlast⟩
  intro hopen
  exact hopen last (by simp) hlast

theorem Sealed.initial (h : Sealed closes l) (hp : l' <+: l) :
    Unsealed closes l' ∨ Sealed closes l' := by
  rcases h with ⟨before, last, rfl, hbefore, hlast⟩
  rcases List.prefix_concat_iff.mp hp with rfl | hp
  · exact .inr ⟨before, last, rfl, hbefore, hlast⟩
  · exact .inl (hbefore.initial hp)

theorem Sealed.eq_of_initial (h : Sealed closes l') (hp : l' <+: l)
    (hl : Unsealed closes l ∨ Sealed closes l) : l' = l := by
  rcases hl with hl | ⟨before, last, rfl, hbefore, -⟩
  · exact absurd (hl.initial hp) h.not_unsealed
  · rcases List.prefix_concat_iff.mp hp with heq | hp
    · exact heq
    · exact absurd (hbefore.initial hp) h.not_unsealed

end Waygate.Transcript
