import Mathlib.Data.Set.Basic

/-!
# Memo Tables

A function answered through a table that may forget whatever it likes. Questions with
one key must have one answer, among the questions that are asked.

## Main definitions

* `Table`, `Lawful`: A table that holds only what was stored.
* `call`, `run`: Calls through the table.

## Theorems

* `run_answers`: Every call of a run is answered right.
* `run_invariant`: What storing preserves holds after every call.
-/

namespace Waygate

namespace Memo

variable {σ κ ν ε Q : Type*}

structure Table (σ κ ν : Type*) where
  lookup : σ → κ → Option ν
  store : σ → κ → ν → σ

namespace Table

variable (T : Table σ κ ν) (key : Q → κ) (answer : Q → Except ε ν)

def Lawful : Prop :=
  ∀ s k v k' v', T.lookup (T.store s k v) k' = some v' → (k' = k ∧ v' = v) ∨ T.lookup s k' = some v'

def call (s : σ) (q : Q) : Except ε ν × σ :=
  match T.lookup s (key q) with
  | some v => (.ok v, s)
  | none => match answer q with
    | .error e => (.error e, s)
    | .ok v => (.ok v, T.store s (key q) v)

/-- One question after another, with the answer and the table after each. -/
def run (s : σ) : List Q → List (Except ε ν × σ)
  | [] => []
  | q :: rest =>
    let done := T.call key answer s q
    done :: run done.2 rest

/-- What the table holds under the key of a question is its answer. -/
def Sound (asked : Set Q) (s : σ) : Prop :=
  ∀ q ∈ asked, ∀ v, T.lookup s (key q) = some v → answer q = .ok v

variable {T key answer} {asked : Set Q} {s : σ}

theorem call_sound (hT : T.Lawful)
    (hkey : ∀ q ∈ asked, ∀ q' ∈ asked, key q = key q' → answer q = answer q')
    (h : T.Sound key answer asked s) {q : Q} (hq : q ∈ asked) :
    (T.call key answer s q).1 = answer q ∧ T.Sound key answer asked (T.call key answer s q).2 := by
  unfold call
  split
  · rename_i v hv
    exact ⟨(h q hq v hv).symm, h⟩
  · split
    · rename_i e he
      exact ⟨he.symm, h⟩
    · rename_i v hv
      refine ⟨hv.symm, fun q' hq' v' hv' => ?_⟩
      rcases hT s (key q) v (key q') v' hv' with ⟨hk, hvv⟩ | hold
      · rw [hkey q' hq' q hq hk, hv, hvv]
      · exact h q' hq' v' hold

theorem run_answers (asked : Set Q) (hT : T.Lawful)
    (hkey : ∀ q ∈ asked, ∀ q' ∈ asked, key q = key q' → answer q = answer q')
    (qs : List Q) (hqs : ∀ q ∈ qs, q ∈ asked) (h : T.Sound key answer asked s) :
    (T.run key answer s qs).map Prod.fst = qs.map answer := by
  induction qs generalizing s with
  | nil => rfl
  | cons q rest ih =>
    rcases call_sound hT hkey h (hqs q List.mem_cons_self) with ⟨hanswer, hsound⟩
    simp [run, hanswer, ih (fun q' hq' => hqs q' (List.mem_cons_of_mem q hq')) hsound]

theorem run_invariant {P : σ → Prop}
    (hstore : ∀ s k v, P s → T.lookup s k = none → P (T.store s k v))
    (qs : List Q) (h : P s) : ∀ done ∈ T.run key answer s qs, P done.2 := by
  induction qs generalizing s with
  | nil => exact nofun
  | cons q rest ih =>
    have hcall : P (T.call key answer s q).2 := by
      unfold call
      split
      · exact h
      · grind
    intro done hdone
    rcases List.mem_cons.mp hdone with heq | hrest
    · rw [heq]
      exact hcall
    · exact ih hcall done hrest

end Table

end Memo

end Waygate
