import Waygate.Core.Mcp.CatalogChanges
import Waygate.Theory.Machine.Locks
import Waygate.Theory.Machine.Run

/-!
# Optimistic Catalog Reads

A publication that wrote after the first read is still active, or has committed since
the reader loaded the generation. When the reader finds none active after its last read,
the generation has moved on.

## Main definitions

* `Caught`
* `Sound`: What every access keeps.

## Theorems

* `step_sound`, `stable_read_untorn`
-/

namespace Waygate.CatalogChanges

open Machine

variable {s : Epoch}

def Publication.active : Publication → Bool
  | .finished => false
  | _ => true

/-- The publication has written and not committed, or a commit has come since the
    reader loaded the generation. -/
def Caught (s : Epoch) (i : Nat) : Prop :=
  s.publications[i]? = some (.begun true) ∨ s.seen < s.commits

def Reader.early : Reader → Bool
  | .start | .idle | .loaded _ => true
  | _ => false

/-- What the reader has seen. Once it has found no publication active after its last
    read, a torn read means a commit, and once the generation is unchanged there is no
    torn read. -/
def Reader.Knows (s : Epoch) : Reader → Prop
  | .loaded g | .reading g => g = s.seen % 2 ^ 64
  | .closing g => g = s.seen % 2 ^ 64 ∧ (s.torn ≠ [] → s.seen < s.commits)
  | .unchanged _ | .stable _ => s.commits < 2 ^ 64 → s.torn = []
  | _ => True

structure Sound (s : Epoch) : Prop where
  active : s.activeChanges = s.publications.countP Publication.active
  generation : s.generation = s.commits % 2 ^ 64
  seen : s.seen ≤ s.commits
  early : s.reader.early = true → s.reads = 0 ∧ s.pending = []
  pending : ∀ i ∈ s.pending, Caught s i
  torn : ∀ i ∈ s.torn, i ∈ s.pending
  knows : s.reader.Knows s

theorem Sound.committed (h : Sound s) (hidle : s.activeChanges = 0) (htorn : s.torn ≠ []) :
    s.seen < s.commits := by
  rcases List.exists_mem_of_ne_nil _ htorn with ⟨i, hi⟩
  rcases h.pending i (h.torn i hi) with hbegun | hlt
  · have hpos : 0 < s.publications.countP Publication.active :=
      List.countP_pos_iff.mpr ⟨_, List.mem_of_getElem? hbegun, rfl⟩
    have hactive := h.active
    omega
  · exact hlt

theorem Sound.unchanged (h : Sound s) {g : Nat} (hknows : Reader.Knows s (.closing g))
    (hsame : s.generation = g) : Reader.Knows s (.unchanged g) := by
  intro hfew
  by_contra htorn
  have hlt := hknows.2 htorn
  have hgen := h.generation
  rw [hsame, hknows.1, Nat.mod_eq_of_lt hfew, Nat.mod_eq_of_lt (by omega)] at hgen
  omega

theorem Sound.move (h : Sound s) {r : Reader} (hr : r.early = false ∨ s.reader.early = true)
    (hknows : r.Knows s) : Sound { s with reader := r } :=
  { h with
    early := fun he => h.early (hr.resolve_left (by simp [he]))
    knows := by cases r <;> exact hknows }

theorem load_sound (h : Sound s) : Sound s.load := by
  have hknows := h.knows
  have hretry : Sound { s with reader := .retry } := h.move (.inl rfl) trivial
  unfold Epoch.load
  split <;> next hr =>
  rw [hr] at hknows
  first
  | exact h
  | split
    all_goals first
    | exact hretry
    | exact h.move (.inr (by rw [hr]; rfl)) trivial
    | exact h.move (.inl rfl) hknows
    | exact h.move (.inl rfl) ⟨hknows, h.committed ‹_›⟩
    | exact h.move (.inl rfl) (h.unchanged hknows ‹_›)
  | have hearly := h.early (by rw [hr]; rfl)
    exact { h with
      seen := Nat.le_refl _
      early := fun _ => hearly
      pending := by simp [hearly.2]
      knows := h.generation }

theorem knows_congr {s s' : Epoch} {r : Reader} (hseen : s'.seen = s.seen)
    (htorn : s'.torn = s.torn) (hcommits : s.commits ≤ s'.commits) (h : r.Knows s) :
    r.Knows s' := by
  cases r <;> simp only [Reader.Knows, hseen, htorn] at h ⊢ <;> grind

theorem Sound.publish (h : Sound s) {i : Nat} {p p' : Publication} {active commits : Nat}
    {pending : List Nat} (hi : s.publications[i]? = some p)
    (hactive : active = (s.publications.set i p').countP Publication.active)
    (hcommits : s.commits ≤ commits)
    (hcaught : p = .begun true → p' = .begun true ∨ s.commits < commits)
    (hpending : pending = s.pending ∨ s.reads ≠ 0 ∧ p' = .begun true ∧ pending = i :: s.pending) :
    Sound { s.put i p' with
      activeChanges := active, generation := commits % 2 ^ 64, commits := commits,
      pending := pending } := by
  have hlt : i < s.publications.length := (List.getElem?_eq_some_iff.mp hi).1
  have hseen := h.seen
  have hold : ∀ j ∈ s.pending, Caught { s.put i p' with commits := commits } j := by
    intro j hj
    rcases h.pending j hj with hbegun | hgt
    · by_cases hij : i = j
      · subst hij
        rw [hi] at hbegun
        rcases hcaught (Option.some.inj hbegun) with hp | hgt
        · exact .inl (by simp [Epoch.put, hp, hlt])
        · exact .inr (by simp only [Epoch.put]; omega)
      · exact .inl (by simpa [Epoch.put, hij] using hbegun)
    · exact .inr (by simp only [Epoch.put]; omega)
  refine ⟨hactive, rfl, hseen.trans hcommits, fun he => ?_, fun j hj => ?_, fun j hj => ?_,
    @knows_congr s _ s.reader rfl rfl hcommits h.knows⟩
  · have hearly := h.early he
    rcases hpending with rfl | ⟨hreads, -⟩
    · exact hearly
    · exact absurd hearly.1 hreads
  · rcases hpending with rfl | ⟨-, hp, rfl⟩
    · exact hold j hj
    · rcases List.mem_cons.mp hj with rfl | hj
      · exact .inl (by simp [Epoch.put, hp, hlt])
      · exact hold j hj
  · rcases hpending with rfl | ⟨-, -, rfl⟩
    · exact h.torn j hj
    · exact List.mem_cons_of_mem _ (h.torn j hj)

/-- Every write since the first read shows in a counter. -/
theorem step_sound (h : Sound s) (a : Action) : Sound (step s a) := by
  have hgen := h.generation
  have hactive := h.active
  cases a with
  | beginChange =>
    have hknows := @knows_congr s (step s .beginChange) s.reader rfl rfl (Nat.le_refl _) h.knows
    refine { h with active := ?_, pending := fun i hi => ?_, knows := hknows }
    · simp [step, List.countP_append, Publication.active, hactive]
    · rcases h.pending i hi with hbegun | hlt
      · have hlt := (List.getElem?_eq_some_iff.mp hbegun).1
        exact .inl ((List.getElem?_append_left hlt).trans hbegun)
      · exact .inr hlt
  | write i =>
    simp only [step]
    split
    · next wrote hi =>
      have hset := @countP_set_add _ _ _ _ (.begun true) hi Publication.active
      simp only [Publication.active, if_true] at hset
      rw [Epoch.put, hgen]
      exact h.publish hi (by dsimp only; omega) (Nat.le_refl _) (fun _ => .inl rfl)
        (by split <;> simp [*])
    · exact h
  | markChanged i =>
    simp only [step]
    split
    · next wrote hi =>
      have hset := @countP_set_add _ _ _ _ .marked hi Publication.active
      simp only [Publication.active, if_true] at hset
      have hnext : (s.generation + 1) % 2 ^ 64 = (s.commits + 1) % 2 ^ 64 := by omega
      rw [Epoch.put, hnext]
      exact h.publish hi (by dsimp only; omega) (Nat.le_succ _)
        (fun _ => .inr (Nat.lt_succ_self _)) (.inl rfl)
    · exact h
  | finish i =>
    simp only [step]
    split
    all_goals first
    | exact h
    | next hi =>
      have hset := @countP_set_add _ _ _ _ .finished hi Publication.active
      simp only [Publication.active, if_true, Bool.false_eq_true, if_false] at hset
      rw [Epoch.put, hgen]
      exact h.publish hi (by omega) (Nat.le_refl _) nofun (.inl rfl)
  | load => exact load_sound h
  | read =>
    simp only [step]
    split
    · next g hr =>
      have hknows := h.knows
      rw [hr] at hknows
      exact { h with
        early := by simp [hr, Reader.early]
        torn := fun i hi => hi
        knows := by rw [hr]; exact hknows }
    · exact h

/-- A reader that finds the catalog stable has read one generation: no publication
    wrote between its first read and its last. -/
theorem stable_read_untorn (actions : List Action) (hfew : (run actions).commits < 2 ^ 64)
    {g : Nat} (hstable : (run actions).reader = .stable g) : (run actions).torn = [] := by
  have hnew : Sound .new :=
    ⟨rfl, rfl, Nat.le_refl _, fun _ => ⟨rfl, rfl⟩, by simp [Epoch.new], by simp [Epoch.new],
      trivial⟩
  have hsound : Sound (run actions) := by
    rw [run]
    exact foldl_invariant (I := Sound) (fun s a _ h => step_sound h a) hnew
  have hknows := hsound.knows
  rw [hstable] at hknows
  exact hknows hfew

theorem stable_read_untorn_late :
    (run [.beginChange, .write 0, .markChanged 0, .finish 0, .load, .load, .load, .read, .read,
      .load, .load, .load]).torn = [] :=
  stable_read_untorn _ (by decide) (g := 1) (by decide)

end Waygate.CatalogChanges
