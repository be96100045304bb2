import Mathlib.Data.List.Basic
import Mathlib.Data.List.Sigma

/-!
# Counting Worklists

Closing a set under rules of the form "admit `i` once everything in `deps i` is
admitted" without re-reading the rules. Each index counts the dependencies it still
waits for, a table lists who waits for whom, and a queue holds the indices whose count
has reached zero.

## Main definitions

* `Derivable`, `Waiting`
* `load`, `drain`, `run`: The worklist.

## Theorems

* `waiting_pop`, `run_spec`
* `run_length`: There is one flag per index.
-/

namespace Waygate.Worklist

open List

variable {α : Type*}

/-- The least set containing every index all of whose dependencies it
    contains. An index with no rule is in no such set. -/
inductive Derivable (deps : Nat → Option (List Nat)) : Nat → Prop
  | intro (i : Nat) (ds : List Nat) (h : deps i = some ds)
      (hds : ∀ d ∈ ds, Derivable deps d) : Derivable deps i

/-- How many dependencies each index waits for, and who waits for it. -/
structure Counters where
  remaining : List Nat
  dependents : List (List Nat)

/-- Add `i` to the waiting list of each of `ds`. -/
def enlist (i : Nat) (ds : List Nat) (table : List (List Nat)) : List (List Nat) :=
  ds.foldl (fun t d => t.modify d (fun l => l ++ [i])) table

/-- Record one rule: the index's count, and the index under each of its
    dependencies. -/
def loadStep (deps : Nat → Option (List Nat)) (c : Counters) (i : Nat) : Counters :=
  match deps i with
  | none => c
  | some ds =>
    { remaining := c.remaining.set i ds.length
      dependents := enlist i ds c.dependents }

def load (never n : Nat) (deps : Nat → Option (List Nat)) : Counters :=
  (List.range n).foldl (loadStep deps)
    { remaining := List.replicate n never, dependents := List.replicate n [] }

/-- Lower the count of each index in turn, queueing those that reach zero. -/
def release (waiting : List Nat) (remaining queue : List Nat) : List Nat × List Nat :=
  waiting.foldl
    (fun rq d =>
      let count := rq.1.getD d 0 - 1
      (rq.1.set d count, if count = 0 then rq.2 ++ [d] else rq.2))
    (remaining, queue)

/-- Pop indices until the queue is empty, admitting each and releasing those
    that waited for it. -/
def drain (dependents : List (List Nat)) :
    Nat → List Nat → List Nat → List Bool → List Bool
  | 0, _, _, admitted => admitted
  | _ + 1, [], _, admitted => admitted
  | fuel + 1, i :: queue, remaining, admitted =>
    if admitted.getD i false then drain dependents fuel queue remaining admitted
    else
      let next := release (dependents.getD i []) remaining queue
      drain dependents fuel next.2 next.1 (admitted.set i true)

def run (never n : Nat) (deps : Nat → Option (List Nat)) : List Bool :=
  let c := load never n deps
  let queue := (c.remaining.zipIdx.filter (fun p => p.1 = 0)).map Prod.snd
  drain c.dependents n queue c.remaining (List.replicate n false)

theorem getD_set (l : List α) (i j : Nat) (v d : α) (hi : i < l.length) :
    (l.set i v).getD j d = if i = j then v else l.getD j d := by grind

theorem getD_modify (l : List α) (i j : Nat) (f : α → α) (d : α) (hi : i < l.length) :
    (l.modify i f).getD j d = if i = j then f (l.getD j d) else l.getD j d := by grind

theorem getD_replicate (n i : Nat) (v d : α) (hi : i < n) :
    (List.replicate n v).getD i d = v := by
  rw [getD_eq_getElem?_getD, getElem?_replicate_of_lt hi, Option.getD_some]

theorem enlist_length (i : Nat) (ds : List Nat) (table : List (List Nat)) :
    (enlist i ds table).length = table.length := by
  induction ds generalizing table with
  | nil => rfl
  | cons d ds ih =>
    simp only [enlist, foldl_cons] at ih ⊢
    rw [ih, length_modify]

theorem enlist_getD (i : Nat) (ds : List Nat) (table : List (List Nat)) (hnd : ds.Nodup)
    (hlt : ∀ d ∈ ds, d < table.length) (e : Nat) :
    (enlist i ds table).getD e [] = if e ∈ ds then table.getD e [] ++ [i] else table.getD e [] := by
  induction ds generalizing table with
  | nil => simp only [enlist, foldl_nil, not_mem_nil, if_false]
  | cons d ds ih =>
    rcases nodup_cons.mp hnd with ⟨hd, hnd'⟩
    have hstep : enlist i (d :: ds) table
        = enlist i ds (table.modify d (fun l => l ++ [i])) := rfl
    rw [hstep, ih _ hnd' (fun x hx => by
      rw [length_modify]
      exact hlt x (mem_cons_of_mem d hx)), getD_modify _ _ _ _ _ (hlt d mem_cons_self)]
    by_cases hde : d = e
    · simp [← hde, hd]
    · simp only [hde, if_false, mem_cons, Ne.symm hde, false_or]

/-- The rules name distinct dependencies, all below the bound. -/
def WellFormed (n : Nat) (deps : Nat → Option (List Nat)) : Prop :=
  ∀ i ds, i < n → deps i = some ds → ds.Nodup ∧ ∀ d ∈ ds, d < n

def waitsFor (deps : Nat → Option (List Nat)) (d i : Nat) : Bool :=
  ((deps i).getD []).contains d

/-- What the counters hold once the first `k` of `n` rules are recorded. -/
structure Loaded (never n k : Nat) (deps : Nat → Option (List Nat)) (c : Counters) : Prop where
  remaining_length : c.remaining.length = n
  dependents_length : c.dependents.length = n
  remaining : ∀ i, i < n → c.remaining.getD i 0
    = if i < k then ((deps i).map List.length).getD never else never
  dependents : ∀ d, d < n → c.dependents.getD d [] = (List.range k).filter (waitsFor deps d)

variable {never n : Nat} {deps : Nat → Option (List Nat)} {dependents : List (List Nat)}

theorem loadStep_loaded {k : Nat} {c : Counters} (hwf : WellFormed n deps) (hk : k < n)
    (hc : Loaded never n k deps c) : Loaded never n (k + 1) deps (loadStep deps c k) := by
  -- An index other than `k` is below `k + 1` exactly when it is below `k`.
  have hbelow : ∀ i, i ≠ k → (i < k + 1 ↔ i < k) := by omega
  cases hdeps : deps k with
  | none =>
    have hstep : loadStep deps c k = c := by simp only [loadStep, hdeps]
    rw [hstep]
    refine ⟨hc.remaining_length, hc.dependents_length, fun i hi => ?_, fun d hd => ?_⟩
    · rw [hc.remaining i hi]
      by_cases hik : i = k
      · simp [hik, hdeps]
      · simp only [hbelow i hik]
    · rw [hc.dependents d hd, range_succ, filter_append]
      simp [waitsFor, hdeps]
  | some ds =>
    have hstep : loadStep deps c k
        = ⟨c.remaining.set k ds.length, enlist k ds c.dependents⟩ := by
      simp only [loadStep, hdeps]
    rcases hwf k ds hk hdeps with ⟨hnd, hlt⟩
    rw [hstep]
    refine ⟨(length_set ..).trans hc.remaining_length,
      (enlist_length ..).trans hc.dependents_length, fun i hi => ?_, fun d hd => ?_⟩
    · rw [getD_set _ _ _ _ _ (hc.remaining_length ▸ hk)]
      by_cases hik : i = k
      · simp [hik, hdeps]
      · simp only [Ne.symm hik, if_false, hc.remaining i hi, hbelow i hik]
    · rw [enlist_getD k ds _ hnd (fun x hx => hc.dependents_length.symm ▸ hlt x hx),
        hc.dependents d hd, range_succ, filter_append]
      by_cases hmem : d ∈ ds
      · simp [hmem, waitsFor, hdeps]
      · simp [hmem, waitsFor, hdeps]

theorem load_loaded (hwf : WellFormed n deps) : Loaded never n n deps (load never n deps) := by
  -- Loading folds over the rules, so the claim is proved for each number of them.
  have key : ∀ k, k ≤ n → Loaded never n k deps ((List.range k).foldl (loadStep deps)
      { remaining := List.replicate n never, dependents := List.replicate n [] }) := by
    intro k
    induction k with
    | zero =>
      intro _
      refine ⟨length_replicate, length_replicate, fun i hi => ?_, fun d hd => ?_⟩
      · simp only [range_zero, foldl_nil, Nat.not_lt_zero, if_false,
          getD_replicate n i never 0 hi]
      · simp only [range_zero, foldl_nil, filter_nil, getD_replicate n d [] [] hd]
    | succ k ih =>
      intro hk
      rw [range_succ, foldl_append, foldl_cons, foldl_nil]
      exact loadStep_loaded hwf hk (ih (by omega))
  exact key n le_rfl

theorem release_eq (waiting remaining queue : List Nat) (hnd : waiting.Nodup)
    (hlt : ∀ d ∈ waiting, d < remaining.length) :
    (release waiting remaining queue).1.length = remaining.length ∧
    (∀ e, (release waiting remaining queue).1.getD e 0
      = if e ∈ waiting then remaining.getD e 0 - 1 else remaining.getD e 0) ∧
    (release waiting remaining queue).2
      = queue ++ waiting.filter (fun e => decide (remaining.getD e 0 - 1 = 0)) := by
  induction waiting generalizing remaining queue with
  | nil =>
    simp [release]
  | cons d ds ih =>
    rcases nodup_cons.mp hnd with ⟨hd, hnd'⟩
    have hstep : release (d :: ds) remaining queue
        = release ds (remaining.set d (remaining.getD d 0 - 1))
            (if remaining.getD d 0 - 1 = 0 then queue ++ [d] else queue) := rfl
    have hset := fun e => getD_set remaining d e (remaining.getD d 0 - 1) 0
      (hlt d mem_cons_self)
    rcases ih (remaining.set d (remaining.getD d 0 - 1))
      (if remaining.getD d 0 - 1 = 0 then queue ++ [d] else queue) hnd' (fun e he => by
        rw [length_set]
        exact hlt e (mem_cons_of_mem d he)) with ⟨hlen, hrem, hq⟩
    rw [hstep]
    refine ⟨by rw [hlen, length_set], fun e => ?_, ?_⟩
    · grind
    · -- The counts of the indices still to come are untouched by the first.
      have hfilter : ds.filter
          (fun e => decide ((remaining.set d (remaining.getD d 0 - 1)).getD e 0 - 1 = 0))
          = ds.filter (fun e => decide (remaining.getD e 0 - 1 = 0)) := by
        refine filter_congr (fun e he => ?_)
        have hde : d ≠ e := fun h => hd (h ▸ he)
        rw [hset e, if_neg hde]
      rw [hq, hfilter, filter_cons]
      by_cases hz : remaining.getD d 0 - 1 = 0
      · simp only [hz, if_true, decide_true, append_assoc, singleton_append]
      · simp only [hz, if_false, decide_false, Bool.false_eq_true]

def Admitted (admitted : List Bool) (i : Nat) : Prop :=
  admitted.getD i false = true

instance (admitted : List Bool) (i : Nat) : Decidable (Admitted admitted i) :=
  inferInstanceAs (Decidable (_ = _))

variable (admitted : List Bool)

theorem admitted_set (i j : Nat) (hi : i < admitted.length) :
    Admitted (admitted.set i true) j ↔ j = i ∨ Admitted admitted j := by grind [Admitted, getD_set]

def pending (admitted : List Bool) (ds : List Nat) : List Nat :=
  ds.filter (fun d => decide (¬ Admitted admitted d))

theorem pending_eq_nil (ds : List Nat) :
    pending admitted ds = [] ↔ ∀ d ∈ ds, Admitted admitted d := by
  simp [pending]

theorem pending_set (ds : List Nat) (i : Nat) (hi : i < admitted.length)
    (hnd : ds.Nodup) (hfresh : ¬ Admitted admitted i) :
    (pending (admitted.set i true) ds).length
      = if i ∈ ds then (pending admitted ds).length - 1 else (pending admitted ds).length := by
  have herase : pending (admitted.set i true) ds = (pending admitted ds).erase i := by
    rw [pending, pending, (hnd.filter _).erase_eq_filter, filter_filter]
    refine filter_congr (fun d _ => ?_)
    simp only [admitted_set _ _ _ hi, not_or, Bool.decide_and, decide_not]
    rfl
  have hmem : i ∈ pending admitted ds ↔ i ∈ ds := by
    simp [pending, hfresh]
  rw [herase, length_erase]
  simp only [hmem]

/-- The loop invariant. A count is the number of dependencies not yet
    admitted; an index whose dependencies are all admitted is admitted or
    queued; and nothing underivable is either. -/
structure Waiting (n : Nat) (deps : Nat → Option (List Nat)) (queue remaining : List Nat)
    (admitted : List Bool) : Prop where
  remaining_length : remaining.length = n
  admitted_length : admitted.length = n
  queue_nodup : queue.Nodup
  queue_fresh : ∀ i ∈ queue, i < n ∧ ¬ Admitted admitted i
  queue_ready : ∀ i ∈ queue, ∃ ds, deps i = some ds ∧ ∀ d ∈ ds, Admitted admitted d
  count : ∀ i ds, i < n → deps i = some ds →
    remaining.getD i 0 = (pending admitted ds).length
  ready : ∀ i ds, i < n → deps i = some ds → (∀ d ∈ ds, Admitted admitted d) →
    Admitted admitted i ∨ i ∈ queue
  closed : ∀ i, Admitted admitted i → ∃ ds, deps i = some ds ∧ ∀ d ∈ ds, Admitted admitted d
  sound : ∀ i, Admitted admitted i → Derivable deps i

/-- The table lists, for each index, exactly those that wait for it. -/
structure Listed (n : Nat) (deps : Nat → Option (List Nat)) (dependents : List (List Nat)) :
    Prop where
  nodup : ∀ d, d < n → (dependents.getD d []).Nodup
  mem : ∀ d i, d < n → (i ∈ dependents.getD d [] ↔ i < n ∧ ∃ ds, deps i = some ds ∧ d ∈ ds)

/-- A round admits the first of the queue and releases who waits for it. -/
theorem waiting_pop (hwf : WellFormed n deps) (hl : Listed n deps dependents) {i : Nat}
    {queue remaining : List Nat} {admitted : List Bool}
    (h : Waiting n deps (i :: queue) remaining admitted) :
    Waiting n deps (release (dependents.getD i []) remaining queue).2
      (release (dependents.getD i []) remaining queue).1 (admitted.set i true) := by
  rcases h.queue_fresh i mem_cons_self with ⟨hi, hfresh⟩
  rcases h.queue_ready i mem_cons_self with ⟨dsi, hdsi, hdsiA⟩
  rcases nodup_cons.mp h.queue_nodup with ⟨hiq, hqnd⟩
  have hlen : i < admitted.length := h.admitted_length.symm ▸ hi
  have hset := fun j => admitted_set admitted i j hlen
  rcases release_eq (dependents.getD i []) remaining queue (hl.nodup i hi) (fun d hd => by
    rw [h.remaining_length]
    exact ((hl.mem i d hi).mp hd).1) with ⟨hrlen, hrem, hq⟩
  -- An index waiting for `i` alone is the one that becomes ready.
  have hcount : ∀ j ds, j < n → deps j = some ds →
      (release (dependents.getD i []) remaining queue).1.getD j 0
        = (pending (admitted.set i true) ds).length := by
    intro j ds hj hds
    have hmem : j ∈ dependents.getD i [] ↔ i ∈ ds := by
      rw [hl.mem i j hi]
      simp [hj, hds]
    rw [hrem j, h.count j ds hj hds, pending_set _ _ _ hlen (hwf j ds hj hds).1 hfresh]
    simp only [hmem]
  have hqueue : ∀ j, j ∈ (release (dependents.getD i []) remaining queue).2 ↔
      j ∈ queue ∨ (j < n ∧ ∃ ds, deps j = some ds ∧ i ∈ ds ∧
        ∀ d ∈ ds, Admitted (admitted.set i true) d) := by
    intro j
    rw [hq, mem_append, mem_filter, hl.mem i j hi]
    refine or_congr Iff.rfl ⟨?_, ?_⟩
    · rintro ⟨⟨hj, ds, hds, hids⟩, hz⟩
      refine ⟨hj, ds, hds, hids, (pending_eq_nil _ _).mp (eq_nil_of_length_eq_zero ?_)⟩
      rw [← hcount j ds hj hds, hrem j, if_pos ((hl.mem i j hi).mpr ⟨hj, ds, hds, hids⟩)]
      exact of_decide_eq_true hz
    · grind [pending_eq_nil]
  -- Whoever waited for `i` was neither admitted nor queued, since `i` was not.
  have hunready : ∀ j ds, deps j = some ds → i ∈ ds → ¬ Admitted admitted j ∧ j ∉ i :: queue := by
    intro j ds hds hids
    refine ⟨fun hA => ?_, fun hq => ?_⟩
    · rcases h.closed j hA with ⟨ds', hds', hall⟩
      rw [hds, Option.some.injEq] at hds'
      exact hfresh (hall i (hds' ▸ hids))
    · rcases h.queue_ready j hq with ⟨ds', hds', hall⟩
      rw [hds, Option.some.injEq] at hds'
      exact hfresh (hall i (hds' ▸ hids))
  refine ⟨hrlen.trans h.remaining_length, (length_set ..).trans h.admitted_length, ?_,
    fun j hj => ?_, fun j hj => ?_, hcount, fun j ds hj hds hall => ?_, fun j hj => ?_,
    fun j hj => ?_⟩
  · rw [hq, nodup_append]
    refine ⟨hqnd, (hl.nodup i hi).filter _, fun j hj k hk hjk => ?_⟩
    rcases (hl.mem i k hi).mp (mem_filter.mp hk).1 with ⟨-, ds, hds, hids⟩
    exact (hunready k ds hds hids).2 (mem_cons_of_mem i (hjk ▸ hj))
  · rw [hset j]
    rcases (hqueue j).mp hj with hj | ⟨hjn, ds, hds, hids, -⟩
    · rcases h.queue_fresh j (mem_cons_of_mem i hj) with ⟨hjn, hjA⟩
      exact ⟨hjn, not_or.mpr ⟨fun hji => hiq (hji ▸ hj), hjA⟩⟩
    · rcases hunready j ds hds hids with ⟨hjA, hjq⟩
      exact ⟨hjn, not_or.mpr ⟨fun hji => hjq (hji ▸ mem_cons_self), hjA⟩⟩
  · rcases (hqueue j).mp hj with hj | ⟨-, ds, hds, -, hall⟩
    · rcases h.queue_ready j (mem_cons_of_mem i hj) with ⟨ds, hds, hall⟩
      exact ⟨ds, hds, fun d hd => (hset d).mpr (Or.inr (hall d hd))⟩
    · exact ⟨ds, hds, hall⟩
  · rw [hset j, hqueue j]
    by_cases hids : i ∈ ds
    · exact Or.inr (Or.inr ⟨hj, ds, hds, hids, hall⟩)
    · -- Nothing the index waits for changed, so it was ready before.
      have hbefore : ∀ d ∈ ds, Admitted admitted d := by grind
      rcases h.ready j ds hj hds hbefore with hA | hq
      · exact Or.inl (Or.inr hA)
      · grind
  · rcases (hset j).mp hj with hji | hA
    · exact ⟨dsi, hji ▸ hdsi, fun d hd => (hset d).mpr (Or.inr (hdsiA d hd))⟩
    · rcases h.closed j hA with ⟨ds, hds, hall⟩
      exact ⟨ds, hds, fun d hd => (hset d).mpr (Or.inr (hall d hd))⟩
  · rcases (hset j).mp hj with hji | hA
    · rw [hji]
      exact Derivable.intro i dsi hdsi (fun d hd => h.sound d (hdsiA d hd))
    · exact h.sound j hA

theorem count_set (i : Nat) (hi : i < admitted.length)
    (hfresh : ¬ Admitted admitted i) :
    (admitted.set i true).count false + 1 = admitted.count false := by
  have hget : admitted[i] = false := by grind [Admitted]
  have hpos : 0 < admitted.count false := count_pos_iff.mpr (hget ▸ getElem_mem hi)
  have hset : (admitted.set i true).count false = admitted.count false - 1 := by
    rw [List.count_set hi, hget]
    rfl
  omega

theorem drain_waiting (hwf : WellFormed n deps) (hl : Listed n deps dependents) (fuel : Nat)
    {queue remaining : List Nat} {admitted : List Bool}
    (h : Waiting n deps queue remaining admitted) (hfuel : admitted.count false ≤ fuel) :
    ∃ remaining',
      Waiting n deps [] remaining' (drain dependents fuel queue remaining admitted) := by
  induction fuel generalizing queue remaining admitted with
  | zero =>
    -- Nothing is left to admit, so nothing is queued.
    cases queue with
    | nil => exact ⟨remaining, h⟩
    | cons i queue =>
      rcases h.queue_fresh i mem_cons_self with ⟨hi, hfresh⟩
      have := count_set admitted i (h.admitted_length.symm ▸ hi) hfresh
      omega
  | succ fuel ih =>
    cases queue with
    | nil => exact ⟨remaining, h⟩
    | cons i queue =>
      rcases h.queue_fresh i mem_cons_self with ⟨hi, hfresh⟩
      have hcount := count_set admitted i (h.admitted_length.symm ▸ hi) hfresh
      have hstep : drain dependents (fuel + 1) (i :: queue) remaining admitted
          = drain dependents fuel (release (dependents.getD i []) remaining queue).2
              (release (dependents.getD i []) remaining queue).1 (admitted.set i true) := by
        unfold Admitted at hfresh
        rw [drain, if_neg hfresh]
      rw [hstep]
      exact ih (waiting_pop hwf hl h) (by omega)

/-- The worklist admits exactly the derivable indices, when the count that
    stands for "no rule" is not zero. -/
theorem run_spec (never n : Nat) (deps : Nat → Option (List Nat)) (hwf : WellFormed n deps)
    (hnever : never ≠ 0) (i : Nat) (hi : i < n) :
    (run never n deps).getD i false = true ↔ Derivable deps i := by
  have hload : Loaded never n n deps _ := load_loaded hwf
  have hl : Listed n deps (load never n deps).dependents := by
    refine ⟨fun d hd => ?_, fun d j hd => ?_⟩
    · rw [hload.dependents d hd]
      exact nodup_range.filter _
    · rw [hload.dependents d hd, mem_filter, mem_range, waitsFor, contains_iff_mem]
      cases hdeps : deps j with
      | none => simp only [Option.getD_none, not_mem_nil, reduceCtorEq, false_and, exists_false]
      | some ds => simp
  have hnone : ∀ j, ¬ Admitted (List.replicate n false) j := by
    intro j
    unfold Admitted
    rw [getD_eq_getElem?_getD, getElem?_replicate]
    split <;> simp only [Option.getD_some, Option.getD_none, Bool.false_eq_true, not_false_eq_true]
  have hpending : ∀ ds, pending (List.replicate n false) ds = ds := by
    intro ds
    simp [pending, hnone]
  -- At the start exactly the indices with no dependency are queued.
  have hqueue : ∀ j, j ∈ ((load never n deps).remaining.zipIdx.filter (fun p => p.1 = 0)).map
      Prod.snd ↔ j < n ∧ deps j = some [] := by
    intro j
    have hzero : j < n → ((load never n deps).remaining.getD j 0 = 0 ↔ deps j = some []) := by
      intro hj
      rw [hload.remaining j hj, if_pos hj]
      cases hdeps : deps j with
      | none => simp only [Option.map_none, Option.getD_none, hnever, reduceCtorEq]
      | some ds => simp
    rw [mem_map]
    constructor
    · rintro ⟨⟨count, k⟩, hmem, hk⟩
      rcases mem_filter.mp hmem with ⟨hzip, hc⟩
      have hget := mem_zipIdx_iff_getElem?.mp hzip
      simp only [decide_eq_true_eq] at hc hk hget
      rw [hc, hk] at hget
      have hj : j < n := by
        rw [← hload.remaining_length]
        exact (List.getElem?_eq_some_iff.mp hget).1
      refine ⟨hj, (hzero hj).mp ?_⟩
      rw [getD_eq_getElem?_getD, hget, Option.getD_some]
    · rintro ⟨hj, hdeps⟩
      have hlt : j < (load never n deps).remaining.length := hload.remaining_length.symm ▸ hj
      have hget := (hzero hj).mpr hdeps
      rw [getD_eq_getElem?_getD, getElem?_eq_getElem hlt, Option.getD_some] at hget
      refine ⟨(0, j), mem_filter.mpr ⟨mem_zipIdx_iff_getElem?.mpr ?_, rfl⟩, rfl⟩
      rw [← hget]
      exact getElem?_eq_getElem hlt
  have hstart : Waiting n deps (((load never n deps).remaining.zipIdx.filter
      (fun p => p.1 = 0)).map Prod.snd) (load never n deps).remaining (List.replicate n false) := by
    refine ⟨hload.remaining_length, length_replicate, ?_, fun j hj => ?_, fun j hj => ?_,
      fun j ds hj hds => ?_, fun j ds hj hds hall => ?_, fun j hj => absurd hj (hnone j),
      fun j hj => absurd hj (hnone j)⟩
    · exact (nodup_zipIdx_map_snd _).sublist (filter_sublist.map Prod.snd)
    · exact ⟨((hqueue j).mp hj).1, hnone j⟩
    · exact ⟨[], ((hqueue j).mp hj).2, nofun⟩
    · rw [hload.remaining j hj, if_pos hj, hds, hpending]
      rfl
    · refine Or.inr ((hqueue j).mpr ⟨hj, ?_⟩)
      have hnil : ds = [] := eq_nil_iff_forall_not_mem.mpr (fun d hd => hnone d (hall d hd))
      rw [hds, hnil]
  rcases drain_waiting hwf hl n hstart (by rw [count_replicate_self]) with ⟨remaining', hend⟩
  refine ⟨hend.sound i, fun hder => ?_⟩
  -- With the queue empty, readiness is admission.
  induction hder with
  | intro j ds hds _ ih =>
    have hall : ∀ d ∈ ds, Admitted (run never n deps) d :=
      fun d hd => ih d hd ((hwf j ds hi hds).2 d hd)
    rcases hend.ready j ds hi hds hall with hA | hq
    · exact hA
    · cases hq

theorem run_length (never n : Nat) (deps : Nat → Option (List Nat)) :
    (run never n deps).length = n := by
  have key : ∀ (dependents : List (List Nat)) (fuel : Nat) (queue remaining : List Nat)
      (admitted : List Bool),
      (drain dependents fuel queue remaining admitted).length = admitted.length := by
    intro dependents fuel
    induction fuel with
    | zero =>
      intro queue remaining admitted
      rfl
    | succ fuel ih =>
      intro queue remaining admitted
      cases queue with
      | nil => rfl
      | cons i queue =>
        unfold drain
        split
        · exact ih _ _ _
        · exact (ih _ _ _).trans (length_set ..)
  exact (key _ _ _ _ _).trans length_replicate

end Waygate.Worklist
