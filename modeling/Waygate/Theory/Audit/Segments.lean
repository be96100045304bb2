import Mathlib.Data.List.SplitBy
import Waygate.Core.Audit.Retention

/-!
# The Segments of a Batch

A sweep groups its batch into runs: candidates that each follow the one before them in
the chain. The loop closes a segment late, when it has already seen the next candidate.

## Main definitions

* `Grouped`

## Theorems

* `grouped_push`, `groupIntoChainSegments_eq`, `groupIntoChainSegments_exact`
-/

namespace Waygate.Audit

open List

def follows (prior next : DeletedRow) : Bool :=
  next.prevHash == some prior.rowHash

def CandidateRow.deletedRow (c : CandidateRow) : Option DeletedRow :=
  c.rowHash.map (fun rowHash => { prevHash := c.prevHash, rowHash := rowHash })

def chainedCandidates (candidates : List CandidateRow) : List DeletedRow :=
  candidates.filterMap CandidateRow.deletedRow

theorem splitBy_map {α β : Type} (f : α → β) (r : β → β → Bool) (l : List α) :
    (l.map f).splitBy r = (l.splitBy (fun a b => r (f a) (f b))).map (List.map f) := by
  refine splitBy_eq_iff.mpr ⟨?_, fun hnil => ?_, fun m hm => ?_, ?_⟩
  · rw [← map_flatten, flatten_splitBy]
  · rcases mem_map.mp hnil with ⟨s, hs, hsnil⟩
    exact ne_nil_of_mem_splitBy hs (map_eq_nil_iff.mp hsnil)
  · rcases mem_map.mp hm with ⟨s, hs, hsm⟩
    rw [← hsm, isChain_map]
    exact isChain_of_mem_splitBy hs
  · rw [isChain_map]
    refine (isChain_getLast_head_splitBy (fun a b => r (f a) (f b)) l).imp ?_
    rintro a b ⟨ha, hb, hab⟩
    refine ⟨fun h => ha (map_eq_nil_iff.mp h), fun h => hb (map_eq_nil_iff.mp h), ?_⟩
    rw [getLast_map, head_map]
    exact hab

/-- After the rows in `done`, the closed segments are a split of a first part
    of them, and the rest is a run that does not continue that part. -/
structure Grouped (done : List DeletedRow) (g : Grouping) : Prop where
  closed : ∃ first, done = first ++ g.current ∧ g.segments = first.splitBy follows ∧
    ∀ x ∈ first.getLast?, ∀ y ∈ g.current.head?, follows x y = false
  run : g.current.IsChain (fun x y => follows x y = true)
  last : g.lastRowHash = done.getLast?.map DeletedRow.rowHash
  started : done ≠ [] → g.current ≠ []

theorem grouped_close {done : List DeletedRow} {g : Grouping} (h : Grouped done g)
    (hne : g.current ≠ []) : g.segments ++ [g.current] = done.splitBy follows := by
  rcases h.closed with ⟨first, hdone, hsegments, hbreak⟩
  rw [hdone, splitBy_append hbreak, splitBy_of_isChain hne h.run, hsegments]

/-- A candidate extends the segment under way or closes it. -/
theorem grouped_push {done : List DeletedRow} {g : Grouping} {c : CandidateRow} {d : DeletedRow}
    (h : Grouped done g) (hc : c.deletedRow = some d) : Grouped (done ++ [d]) (g.push c) := by
  rcases Option.map_eq_some_iff.mp hc with ⟨rowHash, hhash, hd⟩
  subst hd
  rcases h.closed with ⟨first, hdone, hsegments, hbreak⟩
  have hlast : (g.push c).lastRowHash
      = (done ++ [DeletedRow.mk c.prevHash rowHash]).getLast?.map DeletedRow.rowHash := by
    rw [getLast?_concat, Grouping.push, hhash]
    rfl
  by_cases hempty : g.current = []
  · -- Nothing was seen before, so the candidate starts the first segment.
    have hnil : done = [] := by
      by_contra hne
      exact h.started hne hempty
    have hfirst : first = [] := by
      rw [hnil, hempty, append_nil] at hdone
      exact hdone.symm
    have hpush : (g.push c).current = [⟨c.prevHash, rowHash⟩]
        ∧ (g.push c).segments = g.segments := by
      simp [Grouping.push, hhash, hempty]
    refine ⟨⟨[], ?_, ?_, nofun⟩, ?_, hlast, fun _ => ?_⟩
    · rw [hnil, hpush.1]
    · rw [hpush.2, hsegments, hfirst]
    · rw [hpush.1]
      exact isChain_singleton _
    · rw [hpush.1]
      exact cons_ne_nil _ _
  · rcases eq_nil_or_concat g.current with hnil | ⟨init, x, hcurrent⟩
    · exact absurd hnil hempty
    rw [concat_eq_append] at hcurrent
    have hnotEmpty : g.current.isEmpty = false := isEmpty_eq_false_iff.mpr hempty
    -- The test compares the candidate with the last row of the run.
    have hcont : rowContinuous g.lastRowHash c.prevHash = follows x ⟨c.prevHash, rowHash⟩ := by
      rw [h.last, hdone, hcurrent, ← append_assoc, getLast?_concat, Option.map_some]
      unfold follows
      cases c.prevHash with
      | none => rfl
      | some this =>
        rw [rowContinuous, Bool.eq_iff_iff, beq_iff_eq, beq_iff_eq, Option.some.injEq]
        exact eq_comm
    by_cases hx : follows x ⟨c.prevHash, rowHash⟩ = true
    · have hpush : (g.push c).current = g.current ++ [⟨c.prevHash, rowHash⟩]
          ∧ (g.push c).segments = g.segments := by
        simp [Grouping.push, hhash, hcont, hx]
      refine ⟨⟨first, ?_, hpush.2.trans hsegments, fun y hy z hz => hbreak y hy z ?_⟩, ?_, hlast,
        fun _ => ?_⟩
      · rw [hpush.1, hdone, append_assoc]
      · rw [hpush.1, head?_append_of_ne_nil _ hempty] at hz
        exact hz
      · rw [hpush.1]
        refine isChain_append.mpr ⟨h.run, isChain_singleton _, fun y hy z hz => ?_⟩
        rw [hcurrent, getLast?_concat] at hy
        rw [← Option.some.inj hy, ← Option.some.inj (hz : some _ = some z)]
        exact hx
      · rw [hpush.1]
        exact append_ne_nil_of_right_ne_nil _ (cons_ne_nil _ _)
    · have hx : follows x ⟨c.prevHash, rowHash⟩ = false := Bool.not_eq_true _ ▸ hx
      have hpush : (g.push c).current = [⟨c.prevHash, rowHash⟩]
          ∧ (g.push c).segments = g.segments ++ [g.current] := by
        simp [Grouping.push, hhash, hcont, hx, hnotEmpty]
      refine ⟨⟨done, by rw [hpush.1], hpush.2.trans (grouped_close h hempty), fun y hy z hz => ?_⟩,
        ?_, hlast, fun _ => ?_⟩
      · grind
      · rw [hpush.1]
        exact isChain_singleton _
      · rw [hpush.1]
        exact cons_ne_nil _ _

theorem grouped_foldl (candidates : List CandidateRow) :
    Grouped (chainedCandidates candidates)
      (candidates.foldl Grouping.push { segments := [], current := [], lastRowHash := none }) := by
  induction candidates using List.reverseRecOn with
  | nil => exact ⟨⟨[], rfl, rfl, nofun⟩, isChain_nil, rfl,
      fun h => absurd rfl h⟩
  | append_singleton candidates c ih =>
    rw [foldl_append, foldl_cons, foldl_nil, chainedCandidates,
      filterMap_append]
    cases hc : c.deletedRow with
    | none =>
      -- An unchained candidate changes nothing.
      have hhash : c.rowHash = none := Option.map_eq_none_iff.mp hc
      simp only [filterMap_cons, hc, filterMap_nil, append_nil]
      rw [Grouping.push, hhash]
      exact ih
    | some d =>
      simp only [filterMap_cons, hc, filterMap_nil]
      exact grouped_push ih hc

/-- A batch is split where two neighbouring chained rows are not linked. -/
theorem groupIntoChainSegments_eq (candidates : List CandidateRow) :
    groupIntoChainSegments candidates = (chainedCandidates candidates).splitBy follows := by
  have h := grouped_foldl candidates
  unfold groupIntoChainSegments
  by_cases hempty : (candidates.foldl Grouping.push
      { segments := [], current := [], lastRowHash := none }).current = []
  · have hnil : chainedCandidates candidates = [] := by
      by_contra hne
      exact h.started hne hempty
    rcases h.closed with ⟨first, hdone, hsegments, -⟩
    rw [hnil, hempty, append_nil] at hdone
    simp [hempty, hsegments, hnil, ← hdone]
  · have hnotEmpty : (candidates.foldl Grouping.push
        { segments := [], current := [], lastRowHash := none }).current.isEmpty = false :=
      isEmpty_eq_false_iff.mpr hempty
    simp only [hnotEmpty, Bool.false_eq_true, if_false]
    exact grouped_close h hempty

theorem linked_eq_isChain (rows : List DeletedRow) :
    RetentionMarker.linked rows = true ↔ rows.IsChain (fun x y => follows x y = true) := by
  induction rows with
  | nil => exact ⟨fun _ => isChain_nil, fun _ => rfl⟩
  | cons prior rows ih =>
    cases rows with
    | nil => exact ⟨fun _ => isChain_singleton _, fun _ => rfl⟩
    | cons next rest =>
      rw [RetentionMarker.linked, Bool.and_eq_true, ih, isChain_cons_cons]
      rfl

/-- A marker passes its check when its rows are one segment of a list with
    distinct hashes. -/
theorem validate_segment {rows : List DeletedRow} {m : RetentionMarker}
    (hnd : (rows.map DeletedRow.rowHash).Nodup) (hs : m.deletedRows ∈ rows.splitBy follows)
    (hkind : m.kind = RetentionMarker.KIND)
    (hids : (m.deletedUnchainedRows.map DeletedUnchainedRow.id).Nodup) : m.validate = true := by
  have hne : m.deletedRows ≠ [] := ne_nil_of_mem_splitBy hs
  have hrun : RetentionMarker.linked m.deletedRows = true :=
    (linked_eq_isChain _).mpr (isChain_of_mem_splitBy hs)
  have hhashes : (m.deletedRows.map DeletedRow.rowHash).Nodup := by
    have hsub := sublist_flatten_of_mem hs
    rw [flatten_splitBy] at hsub
    exact hnd.sublist (hsub.map _)
  simp only [RetentionMarker.validate, hkind, beq_self_eq_true, isEmpty_eq_false_iff.mpr hne,
    Bool.false_and, Bool.not_false, Bool.and_true, hrun, hhashes, hids, decide_true]

/-- Grouping is exact: the segments are the chained candidates in order, none
    is empty, each makes a marker that passes its check, and no segment could
    have been continued by the next. -/
theorem groupIntoChainSegments_exact (candidates : List CandidateRow) :
    (groupIntoChainSegments candidates).flatten = chainedCandidates candidates
    ∧ (∀ segment ∈ groupIntoChainSegments candidates, segment ≠ []
      ∧ (((chainedCandidates candidates).map DeletedRow.rowHash).Nodup →
        ∀ m : RetentionMarker, m.kind = RetentionMarker.KIND → m.deletedRows = segment →
          (m.deletedUnchainedRows.map DeletedUnchainedRow.id).Nodup → m.validate = true))
    ∧ (groupIntoChainSegments candidates).IsChain (fun earlier later =>
        ∀ x ∈ earlier.getLast?, ∀ y ∈ later.head?, follows x y = false) := by
  rw [groupIntoChainSegments_eq]
  refine ⟨flatten_splitBy follows _, fun segment hs => ⟨ne_nil_of_mem_splitBy hs, ?_⟩, ?_⟩
  · rintro hnd m hkind rfl hids
    exact validate_segment hnd hs hkind hids
  · refine (isChain_getLast_head_splitBy follows _).imp ?_
    rintro earlier later ⟨hearlier, hlater, hbreak⟩ x hx y hy
    rw [getLast?_eq_some_getLast hearlier, Option.mem_some_iff] at hx
    rw [head?_eq_some_head hlater, Option.mem_some_iff] at hy
    rw [← hx, ← hy]
    exact hbreak

end Waygate.Audit
