import Mathlib.Data.Finset.Basic
import Waygate.Theory.Audit.Bridges

/-!
# Marker Admission Is a Least Fixed Point

A retention marker may authorise a gap only if its own link into the chain holds, and
that link may cross gaps other markers authorise. The code traces each candidate once,
through the graph of all candidates, and hands what it met to a counting worklist. This
admits what the rule would, because following bridges is deterministic: a trace through
a subset of the bridges, when it arrives, takes the same edges as the trace through all
of them.

## Main definitions

* `edge`, `admissionStep`, `Justified`

## Theorems

* `candidateDependencies_eq_some`, `reaches_admitted`, `admitRetentionBridges_least_fixed_point`
* `mem_admitted`: The code admits what is justified.
-/

namespace Waygate.Audit

open Reach List

/-- The candidate's start is carried by no other candidate. -/
def UniqueStart (candidates : List RetentionBridgeCandidate) (c : RetentionBridgeCandidate) :
    Prop :=
  candidates.countP (fun d => d.bridge.start = c.bridge.start) = 1

instance (candidates : List RetentionBridgeCandidate) (c : RetentionBridgeCandidate) :
    Decidable (UniqueStart candidates c) :=
  inferInstanceAs (Decidable (_ = 1))

/-- The edge leaving a hash in the graph of all candidates. A hash that two
    candidates start from has no edge. -/
def edge (candidates : List RetentionBridgeCandidate) (a : Option String) :
    Option (RetentionBridgeCandidate × Option String) :=
  match candidates.filter (fun c => c.bridge.start = a) with
  | [c] => some (c, some c.bridge.endHash)
  | _ => none

def bridgesOf (candidates : List RetentionBridgeCandidate)
    (S : Finset RetentionBridgeCandidate) : List RetentionBridge :=
  (candidates.filter (fun c => c ∈ S)).map RetentionBridgeCandidate.bridge

/-- One application of the admission rule: the candidates with a start of
    their own whose link the bridges in `S` and their own bridge can follow. -/
def admissionStep (candidates : List RetentionBridgeCandidate)
    (S : Finset RetentionBridgeCandidate) : Finset RetentionBridgeCandidate :=
  candidates.toFinset.filter (fun c => UniqueStart candidates c ∧
    markerBridgeReaches c.expectedPrev c.markerPrev (bridgeIndexOf (bridgesOf candidates S))
      (some c.bridge) = true)

/-- The least set of candidates closed under the rule. -/
inductive Justified (candidates : List RetentionBridgeCandidate) :
    RetentionBridgeCandidate → Prop
  | intro (c : RetentionBridgeCandidate) (hc : c ∈ candidates) (hu : UniqueStart candidates c)
      (es : List RetentionBridgeCandidate)
      (hpath : FirstPath (edge candidates) c.markerPrev c.expectedPrev es)
      (hes : ∀ d ∈ es, d ≠ c → Justified candidates d) : Justified candidates c

def admitted (candidates : List RetentionBridgeCandidate) : List RetentionBridgeCandidate :=
  ((candidates.zip (Worklist.run usizeMax candidates.length
    (candidateDependencies candidates (indexStarts candidates).1 (indexStarts candidates).2))).filter
      Prod.snd).map Prod.fst

theorem admitRetentionBridges_eq (candidates : List RetentionBridgeCandidate) :
    admitRetentionBridges candidates
      = (admitted candidates).map RetentionBridgeCandidate.bridge := by
  simp only [admitRetentionBridges, admitted, map_map]
  rfl

section Unique

variable {c : RetentionBridgeCandidate} {candidates : List RetentionBridgeCandidate}

theorem uniqueStart_iff_filter (hc : c ∈ candidates) :
    UniqueStart candidates c ↔
      candidates.filter (fun d => d.bridge.start = c.bridge.start) = [c] := by
  have hmem : c ∈ candidates.filter (fun d => d.bridge.start = c.bridge.start) :=
    mem_filter.mpr ⟨hc, decide_eq_true rfl⟩
  rw [UniqueStart, countP_eq_length_filter]
  constructor
  · intro h
    rcases length_eq_one_iff.mp h with ⟨d, hd⟩
    rw [hd] at hmem ⊢
    rw [mem_singleton.mp hmem]
  · intro h
    rw [h, length_singleton]

theorem edge_eq_some {a b : Option String} :
    edge candidates a = some (c, b) ↔
      c ∈ candidates ∧ UniqueStart candidates c ∧ c.bridge.start = a
        ∧ b = some c.bridge.endHash := by
  constructor
  · intro h
    unfold edge at h
    split at h
    · rename_i d hd
      rw [Option.some.injEq, Prod.mk.injEq] at h
      rcases h with ⟨hdc, hb⟩
      subst hdc
      rcases mem_filter.mp (hd ▸ mem_singleton_self d) with ⟨hmem, hstart⟩
      have hstart : d.bridge.start = a := of_decide_eq_true hstart
      exact ⟨hmem, (uniqueStart_iff_filter hmem).mpr (by rw [hstart]; exact hd), hstart, hb.symm⟩
    · cases h
  · grind [edge, uniqueStart_iff_filter]

theorem uniqueStart_inj {d : RetentionBridgeCandidate} (hc : c ∈ candidates) (hd : d ∈ candidates)
    (hu : UniqueStart candidates c) (h : d.bridge.start = c.bridge.start) : d = c := by
  have hmem : d ∈ candidates.filter (fun e => e.bridge.start = c.bridge.start) :=
    mem_filter.mpr ⟨hd, decide_eq_true h⟩
  rw [(uniqueStart_iff_filter hc).mp hu] at hmem
  exact mem_singleton.mp hmem

theorem uniqueStart_of_nodup (hnd : (candidates.map (fun c => c.bridge.start)).Nodup) :
    ∀ c ∈ candidates, UniqueStart candidates c := by
  intro c hc
  have hcount := count_eq_one_of_mem hnd (mem_map_of_mem hc)
  rw [List.count, countP_map] at hcount
  rw [UniqueStart, ← hcount]
  exact countP_congr (fun d _ => by simp only [decide_eq_true_eq, Function.comp_apply, beq_iff_eq])

def SharedAt (candidates : List RetentionBridgeCandidate) (i : Nat) : Prop :=
  ∃ c, candidates[i]? = some c ∧
    ∃ j d, j ≠ i ∧ candidates[j]? = some d ∧ d.bridge.start = c.bridge.start

theorem uniqueStart_iff_not_sharedAt {i : Nat} (hi : candidates[i]? = some c) :
    UniqueStart candidates c ↔ ¬ SharedAt candidates i := by
  rcases List.getElem?_eq_some_iff.mp hi with ⟨hlt, hget⟩
  have hsplit : candidates = candidates.take i ++ c :: candidates.drop (i + 1) := by
    rw [← hget, List.getElem_cons_drop, List.take_append_drop]
  -- The start is counted once at position `i`, and nowhere before or after it.
  have hcount : candidates.countP (fun d => d.bridge.start = c.bridge.start)
      = (candidates.take i).countP (fun d => d.bridge.start = c.bridge.start)
        + (candidates.drop (i + 1)).countP (fun d => d.bridge.start = c.bridge.start) + 1 := by
    grind
  have hother : (∀ d ∈ candidates.take i ++ candidates.drop (i + 1),
      d.bridge.start ≠ c.bridge.start) ↔ ¬ SharedAt candidates i := by
    constructor
    · rintro h ⟨c', hc', j, d, hji, hj, hstart⟩
      rw [hi, Option.some.injEq] at hc'
      rcases List.getElem?_eq_some_iff.mp hj with ⟨hjlt, hjget⟩
      refine h d (List.mem_append.mpr ?_) (hc' ▸ hstart)
      rcases Nat.lt_or_gt_of_ne hji with hlt' | hgt
      · exact Or.inl (List.mem_take_iff_getElem.mpr ⟨j, by omega, hjget⟩)
      · refine Or.inr (List.mem_drop_iff_getElem.mpr ⟨j - (i + 1), by omega, ?_⟩)
        simpa only [show i + 1 + (j - (i + 1)) = j by omega] using hjget
    · intro h d hd hstart
      rcases List.mem_append.mp hd with hd | hd
      · rcases List.mem_take_iff_getElem.mp hd with ⟨j, hj, hjget⟩
        exact h ⟨c, hi, j, d, by omega, by rw [List.getElem?_eq_getElem (by omega), hjget], hstart⟩
      · rcases List.mem_drop_iff_getElem.mp hd with ⟨j, hj, hjget⟩
        exact h ⟨c, hi, i + 1 + j, d, by omega, by
          rw [List.getElem?_eq_getElem (by omega), hjget], hstart⟩
  rw [← hother, UniqueStart, hcount]
  simp only [Nat.add_eq_right, Nat.add_eq_zero_iff, List.countP_eq_zero, decide_eq_true_eq,
    List.mem_append, or_imp, forall_and, ne_eq]

theorem uniqueStart_index {i j : Nat} {d : RetentionBridgeCandidate} (hi : candidates[i]? = some c)
    (hj : candidates[j]? = some d) (hu : UniqueStart candidates c)
    (h : d.bridge.start = c.bridge.start) : j = i := by
  by_contra hne
  exact (uniqueStart_iff_not_sharedAt hi).mp hu ⟨c, hi, j, d, hne, hj, h⟩

end Unique

section Starts

theorem getElem?_snoc {α : Type*} (l : List α) (x y : α) (j : Nat) :
    (l ++ [x])[j]? = some y ↔ l[j]? = some y ∨ (j = l.length ∧ y = x) := by
  rcases Nat.lt_trichotomy j l.length with hlt | heq | hgt
  · rw [getElem?_append_left hlt]
    simp only [Nat.ne_of_lt hlt, false_and, or_false]
  · grind
  · grind

/-- What the first pass holds after the candidates in `seen`: a flag for every
    shared start, and the last position of each start. -/
structure Entered (n : Nat) (seen : List RetentionBridgeCandidate)
    (acc : List Bool × StartIndex) : Prop where
  length : acc.1.length = n
  shared : ∀ i, acc.1.getD i false = true ↔ SharedAt seen i
  held : ∀ a i, acc.2.lookup a = some i → ∃ c, seen[i]? = some c ∧ c.bridge.start = a
  present : ∀ (j : Nat) (d : RetentionBridgeCandidate), seen[j]? = some d →
    ∃ i, acc.2.lookup d.bridge.start = some i

/-- The index and the marks after one more candidate. -/
theorem entered_step (n : Nat) (seen : List RetentionBridgeCandidate)
    (acc : List Bool × StartIndex) (c : RetentionBridgeCandidate) (h : Entered n seen acc)
    (hn : seen.length < n) : Entered n (seen ++ [c]) (enterStart acc (c, seen.length)) := by
  have hold : ∀ {i d}, seen[i]? = some d → (seen ++ [c])[i]? = some d :=
    fun hd => (getElem?_snoc _ _ _ _).mpr (Or.inl hd)
  have hnew : (seen ++ [c])[seen.length]? = some c :=
    (getElem?_snoc _ _ _ _).mpr (Or.inr ⟨rfl, rfl⟩)
  have hlt : ∀ {i d}, seen[i]? = some d → i < seen.length :=
    fun hd => (List.getElem?_eq_some_iff.mp hd).1
  -- Sharing seen before is still sharing; new sharing involves the new start.
  have hmono : ∀ i, SharedAt seen i → SharedAt (seen ++ [c]) i := by
    rintro i ⟨ci, hci, j, d, hji, hj, hstart⟩
    exact ⟨ci, hold hci, j, d, hji, hold hj, hstart⟩
  have hlookup : ∀ a, (enterStart acc (c, seen.length)).2.lookup a
      = if a = c.bridge.start then some seen.length else acc.2.lookup a := by
    intro a
    by_cases hac : a = c.bridge.start
    · rw [if_pos hac, hac]
      exact AList.lookup_insert _
    · rw [if_neg hac]
      exact AList.lookup_insert_ne hac
  have hheld : ∀ a i, (enterStart acc (c, seen.length)).2.lookup a = some i →
      ∃ d, (seen ++ [c])[i]? = some d ∧ d.bridge.start = a := by
    intro a i hi
    rw [hlookup] at hi
    by_cases hac : a = c.bridge.start
    · rw [if_pos hac, Option.some.injEq] at hi
      exact ⟨c, hi ▸ hnew, hac.symm⟩
    · rw [if_neg hac] at hi
      rcases h.held a i hi with ⟨d, hd, hstart⟩
      exact ⟨d, hold hd, hstart⟩
  have hpresent : ∀ (j : Nat) (d : RetentionBridgeCandidate), (seen ++ [c])[j]? = some d →
      ∃ i, (enterStart acc (c, seen.length)).2.lookup d.bridge.start = some i := by
    intro j d hd
    rw [hlookup]
    by_cases hdc : d.bridge.start = c.bridge.start
    · exact ⟨seen.length, if_pos hdc⟩
    · rw [if_neg hdc]
      rcases (getElem?_snoc _ _ _ _).mp hd with hd | ⟨-, hd⟩
      · exact h.present j d hd
      · exact absurd (by rw [hd]) hdc
  cases hp : acc.2.lookup c.bridge.start with
  | none =>
    have hflags : (enterStart acc (c, seen.length)).1 = acc.1 := by
      simp only [enterStart, hp]
    refine ⟨hflags ▸ h.length, fun i => ?_, hheld, hpresent⟩
    rw [hflags, h.shared i]
    refine ⟨hmono i, ?_⟩
    -- Nobody seen has the new start, so the new candidate shares with nobody.
    have hfresh : ∀ {j : Nat} {d : RetentionBridgeCandidate}, seen[j]? = some d →
        d.bridge.start ≠ c.bridge.start := by
      intro j d hd hstart
      rcases h.present j d hd with ⟨i, hi⟩
      rw [hstart, hp] at hi
      cases hi
    rintro ⟨ci, hci, j, d, hji, hj, hstart⟩
    rcases (getElem?_snoc _ _ _ _).mp hci with hci | ⟨hik, hci⟩
    · rcases (getElem?_snoc _ _ _ _).mp hj with hj | ⟨-, hj⟩
      · exact ⟨ci, hci, j, d, hji, hj, hstart⟩
      · exact absurd (by rw [← hstart, hj]) (hfresh hci)
    · grind
  | some p =>
    rcases h.held _ p hp with ⟨dp, hdp, hdpstart⟩
    have hflags : (enterStart acc (c, seen.length)).1
        = (acc.1.set p true).set seen.length true := by
      simp only [enterStart, hp]
    have hpn : p < acc.1.length := by
      rw [h.length]
      exact (hlt hdp).trans hn
    have hget : ∀ i, (enterStart acc (c, seen.length)).1.getD i false = true ↔
        i = seen.length ∨ i = p ∨ SharedAt seen i := by
      intro i
      rw [hflags]
      have hset := Worklist.admitted_set (acc.1.set p true) seen.length i
        (by rw [length_set, h.length]; exact hn)
      have hset' := Worklist.admitted_set acc.1 p i hpn
      unfold Worklist.Admitted at hset hset'
      rw [hset, hset', h.shared i]
    refine ⟨?_, fun i => ?_, hheld, hpresent⟩
    · rw [hflags, length_set, length_set, h.length]
    rw [hget i]
    constructor
    · rintro (hi | hi | hi)
      · exact ⟨c, hi ▸ hnew, p, dp, by have := hlt hdp; omega, hold hdp, hdpstart⟩
      · exact ⟨dp, hi ▸ hold hdp, seen.length, c, by have := hlt hdp; omega, hnew,
          hdpstart.symm⟩
      · exact hmono i hi
    · rintro ⟨ci, hci, j, d, hji, hj, hstart⟩
      rcases (getElem?_snoc _ _ _ _).mp hci with hci | ⟨hik, -⟩
      · rcases (getElem?_snoc _ _ _ _).mp hj with hj | ⟨-, hj⟩
        · exact Or.inr (Or.inr ⟨ci, hci, j, d, hji, hj, hstart⟩)
        · -- The new candidate shares with `i`, and so did `p`.
          by_cases hip : i = p
          · exact Or.inr (Or.inl hip)
          · exact Or.inr (Or.inr ⟨ci, hci, p, dp, Ne.symm hip, hdp, by
              rw [hdpstart, ← hstart, hj]⟩)
      · exact Or.inl hik

theorem entered_all (candidates : List RetentionBridgeCandidate) :
    Entered candidates.length candidates
      (candidates.zipIdx.foldl enterStart (List.replicate candidates.length false, ∅)) := by
  have key : ∀ seen : List RetentionBridgeCandidate, seen.length ≤ candidates.length →
      Entered candidates.length seen
        (seen.zipIdx.foldl enterStart (List.replicate candidates.length false, ∅)) := by
    intro seen
    induction seen using List.reverseRecOn with
    | nil =>
      intro _
      refine ⟨length_replicate, fun i => ?_, fun a i hi => ?_, fun j d hd => ?_⟩
      · rw [zipIdx_nil, foldl_nil, getD_eq_getElem?_getD, getElem?_replicate]
        constructor
        · intro h
          split at h <;> exact absurd h (by decide)
        · rintro ⟨c, hc, -⟩
          cases hc
      · cases hi
      · cases hd
    | append_singleton seen c ih => grind [entered_step]
  exact key candidates le_rfl

theorem lookup_dropDuplicates (flags : List Bool)
    (entries : List (RetentionBridgeCandidate × Nat)) (index : StartIndex) (a : Option String) :
    (entries.foldl (dropDuplicate flags) index).lookup a
      = if entries.any (fun e => flags.getD e.2 false && decide (e.1.bridge.start = a)) then none
        else index.lookup a := by
  induction entries generalizing index with
  | nil => rfl
  | cons e entries ih =>
    rw [foldl_cons, ih, any_cons]
    unfold dropDuplicate
    by_cases hf : flags.getD e.2 false = true
    · by_cases hea : e.1.bridge.start = a
      · subst hea
        simp only [hf, if_true, AList.lookup_erase, ite_self, decide_true, Bool.and_self,
          Bool.true_or]
      · simp only [hf, if_true, AList.lookup_erase_ne (Ne.symm hea), hea, decide_false,
          Bool.and_false, Bool.false_or]
    · simp only [hf, Bool.false_eq_true, if_false, Bool.false_and, Bool.false_or]

variable (candidates : List RetentionBridgeCandidate)

theorem indexStarts_shared (i : Nat) :
    (indexStarts candidates).1.getD i false = true ↔ SharedAt candidates i :=
  (entered_all candidates).shared i

theorem indexStarts_lookup (a : Option String) (i : Nat) :
    (indexStarts candidates).2.lookup a = some i ↔
      ∃ c, candidates[i]? = some c ∧ c.bridge.start = a ∧ UniqueStart candidates c := by
  have hent := entered_all candidates
  have hdrop := lookup_dropDuplicates (indexStarts candidates).1 candidates.zipIdx
    (candidates.zipIdx.foldl enterStart (List.replicate candidates.length false, ∅)).2 a
  -- A start is dropped exactly when some candidate with it shares it.
  have hany : (candidates.zipIdx.any (fun e => (indexStarts candidates).1.getD e.2 false
      && decide (e.1.bridge.start = a))) = true ↔
      ∃ j d, candidates[j]? = some d ∧ SharedAt candidates j ∧ d.bridge.start = a := by
    simp only [any_eq_true, Bool.and_eq_true, decide_eq_true_eq, indexStarts_shared,
      Prod.exists, mem_zipIdx_iff_getElem?]
    exact ⟨fun ⟨d, j, hd, hs, hst⟩ => ⟨j, d, hd, hs, hst⟩,
      fun ⟨j, d, hd, hs, hst⟩ => ⟨d, j, hd, hs, hst⟩⟩
  have hlook : (indexStarts candidates).2.lookup a = _ := hdrop
  rw [hlook]
  constructor
  · intro h
    split at h
    · cases h
    · rename_i hno
      rw [hany] at hno
      rcases hent.held a i h with ⟨c, hc, hstart⟩
      exact ⟨c, hc, hstart, (uniqueStart_iff_not_sharedAt hc).mpr
        (fun hs => hno ⟨i, c, hc, hs, hstart⟩)⟩
  · rintro ⟨c, hc, hstart, hu⟩
    have hno : ¬ ∃ j d, candidates[j]? = some d ∧ SharedAt candidates j ∧ d.bridge.start = a := by
      grind [uniqueStart_index, uniqueStart_iff_not_sharedAt]
    rw [if_neg (fun h => hno (hany.mp h))]
    rcases hent.present i c hc with ⟨i', hi'⟩
    rcases hent.held _ i' hi' with ⟨c', hc', hstart'⟩
    rw [← hstart, hi', uniqueStart_index hc hc' hu hstart']

end Starts

section Trace

variable (candidates : List RetentionBridgeCandidate)

/-- The graph the code follows, its edges labelled by position. -/
def edgeAt (a : Option String) : Option (Nat × Option String) :=
  ((indexStarts candidates).2.lookup a).map
    (fun i => (i, (candidates[i]?).map (fun c => c.bridge.endHash)))

theorem edgeAt_eq_some {a b : Option String} {i : Nat} :
    edgeAt candidates a = some (i, b) ↔
      ∃ c, candidates[i]? = some c ∧ edge candidates a = some (c, b) := by
  unfold edgeAt
  rw [Option.map_eq_some_iff]
  simp only [indexStarts_lookup, Prod.mk.injEq, edge_eq_some]
  constructor
  · grind
  · rintro ⟨c, hc, -, hu, hstart, hb⟩
    exact ⟨i, ⟨c, hc, hstart, hu⟩, rfl, by rw [hc, hb, Option.map_some]⟩

theorem edgeAt_source (x x' : Option String) (i : Nat) (y y' : Option String)
    (h : edgeAt candidates x = some (i, y)) (h' : edgeAt candidates x' = some (i, y')) :
    x = x' := by
  rcases (edgeAt_eq_some candidates).mp h with ⟨c, hc, hedge⟩
  rcases (edgeAt_eq_some candidates).mp h' with ⟨c', hc', hedge'⟩
  rw [hc, Option.some.injEq] at hc'
  subst hc'
  exact (edge_eq_some.mp hedge).2.2.1.symm.trans (edge_eq_some.mp hedge').2.2.1

variable (index : Nat) (target : Option String)

theorem traceDependencies_sound :
    ∀ (hops : Nat) (cursor : Option String) (seen deps ds : List Nat), cursor ≠ target →
      traceDependencies candidates (indexStarts candidates).2 index target hops cursor seen deps
        = some ds →
      ∃ is, FirstPath (edgeAt candidates) target cursor is ∧
        ds = deps ++ is.filter (fun i => i ≠ index) := by
  intro hops
  induction hops with
  | zero =>
    intro cursor seen deps ds _ h
    cases h
  | succ hops ih =>
    intro cursor seen deps ds hne h
    rw [traceDependencies] at h
    cases hlook : (indexStarts candidates).2.lookup cursor with
    | none =>
      rw [hlook] at h
      cases h
    | some next =>
      have hedge : edgeAt candidates cursor
          = some (next, (candidates[next]?).map (fun c => c.bridge.endHash)) := by
        rw [edgeAt, hlook, Option.map_some]
      rw [hlook] at h
      dsimp only at h
      split at h
      · cases h
      have hdeps : (if next ≠ index then deps ++ [next] else deps)
          = deps ++ [next].filter (fun i => i ≠ index) := by grind
      rw [hdeps] at h
      split at h
      · rename_i hend
        refine ⟨[next], FirstPath.step hne hedge (hend ▸ FirstPath.here), ?_⟩
        exact (Option.some.inj h).symm
      · rename_i hend
        rcases ih _ _ _ ds hend h with ⟨is, hpath, hds⟩
        refine ⟨next :: is, FirstPath.step hne hedge hpath, ?_⟩
        rw [hds, append_assoc, ← filter_append, singleton_append]

theorem traceDependencies_complete (cursor : Option String) (is : List Nat)
    (h : FirstPath (edgeAt candidates) target cursor is) (hne : cursor ≠ target) :
    ∀ (hops : Nat) (seen deps : List Nat), is.length ≤ hops → is.Nodup →
      (∀ i ∈ is, i ∉ seen) →
      traceDependencies candidates (indexStarts candidates).2 index target hops cursor seen deps
        = some (deps ++ is.filter (fun i => i ≠ index)) := by
  induction h with
  | here => exact absurd rfl hne
  | @step a b next is _ hedge hrest ih =>
    intro hops seen deps hlen hnd hseen
    cases hops with
    | zero => exact absurd hlen (Nat.not_succ_le_zero _)
    | succ hops =>
      rcases Option.map_eq_some_iff.mp hedge with ⟨next', hlook, hnext⟩
      rw [Prod.mk.injEq] at hnext
      rcases hnext with ⟨hnn, hb⟩
      subst hnn
      rcases nodup_cons.mp hnd with ⟨hfresh, hnd'⟩
      have hdeps : (if next' ≠ index then deps ++ [next'] else deps)
          ++ is.filter (fun i => i ≠ index)
          = deps ++ (next' :: is).filter (fun i => i ≠ index) := by grind
      rw [traceDependencies, hlook, ← hdeps]
      simp only [hseen next' mem_cons_self, if_false, hb]
      by_cases hend : b = target
      · cases hrest with
        | here => simp only [if_true, filter_nil, append_nil]
        | step hne' _ _ => exact absurd hend hne'
      · grind

/-- A candidate waits for the bridges on the path of its own link. -/
theorem candidateDependencies_eq_some (i : Nat) (ds : List Nat) :
    candidateDependencies candidates (indexStarts candidates).1 (indexStarts candidates).2 i
        = some ds ↔
      ∃ c, candidates[i]? = some c ∧ UniqueStart candidates c ∧
        ∃ is, FirstPath (edgeAt candidates) c.markerPrev c.expectedPrev is ∧
          ds = is.filter (fun j => j ≠ i) := by
  cases hc : candidates[i]? with
  | none => simp only [candidateDependencies, hc, ite_self, reduceCtorEq, false_and, exists_false]
  | some c =>
    have hflag := indexStarts_shared candidates i
    simp only [Option.some.injEq, exists_eq_left']
    by_cases hs : SharedAt candidates i
    · have hu := mt (uniqueStart_iff_not_sharedAt hc).mp (not_not.mpr hs)
      simp only [candidateDependencies, hflag.mpr hs, if_true, reduceCtorEq, hu, false_and]
    · have hu := (uniqueStart_iff_not_sharedAt hc).mpr hs
      have hnoflag : ¬ (indexStarts candidates).1.getD i false = true := mt hflag.mp hs
      simp only [candidateDependencies, hnoflag, Bool.false_eq_true, if_false, hc, hu, true_and]
      by_cases hlink : c.expectedPrev = c.markerPrev
      · rw [if_pos hlink, Option.some.injEq, hlink]
        constructor
        · intro hds
          exact ⟨[], FirstPath.here, hds.symm⟩
        · rintro ⟨is, hpath, hds⟩
          rw [hds, firstPath_unique hpath FirstPath.here, filter_nil]
      · rw [if_neg hlink]
        constructor
        · intro h
          rcases traceDependencies_sound candidates i c.markerPrev _ _ _ _ ds hlink h with
            ⟨is, hpath, hds⟩
          exact ⟨is, hpath, by rw [hds, nil_append]⟩
        · rintro ⟨is, hpath, hds⟩
          have hlen := firstPath_length_le ((indexStarts candidates).2.entries.map Sigma.snd)
            (edgeAt_source candidates) (fun x j y hxy => by
              rcases Option.map_eq_some_iff.mp hxy with ⟨j', hlook, hj'⟩
              rw [Prod.mk.injEq] at hj'
              rw [← hj'.1]
              exact mem_map.mpr ⟨⟨x, j'⟩, AList.mem_lookup_iff.mp hlook, rfl⟩) hpath
          rw [traceDependencies_complete candidates i c.markerPrev _ is hpath hlink _ [] []
            (hlen.trans (le_of_eq (by simp only [AList.keys, List.keys, length_map])))
            (firstPath_nodup (edgeAt_source candidates) hpath)
            (fun _ _ => not_mem_nil), hds, nil_append]

end Trace

section Admitted

variable (candidates : List RetentionBridgeCandidate)

theorem firstPath_edge_of_edgeAt {target cursor : Option String} {is : List Nat}
    (h : FirstPath (edgeAt candidates) target cursor is) :
    ∃ es, FirstPath (edge candidates) target cursor es ∧
      List.Forall₂ (fun i c => candidates[i]? = some c) is es :=
  firstPath_simulate _ (fun x i y _ hxy => by
    rcases (edgeAt_eq_some candidates).mp hxy with ⟨c, hc, hedge⟩
    exact ⟨c, hedge, hc⟩) h

theorem firstPath_edgeAt_of_edge {target cursor : Option String}
    {es : List RetentionBridgeCandidate} (h : FirstPath (edge candidates) target cursor es) :
    ∃ is, FirstPath (edgeAt candidates) target cursor is ∧
      List.Forall₂ (fun c i => candidates[i]? = some c) es is :=
  firstPath_simulate _ (fun x c y _ hxy => by
    rcases mem_iff_getElem?.mp (edge_eq_some.mp hxy).1 with ⟨i, hi⟩
    exact ⟨i, (edgeAt_eq_some candidates).mpr ⟨c, hi, hxy⟩, hi⟩) h

theorem forall₂_mem_left {α β : Type*} {R : α → β → Prop} {l : List α} {m : List β}
    (h : List.Forall₂ R l m) : ∀ a ∈ l, ∃ b ∈ m, R a b := by
  induction h with
  | nil => exact nofun
  | cons hR _ ih => grind

theorem candidateDependencies_wellFormed :
    Worklist.WellFormed candidates.length
      (candidateDependencies candidates (indexStarts candidates).1 (indexStarts candidates).2) := by
  intro i ds _ hds
  rcases (candidateDependencies_eq_some candidates i ds).mp hds with ⟨c, -, -, is, hpath, hfilter⟩
  rw [hfilter]
  refine ⟨(firstPath_nodup (edgeAt_source candidates) hpath).filter _, fun d hd => ?_⟩
  rcases firstPath_edge hpath d (mem_of_mem_filter hd) with ⟨x, y, hxy⟩
  rcases (edgeAt_eq_some candidates).mp hxy with ⟨e, he, -⟩
  exact (List.getElem?_eq_some_iff.mp he).1

/-- The worklist reaches a candidate exactly when its link is justified. -/
theorem derivable_iff_justified (i : Nat) (c : RetentionBridgeCandidate)
    (hi : candidates[i]? = some c) :
    Worklist.Derivable (candidateDependencies candidates (indexStarts candidates).1
      (indexStarts candidates).2) i ↔ Justified candidates c := by
  constructor
  · intro h
    induction h generalizing c with
    | intro i ds hds _ ih =>
      rcases (candidateDependencies_eq_some candidates i ds).mp hds with
        ⟨c', hc', hu, is, hpath, hfilter⟩
      rw [hi, Option.some.injEq] at hc'
      subst hc'
      rcases firstPath_edge_of_edgeAt candidates hpath with ⟨es, hes, hrel⟩
      refine Justified.intro c (mem_of_getElem? hi) hu es hes (fun d hd hdc => ?_)
      rcases forall₂_mem_left hrel.flip d hd with ⟨j, hj, hjd⟩
      have hji : j ≠ i := by grind
      refine ih j ?_ d hjd
      rw [hfilter]
      exact mem_filter.mpr ⟨hj, decide_eq_true hji⟩
  · intro h
    induction h generalizing i with
    | intro c _ hu es hpath _ ih =>
      rcases firstPath_edgeAt_of_edge candidates hpath with ⟨is, his, hrel⟩
      refine Worklist.Derivable.intro i (is.filter (fun j => j ≠ i))
        ((candidateDependencies_eq_some candidates i _).mpr ⟨c, hi, hu, is, his, rfl⟩)
        (fun j hj => ?_)
      rcases mem_filter.mp hj with ⟨hjis, hji⟩
      have hji : j ≠ i := of_decide_eq_true hji
      rcases forall₂_mem_left hrel.flip j hjis with ⟨d, hd, hdj⟩
      refine ih d hd (fun hdc => hji ?_) j hdj
      exact uniqueStart_index hi hdj hu (by rw [hdc])

theorem map_fst_filter_zip {α : Type*} (l : List α) (flags : List Bool) (p : α → Bool)
    (hlen : flags.length = l.length)
    (h : ∀ (i : Nat) (x : α), l[i]? = some x → flags.getD i false = p x) :
    ((l.zip flags).filter Prod.snd).map Prod.fst = l.filter p := by
  induction l generalizing flags with
  | nil => rfl
  | cons x l ih =>
    cases flags with
    | nil => exact absurd hlen (by simp only [length_nil, length_cons,
        Nat.zero_ne_add_one, not_false_eq_true])
    | cons b flags =>
      have hb : b = p x := h 0 x rfl
      have hrest := ih flags (Nat.succ.inj hlen) (fun i y hy => h (i + 1) y hy)
      rw [zip_cons_cons, filter_cons, filter_cons, ← hb, ← hrest]
      cases b <;> rfl

open Classical in
theorem admitted_eq_filter :
    admitted candidates = candidates.filter (fun c => decide (Justified candidates c)) := by
  refine map_fst_filter_zip candidates _ _ (Worklist.run_length _ _ _) (fun i c hi => ?_)
  rw [Bool.eq_iff_iff, decide_eq_true_eq, ← derivable_iff_justified candidates i c hi]
  exact Worklist.run_spec usizeMax candidates.length _ (candidateDependencies_wellFormed candidates)
    (by decide) i (List.getElem?_eq_some_iff.mp hi).1

open Classical in
theorem mem_admitted (c : RetentionBridgeCandidate) :
    c ∈ admitted candidates ↔ Justified candidates c := by
  rw [admitted_eq_filter, mem_filter, decide_eq_true_eq]
  refine and_iff_right_of_imp (fun h => ?_)
  cases h with
  | intro _ hc => exact hc

end Admitted

section Rule

variable {candidates' : List RetentionBridgeCandidate} (candidates : List RetentionBridgeCandidate)
  (S : Finset RetentionBridgeCandidate)

/-- The bridges of a set of candidates with starts of their own, and the
    bridge of one more, are the edges of those candidates. -/
theorem hop_bridgesOf (hS : ∀ d ∈ S, UniqueStart candidates d)
    (own : Option RetentionBridgeCandidate)
    (hown : ∀ c ∈ own, c ∈ candidates ∧ UniqueStart candidates c) (a y : Option String)
    (b : RetentionBridge) :
    hop (bridgeIndexOf (bridgesOf candidates S)) (own.map RetentionBridgeCandidate.bridge) a
        = some (b, y) ↔
      ∃ d, edge candidates a = some (d, y) ∧ d.bridge = b ∧ (d ∈ own ∨ d ∈ S) := by
  have hmem : ∀ b', b' ∈ bridgesOf candidates S ↔ ∃ d ∈ candidates, d ∈ S ∧ d.bridge = b' := by
    intro b'
    simp only [bridgesOf, mem_map, mem_filter, decide_eq_true_eq, and_assoc]
  -- Whatever the index holds for a start comes from the candidate with it.
  have hsame : ∀ d ∈ candidates, UniqueStart candidates d → ∀ b' ∈ bridgesOf candidates S,
      b'.start = d.bridge.start → b' = d.bridge := by grind [uniqueStart_inj]
  constructor
  · intro h
    rcases Option.map_eq_some_iff.mp h with ⟨b', hnext, hb'⟩
    rw [Prod.mk.injEq] at hb'
    rcases hb' with ⟨hbb, hy⟩
    subst hbb
    rcases Option.or_eq_some_iff.mp hnext with hlook | ⟨-, hfall⟩
    · rcases lookup_bridgeIndexOf_mem _ _ _ hlook with ⟨hb', hstart⟩
      rcases (hmem b').mp hb' with ⟨d, hd, hdS, hdb⟩
      subst hdb
      exact ⟨d, edge_eq_some.mpr ⟨hd, hS d hdS, hstart, hy.symm⟩, rfl, Or.inr hdS⟩
    · rcases Option.filter_eq_some_iff.mp hfall with ⟨hcb, hstart⟩
      rcases Option.map_eq_some_iff.mp hcb with ⟨c, hc, hcb⟩
      subst hcb
      rcases hown c hc with ⟨hcm, hcu⟩
      exact ⟨c, edge_eq_some.mpr ⟨hcm, hcu, of_decide_eq_true hstart, hy.symm⟩, rfl, Or.inl hc⟩
  · rintro ⟨d, hedge, hdb, hdS⟩
    rcases edge_eq_some.mp hedge with ⟨hd, hdu, hstart, hy⟩
    subst hdb hstart
    have hnext : nextBridge (bridgeIndexOf (bridgesOf candidates S))
        (own.map RetentionBridgeCandidate.bridge) d.bridge.start = some d.bridge := by
      unfold nextBridge
      cases hlook : (bridgeIndexOf (bridgesOf candidates S)).lookup d.bridge.start with
      | some b' =>
        rcases lookup_bridgeIndexOf_mem _ _ _ hlook with ⟨hb', hbstart⟩
        rw [hsame d hd hdu b' hb' hbstart, Option.some_or]
      | none =>
        rcases hdS with hdc | hdS
        · rw [Option.mem_def] at hdc
          simp [hdc]
        · have hfound := lookup_bridgeIndexOf_of_unique (bridgesOf candidates S) d.bridge
            ((hmem _).mpr ⟨d, hd, hdS, rfl⟩) (hsame d hd hdu)
          rw [hlook] at hfound
          cases hfound
    rw [hop, hnext, Option.map_some, hy]

theorem reaches_bridgesOf (hS : ∀ d ∈ S, UniqueStart candidates d)
    (own : Option RetentionBridgeCandidate)
    (hown : ∀ c ∈ own, c ∈ candidates ∧ UniqueStart candidates c) (start target : Option String) :
    markerBridgeReaches start target (bridgeIndexOf (bridgesOf candidates S))
        (own.map RetentionBridgeCandidate.bridge) = true ↔
      ∃ es, FirstPath (edge candidates) target start es ∧ ∀ d ∈ es, d ∈ own ∨ d ∈ S := by
  have hhop := hop_bridgesOf candidates S hS own hown
  rw [markerBridgeReaches_iff _ _ _ _ (indexedByStart_bridgeIndexOf _)]
  constructor
  · rintro ⟨bs, hpath⟩
    rcases firstPath_simulate (fun _ d => d ∈ own ∨ d ∈ S) (fun x b y _ hxy => by
      rcases (hhop x y b).mp hxy with ⟨d, hedge, -, hdS⟩
      exact ⟨d, hedge, hdS⟩) hpath with ⟨es, hes, hrel⟩
    refine ⟨es, hes, fun d hd => ?_⟩
    rcases forall₂_mem_left hrel.flip d hd with ⟨b, -, hdS⟩
    exact hdS
  · rintro ⟨es, hpath, hes⟩
    rcases firstPath_simulate (fun d b => d.bridge = b) (fun x d y hd hxy =>
      ⟨d.bridge, (hhop x y d.bridge).mpr ⟨d, hxy, rfl, hes d hd⟩, rfl⟩) hpath with ⟨bs, hbs, -⟩
    exact ⟨bs, hbs⟩

theorem mem_admissionStep (hS : ∀ d ∈ S, UniqueStart candidates d) (c : RetentionBridgeCandidate) :
    c ∈ admissionStep candidates S ↔ c ∈ candidates ∧ UniqueStart candidates c ∧
      ∃ es, FirstPath (edge candidates) c.markerPrev c.expectedPrev es ∧
        ∀ d ∈ es, d = c ∨ d ∈ S := by
  rw [admissionStep, Finset.mem_filter, mem_toFinset]
  refine and_congr_right (fun hc => and_congr_right (fun hu => ?_))
  have hreach := reaches_bridgesOf candidates S hS (some c)
    (fun d hd => Option.some.inj hd ▸ ⟨hc, hu⟩) c.expectedPrev c.markerPrev
  simp only [Option.mem_some_iff, eq_comm] at hreach ⊢
  exact hreach

theorem justified_uniqueStart {c : RetentionBridgeCandidate} (h : Justified candidates c) :
    UniqueStart candidates c := by
  cases h with
  | intro _ _ hu => exact hu

theorem admissionStep_admitted :
    admissionStep candidates (admitted candidates).toFinset = (admitted candidates).toFinset := by
  ext c
  rw [mem_admissionStep candidates _ (fun d hd => justified_uniqueStart candidates
    ((mem_admitted candidates d).mp (mem_toFinset.mp hd))), mem_toFinset, mem_admitted]
  constructor
  · rintro ⟨hc, hu, es, hpath, hes⟩
    refine Justified.intro c hc hu es hpath (fun d hd hdc => ?_)
    rcases hes d hd with hdc' | hdA
    · exact absurd hdc' hdc
    · exact (mem_admitted candidates d).mp (mem_toFinset.mp hdA)
  · intro h
    cases h with
    | intro _ hc hu es hpath hes =>
      refine ⟨hc, hu, es, hpath, fun d hd => ?_⟩
      by_cases hdc : d = c
      · exact Or.inl hdc
      · exact Or.inr (mem_toFinset.mpr ((mem_admitted candidates d).mpr (hes d hd hdc)))

theorem justified_mem_fixed_point (hS : admissionStep candidates S = S)
    (c : RetentionBridgeCandidate)
    (h : Justified candidates c) : c ∈ S := by
  have hunique : ∀ d ∈ S, UniqueStart candidates d := by grind [admissionStep]
  induction h with
  | intro c hc hu es hpath _ ih =>
    rw [← hS, mem_admissionStep candidates S hunique]
    refine ⟨hc, hu, es, hpath, fun d hd => ?_⟩
    by_cases hdc : d = c
    · exact Or.inl hdc
    · exact Or.inr (ih d hd hdc)

theorem not_justified_of_unfounded (C : Finset RetentionBridgeCandidate)
    (hC : ∀ S, Disjoint S C → Disjoint (admissionStep candidates S) C)
    (c : RetentionBridgeCandidate) (h : Justified candidates c) : c ∉ C := by
  induction h with
  | intro c hc hu es hpath hes ih =>
    intro hcC
    -- The bridges of the trace, the candidate's own left out, avoid `C`.
    have hdisj : Disjoint (es.toFinset.erase c) C := by
      refine Finset.disjoint_left.mpr (fun d hd => ?_)
      rcases Finset.mem_erase.mp hd with ⟨hdc, hd⟩
      exact ih d (mem_toFinset.mp hd) hdc
    refine Finset.disjoint_left.mp (hC _ hdisj) ?_ hcC
    rw [mem_admissionStep candidates _ (fun d hd => justified_uniqueStart candidates
      (hes d (mem_toFinset.mp (Finset.mem_erase.mp hd).2) (Finset.mem_erase.mp hd).1))]
    refine ⟨hc, hu, es, hpath, fun d hd => ?_⟩
    by_cases hdc : d = c
    · exact Or.inl hdc
    · exact Or.inr (Finset.mem_erase.mpr ⟨hdc, mem_toFinset.mpr hd⟩)

theorem uniqueStart_perm (hperm : candidates'.Perm candidates) (c : RetentionBridgeCandidate) :
    UniqueStart candidates' c ↔ UniqueStart candidates c := by
  rw [UniqueStart, UniqueStart, hperm.countP_eq]

variable {candidates} in
theorem edge_perm (hperm : candidates'.Perm candidates) (a : Option String)
    (d : RetentionBridgeCandidate) (y : Option String) (h : edge candidates a = some (d, y)) :
    edge candidates' a = some (d, y) := by
  rcases edge_eq_some.mp h with ⟨hd, hdu, hrest⟩
  exact edge_eq_some.mpr
    ⟨hperm.mem_iff.mpr hd, (uniqueStart_perm candidates hperm d).mpr hdu, hrest⟩

theorem justified_perm (hperm : candidates'.Perm candidates) {c : RetentionBridgeCandidate}
    (h : Justified candidates c) : Justified candidates' c := by
  induction h with
  | intro c hc hu es hpath _ ih =>
    exact Justified.intro c (hperm.mem_iff.mpr hc) ((uniqueStart_perm candidates hperm c).mpr hu)
      es (firstPath_restrict (fun a d y _ => edge_perm hperm a d y) hpath) ih

theorem admitRetentionBridges_eq_bridgesOf (A : Finset RetentionBridgeCandidate)
    (hA : ∀ c, c ∈ A ↔ Justified candidates c) :
    admitRetentionBridges candidates = bridgesOf candidates A := by
  rw [admitRetentionBridges_eq, admitted_eq_filter, bridgesOf]
  refine congrArg _ (filter_congr (fun c _ => ?_))
  rw [decide_eq_decide, hA c]

/-- The admitted bridges lead along first paths of justified ones. -/
theorem reaches_admitted (start target : Option String) :
    markerBridgeReaches start target (bridgeIndexOf (admitRetentionBridges candidates)) none
        = true ↔
      ∃ es, FirstPath (edge candidates) target start es ∧ ∀ d ∈ es, Justified candidates d := by
  have hA : ∀ c, c ∈ (admitted candidates).toFinset ↔ Justified candidates c :=
    fun c => mem_toFinset.trans (mem_admitted candidates c)
  rw [admitRetentionBridges_eq_bridgesOf candidates _ hA]
  have hreach := reaches_bridgesOf candidates (admitted candidates).toFinset
    (fun d hd => justified_uniqueStart candidates ((hA d).mp hd)) none
    (nofun)
    start target
  simp only [Option.map_none, Option.mem_def, reduceCtorEq, false_or, hA] at hreach
  exact hreach

/-- The code admits the least fixed point of the admission rule and returns
    its bridges in candidate order. Reordering the candidates reorders the
    output and admits the same set, and candidates that only justify one
    another are never in it. -/
theorem admitRetentionBridges_least_fixed_point :
    ∃ A : Finset RetentionBridgeCandidate,
      admissionStep candidates A = A ∧
      (∀ S, admissionStep candidates S = S → A ⊆ S) ∧
      admitRetentionBridges candidates = bridgesOf candidates A ∧
      (∀ candidates', candidates'.Perm candidates →
        admitRetentionBridges candidates' = bridgesOf candidates' A) ∧
      (∀ C : Finset RetentionBridgeCandidate,
        (∀ S, Disjoint S C → Disjoint (admissionStep candidates S) C) → Disjoint A C) := by
  have hA : ∀ c, c ∈ (admitted candidates).toFinset ↔ Justified candidates c :=
    fun c => mem_toFinset.trans (mem_admitted candidates c)
  refine ⟨(admitted candidates).toFinset, admissionStep_admitted candidates,
    fun S hS c hc => justified_mem_fixed_point candidates S hS c ((hA c).mp hc),
    admitRetentionBridges_eq_bridgesOf candidates _ hA, fun candidates' hperm => ?_,
    fun C hC => Finset.disjoint_left.mpr
      (fun c hc => not_justified_of_unfounded candidates C hC c ((hA c).mp hc))⟩
  refine admitRetentionBridges_eq_bridgesOf candidates' _ (fun c => (hA c).trans ?_)
  exact ⟨justified_perm candidates hperm, justified_perm candidates' hperm.symm⟩

end Rule

end Waygate.Audit
