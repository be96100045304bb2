import Mathlib.Data.List.Infix
import Mathlib.Data.List.Nodup
import Mathlib.Data.List.Pairwise
import Waygate.Theory.Graph.FirstPath

/-!
# Linked Ledgers and Attested Segments

A ledger is a list of entries in which each names the key of the one before it. What is
known of entries that are gone is a collection of segments, each a run of consecutive
entries, no two sharing an entry. Read as edges from the key before a segment to the key
at its end, they lead over every gap between surviving entries.

## Main definitions

* `Linked`, `Tiled`, `Gap`

## Theorems

* `linked_nodup`, `exists_gap`, `gap_firstPath`
* `infix_of_linked`: A linked run is consecutive.
-/

namespace Waygate.Ledger

open Reach List

variable {α κ : Type*} (prev : α → Option κ) (key : α → κ)

def cursor (entries : List α) : Option κ :=
  entries.getLast?.map key

@[simp] theorem cursor_nil : cursor key [] = none :=
  rfl

@[simp] theorem cursor_append_singleton (entries : List α) (a : α) :
    cursor key (entries ++ [a]) = some (key a) := by
  rw [cursor, getLast?_concat, Option.map_some]

/-- Each entry names the key of the entry before it. -/
def Linked (entries : List α) : Prop :=
  ∀ before a after, entries = before ++ a :: after → prev a = cursor key before

theorem linked_nil : Linked prev key [] := by simp [Linked]

variable {prev key}

theorem linked_append_singleton {entries : List α} {b : α} :
    Linked prev key (entries ++ [b]) ↔ Linked prev key entries ∧ prev b = cursor key entries := by
  constructor
  · intro h
    refine ⟨fun before a after heq => h before a (after ++ [b]) ?_, h entries b [] rfl⟩
    rw [heq, append_assoc, cons_append]
  · rintro ⟨h, hb⟩ before a after heq
    -- The entry singled out is the new one, or it was there before.
    rcases eq_nil_or_concat after with hnil | ⟨init, c, hafter⟩
    · subst hnil
      rcases append_inj' heq rfl with ⟨hbefore, hab⟩
      rw [← hbefore, ← (List.cons.inj hab).1]
      exact hb
    · rw [hafter, concat_eq_append, ← cons_append, ← append_assoc] at heq
      exact h before a init (append_inj' heq rfl).1

theorem cursor_inj {entries before before' : List α} (hnd : (entries.map key).Nodup)
    (h : before <+: entries) (h' : before' <+: entries)
    (hcur : cursor key before = cursor key before') : before = before' := by
  have hlen : ∀ {l : List α}, l <+: entries → cursor key l
      = if l.length = 0 then none else (entries.map key)[l.length - 1]? := by
    rintro l ⟨rest, hrest⟩
    rcases eq_nil_or_concat l with hnil | ⟨init, a, hl⟩
    · rw [hnil]
      rfl
    · grind [cursor_append_singleton]
  have hle : ∀ {l : List α}, l <+: entries → l.length ≤ (entries.map key).length := by
    intro l hl
    rw [length_map]
    exact hl.length_le
  rw [hlen h, hlen h'] at hcur
  -- Equal keys at two places are one place, so the prefixes are equally long.
  have hlength : before.length = before'.length := by
    have hb := hle h
    have hb' := hle h'
    by_cases h0 : before.length = 0
    · grind
    · by_cases h0' : before'.length = 0
      · rw [if_neg h0, if_pos h0', getElem?_eq_getElem (by omega)] at hcur
        cases hcur
      · rw [if_neg h0, if_neg h0'] at hcur
        have := (getElem?_inj (by omega) hnd).mp hcur
        omega
  rw [prefix_iff_eq_take.mp h, prefix_iff_eq_take.mp h', hlength]

/-- Keys that determine what they follow are distinct. -/
theorem linked_nodup {entries : List α} (h : Linked prev key entries)
    (hprev : ∀ a ∈ entries, ∀ b ∈ entries, key a = key b → prev a = prev b) :
    (entries.map key).Nodup := by
  induction entries using List.reverseRecOn with
  | nil => exact nodup_nil
  | append_singleton entries b ih =>
    rcases linked_append_singleton.mp h with ⟨hinit, hb⟩
    have hnd := ih hinit (fun a ha c hc => hprev a (mem_append_left _ ha) c
      (mem_append_left _ hc))
    rw [map_append, map_singleton]
    refine nodup_append.mpr ⟨hnd, nodup_singleton _, fun k hmem k' hk' hkk' => ?_⟩
    rw [hkk', mem_singleton.mp hk'] at hmem
    rcases mem_map.mp hmem with ⟨a, ha, hab⟩
    rcases append_of_mem ha with ⟨before, after, hsplit⟩
    -- An earlier entry with the key of the last would follow all of them.
    have hcur : cursor key before = cursor key entries := by
      rw [← hinit before a after hsplit, ← hb]
      exact hprev a (mem_append_left _ ha) b
        (mem_append_right _ mem_cons_self) hab
    have heq := cursor_inj hnd ⟨a :: after, hsplit.symm⟩ prefix_rfl hcur
    rw [heq] at hsplit
    exact absurd (append_right_eq_self.mp hsplit.symm) (cons_ne_nil _ _)

theorem infix_of_linked {entries run : List α} (h : Linked prev key entries)
    (hnd : (entries.map key).Nodup) (hsub : ∀ a ∈ run, a ∈ entries)
    (hrun : run.IsChain (fun a b => prev b = some (key a))) : run <:+: entries := by
  induction run with
  | nil => exact nil_infix
  | cons a run ih =>
    cases run with
    | nil =>
      rcases append_of_mem (hsub a mem_cons_self) with ⟨before, after, hsplit⟩
      exact ⟨before, after, by rw [hsplit, append_assoc]; rfl⟩
    | cons b run =>
      rcases isChain_cons_cons.mp hrun with ⟨hab, hrest⟩
      rcases ih (fun c hc => hsub c (mem_cons_of_mem _ hc)) hrest with
        ⟨before, after, hsplit⟩
      have hlink := h before b (run ++ after) (by rw [← hsplit, append_assoc]; rfl)
      rw [hab] at hlink
      -- The entry before the rest of the run carries the key of the first.
      rcases eq_nil_or_concat before with hnil | ⟨init, c, hbefore⟩
      · rw [hnil] at hlink
        cases hlink
      · rw [concat_eq_append] at hbefore
        subst hbefore
        rw [cursor_append_singleton, Option.some.injEq] at hlink
        have hc : c ∈ entries := by grind
        have hac : a = c :=
          inj_on_of_nodup_map hnd (hsub a mem_cons_self) hc hlink
        exact ⟨init, after, by rw [← hsplit, hac]; simp only [append_assoc,
          cons_append, nil_append]⟩

/-- The part of a ledger after its last entry with a property. -/
theorem exists_gap (p : α → Bool) (entries : List α) :
    ∃ before gap, entries = before ++ gap ∧ (∀ a ∈ gap, p a = false) ∧
      (∀ a, before.getLast? = some a → p a = true) ∧
      (entries.filter p).getLast? = before.getLast? := by
  induction entries using List.reverseRecOn with
  | nil => exact ⟨[], [], rfl, nofun, fun a ha => absurd ha (by
      simp only [getLast?_nil, reduceCtorEq, not_false_eq_true]), rfl⟩
  | append_singleton entries b ih =>
    by_cases hb : p b = true
    · refine ⟨entries ++ [b], [], (append_nil _).symm,
        nofun, fun a ha => ?_, ?_⟩
      · rw [getLast?_concat, Option.some.injEq] at ha
        exact ha ▸ hb
      · rw [filter_append, filter_cons_of_pos hb, filter_nil, getLast?_concat,
          getLast?_concat]
    · rcases ih with ⟨before, gap, hsplit, hgap, hlast, hfilter⟩
      refine ⟨before, gap ++ [b], by rw [hsplit, append_assoc], fun a ha => ?_, hlast, ?_⟩
      · grind
      · rw [filter_append, filter_cons_of_neg hb, filter_nil, append_nil,
          hfilter]

/-- The segments are non-empty runs of the ledger, and no two share an
    entry. -/
structure Tiled (entries : List α) (segments : List (List α)) : Prop where
  nonempty : ∀ s ∈ segments, s ≠ []
  consecutive : ∀ s ∈ segments, s <:+: entries
  disjoint : segments.flatten.Nodup

theorem Tiled.eq_of_mem {entries : List α} {segments : List (List α)} (h : Tiled entries segments)
    {s s' : List α} (hs : s ∈ segments) (hs' : s' ∈ segments) {a : α} (ha : a ∈ s)
    (ha' : a ∈ s') : s = s' := by
  by_contra hne
  have : Std.Symm (@List.Disjoint α) := ⟨fun _ _ h _ hb hc => h hc hb⟩
  exact (nodup_flatten.mp h.disjoint).2.forall hs hs' hne ha ha'

/-- A gap: a stretch of the ledger that segments cover, beginning where no
    segment is under way and ending where none is left open. -/
structure Gap (entries : List α) (segments : List (List α)) (before gap after : List α) :
    Prop where
  split : entries = before ++ (gap ++ after)
  covered : ∀ a ∈ gap, a ∈ segments.flatten
  opens : ∀ s ∈ segments, ∀ a ∈ before.getLast?, ∀ b ∈ gap.head?, a ∈ s → b ∉ s
  closes : ∀ a ∈ after.head?, a ∉ segments.flatten

section Gap

variable {entries : List α} {segments : List (List α)}

/-- A segment that meets a gap at its first entry lies in the gap from there
    on, and the rest is a gap again. -/
theorem Gap.take (hnd : entries.Nodup) (htiled : Tiled entries segments) {before after gap : List α}
    {b : α} (h : Gap entries segments before (b :: gap) after) :
    ∃ s ∈ segments, ∃ rest, b :: gap = s ++ rest
      ∧ Gap entries segments (before ++ s) rest after := by
  rcases mem_flatten.mp (h.covered b mem_cons_self) with ⟨s, hs, hbs⟩
  rcases htiled.consecutive s hs with ⟨front, back, hwhole⟩
  rcases append_of_mem hbs with ⟨s₁, s₂, hs₁₂⟩
  have hsplit := h.split
  -- The entry stands at one place only, so both views of it agree.
  have hboth : (front ++ s₁) ++ b :: (s₂ ++ back) = before ++ b :: (gap ++ after) := by grind
  have hmid : ((front ++ s₁) ++ b :: (s₂ ++ back)).Nodup := by grind
  rw [nodup_middle, nodup_cons, mem_append, not_or] at hmid
  rcases (append_cons_inj_of_notMem hmid.1.1 hmid.1.2).mp hboth with ⟨hbefore, -, hrest⟩
  -- No segment is under way, so the entry is the first of its own.
  have hs₁ : s₁ = [] := by
    rcases eq_nil_or_concat s₁ with hnil | ⟨init, a, hconcat⟩
    · exact hnil
    · rw [concat_eq_append] at hconcat
      refine absurd hbs (h.opens s hs a ?_ b rfl ?_)
      · rw [← hbefore, hconcat, ← append_assoc, getLast?_concat]
        rfl
      · rw [hs₁₂, hconcat]
        simp
  subst hs₁
  rw [nil_append] at hs₁₂
  -- What survives after the gap is in no segment, so this one fits inside.
  have hfit : ∃ rest, gap = s₂ ++ rest := by
    rcases append_eq_append_iff.mp hrest with ⟨rest, hgap, -⟩ | ⟨beyond, hbeyond, hafter⟩
    · exact ⟨rest, hgap⟩
    · cases beyond with
      | nil => exact ⟨[], by rw [hbeyond, append_nil, append_nil]⟩
      | cons c beyond =>
        refine absurd (mem_flatten.mpr ⟨s, hs, ?_⟩) (h.closes c (by rw [hafter]; rfl))
        rw [hs₁₂, hbeyond]
        simp
  rcases hfit with ⟨rest, hgap⟩
  have hsrest : b :: gap = s ++ rest := by
    rw [hgap, hs₁₂, cons_append]
  refine ⟨s, hs, rest, hsrest, ?_, fun a ha => h.covered a ?_, ?_, h.closes⟩
  · rw [hsplit, hsrest]
    simp
  · rw [hsrest]
    exact mem_append_right s ha
  · -- Only this segment holds the new last entry, and it holds nothing later.
    intro s' hs' a ha c hc has' hcs'
    have has : a ∈ s := by grind
    rw [← htiled.eq_of_mem hs hs' has has'] at hcs'
    rw [hsplit, hsrest, append_assoc] at hnd
    exact (nodup_append.mp (nodup_append.mp hnd).2.1).2.2 c hcs' c
      (mem_append_left _ (mem_of_mem_head? hc)) rfl

/-- A gap between survivors is a first path through the segments that fill it,
    in any graph that has an edge for each segment. The relation says which
    labels may stand for a segment. -/
theorem gap_firstPath {ε : Type*} {f : Option κ → Option (ε × Option κ)}
    (hnd : (entries.map key).Nodup) (hlinked : Linked prev key entries)
    (htiled : Tiled entries segments) (R : List α → ε → Prop)
    (hedge : ∀ s ∈ segments, ∀ first ∈ s.head?, ∀ last ∈ s.getLast?,
      ∃ e, R s e ∧ f (prev first) = some (e, some (key last))) :
    ∀ (n : Nat) (before gap after : List α), gap.length = n →
      Gap entries segments before gap after →
      ∃ path : List ε,
        (∀ e ∈ path, ∃ s ∈ segments, (∀ a ∈ s, a ∈ gap) ∧ R s e) ∧
        FirstPath f (cursor key (before ++ gap)) (cursor key before) path := by
  have hentries : entries.Nodup := List.Nodup.of_map key hnd
  intro n
  -- One segment is taken off the front of the gap at a time.
  induction n using Nat.strong_induction_on with
  | _ n ih =>
    intro before gap after hn hgap
    cases gap with
    | nil =>
      refine ⟨[], nofun, ?_⟩
      rw [append_nil]
      exact FirstPath.here
    | cons b gap =>
      rcases hgap.take hentries htiled with ⟨s, hs, rest, hsrest, hrest⟩
      rcases eq_nil_or_concat s with hnil | ⟨init, last, hlast⟩
      · exact absurd hnil (htiled.nonempty s hs)
      rw [concat_eq_append] at hlast
      have hlen : rest.length < n := by grind
      rcases ih rest.length hlen (before ++ s) rest after rfl hrest with ⟨path, hpath, hfirst⟩
      have hhead : s.head? = some b := by
        cases hcase : s with
        | nil => exact absurd hcase (htiled.nonempty s hs)
        | cons c s' =>
          rw [hcase, cons_append] at hsrest
          rw [head?_cons, (List.cons.inj hsrest).1]
      rcases hedge s hs b hhead last (by rw [hlast, getLast?_concat]; rfl) with
        ⟨e, hR, hstep⟩
      have hprev : prev b = cursor key before := hlinked before b (gap ++ after) hgap.split
      have hend : some (key last) = cursor key (before ++ s) := by
        rw [hlast, ← append_assoc, cursor_append_singleton]
      rw [hprev] at hstep
      refine ⟨e :: path, fun d hd => ?_, ?_⟩
      · grind
      · rw [hsrest, ← append_assoc]
        refine FirstPath.step (fun hcur => ?_) hstep (hend ▸ hfirst)
        -- The target is a later position, so its key is another one.
        have heq := cursor_inj hnd ⟨b :: gap ++ after, hgap.split.symm⟩
          ⟨after, by rw [hgap.split, hsrest]; simp only [append_assoc]⟩ hcur
        have := congrArg List.length heq
        rw [hlast] at this
        simp only [length_append, length_singleton] at this
        omega

end Gap

end Waygate.Ledger
