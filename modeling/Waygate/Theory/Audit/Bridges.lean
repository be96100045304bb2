import Waygate.Core.Audit.ChainVerify
import Waygate.Theory.Graph.FirstPath

/-!
# Following Bridges

The verifier follows an index for as many hops as there are bridges. The bound does not
matter: each bridge leaves one hash, so a first path never uses a bridge twice.

## Main definitions

* `hop`: One step along the index.

## Theorems

* `lookup_bridgeIndexOf`, `lookup_bridgeIndexOf_of_unique`, `markerBridgeReaches_iff`
-/

namespace Waygate.Audit

open Reach List

def hop (bridgeIndex : BridgeIndex) (fallback : Option RetentionBridge) (a : Option String) :
    Option (RetentionBridge × Option String) :=
  (nextBridge bridgeIndex fallback a).map (fun b => (b, some b.endHash))

def IndexedByStart (bridgeIndex : BridgeIndex) : Prop :=
  ∀ a b, bridgeIndex.lookup a = some b → b.start = a

variable (bridges : List RetentionBridge)

/-- The index holds the last bridge of each start. -/
theorem lookup_bridgeIndexOf (a : Option String) :
    (bridgeIndexOf bridges).lookup a = bridges.reverse.find? (fun b => b.start = a) := by
  induction bridges using List.reverseRecOn with
  | nil => rfl
  | append_singleton bridges b ih =>
    have hstep : bridgeIndexOf (bridges ++ [b]) = (bridgeIndexOf bridges).insert b.start b := by
      simp [bridgeIndexOf]
    rw [hstep, reverse_append, reverse_singleton, singleton_append,
      find?_cons]
    by_cases hba : b.start = a
    · subst hba
      simp
    · rw [AList.lookup_insert_ne (Ne.symm hba), ih]
      simp [hba]

theorem lookup_bridgeIndexOf_mem (a : Option String)
    (b : RetentionBridge) (h : (bridgeIndexOf bridges).lookup a = some b) :
    b ∈ bridges ∧ b.start = a := by
  rw [lookup_bridgeIndexOf] at h
  refine ⟨mem_reverse.mp (mem_of_find?_eq_some h), ?_⟩
  simpa only [decide_eq_true_eq] using find?_some h

theorem indexedByStart_bridgeIndexOf :
    IndexedByStart (bridgeIndexOf bridges) :=
  fun a b h => (lookup_bridgeIndexOf_mem bridges a b h).2

/-- A bridge no other bridge shares its start with is held under it. -/
theorem lookup_bridgeIndexOf_of_unique (b : RetentionBridge)
    (hb : b ∈ bridges) (hu : ∀ b' ∈ bridges, b'.start = b.start → b' = b) :
    (bridgeIndexOf bridges).lookup b.start = some b := by
  cases h : (bridgeIndexOf bridges).lookup b.start with
  | none =>
    rw [lookup_bridgeIndexOf, find?_eq_none] at h
    exact absurd (decide_eq_true rfl) (h b (mem_reverse.mpr hb))
  | some b' =>
    rcases lookup_bridgeIndexOf_mem bridges _ b' h with ⟨hmem, hstart⟩
    rw [hu b' hmem hstart]

variable (bridgeIndex : BridgeIndex) (fallback : Option RetentionBridge)

theorem hop_start (hix : IndexedByStart bridgeIndex) (a : Option String) (b : RetentionBridge)
    (c : Option String) (h : hop bridgeIndex fallback a = some (b, c)) :
    b.start = a ∧ c = some b.endHash := by
  rcases Option.map_eq_some_iff.mp h with ⟨b', hnext, hb'⟩
  rw [Prod.mk.injEq] at hb'
  rcases hb' with ⟨hbb, hc⟩
  subst hbb
  refine ⟨?_, hc.symm⟩
  rcases Option.or_eq_some_iff.mp hnext with hlook | ⟨-, hfall⟩
  · exact hix a _ hlook
  · exact of_decide_eq_true (Option.filter_eq_some_iff.mp hfall).2

theorem followBridges_sound (target : Option String) :
    ∀ (hops : Nat) (cursor : Option String), cursor ≠ target →
      followBridges bridgeIndex fallback target hops cursor = true →
      ∃ es, FirstPath (hop bridgeIndex fallback) target cursor es := by
  intro hops
  induction hops with
  | zero => exact fun _ _ h => absurd h (by simp only [followBridges, Bool.false_eq_true,
      not_false_eq_true])
  | succ hops ih =>
    intro cursor hne h
    rw [followBridges] at h
    cases hnext : nextBridge bridgeIndex fallback cursor with
    | none =>
      rw [hnext] at h
      exact absurd h (by simp only [Bool.false_eq_true, not_false_eq_true])
    | some b =>
      have hhop : hop bridgeIndex fallback cursor = some (b, some b.endHash) := by
        rw [hop, hnext, Option.map_some]
      rw [hnext] at h
      by_cases hend : some b.endHash = target
      · exact ⟨[b], FirstPath.step hne hhop (hend ▸ FirstPath.here)⟩
      · simp only [hend, if_false] at h
        rcases ih _ hend h with ⟨es, hpath⟩
        exact ⟨b :: es, FirstPath.step hne hhop hpath⟩

theorem followBridges_complete (target : Option String) (cursor : Option String)
    (es : List RetentionBridge)
    (h : FirstPath (hop bridgeIndex fallback) target cursor es) (hne : cursor ≠ target) :
    ∀ hops, es.length ≤ hops → followBridges bridgeIndex fallback target hops cursor = true := by
  induction h with
  | here => exact absurd rfl hne
  | @step a c b es _ hhop hrest ih =>
    intro hops hlen
    cases hops with
    | zero => exact absurd hlen (Nat.not_succ_le_zero _)
    | succ hops =>
      rcases Option.map_eq_some_iff.mp hhop with ⟨b', hnext, hb'⟩
      rw [Prod.mk.injEq] at hb'
      rcases hb' with ⟨-, hc⟩
      rw [followBridges, hnext]
      by_cases hend : some b'.endHash = target
      · simp [hend]
      · grind

/-- The bounded search decides whether bridges lead from one hash to the
    other. -/
theorem markerBridgeReaches_iff (start target : Option String) (bridgeIndex : BridgeIndex)
    (fallback : Option RetentionBridge) (hix : IndexedByStart bridgeIndex) :
    markerBridgeReaches start target bridgeIndex fallback = true ↔
      ∃ es, FirstPath (hop bridgeIndex fallback) target start es := by
  unfold markerBridgeReaches
  by_cases hst : start = target
  · simp only [hst, if_true, true_iff]
    exact ⟨[], FirstPath.here⟩
  · simp only [hst, if_false]
    refine ⟨followBridges_sound bridgeIndex fallback target _ start hst, fun ⟨es, hpath⟩ => ?_⟩
    -- Every edge is a bridge of the index or the fallback.
    have hlen := firstPath_length_le
      (bridgeIndex.entries.map Sigma.snd ++ fallback.toList)
      (fun x x' b y y' h h' => (hop_start bridgeIndex fallback hix x b y h).1.symm.trans
        (hop_start bridgeIndex fallback hix x' b y' h').1)
      (fun x b y h => by
        rcases Option.map_eq_some_iff.mp h with ⟨b', hnext, hb'⟩
        rw [Prod.mk.injEq] at hb'
        rw [← hb'.1]
        rcases Option.or_eq_some_iff.mp hnext with hlook | ⟨-, hfall⟩
        · exact mem_append_left _ (mem_map.mpr
            ⟨⟨x, b'⟩, AList.mem_lookup_iff.mp hlook, rfl⟩)
        · exact mem_append_right _
            (Option.mem_toList.mpr (Option.filter_eq_some_iff.mp hfall).1)) hpath
    refine followBridges_complete bridgeIndex fallback target start es hpath hst _
      (hlen.trans (le_of_eq ?_))
    rw [length_append, length_map]
    cases fallback with
    | none => simp only [Option.toList_none, length_nil, Option.isSome_none,
        Bool.false_eq_true, if_false, AList.keys, List.keys, length_map]
    | some b => simp only [Option.toList_some, length_singleton, Option.isSome_some, if_true,
        AList.keys, List.keys, length_map]

end Waygate.Audit
