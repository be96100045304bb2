import Waygate.Core.Upstream.AdmissionReads
import Waygate.Theory.Machine.Run

/-!
# Reused Reads Are Current

Within one generation the stores hold the same, except for reviews that stay
quarantined, and those are not kept. A call that finds the generation it began with has
read everything in that generation, so what it keeps is what the stores held all through
it.

## Main definitions

* `Permitted`
* `Coherent`: What every step keeps.

## Theorems

* `reads_current`
* `Coherent.change`, `Coherent.knows`: A change, and a step of a call.
* `Coherent.step`: Every action.
-/

namespace Waygate.Upstream

open List Machine

variable {T : Type} {p : Pool T}

/-- The stores hold the same, or differ in reviews that are quarantined in both. -/
def Agree (s t : Stores T) : Prop :=
  s.resolveTool = t.resolveTool ∧ ∀ server tool,
    s.reviewState server tool = t.reviewState server tool
      ∨ ∃ r r', s.reviewState server tool = some r ∧ t.reviewState server tool = some r'
        ∧ r.quarantined = true ∧ r'.quarantined = true

/-- A transaction never lowers the generation, and one that leaves it changes only
    reviews that stay quarantined. -/
def Permitted (s : ReadState T) : ReadAction T → Prop
  | .change stores => s.stores.generation ≤ stores.generation
    ∧ (s.stores.generation = stores.generation → Agree s.stores stores)
  | _ => True

theorem Agree.symm {s t : Stores T} (h : Agree s t) : Agree t s := by
  refine ⟨h.1.symm, fun server tool => ?_⟩
  rcases h.2 server tool with heq | ⟨r, r', hr, hr', hq, hq'⟩
  · exact .inl heq.symm
  · exact .inr ⟨r', r, hr', hr, hq', hq⟩

theorem Agree.trans {s t u : Stores T} (h : Agree s t) (h' : Agree t u) : Agree s u := by
  refine ⟨h.1.trans h'.1, fun server tool => ?_⟩
  rcases h.2 server tool with heq | ⟨r, r', hr, hr', hq, hq'⟩
  · rw [heq]
    exact h'.2 server tool
  · rcases h'.2 server tool with heq' | ⟨x, x', -, hx', -, hxq'⟩
    · exact .inr ⟨r, r', hr, heq' ▸ hr', hq, hq'⟩
    · exact .inr ⟨r, x', hr, hx', hq, hxq'⟩

def Pool.reads (p : Pool T) (stores : Stores T) (key : AdmissionKey) : AdmissionReads T :=
  ⟨p.review stores key, stores.catalog key⟩

theorem Agree.reads_eq {s t : Stores T} (h : Agree s t) {key : AdmissionKey}
    (hkeeps : p.keeps (p.reads s key) = true) : p.reads t key = p.reads s key := by
  have hcatalog : t.catalog key = s.catalog key := by
    rw [Stores.catalog, Stores.catalog, h.1]
  have hreview : p.review t key = p.review s key := by
    unfold Pool.review
    split
    · rename_i hstore
      rcases h.2 key.2.1 key.2.2 with heq | ⟨r, -, hr, -, hq, -⟩
      · exact heq.symm
      · -- A quarantined review is not kept.
        simp [Pool.keeps, Pool.reads, Pool.review, hstore, hr, hq] at hkeeps
    · rfl
  rw [Pool.reads, Pool.reads, hcatalog, hreview]

section Cache

variable {cache : AdmissionReadCache T} {g : Int} {key : AdmissionKey} {reads : AdmissionReads T}

/-- The queue has every key of the cache once, and is not too long. -/
structure Queued (cache : AdmissionReadCache T) : Prop where
  nodup : cache.order.Nodup
  keys : ∀ key, key ∈ cache.order ↔ key ∈ cache.entries
  bounded : cache.order.length ≤ cache.capacity

theorem Queued.keep (h : Queued cache) (key : AdmissionKey) (reads : AdmissionReads T) :
    Queued (cache.keep key reads) := by
  unfold AdmissionReadCache.keep
  simp only
  split
  · rename_i hold
    refine ⟨h.nodup, fun k => ?_, h.bounded⟩
    rw [AList.mem_insert, h.keys k]
    exact ⟨.inr, fun hk => hk.elim (fun heq => heq ▸ hold) id⟩
  · rename_i hnew
    have hnodup : (cache.order ++ [key]).Nodup := by
      rw [nodup_append]
      refine ⟨h.nodup, nodup_singleton key, fun a ha b hb hab => hnew ?_⟩
      rw [← h.keys, ← mem_singleton.mp hb, ← hab]
      exact ha
    have hkeys : ∀ k, k ∈ cache.order ++ [key] ↔ k ∈ cache.entries.insert key reads := by
      intro k
      rw [mem_append, mem_singleton, AList.mem_insert, h.keys k, or_comm]
    split
    · have hlen : (cache.order ++ [key]).length ≤ cache.capacity + 1 := by
        rw [length_append]
        exact Nat.succ_le_succ h.bounded
      split
      · rename_i oldest rest horder
        rw [horder] at hnodup hkeys hlen
        refine ⟨(nodup_cons.mp hnodup).2, fun k => ?_, Nat.le_of_succ_le_succ hlen⟩
        rw [AList.mem_erase, ← hkeys k, mem_cons]
        constructor
        · exact fun hk => ⟨fun heq => (nodup_cons.mp hnodup).1 (heq ▸ hk), .inr hk⟩
        · exact fun hk => hk.2.resolve_left hk.1
      · rename_i hnil
        simp at hnil
    · rename_i hroom
      exact ⟨hnodup, hkeys, by rw [length_append]; exact Nat.not_lt.mp hroom⟩

theorem keep_fields : (cache.keep key reads).generation = cache.generation
    ∧ (cache.keep key reads).capacity = cache.capacity := by
  unfold AdmissionReadCache.keep
  simp only
  split
  · exact ⟨rfl, rfl⟩
  · split
    · split <;> exact ⟨rfl, rfl⟩
    · exact ⟨rfl, rfl⟩

theorem lookup_keep {k : AdmissionKey} {r : AdmissionReads T}
    (h : (cache.keep key reads).entries.lookup k = some r) :
    (k = key ∧ r = reads) ∨ cache.entries.lookup k = some r := by
  have hinsert : (cache.entries.insert key reads).lookup k = some r →
      (k = key ∧ r = reads) ∨ cache.entries.lookup k = some r := by
    intro h
    by_cases hk : k = key
    · subst hk
      rw [AList.lookup_insert] at h
      exact .inl ⟨rfl, (Option.some.inj h).symm⟩
    · rw [AList.lookup_insert_ne hk] at h
      exact .inr h
  unfold AdmissionReadCache.keep at h
  simp only at h
  split at h
  · exact hinsert h
  · split at h
    · split at h
      · rename_i oldest rest _
        by_cases hk : k = oldest
        · rw [hk, AList.lookup_erase] at h
          cases h
        · rw [AList.lookup_erase_ne hk] at h
          exact hinsert h
      · exact hinsert h
    · exact hinsert h

theorem insert_cases (cache : AdmissionReadCache T) (g : Int) (key : AdmissionKey)
    (reads : AdmissionReads T) :
    cache.insert g key reads = cache
      ∨ (cache.generation = some g ∧ cache.insert g key reads = cache.keep key reads)
      ∨ cache.insert g key reads = (cache.cleared g).keep key reads := by
  unfold AdmissionReadCache.insert
  split
  · rename_i cached hcached
    split
    · exact .inl rfl
    · split
      · rename_i heq
        exact .inr (.inl ⟨heq ▸ hcached, rfl⟩)
      · exact .inr (.inr rfl)
  · exact .inr (.inr rfl)

theorem Queued.insert (h : Queued cache) (g : Int) (key : AdmissionKey)
    (reads : AdmissionReads T) : Queued (cache.insert g key reads) := by
  have hempty : Queued (cache.cleared g) :=
    ⟨nodup_nil, fun k => iff_of_false not_mem_nil (AList.notMem_empty k), Nat.zero_le _⟩
  rcases insert_cases cache g key reads with heq | ⟨-, heq⟩ | heq <;> rw [heq]
  · exact h
  · exact h.keep key reads
  · exact hempty.keep key reads

end Cache

/-- The stores held this at a time of the generation, and it may be kept. -/
def Held (p : Pool T) (past : List (Stores T)) (g : Int) (key : AdmissionKey)
    (reads : AdmissionReads T) : Prop :=
  p.keeps reads = true ∧ ∃ t ∈ past, t.generation = g ∧ p.reads t key = reads

def Knows (p : Pool T) (past : List (Stores T)) (c : ReadCall T) : Prop :=
  match c.phase with
  | .started | .finished _ => True
  | .generation g | .missed g => ∃ t ∈ past, c.seen = some t ∧ t.generation = g
  | .reviewed g review => ∃ t ∈ past, g ≤ t.generation ∧ review = p.review t c.key
  | .read g reads => ∃ t ∈ past, ∃ u ∈ past, g ≤ t.generation ∧ g ≤ u.generation
    ∧ reads = ⟨p.review t c.key, u.catalog c.key⟩
  | .checked g reads => Held p past g c.key reads
  | .reused g reads => ∃ t ∈ past, c.seen = some t ∧ t.generation = g ∧ reads = p.reads t c.key

structure Coherent (p : Pool T) (capacity : Nat) (s : ReadState T) : Prop where
  now : s.stores ∈ s.past
  latest : ∀ t ∈ s.past, t.generation ≤ s.stores.generation
  quiet : ∀ t ∈ s.past, ∀ u ∈ s.past, t.generation = u.generation → Agree t u
  queued : Queued s.cache
  size : s.cache.capacity = capacity
  held : ∀ key reads, s.cache.entries.lookup key = some reads →
    ∃ g, s.cache.generation = some g ∧ Held p s.past g key reads
  calls : ∀ c ∈ s.calls, Knows p s.past c

theorem Held.mono {past past' : List (Stores T)} {g : Int} {key : AdmissionKey}
    {reads : AdmissionReads T} (h : Held p past g key reads) (hsub : past ⊆ past') :
    Held p past' g key reads := by
  rcases h with ⟨hkeeps, t, ht, hrest⟩
  exact ⟨hkeeps, t, hsub ht, hrest⟩

theorem Knows.mono {past past' : List (Stores T)} {c : ReadCall T} (h : Knows p past c)
    (hsub : past ⊆ past') : Knows p past' c := by
  rcases c with ⟨key, phase, seen⟩
  cases phase with
  | started => trivial
  | finished reads => trivial
  | checked g reads => exact Held.mono h hsub
  | read g reads =>
    rcases h with ⟨t, ht, u, hu, hrest⟩
    exact ⟨t, hsub ht, u, hsub hu, hrest⟩
  | _ =>
    rcases h with ⟨t, ht, hrest⟩
    exact ⟨t, hsub ht, hrest⟩

section Steps

variable {s : ReadState T} {capacity : Nat} {c : ReadCall T}

theorem Coherent.reads_eq (h : Coherent p capacity s) {g : Int} {key : AdmissionKey}
    {reads : AdmissionReads T} (hheld : Held p s.past g key reads) {t : Stores T}
    (ht : t ∈ s.past) (hg : t.generation = g) : reads = p.reads t key := by
  rcases hheld with ⟨hkeeps, u, hu, hug, rfl⟩
  exact ((h.quiet u hu t ht (hug.trans hg.symm)).reads_eq hkeeps).symm

theorem Coherent.change (h : Coherent p capacity s) {stores : Stores T}
    (hpermitted : Permitted s (.change stores)) :
    Coherent p capacity { s with stores := stores, past := stores :: s.past } := by
  have hnew : ∀ t ∈ s.past, t.generation = stores.generation → Agree t stores := by
    intro t ht heq
    have hle := h.latest t ht
    have hsame : s.stores.generation = stores.generation :=
      Int.le_antisymm hpermitted.1 (heq ▸ hle)
    exact (h.quiet t ht _ h.now (heq.trans hsame.symm)).trans (hpermitted.2 hsame)
  refine ⟨mem_cons_self, fun t ht => ?_, fun t ht u hu heq => ?_, h.queued, h.size,
    fun key reads hlookup => ?_, fun c hc => (h.calls c hc).mono (subset_cons_self _ _)⟩
  · rcases mem_cons.mp ht with rfl | ht
    · exact Int.le_refl _
    · exact Int.le_trans (h.latest t ht) hpermitted.1
  · rcases mem_cons.mp ht with rfl | ht
    · rcases mem_cons.mp hu with rfl | hu
      · exact ⟨rfl, fun _ _ => .inl rfl⟩
      · exact (hnew u hu heq.symm).symm
    · rcases mem_cons.mp hu with hu | hu
      · rw [hu] at heq ⊢
        exact hnew t ht heq
      · exact h.quiet t ht u hu heq
  · rcases h.held key reads hlookup with ⟨g, hg, hheld⟩
    exact ⟨g, hg, hheld.mono (subset_cons_self _ _)⟩

/-- What a call has read is what the stores held in its generation. -/
theorem Coherent.knows (h : Coherent p capacity s) (hc : Knows p s.past c) (answered : Bool) :
    Knows p s.past (p.advance s c answered) := by
  rcases c with ⟨key, phase, seen⟩
  cases phase with
  | started =>
    cases answered with
    | false => trivial
    | true => exact ⟨s.stores, h.now, rfl, rfl⟩
  | generation g =>
    rcases hc with ⟨t, ht, hseen, hg⟩
    simp only [Pool.advance]
    split
    · rename_i reads hget
      rw [AdmissionReadCache.get] at hget
      split at hget
      · rename_i hgeneration
        rcases h.held key reads hget with ⟨g', hg', hheld⟩
        obtain rfl : g' = g := Option.some.inj (hg'.symm.trans hgeneration)
        exact ⟨t, ht, hseen, hg, h.reads_eq hheld ht hg⟩
      · cases hget
    · exact ⟨t, ht, hseen, hg⟩
  | missed g =>
    rcases hc with ⟨t, ht, -, hg⟩
    simp only [Pool.advance]
    split
    · exact ⟨s.stores, h.now, hg ▸ h.latest t ht, rfl⟩
    · trivial
  | reviewed g review =>
    rcases hc with ⟨t, ht, hle, hreview⟩
    change review = p.review t key at hreview
    subst hreview
    cases answered with
    | false => trivial
    | true => exact ⟨t, ht, s.stores, h.now, hle, Int.le_trans hle (h.latest t ht), rfl⟩
  | read g reads =>
    rcases hc with ⟨t, ht, u, hu, hlet, hleu, hreads⟩
    simp only [Pool.advance]
    split
    · rename_i hkept
      simp only [Bool.and_eq_true, beq_iff_eq] at hkept
      -- The generation is still the first one, so both reads were made in it.
      have hgt : t.generation = g := Int.le_antisymm (hkept.2 ▸ h.latest t ht) hlet
      have hgu : u.generation = g := Int.le_antisymm (hkept.2 ▸ h.latest u hu) hleu
      refine ⟨hkept.1.1, t, ht, hgt, ?_⟩
      have hquiet := h.quiet t ht u hu (hgt.trans hgu.symm)
      rw [hreads, Pool.reads, Stores.catalog, Stores.catalog, hquiet.1]
    · trivial
  | checked g reads => trivial
  | reused g reads => exact hc
  | finished reads => trivial

theorem Coherent.step (h : Coherent p capacity s) (a : ReadAction T) (hpermitted : Permitted s a) :
    Coherent p capacity (p.step s a) := by
  cases a with
  | change stores => exact h.change hpermitted
  | call key =>
    refine ⟨h.now, h.latest, h.quiet, h.queued, h.size, h.held, fun c hc => ?_⟩
    rcases mem_append.mp hc with hc | hc
    · exact h.calls c hc
    · rw [mem_singleton.mp hc]
      trivial
  | advance i answered =>
    simp only [Pool.step]
    split
    · rename_i c hi
      have hc := h.calls c (mem_of_getElem? hi)
      have hcalls : ∀ c' ∈ s.calls.set i (p.advance s c answered), Knows p s.past c' := by
        intro c' hc'
        rcases mem_or_eq_of_mem_set hc' with hc' | rfl
        · exact h.calls c' hc'
        · exact h.knows hc answered
      unfold ReadCall.store
      split
      · rename_i g reads hphase
        rw [Knows, hphase] at hc
        refine ⟨h.now, h.latest, h.quiet, h.queued.insert g c.key reads, ?_, ?_, hcalls⟩
        · rcases insert_cases s.cache g c.key reads with heq | ⟨-, heq⟩ | heq <;> rw [heq]
          · exact h.size
          · rw [keep_fields.2]
            exact h.size
          · rw [keep_fields.2]
            exact h.size
        · intro key r hlookup
          rcases insert_cases s.cache g c.key reads with heq | ⟨hg, heq⟩ | heq <;>
            rw [heq] at hlookup ⊢
          · exact h.held key r hlookup
          · rw [keep_fields.1]
            rcases lookup_keep hlookup with ⟨rfl, rfl⟩ | hold
            · exact ⟨g, hg, hc⟩
            · exact h.held key r hold
          · rw [keep_fields.1]
            rcases lookup_keep hlookup with ⟨rfl, rfl⟩ | hold
            · exact ⟨g, rfl, hc⟩
            · cases hold
      · exact ⟨h.now, h.latest, h.quiet, h.queued, h.size, h.held, hcalls⟩
    · exact h

end Steps

/-- Over every run in which a transaction that changes what is read here raises the
    generation, unless it changes reviews that stay quarantined: what a call reuses is
    what the stores held when it read the generation, and the cache holds reads of one
    generation, each once in its queue, and not too many. -/
theorem reads_current (p : Pool T) (stores : Stores T) (capacity : Nat)
    (actions : List (ReadAction T))
    (hpermitted : Along p.step Permitted (.start stores capacity) actions) :
    let s := actions.foldl p.step (.start stores capacity)
    (∀ c ∈ s.calls, ∀ g reads, c.phase = .reused g reads →
      ∃ t, c.seen = some t ∧ t.generation = g ∧ reads = p.reads t c.key)
    ∧ (∀ key reads, s.cache.entries.lookup key = some reads → ∃ g, s.cache.generation = some g
      ∧ ∃ t ∈ s.past, t.generation = g ∧ reads = p.reads t key)
    ∧ s.cache.order.Nodup ∧ (∀ key, key ∈ s.cache.order ↔ key ∈ s.cache.entries)
    ∧ s.cache.entries.keys.length ≤ capacity := by
  have hstart : Coherent p capacity (.start stores capacity) := by
    refine ⟨mem_singleton_self _, fun t ht => ?_, fun t ht u hu _ => ?_,
      ⟨nodup_nil, fun k => iff_of_false not_mem_nil (AList.notMem_empty k), Nat.zero_le _⟩, rfl,
      fun key reads (hlookup : none = some reads) => ?_, nofun⟩
    · rw [mem_singleton.mp ht]
      exact Int.le_refl _
    · rw [mem_singleton.mp ht, mem_singleton.mp hu]
      exact ⟨rfl, fun _ _ => .inl rfl⟩
    · cases hlookup
  have h : Coherent p capacity (actions.foldl p.step (.start stores capacity)) :=
    Along.invariant (I := Coherent p capacity) (fun s a ha hs => hs.step a ha) hstart hpermitted
  refine ⟨fun c hc g reads hphase => ?_, fun key reads hlookup => ?_, h.queued.nodup,
    h.queued.keys, ?_⟩
  · have hknows := h.calls c hc
    rw [Knows, hphase] at hknows
    rcases hknows with ⟨t, -, hrest⟩
    exact ⟨t, hrest⟩
  · rcases h.held key reads hlookup with ⟨g, hg, -, t, ht, htg, hreads⟩
    exact ⟨g, hg, t, ht, htg, hreads.symm⟩
  · have hperm := (perm_ext_iff_of_nodup h.queued.nodup (AList.keys_nodup _)).mpr h.queued.keys
    rw [← hperm.length_eq]
    exact Nat.le_trans h.queued.bounded (Nat.le_of_eq h.size)

section Sample

def sampleStores (generation : Int) (tool : String) : Stores String :=
  { generation := generation, reviewState := fun _ _ => none, resolveTool := fun _ _ => tool }

def sampleKey : AdmissionKey := ("acme", "mail", "send")

/-- The catalog changes after the second call has read the generation, and the third call
    reads it anew. -/
def sampleReads : List (ReadAction String) :=
  [.call sampleKey] ++ List.replicate 6 (.advance 0 true)
    ++ [.call sampleKey, .advance 1 true, .change (sampleStores 8 "v2"), .advance 1 true]
    ++ [.call sampleKey] ++ List.replicate 6 (.advance 2 true)
    ++ [.call sampleKey, .advance 3 true, .advance 3 true]

theorem reads_current_reused :
    let s := sampleReads.foldl (Pool.step ⟨fun _ => true, true⟩) (.start (sampleStores 7 "v1") 1)
    s.calls[1]?.map ReadCall.phase = some (.reused 7 ⟨none, "v1"⟩)
    ∧ s.calls[3]?.map ReadCall.phase = some (.reused 8 ⟨none, "v2"⟩)
    ∧ s.cache.order.Nodup ∧ s.cache.entries.keys.length ≤ 1 := by
  have hpermitted : Along (Pool.step ⟨fun _ => true, true⟩) Permitted
      (.start (sampleStores 7 "v1") 1) sampleReads := by
    have hchange : (7 : Int) ≤ 8 ∧ ((7 : Int) = 8 → Agree (sampleStores 7 "v1")
        (sampleStores 8 "v2")) := ⟨by decide, nofun⟩
    exact ⟨trivial, trivial, trivial, trivial, trivial, trivial, trivial, trivial, trivial, hchange,
      trivial, trivial, trivial, trivial, trivial, trivial, trivial, trivial, trivial, trivial,
      trivial, trivial⟩
  have h := reads_current ⟨fun _ => true, true⟩ (sampleStores 7 "v1") 1 sampleReads hpermitted
  exact ⟨rfl, rfl, h.2.2.1, h.2.2.2.2⟩

end Sample

end Waygate.Upstream
