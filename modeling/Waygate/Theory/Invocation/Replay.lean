import Mathlib.Data.List.Range
import Waygate.Core.Invocation.Stream

/-!
# A Cached Stream and Its Replay

The body collected from the chunks of a stream has what a client would have folded,
under each index that occurred. The replay of the body numbers the choices from zero and
does not look at their indices.

## Main definitions

* `Replays`
* `completion`, `folded`: What a client folds.
* `Collects`: What the body holds.

## Theorems

* `collects_observe`, `replay_folds_iff`, `replay_renumbers`
* `completion_replayed`: What a replayed choice folds to.
-/

namespace Waygate.Invocation

open Llm List

def choiceIndex (choice : Json) : Nat :=
  (u64Field choice "index").getD 0

def allChoices (events : List Json) : List Json :=
  events.flatMap (fun event => (arrayField event "choices").getD [])

def choicesAt (events : List Json) (k : Nat) : List Json :=
  (allChoices events).filter (fun choice => choiceIndex choice = k)

/-- The texts that a delta has under a name. -/
def deltaTexts (name : String) (choice : Json) : List String :=
  (((choice.get "delta").bind Json.asObject).getD []).filterMap (fun field =>
    if field.1 = name then field.2.asStr else none)

def given (name : String) (v : Json) : Option Json :=
  match v.get name with
  | some .null => none
  | value => value

/-- What a client makes of the choices of one index: the last role, the joined contents and
    the last reason. -/
def completion (choices : List Json) : ChoiceAcc :=
  { role := (choices.flatMap (deltaTexts "role")).getLast?
    content := String.join (choices.flatMap (deltaTexts "content"))
    finishReason := (choices.filterMap (given "finish_reason")).getLast? }

def folded (events : List Json) (k : Nat) : ChoiceAcc :=
  completion (choicesAt events k)

def usageOf (events : List Json) : Option Json :=
  (events.filterMap (given "usage")).getLast?

/-- The same choices, folded to the same, and the same usage. -/
structure Replays (events replayed : List Json) : Prop where
  indices : ∀ k, choicesAt replayed k = [] ↔ choicesAt events k = []
  choices : ∀ k, choicesAt events k ≠ [] → folded replayed k
    = { folded events k with role := some ((folded events k).role.getD "assistant") }
  usage : usageOf replayed = usageOf events

section Collecting

variable {i k : Nat} {f : ChoiceAcc → ChoiceAcc} {entries : List (Nat × ChoiceAcc)}
  {cs events : List Json} {agg : StreamCacheAgg}

theorem given_eq (name : String) (v : Json) : given name v = present (v.get name) := by
  unfold given
  cases v.get name with
  | none => rfl
  | some w => cases w <;> rfl

theorem getLast?_filterMap_concat {α β : Type} (f : α → Option β) (l : List α) (a : α) :
    ((l ++ [a]).filterMap f).getLast? = (f a).or (l.filterMap f).getLast? := by
  rw [filterMap_append, getLast?_append]
  cases h : f a <;> simp [h]

def foldChoice (acc : ChoiceAcc) (choice : Json) : ChoiceAcc :=
  (((choice.get "delta").bind Json.asObject).getD []).foldl ChoiceAcc.observeField
    { acc with finishReason := (present (choice.get "finish_reason")).or acc.finishReason }

theorem foldl_observeField (fields : List (String × Json)) (acc : ChoiceAcc) :
    fields.foldl ChoiceAcc.observeField acc =
      { role := (fields.filterMap (fun field =>
          if field.1 = "role" then field.2.asStr else none)).getLast?.or acc.role
        content := acc.content ++ String.join (fields.filterMap (fun field =>
          if field.1 = "content" then field.2.asStr else none))
        finishReason := acc.finishReason } := by
  induction fields using reverseRecOn with
  | nil => simp
  | append_singleton fields field ih =>
    obtain ⟨name, value⟩ := field
    rw [foldl_concat, ih, getLast?_filterMap_concat, filterMap_append, String.join_append,
      ChoiceAcc.observeField]
    cases value with
    | string text =>
      by_cases hrole : name = "role"
      · simp [hrole, Json.asStr]
      · by_cases hcontent : name = "content" <;>
          simp [hrole, hcontent, Json.asStr, String.append_assoc]
    | _ => simp [Json.asStr]

theorem completion_concat (cs : List Json) (c : Json) :
    completion (cs ++ [c]) = foldChoice (completion cs) c := by
  rw [foldChoice, foldl_observeField]
  simp only [completion, flatMap_append, flatMap_singleton, getLast?_append, String.join_append,
    getLast?_filterMap_concat, given_eq]
  rfl

structure Collects (cs : List Json) (entries : List (Nat × ChoiceAcc)) : Prop where
  sorted : (entries.map Prod.fst).Pairwise (· < ·)
  folds : ∀ k, entries.lookup k = if cs.filter (fun c => choiceIndex c = k) = [] then none
    else some (completion (cs.filter (fun c => choiceIndex c = k)))

theorem mem_updateEntry {j : Nat} :
    j ∈ (updateEntry i f entries).map Prod.fst ↔ j = i ∨ j ∈ entries.map Prod.fst := by
  induction entries with
  | nil => simp [updateEntry]
  | cons e rest ih =>
    rw [updateEntry]
    split_ifs <;> simp_all [or_left_comm]

theorem lookup_entry {j : Nat} {acc : ChoiceAcc} :
    ((j, acc) :: entries).lookup k = if k = j then some acc else entries.lookup k := by
  grind

theorem lookup_lt (h : ∀ j ∈ entries.map Prod.fst, k < j) : entries.lookup k = none := by
  induction entries with
  | nil => rfl
  | cons e rest ih =>
    rw [map_cons, forall_mem_cons] at h
    rw [lookup_entry, if_neg (Nat.ne_of_lt h.1), ih h.2]

theorem updateEntry_sorted (h : (entries.map Prod.fst).Pairwise (· < ·)) :
    ((updateEntry i f entries).map Prod.fst).Pairwise (· < ·) := by
  induction entries with
  | nil => simp [updateEntry]
  | cons e rest ih =>
    rw [map_cons, pairwise_cons] at h
    rw [updateEntry]
    split_ifs with heq hlt
    · simpa using h
    · simp only [map_cons, pairwise_cons, mem_cons]
      grind
    · rw [map_cons, pairwise_cons]
      grind [mem_updateEntry]

theorem lookup_updateEntry (h : (entries.map Prod.fst).Pairwise (· < ·)) :
    (updateEntry i f entries).lookup k
      = if k = i then some (f ((entries.lookup i).getD {})) else entries.lookup k := by
  induction entries with
  | nil => exact lookup_entry
  | cons e rest ih =>
    obtain ⟨j, acc⟩ := e
    rw [map_cons, pairwise_cons] at h
    rw [updateEntry]
    by_cases hij : i = j
    · by_cases hk : k = j <;> simp [hij, hk, lookup_entry]
    · by_cases hlt : i < j
      · have hnone : rest.lookup i = none := lookup_lt (fun m hm => hlt.trans (h.1 m hm))
        by_cases hk : k = i <;> simp [hij, hlt, hk, hnone, lookup_entry]
      · grind

theorem Collects.snoc (h : Collects cs entries) (c : Json) :
    Collects (cs ++ [c]) (updateEntry (choiceIndex c) (foldChoice · c) entries) := by
  refine ⟨updateEntry_sorted h.sorted, fun k => ?_⟩
  rw [lookup_updateEntry h.sorted, filter_append, h.folds, h.folds]
  by_cases hk : k = choiceIndex c
  · subst hk
    by_cases hnone : cs.filter (fun x => choiceIndex x = choiceIndex c) = []
    · have hnil : completion [] = {} := rfl
      simp [hnone, ← hnil, ← completion_concat]
    · simp [hnone, completion_concat]
  · simp [hk, Ne.symm hk]

theorem foldl_observeChoice (cs : List Json) (agg : StreamCacheAgg) :
    (cs.foldl StreamCacheAgg.observeChoice agg).choices
        = cs.foldl (fun entries c => updateEntry (choiceIndex c) (foldChoice · c) entries)
          agg.choices
      ∧ (cs.foldl StreamCacheAgg.observeChoice agg).usage = agg.usage := by
  induction cs generalizing agg with
  | nil => exact ⟨rfl, rfl⟩
  | cons c rest ih => exact ih (agg.observeChoice c)

theorem Collects.append (h : Collects cs entries) (new : List Json) : Collects (cs ++ new)
    (new.foldl (fun entries c => updateEntry (choiceIndex c) (foldChoice · c) entries)
      entries) := by
  induction new generalizing cs entries with
  | nil => rwa [append_nil]
  | cons c rest ih =>
    rw [append_cons]
    exact ih (h.snoc c)

/-- The body holds what a client folds, under each index. -/
theorem collects_observe (events : List Json)
    (h : (events.foldl StreamCacheAgg.observe {}).unsupported = false) :
    Collects (allChoices events) (events.foldl StreamCacheAgg.observe {}).choices
      ∧ (events.foldl StreamCacheAgg.observe {}).usage = usageOf events := by
  induction events using reverseRecOn with
  | nil => exact ⟨⟨Pairwise.nil, fun k => rfl⟩, rfl⟩
  | append_singleton events event ih =>
    rw [foldl_concat] at h ⊢
    generalize events.foldl StreamCacheAgg.observe {} = agg at h ih
    unfold StreamCacheAgg.observe at h ⊢
    dsimp only at h ⊢
    split_ifs at h ⊢ with hunsupported hsize
    · rw [hunsupported] at h
      cases h
    · cases h
    · unfold StreamCacheAgg.observeEvent at h ⊢
      dsimp only at h ⊢
      split_ifs at h ⊢ with hdiscard
      · cases h
      · rcases ih (Bool.eq_false_iff.mpr hunsupported) with ⟨hcollects, husage⟩
        rw [(foldl_observeChoice _ _).1, (foldl_observeChoice _ _).2, allChoices, flatMap_append,
          flatMap_singleton, usageOf, getLast?_filterMap_concat, given_eq]
        refine ⟨hcollects.append _, ?_⟩
        rw [husage]
        rfl

end Collecting

section Replaying

theorem present_present (v : Option Json) : present (present v) = present v := by
  cases v with
  | none => rfl
  | some v => cases v <;> rfl

theorem present_getLast (name : String) (vs : List Json) :
    present (vs.filterMap (given name)).getLast? = (vs.filterMap (given name)).getLast? := by
  induction vs using reverseRecOn with
  | nil => rfl
  | append_singleton vs v ih =>
    rw [getLast?_filterMap_concat]
    cases h : given name v with
    | none => exact ih
    | some w => rw [Option.some_or, ← h, given_eq, present_present]

def replayed (index : Nat) (acc : ChoiceAcc) : List Json :=
  [replayChoice index
    [("role", .string (acc.role.getD "assistant")), ("content", .string acc.content)]
      .null,
    replayChoice index [] (acc.finishReason.getD .null)]

theorem completion_replayed (index : Nat) (acc : ChoiceAcc)
    (h : present acc.finishReason = acc.finishReason) : completion (replayed index acc)
      = { acc with role := some (acc.role.getD "assistant") } := by
  have hfinish : present (some (acc.finishReason.getD .null)) = acc.finishReason := by
    cases hreason : acc.finishReason with
    | none => rfl
    | some v =>
      rw [hreason] at h
      exact h
  have hgiven : given "finish_reason" (replayChoice index [] (acc.finishReason.getD .null))
      = acc.finishReason :=
    (given_eq _ _).trans hfinish
  have hreasons : (replayed index acc).filterMap (given "finish_reason")
      = acc.finishReason.toList := by
    rw [replayed, filterMap_cons, filterMap_cons, hgiven]
    cases acc.finishReason <;> rfl
  have hcontent : String.join ((replayed index acc).flatMap (deltaTexts "content"))
      = acc.content :=
    String.empty_append
  rw [completion, hreasons, hcontent]
  cases acc.finishReason <;> rfl

theorem choiceIndex_replayed {index : Nat} (hindex : index < 2 ^ 64) {acc : ChoiceAcc} :
    ∀ c ∈ replayed index acc, choiceIndex c = index := by
  intro c hc
  have hread : u64Field c "index" = (Json.ofNat index).asU64 := by
    rcases mem_cons.mp hc with rfl | hc
    · rfl
    · rw [mem_singleton.mp hc]
      rfl
  rw [choiceIndex, hread, Json.asU64_ofNat hindex]
  rfl

theorem filter_replayed {entries : List (Nat × ChoiceAcc)} (h : entries.length ≤ 2 ^ 64) (k : Nat) :
    (entries.zipIdx.flatMap (fun e => replayed e.2 e.1.2)).filter (fun c => choiceIndex c = k)
      = (entries[k]?.map (fun e => replayed k e.2)).getD [] := by
  induction entries using reverseRecOn with
  | nil => rfl
  | append_singleton entries e ih =>
    rw [length_append, length_singleton] at h
    have hindex : ∀ c ∈ replayed entries.length e.2, choiceIndex c = entries.length :=
      choiceIndex_replayed (by omega)
    rw [zipIdx_append, flatMap_append, filter_append, ih (by omega)]
    by_cases hk : k = entries.length
    · have hall : (replayed entries.length e.2).filter (fun c => choiceIndex c = k)
          = replayed entries.length e.2 := by
        simp_all
      simp [hk] at hall ⊢
      exact hall
    · have hnone : (replayed entries.length e.2).filter (fun c => choiceIndex c = k) = [] := by
        refine filter_eq_nil_iff.mpr (fun c hc => ?_)
        simp [hindex c hc, Ne.symm hk]
      grind

theorem eq_range' {l : List Nat} {a : Nat} (hs : l.Pairwise (· < ·)) (ha : ∀ k ∈ l, a ≤ k)
    (hgap : ∀ k ∈ l, ∀ j, a ≤ j → j < k → j ∈ l) : l = range' a l.length := by
  induction l generalizing a with
  | nil => rfl
  | cons x rest ih =>
    rw [pairwise_cons] at hs
    have hx : x = a := by
      by_contra hne
      have hmem := hgap x mem_cons_self a (Nat.le_refl a) (by have := ha x mem_cons_self; omega)
      grind
    subst hx
    rw [length_cons, range'_succ, ← ih hs.2 (fun k hk => hs.1 k hk) (fun k hk j hj hlt => ?_)]
    grind

theorem lookup_of_mem {entries : List (Nat × ChoiceAcc)} {e : Nat × ChoiceAcc}
    (h : (entries.map Prod.fst).Pairwise (· < ·)) (he : e ∈ entries) :
    entries.lookup e.1 = some e.2 := by
  induction entries with
  | nil => cases he
  | cons x rest ih =>
    rw [map_cons, pairwise_cons] at h
    rw [lookup_entry]
    rcases mem_cons.mp he with rfl | he
    · exact if_pos rfl
    · have := h.1 e.1 (mem_map_of_mem he)
      rw [if_neg (by omega), ih h.2 he]

variable {body : Json} {entries : List (Nat × ChoiceAcc)} {events : List Json}

theorem allChoices_replay
    (h : (arrayField body "choices").getD [] = entries.map StreamCacheAgg.buildChoice) :
    allChoices ((syntheticReplayStream body).map InvocationChunk.event)
      = entries.zipIdx.flatMap (fun e => replayed e.2 e.1.2) := by
  have husage : (((present (body.get "usage")).map (fun usage =>
      replayChunk body [] [("usage", usage)])).toList.map InvocationChunk.event).flatMap
      (fun event => (arrayField event "choices").getD []) = [] := by
    cases present (body.get "usage") <;> rfl
  unfold allChoices syntheticReplayStream
  rw [h, map_append, map_append, flatMap_append, flatMap_append, husage, zipIdx_map, map_flatMap,
    flatMap_map, flatMap_assoc, append_nil]
  exact append_nil _

theorem usageOf_replay : usageOf ((syntheticReplayStream body).map InvocationChunk.event)
    = present (body.get "usage") := by
  have hnone (l : List (Json × Nat)) : (l.flatMap (fun choice =>
      [replayChunk body [replayChoice choice.2 (replayDelta choice.1) .null] [],
        replayChunk body [replayChoice choice.2 [] ((choice.1.get "finish_reason").getD .null)]
          []])).filterMap (given "usage" ∘ InvocationChunk.event) = [] := by
    induction l with
    | nil => rfl
    | cons c rest ih => exact ih
  rw [usageOf, filterMap_map, syntheticReplayStream, filterMap_append, filterMap_append, hnone]
  cases h : present (body.get "usage") with
  | none => rfl
  | some usage =>
    have hpresent := present_present (body.get "usage")
    rw [h] at hpresent
    have hgiven : given "usage" (replayChunk body [] [("usage", usage)]).event = some usage :=
      (given_eq _ _).trans hpresent
    rw [Option.map_some, Option.toList_some, filterMap_cons, Function.comp_apply, hgiven]
    rfl

theorem choicesAt_replay (hlength : entries.length ≤ 2 ^ 64)
    (h : (arrayField body "choices").getD [] = entries.map StreamCacheAgg.buildChoice) (k : Nat) :
    choicesAt ((syntheticReplayStream body).map InvocationChunk.event) k
      = (entries[k]?.map (fun e => replayed k e.2)).getD [] := by
  rw [choicesAt, allChoices_replay h, filter_replayed hlength]

theorem Collects.mem_keys (h : Collects (allChoices events) entries) (k : Nat) :
    k ∈ entries.map Prod.fst ↔ choicesAt events k ≠ [] := by
  have hfolds : entries.lookup k = if choicesAt events k = [] then none
      else some (folded events k) := h.folds k
  constructor
  · grind
  · intro hk
    rw [if_neg hk] at hfolds
    rcases lookup_eq_some_iff.mp hfolds with ⟨before, after, heq, -⟩
    rw [heq]
    simp

theorem choiceIndex_lt (c : Json) : choiceIndex c < 2 ^ 64 := by
  unfold choiceIndex u64Field
  cases h : (c.get "index").bind Json.asU64 with
  | none => exact Nat.two_pow_pos 64
  | some n =>
    rcases Option.bind_eq_some_iff.mp h with ⟨v, -, hv⟩
    exact of_decide_eq_true (Option.filter_eq_some_iff.mp hv).2

theorem Collects.length_le (h : Collects (allChoices events) entries) :
    entries.length ≤ 2 ^ 64 := by
  have hsub : entries.map Prod.fst ⊆ range (2 ^ 64) := by
    intro k hk
    rw [h.mem_keys] at hk
    rcases exists_mem_of_ne_nil _ hk with ⟨c, hc⟩
    rw [mem_range, ← of_decide_eq_true (mem_filter.mp hc).2]
    exact choiceIndex_lt c
  have hle := (subperm_of_subset (h.sorted.imp Nat.ne_of_lt) hsub).length_le
  rwa [length_map, length_range] at hle

/-- The replay of a collected stream ends with its one terminal chunk. It folds to
    the same exactly when the indices of the choices had no gap. -/
theorem replay_folds_iff
    (h : (events.foldl StreamCacheAgg.observe {}).buildBody = some body) :
    (∃ chunks last, syntheticReplayStream body = chunks ++ [last] ∧ last.terminal = true
      ∧ ∀ chunk ∈ chunks, chunk.terminal = false)
    ∧ (Replays events ((syntheticReplayStream body).map InvocationChunk.event)
      ↔ ∀ k, choicesAt events k ≠ [] → ∀ j < k, choicesAt events j ≠ []) := by
  unfold StreamCacheAgg.buildBody at h
  split at h
  · cases h
  rename_i hkept
  rw [Bool.or_eq_true, not_or] at hkept
  rcases collects_observe events (Bool.eq_false_iff.mpr hkept.1) with ⟨hcollects, husage⟩
  generalize events.foldl StreamCacheAgg.observe {} = agg at *
  have hchoices : (arrayField body "choices").getD []
      = agg.choices.map StreamCacheAgg.buildChoice := by
    rw [← Option.some.inj h]
    rfl
  have hbody : body.get "usage" = agg.usage := by
    rw [← Option.some.inj h]
    cases agg.usage <;> rfl
  have hat := choicesAt_replay hcollects.length_le hchoices
  have hempty (k : Nat) : choicesAt ((syntheticReplayStream body).map InvocationChunk.event) k = []
      ↔ agg.choices.length ≤ k := by
    grind [replayed]
  refine ⟨⟨_, _, rfl, rfl, fun chunk hchunk => ?_⟩, fun hreplays k hk j hjk => ?_, fun hgap => ?_⟩
  · rcases mem_append.mp hchunk with hchunk | hchunk
    · rcases mem_flatMap.mp hchunk with ⟨c, -, hc⟩
      rcases mem_cons.mp hc with rfl | hc
      · rfl
      · rw [mem_singleton.mp hc]
        rfl
    · rcases Option.map_eq_some_iff.mp (Option.mem_toList.mp hchunk) with ⟨usage, -, rfl⟩
      rfl
  · have hk' := mt (hreplays.indices k).mp hk
    rw [hempty] at hk'
    refine mt (hreplays.indices j).mpr ?_
    rw [hempty]
    omega
  · -- Without gaps the position of a choice is its index.
    have hkeys : agg.choices.map Prod.fst = range' 0 agg.choices.length := by
      have := eq_range' (a := 0) hcollects.sorted (fun k _ => Nat.zero_le k)
        (fun k hk j _ hlt => (hcollects.mem_keys j).mpr
          (hgap k ((hcollects.mem_keys k).mp hk) j hlt))
      rwa [length_map] at this
    refine ⟨fun k => ?_, fun k hk => ?_, ?_⟩
    · rw [hempty, ← not_iff_not, ← ne_eq (choicesAt events k), ← hcollects.mem_keys, hkeys]
      simp
    · have hmem := (hcollects.mem_keys k).mpr hk
      rw [hkeys] at hmem
      have hlt : k < agg.choices.length := by simpa using hmem
      have hkey : agg.choices[k].1 = k := by
        have := congrArg (·[k]?) hkeys
        simpa [hlt] using this
      have hfolds : agg.choices.lookup k = if choicesAt events k = [] then none
          else some (folded events k) := hcollects.folds k
      rw [if_neg hk, ← hkey, lookup_of_mem hcollects.sorted (getElem_mem hlt), hkey] at hfolds
      have hsame := completion_replayed k (completion (choicesAt events k))
        (present_getLast "finish_reason" (choicesAt events k))
      simp_all [folded]
    · rw [usageOf_replay, hbody, husage, usageOf, present_getLast]

def choiceChunk (index : Nat) (delta : List (String × Json)) (reason : Json) : Json :=
  .object [("choices", .array [.object [("index", Json.ofNat index), ("delta", .object delta),
    ("finish_reason", reason)]])]

def contentChunk (index : Nat) (text : String) : Json :=
  choiceChunk index [("content", .string text)] .null

def twoChoices : List Json :=
  [choiceChunk 1 [("role", .string "assistant"), ("content", .string "")] .null,
    contentChunk 1 "Hel", contentChunk 0 "Good ", contentChunk 1 "lo", contentChunk 0 "morning",
    choiceChunk 1 [] (.string "length"), choiceChunk 0 [] (.string "stop"),
    .object [("choices", .array []), ("usage", .object [("total_tokens", Json.ofNat 9)])]]

theorem replay_folds_interleaved :
    folded twoChoices 0 = ⟨none, "Good morning", some (.string "stop")⟩
      ∧ folded twoChoices 1 = ⟨some "assistant", "Hello", some (.string "length")⟩
      ∧ ∃ body, (twoChoices.foldl StreamCacheAgg.observe {}).buildBody = some body
        ∧ Replays twoChoices ((syntheticReplayStream body).map InvocationChunk.event) := by
  refine ⟨rfl, rfl, _, rfl, (replay_folds_iff rfl).2.mpr (fun k hk j hj => ?_)⟩
  have hindex : ∀ c ∈ allChoices twoChoices, choiceIndex c ≤ 1 := by decide +kernel
  obtain ⟨c, hc⟩ := exists_mem_of_ne_nil _ hk
  have hle := hindex c (mem_filter.mp hc).1
  obtain rfl : j = 0 := by
    have := of_decide_eq_true (mem_filter.mp hc).2
    omega
  exact isEmpty_eq_false_iff.mp (by decide +kernel)

/-- A stream that had only the choice with index one is replayed as choice zero. -/
theorem replay_renumbers :
    (allChoices [contentChunk 1 "hi"]).map choiceIndex = [1]
      ∧ (([contentChunk 1 "hi"].foldl StreamCacheAgg.observe {}).buildBody.map (fun body =>
        (allChoices ((syntheticReplayStream body).map InvocationChunk.event)).map choiceIndex))
        = some [0, 0] := by
  decide +kernel

end Replaying

end Waygate.Invocation
