import Waygate.Theory.Codec.JsonSame
import Waygate.Theory.Llm.Client

/-!
# A Responses Body Through the Hub

The hub reads a Responses body into its own terms and renders it again. A status outside
of the four the hub has becomes `in_progress`, a reason outside of its two `other`, and
a missing field that the hub always renders appears.

## Main definitions

* `Documented`, `Kept`

## Theorems

* `roundTrip_same_iff`, `roundTrip_cancelled`
* `part_same_iff`, `item_same_iff`, `usage_same_iff`, `status_rel_iff`: Parts, items, usage
  and status.
-/

namespace Waygate.Llm

open Json (Same ofNat)
open List

section Documented

def IsString (v : Json) : Prop :=
  ∃ s, v = .string s

/-- A `u64`. -/
def IsCount (v : Json) : Prop :=
  ∃ n < 2 ^ 64, v = ofNat n

def WhenPresent (p : Json → Prop) (o : Option Json) : Prop :=
  ∀ v, o = some v → p v

def Counts (keys : List String) (v : Json) : Prop :=
  ∃ ds, v = .object ds ∧ ∀ key value, ds.lookup key = some value → key ∈ keys ∧ IsCount value

structure DocumentedUsage (us : List (String × Json)) : Prop where
  counts : ∀ key ∈ ["input_tokens", "output_tokens", "total_tokens"],
    WhenPresent IsCount (us.lookup key)
  inputDetails : WhenPresent (Counts ["cached_tokens", "cache_write_tokens"])
    (us.lookup "input_tokens_details")
  outputDetails : WhenPresent (Counts ["reasoning_tokens"]) (us.lookup "output_tokens_details")
  keys : ∀ key value, us.lookup key = some value → key ∈ ["input_tokens", "output_tokens",
    "total_tokens", "input_tokens_details", "output_tokens_details"]

def DocumentedPart (part : Json) : Prop :=
  hasType "output_text" part = true → WhenPresent IsString (part.get "text")

structure DocumentedItem (item : Json) : Prop where
  message : hasType "message" item = true → WhenPresent IsString (item.get "id")
    ∧ item.get "role" = some (.string "assistant")
    ∧ ∃ parts, item.get "content" = some (.array parts) ∧ ∀ part ∈ parts, DocumentedPart part
  call : hasType "function_call" item = true →
    ∀ key ∈ ["call_id", "name", "arguments"], ∃ s, item.get key = some (.string s)

/-- A body whose modelled fields have their types, with any other fields. -/
structure Documented (fields : List (String × Json)) : Prop where
  unique : (fields.map Prod.fst).Nodup
  object : WhenPresent (· = .string "response") (fields.lookup "object")
  identity : ∀ key ∈ ["id", "model", "status"], WhenPresent IsString (fields.lookup key)
  createdAt : WhenPresent IsCount (fields.lookup "created_at")
  incomplete : fields.lookup "status" = some (.string "incomplete") →
    ∃ ds reason, fields.lookup "incomplete_details" = some (.object ds)
      ∧ ds.lookup "reason" = some (.string reason)
  complete : fields.lookup "status" ≠ some (.string "incomplete") →
    fields.lookup "incomplete_details" = none
  output : WhenPresent (fun v => ∃ items, v = .array items ∧ ∀ item ∈ items, DocumentedItem item)
    (fields.lookup "output")
  usage : WhenPresent (fun v => ∃ us, v = .object us ∧ DocumentedUsage us) (fields.lookup "usage")

end Documented

section Kept

def KeptPart (part : Json) : Prop :=
  hasType "output_text" part = true → part.get "text" ≠ none

def KeptItem (item : Json) : Prop :=
  hasType "message" item = true →
    ∀ part ∈ (arrayField item "content").getD [], KeptPart part

/-- The total is there or cannot be computed, and no details are empty. -/
structure KeptUsage (us : List (String × Json)) : Prop where
  total : us.lookup "total_tokens" = none →
    us.lookup "input_tokens" = none ∨ us.lookup "output_tokens" = none
  inputDetails : ∀ ds, us.lookup "input_tokens_details" = some (.object ds) →
    ds.lookup "cached_tokens" ≠ none ∨ ds.lookup "cache_write_tokens" ≠ none
  outputDetails : ∀ ds, us.lookup "output_tokens_details" = some (.object ds) →
    ds.lookup "reasoning_tokens" ≠ none

/-- The reason is one of the hub's, and there are no further details. -/
def KeptDetails (ds : List (String × Json)) : Prop :=
  (∃ reason ∈ ["max_output_tokens", "content_filter", "other"],
      ds.lookup "reason" = some (.string reason))
    ∧ ∀ key value, ds.lookup key = some value → key = "reason"

/-- What the hub always renders is there, in its terms. -/
structure Kept (fields : List (String × Json)) : Prop where
  object : fields.lookup "object" ≠ none
  status : ∃ s ∈ ["completed", "failed", "incomplete", "in_progress"],
    fields.lookup "status" = some (.string s)
  details : ∀ ds, fields.lookup "incomplete_details" = some (.object ds) → KeptDetails ds
  output : ∃ items, fields.lookup "output" = some (.array items) ∧ ∀ item ∈ items, KeptItem item
  usage : ∀ us, fields.lookup "usage" = some (.object us) → KeptUsage us

end Kept

section Levels

variable {item v : Json} {key : String}

theorem lookup_unmodeledFields (fields : List (String × Json)) (consumed : List String)
    (key : String) :
    (unmodeledFields (.object fields) consumed).lookup key
      = if key ∈ consumed then none else fields.lookup key := by
  have h := Json.lookup_filter (fun name => !consumed.contains name) key fields
  rw [unmodeledFields]
  refine h.trans ?_
  by_cases hkey : key ∈ consumed <;> simp [hkey]

theorem lookup_insertSome (name key : String) (value : Option Json)
    (fields : List (String × Json)) :
    (insertSome name value fields).lookup key
      = if key = name then value.or (fields.lookup key) else fields.lookup key := by
  cases value with
  | none => simp [insertSome]
  | some v => rw [insertSome, Json.lookup_insert, Option.some_or]

theorem strField_eq_some {s : String} :
    strField v key = some s ↔ v.get key = some (.string s) := by
  rw [strField]
  cases v.get key with
  | none => simp
  | some w => cases w <;> simp [Json.asStr]

theorem object_of_hasType {kind : String} {j : Json} (h : hasType kind j = true) :
    ∃ fields, j = .object fields ∧ fields.lookup "type" = some (.string kind) := by
  rw [hasType, decide_eq_true_eq, strField_eq_some] at h
  cases j with
  | object fields => exact ⟨fields, rfl, h⟩
  | _ => cases h

theorem strField_of_present (h : WhenPresent IsString (v.get key)) :
    (strField v key).map .string = v.get key := by
  rw [strField]
  cases hv : v.get key with
  | none => rfl
  | some w =>
    rcases h w hv with ⟨s, rfl⟩
    rfl

theorem u64Field_of_present (h : WhenPresent IsCount (v.get key)) :
    (u64Field v key).map ofNat = v.get key := by
  rw [u64Field]
  cases hv : v.get key with
  | none => rfl
  | some w =>
    rcases h w hv with ⟨n, hn, rfl⟩
    rw [Option.bind_some, Json.asU64_ofNat hn]
    rfl

theorem rel_string_iff {o : Option Json} {s : String} :
    Option.Rel Same (some (.string s)) o ↔ o = some (.string s) := by
  rw [Json.rel_some_iff]
  constructor
  · rintro ⟨k, rfl, hk⟩
    rw [Json.same_string_iff.mp hk]
  · intro h
    exact ⟨_, h, .string s⟩

theorem part_same_iff {part : Json} (h : DocumentedPart part) :
    Same (contentPartToResponses (responsesContentPart part)) part ↔ KeptPart part := by
  by_cases htext : hasType "output_text" part = true
  · have hdoc := h htext
    have hpart : responsesContentPart part = .outputText ((strField part "text").getD "")
        (unmodeledFields part ["type", "text"]) := by
      rw [responsesContentPart, if_pos (of_decide_eq_true htext)]
    rw [hpart, KeptPart]
    rcases object_of_hasType htext with ⟨fields, rfl, htype⟩
    have hget : (Json.object fields).get "text" = fields.lookup "text" := rfl
    rw [contentPartToResponses, Json.same_object_iff_of_forall ["type", "text"]]
    · simp only [forall_mem_cons, not_mem_nil, false_imp_iff, implies_true, and_true,
        Json.lookup_insert, String.reduceEq, if_true, if_false, rel_string_iff, htype, true_and,
        htext, true_imp_iff, hget]
      constructor
      · intro hrel hnone
        rw [hnone] at hrel
        cases hrel
      · intro hsome
        rcases Option.ne_none_iff_exists'.mp hsome with ⟨v, hv⟩
        rcases hdoc v hv with ⟨s, rfl⟩
        have hs : strField (.object fields) "text" = some s := strField_eq_some.mpr hv
        rw [hv, hs]
        rfl
    · intro key hkey
      simp only [mem_cons, not_mem_nil, or_false, not_or] at hkey
      simp [Json.lookup_insert, lookup_unmodeledFields, hkey]
  · have hother : responsesContentPart part = .unknown part := by
      rw [responsesContentPart, if_neg]
      simpa [hasType] using htext
    rw [hother, contentPartToResponses]
    exact iff_of_true (Same.refl part) (fun hpart => absurd hpart htext)

theorem map_same_iff (f : Json → Json) (xs : List Json) :
    List.Forall₂ Same (xs.map f) xs ↔ ∀ x ∈ xs, Same (f x) x := by
  rw [forall₂_map_left_iff, forall₂_same]

theorem message_same_iff (hmessage : hasType "message" item = true) (h : DocumentedItem item) :
    Same (outputItemToResponses (responsesOutputItem item)) item ↔ KeptItem item := by
  rcases h.message hmessage with ⟨hid, hrole, parts, hcontent, hparts⟩
  have harray : arrayField item "content" = some parts := by
    rw [arrayField, hcontent]
    rfl
  have hitem : responsesOutputItem item
      = .message (strField item "id") (parts.map responsesContentPart)
        (unmodeledFields item ["type", "id", "role", "content"]) := by
    rw [responsesOutputItem, if_pos (of_decide_eq_true hmessage), harray]
    rfl
  rw [hitem, KeptItem, harray]
  have hread := strField_of_present hid
  rcases object_of_hasType hmessage with ⟨fields, rfl, htype⟩
  have hrole' : fields.lookup "role" = some (.string "assistant") := hrole
  have hcontent' : fields.lookup "content" = some (.array parts) := hcontent
  have hid' : (Json.object fields).get "id" = fields.lookup "id" := rfl
  rw [outputItemToResponses, Json.same_object_iff_of_forall ["type", "id", "role", "content"]]
  · simp only [forall_mem_cons, not_mem_nil, false_imp_iff, implies_true, and_true,
      Json.lookup_insert, lookup_insertSome, lookup_unmodeledFields, String.reduceEq, if_true,
      if_false, rel_string_iff, htype, true_and, hmessage, true_imp_iff, hread, hrole', hcontent']
    rw [if_pos (by simp), Option.or_none, hid', and_iff_right (Same.refl_lookup _),
      Option.rel_some_some, Json.same_array_iff, map_map, map_same_iff]
    exact forall₂_congr (fun part hpart => part_same_iff (hparts part hpart))
  · intro key hkey
    simp only [mem_cons, not_mem_nil, or_false, not_or] at hkey
    simp [Json.lookup_insert, lookup_insertSome, lookup_unmodeledFields, hkey]

theorem call_same (hcall : hasType "function_call" item = true) (h : DocumentedItem item) :
    Same (outputItemToResponses (responsesOutputItem item)) item := by
  have hmessage : hasType "message" item = false := hasType_ne hcall (by decide)
  have hstrings := h.call hcall
  have hitem : responsesOutputItem item
      = .functionCall ((strField item "call_id").getD "") ((strField item "name").getD "")
        ((strField item "arguments").getD "")
        (unmodeledFields item ["type", "call_id", "name", "arguments"]) := by
    rw [responsesOutputItem, if_neg (of_decide_eq_false hmessage),
      if_pos (of_decide_eq_true hcall)]
  rw [hitem]
  rcases object_of_hasType hcall with ⟨fields, rfl, htype⟩
  have hread : ∀ key ∈ ["call_id", "name", "arguments"],
      fields.lookup key = some (.string ((strField (.object fields) key).getD "")) := by
    intro key hkey
    rcases hstrings key hkey with ⟨s, hs⟩
    rw [strField_eq_some.mpr hs]
    exact hs
  rw [outputItemToResponses,
    Json.same_object_iff_of_forall ["type", "call_id", "name", "arguments"]]
  · simp only [forall_mem_cons, not_mem_nil, false_imp_iff, implies_true, and_true,
      Json.lookup_insert, String.reduceEq, if_true, if_false, rel_string_iff, htype, true_and]
    exact ⟨hread _ (by simp), hread _ (by simp), hread _ (by simp)⟩
  · intro key hkey
    simp only [mem_cons, not_mem_nil, or_false, not_or] at hkey
    simp [Json.lookup_insert, lookup_unmodeledFields, hkey]

theorem item_same_iff (h : DocumentedItem item) :
    Same (outputItemToResponses (responsesOutputItem item)) item ↔ KeptItem item := by
  by_cases hmessage : hasType "message" item = true
  · exact message_same_iff hmessage h
  · have hkept : KeptItem item := fun hitem => absurd hitem hmessage
    refine iff_of_true ?_ hkept
    by_cases hcall : hasType "function_call" item = true
    · exact call_same hcall h
    · -- Reasoning and unknown items are carried as they are.
      have hmessage' : strField item "type" ≠ some "message" := by simpa [hasType] using hmessage
      have hcall' : strField item "type" ≠ some "function_call" := by simpa [hasType] using hcall
      rw [responsesOutputItem, if_neg hmessage', if_neg hcall']
      split_ifs <;> exact Same.refl item

theorem details_same {ds out : List (String × Json)} {keys : List String}
    (h : Counts keys (.object ds)) (hout : ∀ key, out.lookup key = if key ∈ keys then
      (u64Field (.object ds) key).map ofNat else none) :
    Same (.object out) (.object ds) := by
  rcases h with ⟨_, hds, hcounts⟩
  cases hds
  rw [Json.same_object_iff]
  intro key
  rw [hout]
  by_cases hkey : key ∈ keys
  · rw [if_pos hkey]
    have hpresent : WhenPresent IsCount ((Json.object ds).get key) :=
      fun v hv => (hcounts key v hv).2
    rw [u64Field_of_present hpresent]
    exact Same.refl_lookup _
  · have hnone : ds.lookup key = none := by
      cases hlookup : ds.lookup key with
      | none => rfl
      | some v => exact absurd (hcounts key v hlookup).1 hkey
    rw [if_neg hkey, hnone]
    exact .none

end Levels

section UsageLevel

def hubUsage (u : Json) : Usage :=
  { input := u64Field u "input_tokens"
    output := u64Field u "output_tokens"
    total := (u64Field u "total_tokens").or
      (sumCounts plainAdd (u64Field u "input_tokens") (u64Field u "output_tokens"))
    cachedRead := (u.get "input_tokens_details").bind (u64Field · "cached_tokens")
    cacheWrite := (u.get "input_tokens_details").bind (u64Field · "cache_write_tokens")
    reasoning := (u.get "output_tokens_details").bind (u64Field · "reasoning_tokens") }

variable {us : List (String × Json)}

theorem u64Field_eq_none {v : Json} {key : String} (h : WhenPresent IsCount (v.get key)) :
    u64Field v key = none ↔ v.get key = none := by
  rw [← u64Field_of_present h, Option.map_eq_none_iff]

theorem total_rel_iff (h : DocumentedUsage us) :
    Option.Rel Same ((hubUsage (.object us)).total.map ofNat) (us.lookup "total_tokens")
      ↔ (us.lookup "total_tokens" = none →
        us.lookup "input_tokens" = none ∨ us.lookup "output_tokens" = none) := by
  have hinput : WhenPresent IsCount ((Json.object us).get "input_tokens") := h.counts _ (by simp)
  have houtput : WhenPresent IsCount ((Json.object us).get "output_tokens") :=
    h.counts _ (by simp)
  have htotal : WhenPresent IsCount ((Json.object us).get "total_tokens") := h.counts _ (by simp)
  have hread := u64Field_of_present htotal
  have hinput' : u64Field (.object us) "input_tokens" = none ↔ us.lookup "input_tokens" = none :=
    u64Field_eq_none hinput
  have houtput' : u64Field (.object us) "output_tokens" = none
      ↔ us.lookup "output_tokens" = none :=
    u64Field_eq_none houtput
  have hget : (Json.object us).get "total_tokens" = us.lookup "total_tokens" := rfl
  rw [← hinput', ← houtput', hubUsage]
  cases hlookup : us.lookup "total_tokens" with
  | some v =>
    rw [hget, hlookup] at hread
    rcases Option.map_eq_some_iff.mp hread with ⟨n, hn, hv⟩
    rw [hn, Option.some_or, Option.map_some, hv]
    exact iff_of_true (.some (Same.refl v)) (nofun)
  | none =>
    rw [hget, hlookup, Option.map_eq_none_iff] at hread
    rw [hread, Option.none_or]
    cases u64Field (.object us) "input_tokens" with
    | none => exact iff_of_true .none (fun _ => Or.inl rfl)
    | some p =>
      cases u64Field (.object us) "output_tokens" with
      | none => exact iff_of_true .none (fun _ => Or.inr rfl)
      | some c =>
        refine iff_of_false (nofun) (fun hkept => ?_)
        rcases hkept rfl with hnone | hnone <;> cases hnone

theorem eq_nil_of_lookup {fields : List (String × Json)} (h : ∀ key, fields.lookup key = none) :
    fields = [] := by
  cases fields with
  | nil => rfl
  | cons field rest =>
    have hnone := h field.1
    rw [lookup_cons_self] at hnone
    cases hnone

theorem details_rel_iff {o : Option Json} {keys : List String} {out : List (String × Json)}
    (h : WhenPresent (Counts keys) o)
    (hout : ∀ key, out.lookup key = if key ∈ keys then
      (o.bind (u64Field · key)).map ofNat else none) :
    Option.Rel Same (if out.isEmpty then none else some (.object out)) o
      ↔ ∀ ds, o = some (.object ds) → ∃ key ∈ keys, ds.lookup key ≠ none := by
  cases o with
  | none =>
    have hempty : out = [] := eq_nil_of_lookup (fun key => by rw [hout]; simp)
    rw [hempty]
    exact iff_of_true .none (nofun)
  | some v =>
    have hcounts := h v rfl
    rcases hcounts with ⟨ds, rfl, hvalues⟩
    have hlookup : ∀ key ∈ keys, (out.lookup key = none ↔ ds.lookup key = none) := by
      intro key hkey
      have hpresent : WhenPresent IsCount ((Json.object ds).get key) :=
        fun v hv => (hvalues key v hv).2
      rw [hout, if_pos hkey, Option.bind_some, u64Field_of_present hpresent]
      rfl
    by_cases hempty : out = []
    · refine iff_of_false ?_ ?_
      · rw [hempty]
        nofun
      · grind
    · refine iff_of_true ?_ ?_
      · rw [if_neg (by simpa using hempty)]
        refine .some (details_same ⟨ds, rfl, hvalues⟩ ?_)
        exact hout
      · intro ds' hds
        cases hds
        by_contra hnone
        refine hempty (eq_nil_of_lookup (fun key => ?_))
        by_cases hkey : key ∈ keys
        · grind
        · rw [hout, if_neg hkey]

theorem lookup_inputDetails (us : List (String × Json)) (key : String) :
    (insertSome "cache_write_tokens" ((hubUsage (.object us)).cacheWrite.map ofNat)
        (insertSome "cached_tokens" ((hubUsage (.object us)).cachedRead.map ofNat) [])).lookup key
      = if key ∈ ["cached_tokens", "cache_write_tokens"] then
          ((us.lookup "input_tokens_details").bind (u64Field · key)).map ofNat
        else none := by
  rw [lookup_insertSome, lookup_insertSome]
  by_cases hwrite : key = "cache_write_tokens"
  · simp [hwrite, hubUsage, Json.get]
  · by_cases hread : key = "cached_tokens"
    · simp [hread, hubUsage, Json.get]
    · simp [hwrite, hread]

theorem lookup_outputDetails (us : List (String × Json)) (key : String) :
    (insertSome "reasoning_tokens" ((hubUsage (.object us)).reasoning.map ofNat) []).lookup key
      = if key ∈ ["reasoning_tokens"] then
          ((us.lookup "output_tokens_details").bind (u64Field · key)).map ofNat
        else none := by
  rw [lookup_insertSome]
  by_cases hkey : key = "reasoning_tokens"
  · simp [hkey, hubUsage, Json.get]
  · simp [hkey]

/-- The counts are the same when the total was there or could not be computed. -/
theorem usage_same_iff (h : DocumentedUsage us) :
    Same (usageToResponses (hubUsage (.object us))) (.object us) ↔ KeptUsage us := by
  have hinput := u64Field_of_present (v := .object us) (h.counts "input_tokens" (by simp))
  have houtput := u64Field_of_present (v := .object us) (h.counts "output_tokens" (by simp))
  have hinputDetails := details_rel_iff h.inputDetails (lookup_inputDetails us)
  have houtputDetails := details_rel_iff h.outputDetails (lookup_outputDetails us)
  have hreasoning : (hubUsage (.object us)).reasoning.map
      (fun r => Json.object [("reasoning_tokens", ofNat r)])
      = if (insertSome "reasoning_tokens" ((hubUsage (.object us)).reasoning.map ofNat)
          []).isEmpty then none
        else some (.object (insertSome "reasoning_tokens"
          ((hubUsage (.object us)).reasoning.map ofNat) [])) := by
    cases (hubUsage (.object us)).reasoning <;> rfl
  rw [usageToResponses, Json.same_object_iff_of_forall ["input_tokens", "output_tokens",
    "total_tokens", "input_tokens_details", "output_tokens_details"]]
  · simp only [forall_mem_cons, not_mem_nil, false_imp_iff, implies_true, and_true,
      lookup_insertSome, String.reduceEq, if_true, if_false, lookup_nil, Option.or_none,
      hreasoning, hinputDetails, houtputDetails, total_rel_iff h, exists_mem_cons_iff,
      not_mem_nil, false_and, exists_false, or_false]
    have hinputRel : Option.Rel Same ((hubUsage (.object us)).input.map ofNat)
        (us.lookup "input_tokens") := by
      rw [hubUsage, hinput]
      exact Same.refl_lookup _
    have houtputRel : Option.Rel Same ((hubUsage (.object us)).output.map ofNat)
        (us.lookup "output_tokens") := by
      rw [hubUsage, houtput]
      exact Same.refl_lookup _
    rw [and_iff_right hinputRel, and_iff_right houtputRel]
    exact ⟨fun ⟨htotal, hinput, houtput⟩ => ⟨htotal, hinput, houtput⟩,
      fun ⟨htotal, hinput, houtput⟩ => ⟨htotal, hinput, houtput⟩⟩
  · intro key hkey
    have hnone : us.lookup key = none := by
      cases hlookup : us.lookup key with
      | none => rfl
      | some v => exact absurd (h.keys key v hlookup) hkey
    simp only [mem_cons, not_mem_nil, or_false, not_or] at hkey
    simp [lookup_insertSome, hkey, hnone]

end UsageLevel

section Body

variable {fields ds : List (String × Json)}

theorem same_reason_iff {r reason : String}
    (hreason : ds.lookup "reason" = some (.string reason)) :
    Same (.object [("reason", .string r)]) (.object ds)
      ↔ r = reason ∧ ∀ key value, ds.lookup key = some value → key = "reason" := by
  rw [Json.same_object_iff]
  simp only [Json.lookup_cons, lookup_nil]
  constructor
  · intro h
    constructor
    · have hrel := h "reason"
      rw [if_pos rfl, rel_string_iff, hreason] at hrel
      cases hrel
      rfl
    · intro key value hvalue
      by_contra hkey
      have hrel := h key
      rw [if_neg hkey, Json.rel_none_iff, hvalue] at hrel
      cases hrel
  · rintro ⟨rfl, honly⟩ key
    by_cases hkey : key = "reason"
    · rw [if_pos hkey, hkey, hreason]
      exact .some (.string r)
    · rw [if_neg hkey, Json.rel_none_iff]
      cases hvalue : ds.lookup key with
      | none => rfl
      | some value => exact absurd (honly key value hvalue) hkey

theorem reason_rel_iff {reason : String} (hreason : ds.lookup "reason" = some (.string reason))
    (hstatus : strField (.object fields) "status" = some "incomplete")
    (hdetails : fields.lookup "incomplete_details" = some (.object ds)) :
    Option.Rel Same ((statusToResponses (responsesStatusToCanonical (.object fields))).2.map
        (fun reason => .object [("reason", .string reason)])) (some (.object ds))
      ↔ KeptDetails ds := by
  have hread : incompleteReason (.object fields) = some reason := by
    have hget : (Json.object fields).get "incomplete_details" = some (.object ds) := hdetails
    rw [incompleteReason, hget]
    exact strField_eq_some.mpr hreason
  have hcanonical : responsesStatusToCanonical (.object fields)
      = .incomplete (if reason = "max_output_tokens" then .maxOutputTokens
        else if reason = "content_filter" then .contentFilter else .other) := by
    simp [responsesStatusToCanonical, hstatus, hread]
  have hkept : KeptDetails ds ↔ reason ∈ ["max_output_tokens", "content_filter", "other"]
      ∧ ∀ key value, ds.lookup key = some value → key = "reason" := by
    rw [KeptDetails, hreason]
    simp
  rw [hcanonical, hkept]
  by_cases hlength : reason = "max_output_tokens"
  · simp [hlength, statusToResponses, same_reason_iff (hlength ▸ hreason)]
  · by_cases hfilter : reason = "content_filter"
    · simp [hfilter, statusToResponses, same_reason_iff (hfilter ▸ hreason)]
    · simp [hlength, hfilter, statusToResponses, same_reason_iff hreason, eq_comm]

theorem status_rel_iff (h : Documented fields) :
    Option.Rel Same (some (.string (statusToResponses
        (responsesStatusToCanonical (.object fields))).1)) (fields.lookup "status")
      ∧ Option.Rel Same ((statusToResponses (responsesStatusToCanonical (.object fields))).2.map
        (fun reason => .object [("reason", .string reason)])) (fields.lookup "incomplete_details")
      ↔ (∃ s ∈ ["completed", "failed", "incomplete", "in_progress"],
          fields.lookup "status" = some (.string s))
        ∧ ∀ ds, fields.lookup "incomplete_details" = some (.object ds) → KeptDetails ds := by
  cases hlookup : fields.lookup "status" with
  | none => simp
  | some v =>
    rcases h.identity "status" (by simp) v hlookup with ⟨s, rfl⟩
    have hstatus : strField (.object fields) "status" = some s := strField_eq_some.mpr hlookup
    have hsome : (∃ s' ∈ ["completed", "failed", "incomplete", "in_progress"],
        some (Json.string s) = some (.string s'))
        ↔ s ∈ ["completed", "failed", "incomplete", "in_progress"] := by
      simp
    rw [rel_string_iff, hsome]
    by_cases hincomplete : s = "incomplete"
    · subst hincomplete
      rcases h.incomplete hlookup with ⟨ds, reason, hdetails, hreason⟩
      have hfirst : (statusToResponses (responsesStatusToCanonical (.object fields))).1
          = "incomplete" := by
        simp only [responsesStatusToCanonical, hstatus]
        split_ifs <;> simp_all [statusToResponses]
      rw [hfirst, hdetails, reason_rel_iff hreason hstatus hdetails]
      simp
    · -- A body that is not incomplete has no details.
      have hnone : fields.lookup "incomplete_details" = none :=
        h.complete (by rw [hlookup]; simpa using hincomplete)
      rw [hnone]
      by_cases hcompleted : s = "completed"
      · simp [responsesStatusToCanonical, hstatus, hcompleted, statusToResponses]
      · by_cases hfailed : s = "failed"
        · simp [responsesStatusToCanonical, hstatus, hfailed, statusToResponses]
        · simp [responsesStatusToCanonical, hstatus, hcompleted, hfailed, hincomplete,
            statusToResponses]

theorem output_rel_iff (h : Documented fields) :
    Option.Rel Same (some (.array ((((arrayField (.object fields) "output").getD []).map
        responsesOutputItem).map outputItemToResponses))) (fields.lookup "output")
      ↔ ∃ items, fields.lookup "output" = some (.array items) ∧ ∀ item ∈ items, KeptItem item := by
  have hget : (Json.object fields).get "output" = fields.lookup "output" := rfl
  rw [arrayField, hget]
  cases hlookup : fields.lookup "output" with
  | none => exact iff_of_false (nofun) (fun ⟨_, hitems, _⟩ => by cases hitems)
  | some v =>
    rcases h.output v hlookup with ⟨items, rfl, hitems⟩
    rw [Option.bind_some, Json.asArray, Option.getD_some, Option.rel_some_some,
      Json.same_array_iff, map_map, map_same_iff]
    simp only [Option.some.injEq, Json.array.injEq, exists_eq_left', Function.comp]
    exact forall₂_congr (fun item hitem => item_same_iff (hitems item hitem))

theorem usage_rel_iff (h : Documented fields) :
    Option.Rel Same (((Json.object fields).get "usage").map (fun u =>
        usageToResponses (hubUsage u))) (fields.lookup "usage")
      ↔ ∀ us, fields.lookup "usage" = some (.object us) → KeptUsage us := by
  have hget : (Json.object fields).get "usage" = fields.lookup "usage" := rfl
  rw [hget]
  cases hlookup : fields.lookup "usage" with
  | none => exact iff_of_true .none (nofun)
  | some v =>
    rcases h.usage v hlookup with ⟨us, rfl, hus⟩
    rw [Option.map_some, Option.rel_some_some, usage_same_iff hus]
    simp

/-- A body is the same after the hub, exactly if it is in the hub's terms. -/
theorem roundTrip_same_iff (h : Documented fields) :
    Same (canonicalResponseToResponses (openaiResponsesToCanonicalResponse (.object fields)))
        (.object fields)
      ↔ Kept fields := by
  have hid := strField_of_present (v := .object fields) (h.identity "id" (by simp))
  have hmodel := strField_of_present (v := .object fields) (h.identity "model" (by simp))
  have hcreated := u64Field_of_present (v := .object fields) h.createdAt
  set extra := unmodeledFields (.object fields)
    ["id", "model", "created_at", "status", "incomplete_details", "output", "usage"] with hextra
  have hunique : (extra.map Prod.fst).Nodup :=
    h.unique.sublist (List.Sublist.map _ filter_sublist)
  have hlookup : ∀ key, (extra.foldl (fun fields field => Json.insert field.1 field.2 fields)
      []).lookup key = if key ∈ ["id", "model", "created_at", "status", "incomplete_details",
        "output", "usage"] then none else fields.lookup key := by
    intro key
    rw [Json.lookup_foldl_insert key hunique, lookup_nil, Option.or_none, hextra,
      lookup_unmodeledFields]
  rw [canonicalResponseToResponses, Json.same_object_iff_of_forall ["id", "object", "created_at",
    "model", "status", "incomplete_details", "output", "usage"]]
  · simp only [forall_mem_cons, not_mem_nil, false_imp_iff, implies_true, and_true,
      Json.lookup_insert, lookup_insertSome, String.reduceEq, if_true, if_false,
      openaiResponsesToCanonicalResponse, hid, hmodel, hcreated, ← hextra, hlookup]
    simp only [mem_cons, String.reduceEq, false_or, true_or, if_true, Option.or_none,
      Option.map_map]
    have hobject : Option.Rel Same (some (.string "response")) (fields.lookup "object")
        ↔ fields.lookup "object" ≠ none := by
      rw [rel_string_iff]
      cases hv : fields.lookup "object" with
      | none => simp
      | some v => simp [h.object v hv]
    have hsame : ∀ key, Option.Rel Same ((Json.object fields).get key) (fields.lookup key) :=
      fun key => Same.refl_lookup _
    have hstatus := status_rel_iff h
    have husage : Option.Rel Same (((Json.object fields).get "usage").map
        (usageToResponses ∘ hubUsage)) (fields.lookup "usage") ↔ _ := usage_rel_iff h
    rw [hobject, output_rel_iff h]
    constructor
    · rintro ⟨-, hobject, -, -, hs, hd, houtput, hu⟩
      rcases hstatus.mp ⟨hs, hd⟩ with ⟨hs, hd⟩
      exact ⟨hobject, hs, hd, houtput, husage.mp hu⟩
    · rintro ⟨hobject, hs, hd, houtput, hu⟩
      rcases hstatus.mpr ⟨hs, hd⟩ with ⟨hs, hd⟩
      exact ⟨hsame _, hobject, hsame _, hsame _, hs, hd, houtput, husage.mpr hu⟩
  · intro key hkey
    simp only [mem_cons, not_mem_nil, or_false, not_or] at hkey
    simp only [openaiResponsesToCanonicalResponse, ← hextra, Json.lookup_insert,
      lookup_insertSome, hlookup]
    simp [hkey]

def sampleMessage : Json :=
  .object [("type", .string "message"), ("id", .string "msg_1"), ("role", .string "assistant"),
    ("status", .string "completed"), ("content", .array [.object [("type", .string "output_text"),
      ("text", .string "It is sunny."), ("annotations", .array [])]])]

def sampleCall : Json :=
  .object [("type", .string "function_call"), ("id", .string "fc_1"), ("call_id", .string "call_1"),
    ("name", .string "forecast"), ("arguments", .string "\x7b\x7d")]

def sampleUsage : List (String × Json) :=
  [("input_tokens", ofNat 11), ("input_tokens_details", .object [("cached_tokens", ofNat 4)]),
    ("output_tokens", ofNat 7), ("total_tokens", ofNat 18)]

def sampleBody (status : String) : List (String × Json) :=
  [("id", .string "resp_1"), ("object", .string "response"), ("created_at", ofNat 1741476542),
    ("status", .string status), ("model", .string "gpt-4.1"),
    ("output", .array [sampleMessage, sampleCall]), ("parallel_tool_calls", .bool true),
    ("usage", .object sampleUsage)]

theorem sampleUsage_documented : DocumentedUsage sampleUsage := by
  refine ⟨?_, ?_, nofun, ?_⟩
  · simp only [forall_mem_cons, not_mem_nil, false_imp_iff, implies_true, and_true]
    refine ⟨?_, ?_, ?_⟩
    all_goals
      rintro v ⟨⟩
      exact ⟨_, by decide, rfl⟩
  · rintro v ⟨⟩
    refine ⟨_, rfl, fun key value h => ?_⟩
    rw [Json.lookup_cons] at h
    split at h
    · cases h
      exact ⟨by simp [*], 4, by decide, rfl⟩
    · cases h
  · intro key value h
    simp only [sampleUsage, Json.lookup_cons] at h
    grind

theorem sampleItems_documented : ∀ item ∈ [sampleMessage, sampleCall], DocumentedItem item := by
  simp only [forall_mem_cons, not_mem_nil, false_imp_iff, implies_true, and_true]
  refine ⟨⟨fun _ => ⟨?_, rfl, _, rfl, ?_⟩, nofun⟩, nofun, fun _ => ?_⟩
  · rintro v ⟨⟩
    exact ⟨_, rfl⟩
  · rintro part (_ | ⟨_, ⟨⟩⟩) - v ⟨⟩
    exact ⟨_, rfl⟩
  · simp only [forall_mem_cons, not_mem_nil, false_imp_iff, implies_true, and_true]
    exact ⟨⟨_, rfl⟩, ⟨_, rfl⟩, ⟨_, rfl⟩⟩

theorem sampleBody_documented {status : String} (h : status ≠ "incomplete") :
    Documented (sampleBody status) := by
  refine ⟨by simp [sampleBody], ?_, ?_, ?_, ?_, fun _ => rfl, ?_, ?_⟩
  · rintro v ⟨⟩
    rfl
  · simp only [forall_mem_cons, not_mem_nil, false_imp_iff, implies_true, and_true]
    refine ⟨?_, ?_, ?_⟩
    all_goals
      rintro v ⟨⟩
      exact ⟨_, rfl⟩
  · rintro v ⟨⟩
    exact ⟨_, by decide, rfl⟩
  · intro hstatus
    refine absurd ?_ h
    cases hstatus
    rfl
  · rintro v ⟨⟩
    exact ⟨_, rfl, sampleItems_documented⟩
  · rintro v ⟨⟩
    exact ⟨_, rfl, sampleUsage_documented⟩

theorem roundTrip_same_completed :
    Same (canonicalResponseToResponses (openaiResponsesToCanonicalResponse
      (.object (sampleBody "completed")))) (.object (sampleBody "completed")) := by
  refine (roundTrip_same_iff (sampleBody_documented (by decide))).mpr ⟨?_, ?_, ?_, ?_, ?_⟩
  · nofun
  · exact ⟨"completed", by simp, rfl⟩
  · nofun
  · refine ⟨_, rfl, ?_⟩
    simp only [forall_mem_cons, not_mem_nil, false_imp_iff, implies_true, and_true]
    refine ⟨fun _ => ?_, nofun⟩
    rintro part (_ | ⟨_, ⟨⟩⟩) -
    nofun
  · rintro us ⟨⟩
    refine ⟨nofun, ?_, nofun⟩
    rintro ds ⟨⟩
    exact .inl (nofun)

/-- A cancelled response is reported as one in progress. -/
theorem roundTrip_cancelled :
    Documented (sampleBody "cancelled")
      ∧ (canonicalResponseToResponses (openaiResponsesToCanonicalResponse
        (.object (sampleBody "cancelled")))).get "status" = some (.string "in_progress")
      ∧ ¬ Same (canonicalResponseToResponses (openaiResponsesToCanonicalResponse
        (.object (sampleBody "cancelled")))) (.object (sampleBody "cancelled")) := by
  refine ⟨sampleBody_documented (by decide), rfl, ?_⟩
  intro h
  have hrel : Option.Rel Same (some (.string "in_progress")) (some (.string "cancelled")) :=
    Json.same_object_iff.mp h "status"
  rw [rel_string_iff] at hrel
  simp at hrel

end Body

end Waygate.Llm
