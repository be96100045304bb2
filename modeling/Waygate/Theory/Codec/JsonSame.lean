import Mathlib.Data.List.Forall2
import Mathlib.Data.List.Nodup
import Waygate.Core.Json

/-!
# Equal JSON Values

Two values are equal when they differ only in the order of the fields of their objects.
What matters of an object are its lookups.

## Main definitions

* `Same`

## Theorems

* `same_object_iff_of_forall`: Objects that differ under some keys only.
* `lookup_insert`, `lookup_foldl_insert`, `lookup_filter`: Lookups.
-/

namespace Waygate.Json

section Same

/-- `Value::eq`. -/
inductive Same : Json → Json → Prop
  | null : Same .null .null
  | bool (b : Bool) : Same (.bool b) (.bool b)
  | number (literal : String) : Same (.number literal) (.number literal)
  | string (s : String) : Same (.string s) (.string s)
  | array {xs ys : List Json} : List.Forall₂ Same xs ys → Same (.array xs) (.array ys)
  | object {xs ys : List (String × Json)} :
      (∀ key, Option.Rel Same (xs.lookup key) (ys.lookup key)) → Same (.object xs) (.object ys)

mutual

theorem Same.refl : ∀ j : Json, Same j j
  | .null => .null
  | .bool b => .bool b
  | .number literal => .number literal
  | .string s => .string s
  | .array items => .array (Same.refl_items items)
  | .object fields => .object (Same.refl_fields fields)

theorem Same.refl_items : ∀ items : List Json, List.Forall₂ Same items items
  | [] => .nil
  | item :: rest => .cons (Same.refl item) (Same.refl_items rest)

theorem Same.refl_fields : ∀ (fields : List (String × Json)) (key : String),
    Option.Rel Same (fields.lookup key) (fields.lookup key)
  | [], _ => .none
  | (name, value) :: rest, key => by
      rw [List.lookup_cons]
      cases key == name with
      | true => exact .some (Same.refl value)
      | false => exact Same.refl_fields rest key

end

theorem Same.refl_lookup (o : Option Json) : Option.Rel Same o o := by
  cases o with
  | none => exact .none
  | some j => exact .some (Same.refl j)

theorem same_object_iff {xs ys : List (String × Json)} :
    Same (.object xs) (.object ys)
      ↔ ∀ key, Option.Rel Same (xs.lookup key) (ys.lookup key) := by
  constructor
  · intro h
    cases h with
    | object h => exact h
  · exact .object

theorem same_object_iff_of_forall {xs ys : List (String × Json)} (keys : List String)
    (h : ∀ key, key ∉ keys → xs.lookup key = ys.lookup key) :
    Same (.object xs) (.object ys)
      ↔ ∀ key ∈ keys, Option.Rel Same (xs.lookup key) (ys.lookup key) := by
  grind [same_object_iff, Same.refl_lookup]

theorem same_array_iff {xs ys : List Json} :
    Same (.array xs) (.array ys) ↔ List.Forall₂ Same xs ys := by
  constructor
  · intro h
    cases h with
    | array h => exact h
  · exact .array

theorem rel_none_iff {o : Option Json} : Option.Rel Same none o ↔ o = none := by
  cases o with
  | none => exact iff_of_true .none rfl
  | some j => exact iff_of_false (nofun) (nofun)

theorem rel_some_iff {j : Json} {o : Option Json} :
    Option.Rel Same (some j) o ↔ ∃ k, o = some k ∧ Same j k := by
  constructor
  · intro h
    cases h with
    | some h => exact ⟨_, rfl, h⟩
  · rintro ⟨k, rfl, h⟩
    exact .some h

theorem same_string_iff {s : String} {j : Json} : Same (.string s) j ↔ j = .string s := by
  constructor
  · intro h
    cases h
    rfl
  · rintro rfl
    exact .string s

end Same

section Lookup

theorem lookup_cons (name key : String) (value : Json) (rest : List (String × Json)) :
    ((name, value) :: rest).lookup key = if key = name then some value else rest.lookup key := by
  grind

theorem lookup_insert (name key : String) (value : Json) (fields : List (String × Json)) :
    (insert name value fields).lookup key
      = if key = name then some value else fields.lookup key := by
  induction fields with
  | nil => rw [insert, lookup_cons]
  | cons field rest ih =>
    rcases field with ⟨other, v⟩
    rw [insert]
    by_cases hname : other = name
    · rw [if_pos hname, lookup_cons, lookup_cons, hname]
      split_ifs <;> rfl
    · grind

theorem lookup_foldl_insert (key : String) {fields : List (String × Json)}
    (hnodup : (fields.map Prod.fst).Nodup) (start : List (String × Json)) :
    (fields.foldl (fun fields field => insert field.1 field.2 fields) start).lookup key
      = (fields.lookup key).or (start.lookup key) := by
  induction fields generalizing start with
  | nil => rfl
  | cons field rest ih =>
    rcases field with ⟨name, value⟩
    rw [List.map_cons, List.nodup_cons] at hnodup
    rw [List.foldl_cons, ih hnodup.2, lookup_insert, lookup_cons]
    by_cases hkey : key = name
    · grind
    · rw [if_neg hkey, if_neg hkey]

theorem lookup_filter (keep : String → Bool) (key : String) (fields : List (String × Json)) :
    (fields.filter (fun field => keep field.1)).lookup key
      = if keep key then fields.lookup key else none := by
  induction fields with
  | nil => split_ifs <;> rfl
  | cons field rest ih =>
    rcases field with ⟨name, value⟩
    by_cases hname : keep name = true
    · grind
    · grind

end Lookup

end Waygate.Json
