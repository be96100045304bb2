import Mathlib.Algebra.Order.Ring.Nat

/-!
# JSON Values

The values `serde_json` and the database's `jsonb` pass around. A number is the literal
it is written with. An object is the list of its fields in the order they were first
inserted; a lookup finds the first with a name, and `Json.insert` replaces a value in
its place.

## Main definitions

* `Numeric`
* `Json`, `get`, `insert`: Values and their fields.
* `text`, `toText`: The compact form a value is displayed in.

## Theorems

* `asNat_ofNat`: A natural number is read back.
-/

namespace Waygate

inductive Json where
  | null
  | bool (b : Bool)
  | number (literal : String)
  | string (s : String)
  | array (items : List Json)
  | object (fields : List (String × Json))

namespace Json

def get (j : Json) (name : String) : Option Json :=
  match j with
  | .object fields => fields.lookup name
  | _ => none

def item (j : Json) (i : Nat) : Option Json :=
  match j with
  | .array items => items[i]?
  | _ => none

/-- `as_str`. -/
def asStr : Json → Option String
  | .string s => some s
  | _ => none

/-- `as_array`. -/
def asArray : Json → Option (List Json)
  | .array items => some items
  | _ => none

/-- `as_object`. -/
def asObject : Json → Option (List (String × Json))
  | .object fields => some fields
  | _ => none

/-- A whole number written in digits. -/
def asNat : Json → Option Nat
  | .number literal =>
    if literal.toList ≠ [] ∧ literal.toList.all Char.isDigit = true then
      some (Nat.ofDigitChars 10 literal.toList 0)
    else none
  | _ => none

/-- `as_u64`. -/
def asU64 (j : Json) : Option Nat :=
  j.asNat.filter (fun n => n < 2 ^ 64)

def ofNat (n : Nat) : Json :=
  .number (Nat.repr n)

theorem repr_digits (n : Nat) :
    (Nat.repr n).toList ≠ [] ∧ (Nat.repr n).toList.all Char.isDigit = true := by
  rw [Nat.toList_repr, List.all_eq_true]
  exact ⟨Nat.toDigits_ne_nil, fun c hc => Nat.isDigit_of_mem_toDigits (by decide) (by decide) hc⟩

theorem asNat_ofNat (n : Nat) : (ofNat n).asNat = some n := by
  simp only [ofNat, asNat, if_pos (repr_digits n)]
  rw [Nat.toList_repr, Nat.ofDigitChars_ten_toDigits]

theorem asU64_ofNat {n : Nat} (h : n < 2 ^ 64) : (ofNat n).asU64 = some n := by
  rw [asU64, asNat_ofNat, Option.filter_some, decide_eq_true h]
  rfl

def ofOption {α : Type} (f : α → Json) : Option α → Json
  | some a => f a
  | none => .null

/-- `Map::insert`. -/
def insert (name : String) (value : Json) : List (String × Json) → List (String × Json)
  | [] => [(name, value)]
  | field :: rest =>
    if field.1 = name then (name, value) :: rest else field :: insert name value rest

def hexDigit (n : Nat) : Char :=
  if n < 10 then Char.ofNat (48 + n) else Char.ofNat (87 + n)

/-- A character of a string, escaped where the format asks for it. -/
def escapeChar (c : Char) : List Char :=
  if c = '"' then ['\\', '"']
  else if c = '\\' then ['\\', '\\']
  else if c.toNat = 8 then ['\\', 'b']
  else if c.toNat = 9 then ['\\', 't']
  else if c.toNat = 10 then ['\\', 'n']
  else if c.toNat = 12 then ['\\', 'f']
  else if c.toNat = 13 then ['\\', 'r']
  else if c.toNat < 32 then
    ['\\', 'u', '0', '0', hexDigit (c.toNat / 16), hexDigit (c.toNat % 16)]
  else [c]

def quoted (s : String) : List Char :=
  '"' :: (s.toList.flatMap escapeChar ++ ['"'])

mutual

def text : Json → List Char
  | .null => ['n', 'u', 'l', 'l']
  | .bool true => ['t', 'r', 'u', 'e']
  | .bool false => ['f', 'a', 'l', 's', 'e']
  | .number literal => literal.toList
  | .string s => quoted s
  | .array items => '[' :: itemsText [] items
  | .object fields => '{' :: fieldsText [] fields

/-- The items of an array, up to its closing bracket. The first is led by
    `sep`, the others by a comma. -/
def itemsText (sep : List Char) : List Json → List Char
  | [] => [']']
  | item :: rest => sep ++ (text item ++ itemsText [','] rest)

def fieldsText (sep : List Char) : List (String × Json) → List Char
  | [] => ['}']
  | (name, value) :: rest => sep ++ (quoted name ++ ':' :: (text value ++ fieldsText [','] rest))

end

def numberChar (c : Char) : Bool :=
  c.isDigit || c == '+' || c == '-' || c == '.' || c == 'e' || c == 'E'

mutual

/-- The numbers of a value are written as numbers. -/
def Numeric : Json → Prop
  | .null => True
  | .bool _ => True
  | .number literal => literal.toList ≠ [] ∧ literal.toList.all numberChar = true
  | .string _ => True
  | .array items => ItemsNumeric items
  | .object fields => FieldsNumeric fields

def ItemsNumeric : List Json → Prop
  | [] => True
  | item :: rest => Numeric item ∧ ItemsNumeric rest

def FieldsNumeric : List (String × Json) → Prop
  | [] => True
  | (_, value) :: rest => Numeric value ∧ FieldsNumeric rest

end

/-- `Value::to_string`. -/
def toText (j : Json) : String :=
  String.ofList (text j)

end Json

end Waygate
