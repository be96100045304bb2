import Waygate.Core.Json
import Waygate.Theory.Codec.Delimited

/-!
# The Text of a JSON Value Determines It

Two values that are displayed alike are the same value. A number has no end of its own,
and is over when something follows that no number contains, which a comma, a bracket and
the end of the text all are.

## Main definitions

* `Ends`, `fromText`

## Theorems

* `text_peel`
* `toText_inj`: A value is determined by its text.
* `fromText_toText`: A value is read back from its text.
-/

namespace Waygate.Json

open Codec List

variable {c : Char} {j : Json}

def escaped : List Char :=
  '"' :: '\\' :: (List.range 32).map Char.ofNat

theorem escapeChar_plain (h : c ∉ escaped) : escapeChar c = [c] := by
  have hquote : c ≠ '"' := fun hc => h (hc ▸ mem_cons_self)
  have hslash : c ≠ '\\' := fun hc => h (hc ▸ mem_cons_of_mem _ mem_cons_self)
  have hcontrol : ¬ c.toNat < 32 := fun hc => h (mem_cons_of_mem _ (mem_cons_of_mem _
    (mem_map.mpr ⟨c.toNat, mem_range.mpr hc, Char.ofNat_toNat c⟩)))
  rw [escapeChar, if_neg hquote, if_neg hslash, if_neg (by omega), if_neg (by omega),
    if_neg (by omega), if_neg (by omega), if_neg (by omega), if_neg hcontrol]

theorem escapeChar_escaped : ∀ c ∈ escaped, (escapeChar c).head? = some '\\' := by
  have hall : escaped.all (fun c => (escapeChar c).head? == some '\\') = true := by
    decide +kernel
  exact fun c hc => eq_of_beq (all_eq_true.mp hall c hc)

theorem escaped_of_start : ∀ c ∈ escaped, ∀ d ∈ escaped,
    (escapeChar c).isPrefixOf (escapeChar d) = true → c = d := by
  have hall : escaped.all (fun c => escaped.all (fun d =>
      !(escapeChar c).isPrefixOf (escapeChar d) || c == d)) = true := by
    decide +kernel
  intro c hc d hd hstart
  have hpair := all_eq_true.mp (all_eq_true.mp hall c hc) d hd
  rw [hstart] at hpair
  exact eq_of_beq hpair

theorem escapeChar_head (c : Char) (r : List Char) : (escapeChar c ++ r).head? ≠ some '"' := by
  grind [escapeChar]

theorem delimits_escapeChar : Delimits (fun _ => True) Eq escapeChar := by
  intro c d _ _ r s h
  have heq : c = d := by
    by_cases hc : c ∈ escaped
    · by_cases hd : d ∈ escaped
      · rcases prefix_or_prefix_of_prefix (prefix_append (escapeChar c) r)
          (h ▸ prefix_append (escapeChar d) s) with hcd | hdc
        · exact escaped_of_start c hc d hd ( isPrefixOf_iff_prefix.mpr hcd)
        · exact (escaped_of_start d hd c hc ( isPrefixOf_iff_prefix.mpr hdc)).symm
      · -- An escape leads with a backslash, which is itself escaped.
        have hhead := congrArg List.head? h
        rw [escapeChar_plain hd, head?_append, escapeChar_escaped c hc] at hhead
        exact absurd (mem_cons_of_mem _ (Option.some.inj hhead ▸ mem_cons_self)) hd
    · by_cases hd : d ∈ escaped
      · have hhead := congrArg List.head? h
        rw [escapeChar_plain hc, head?_append, head?_append,
          escapeChar_escaped d hd] at hhead
        exact absurd (mem_cons_of_mem _ ((Option.some.inj hhead).symm ▸ mem_cons_self)) hc
      · rw [escapeChar_plain hc, escapeChar_plain hd] at h
        exact (List.cons.inj h).1
  rw [heq] at h
  exact ⟨heq, append_cancel_left h⟩

theorem delimits_quoted : Delimits (fun _ => True) Eq quoted := by
  intro a b _ _ r s h
  rcases delimits_closed delimits_escapeChar (fun c r _ => escapeChar_head c r) a.toList b.toList
    (fun _ _ => trivial) (fun _ _ => trivial) r s (List.cons.inj h).2 with ⟨hab, hrs⟩
  exact ⟨String.toList_inj.mp hab, hrs⟩

/-- What may follow a number without being read as part of it. -/
def Ends (r : List Char) : Prop :=
  ∀ c ∈ r.head?, numberChar c = false

theorem ends_cons {r : List Char} (h : numberChar c = false) : Ends (c :: r) :=
  fun _ hd => Option.some.inj hd ▸ h

theorem ends_itemsText (items : List Json) (r : List Char) : Ends (itemsText [','] items ++ r) := by
  cases items with
  | nil | cons => exact ends_cons (by decide)

theorem ends_fieldsText (fields : List (String × Json)) (r : List Char) :
    Ends (fieldsText [','] fields ++ r) := by
  cases fields with
  | nil | cons => exact ends_cons (by decide)

/-- What a text that begins with a character can only be. -/
inductive Kind where
  | null
  | yes
  | no
  | number
  | string
  | array
  | object
  | none
  deriving DecidableEq

def kindOf (c : Char) : Kind :=
  if c = 'n' then .null else if c = 't' then .yes else if c = 'f' then .no
  else if c = '"' then .string else if c = '[' then .array else if c = '\x7b' then .object
  else if numberChar c then .number else .none

def kind : Json → Kind
  | .null => .null
  | .bool b => if b then .yes else .no
  | .number _ => .number
  | .string _ => .string
  | .array _ => .array
  | .object _ => .object

theorem kindOf_number (h : numberChar c = true) : kindOf c = .number := by
  have hne : ∀ d, numberChar d = false → c ≠ d := fun d hd hcd => by
    rw [← hcd, h] at hd
    cases hd
  rw [kindOf, if_neg (hne 'n' (by decide)), if_neg (hne 't' (by decide)),
    if_neg (hne 'f' (by decide)), if_neg (hne '"' (by decide)), if_neg (hne '[' (by decide)),
    if_neg (hne '\x7b' (by decide)), if_pos h]

theorem numeric_ofNat (n : Nat) : Numeric (ofNat n) := by
  rcases repr_digits n with ⟨hne, hdigits⟩
  refine ⟨hne, all_eq_true.mpr (fun c hc => ?_)⟩
  simp only [numberChar, all_eq_true.mp hdigits c hc, Bool.true_or]

theorem text_head (j : Json) (h : Numeric j) (r : List Char) :
    ((text j ++ r).head?).map kindOf = some j.kind := by
  cases j with
  | bool b => cases b <;> (simp only [text]; rfl)
  | number literal =>
    simp only [Numeric] at h
    rcases hl : literal.toList with _ | ⟨c, rest⟩
    · exact absurd hl h.1
    · rw [hl, all_cons, Bool.and_eq_true] at h
      simp only [text, hl]
      exact congrArg some (kindOf_number h.2.1)
  | _ => simp only [text]; rfl

theorem text_ne_nil (h : Numeric j) : text j ≠ [] := by
  intro hnil
  have hhead := text_head j h []
  rw [hnil] at hhead
  cases hhead

theorem ItemsNumeric.of_mem {items : List Json} (h : ItemsNumeric items) (hj : j ∈ items) :
    Numeric j := by
  induction items with
  | nil => cases hj
  | cons item rest ih => grind [ItemsNumeric]

theorem FieldsNumeric.lookup {fields : List (String × Json)} (h : FieldsNumeric fields)
    {name : String} (hj : fields.lookup name = some j) : Numeric j := by
  induction fields with
  | nil => cases hj
  | cons field rest ih =>
    rcases field with ⟨key, value⟩
    simp only [FieldsNumeric] at h
    rw [List.lookup_cons] at hj
    by_cases hkey : (name == key) = true
    · rw [hkey] at hj
      cases hj
      exact h.1
    · rw [eq_false_of_ne_true hkey] at hj
      exact ih h.2 hj

theorem Numeric.get {v : Json} {name : String} (h : Numeric j) (hv : j.get name = some v) :
    Numeric v := by
  cases j with
  | object fields =>
    simp only [Numeric] at h
    exact h.lookup hv
  | _ => cases hv

theorem Numeric.of_mem {item : Json} {items : List Json} (h : Numeric j)
    (hitems : j.asArray = some items) (hitem : item ∈ items) : Numeric item := by
  cases j with
  | array xs =>
    cases hitems
    simp only [Numeric] at h
    exact h.of_mem hitem
  | _ => cases hitems

theorem kind_ne_none (j : Json) : j.kind ≠ .none := by
  cases j with
  | bool b => cases b <;> decide
  | _ => simp [kind]

theorem itemsText_cons_head {sep : List Char} (hsep : ']' ∉ sep) {item : Json}
    (h : Numeric item) (r : List Char) : (sep ++ (text item ++ r)).head? ≠ some ']' := by
  cases sep with
  | nil =>
    intro hhead
    have hkind := text_head item h r
    rw [nil_append] at hhead
    rw [hhead] at hkind
    exact kind_ne_none item (Option.some.inj hkind).symm
  | cons c rest => exact fun hc => hsep (Option.some.inj hc ▸ mem_cons_self)

theorem fieldsText_cons_head {sep : List Char} (hsep : '}' ∉ sep) (name : String)
    (r : List Char) : (sep ++ (quoted name ++ r)).head? ≠ some '}' := by
  cases sep with
  | nil => exact fun hc => absurd (Option.some.inj hc) (by decide)
  | cons c rest => exact fun hc => hsep (Option.some.inj hc ▸ mem_cons_self)

mutual

/-- A value is recognised by its text, whatever follows it that is not part of
    a number. -/
theorem text_peel (a b : Json) (ha : Numeric a) (hb : Numeric b) {r s : List Char} (hr : Ends r)
    (hs : Ends s) (h : text a ++ r = text b ++ s) : a = b ∧ r = s := by
  have hkind : a.kind = b.kind := by grind [text_head]
  cases a with
  | null =>
    cases b with
    | null => exact ⟨rfl, append_cancel_left h⟩
    | bool b => cases b <;> cases hkind
    | _ => cases hkind
  | bool x =>
    cases b with
    | bool y =>
      cases x <;> cases y <;>
        first | exact ⟨rfl, append_cancel_left h⟩ | cases hkind
    | _ => cases x <;> cases hkind
  | number x =>
    cases b with
    | number y =>
      simp only [text] at h
      simp only [Numeric] at ha hb
      rcases run_peel ha.2 hb.2 hr hs h with ⟨hxy, hrs⟩
      exact ⟨by rw [String.toList_inj.mp hxy], hrs⟩
    | bool b => cases b <;> cases hkind
    | _ => cases hkind
  | string x =>
    cases b with
    | string y =>
      simp only [text] at h
      rcases delimits_quoted x y trivial trivial r s h with ⟨hxy, hrs⟩
      exact ⟨by rw [hxy], hrs⟩
    | bool b => cases b <;> cases hkind
    | _ => cases hkind
  | array xs =>
    cases b with
    | array ys =>
      simp only [text, Numeric] at h ha hb
      rcases itemsText_peel xs ys ha hb [] not_mem_nil (List.cons.inj h).2 with
        ⟨hxy, hrs⟩
      exact ⟨by rw [hxy], hrs⟩
    | bool b => cases b <;> cases hkind
    | _ => cases hkind
  | object xs =>
    cases b with
    | object ys =>
      simp only [text, Numeric] at h ha hb
      rcases fieldsText_peel xs ys ha hb [] not_mem_nil (List.cons.inj h).2 with
        ⟨hxy, hrs⟩
      exact ⟨by rw [hxy], hrs⟩
    | bool b => cases b <;> cases hkind
    | _ => cases hkind

theorem itemsText_peel (xs ys : List Json) (hxs : ItemsNumeric xs) (hys : ItemsNumeric ys)
    (sep : List Char) (hsep : ']' ∉ sep) {r s : List Char}
    (h : itemsText sep xs ++ r = itemsText sep ys ++ s) : xs = ys ∧ r = s := by
  cases xs with
  | nil =>
    cases ys with
    | nil => exact ⟨rfl, append_cancel_left h⟩
    | cons y ys =>
      simp only [itemsText, ItemsNumeric, append_assoc] at h hys
      exact absurd (congrArg List.head? h).symm (itemsText_cons_head hsep hys.1 _)
  | cons x xs =>
    cases ys with
    | nil =>
      simp only [itemsText, ItemsNumeric, append_assoc] at h hxs
      exact absurd (congrArg List.head? h) (itemsText_cons_head hsep hxs.1 _)
    | cons y ys =>
      simp only [itemsText, ItemsNumeric, append_assoc] at h hxs hys
      rcases text_peel x y hxs.1 hys.1 (ends_itemsText xs r) (ends_itemsText ys s)
        (append_cancel_left h) with ⟨hxy, hrest⟩
      rcases itemsText_peel xs ys hxs.2 hys.2 [','] (by decide) hrest with ⟨hrests, hrs⟩
      exact ⟨by rw [hxy, hrests], hrs⟩

theorem fieldsText_peel (xs ys : List (String × Json)) (hxs : FieldsNumeric xs)
    (hys : FieldsNumeric ys) (sep : List Char) (hsep : '}' ∉ sep) {r s : List Char}
    (h : fieldsText sep xs ++ r = fieldsText sep ys ++ s) : xs = ys ∧ r = s := by
  match xs, ys with
  | [], [] => exact ⟨rfl, append_cancel_left h⟩
  | [], (name, value) :: rest =>
    simp only [fieldsText, append_assoc] at h
    exact absurd (congrArg List.head? h).symm (fieldsText_cons_head hsep name _)
  | (name, value) :: rest, [] =>
    simp only [fieldsText, append_assoc] at h
    exact absurd (congrArg List.head? h) (fieldsText_cons_head hsep name _)
  | (name, value) :: rest, (name', value') :: rest' =>
    simp only [fieldsText, FieldsNumeric, append_assoc, cons_append] at h hxs hys
    rcases delimits_quoted name name' trivial trivial _ _ (append_cancel_left h) with
      ⟨hname, hcolon⟩
    rcases text_peel value value' hxs.1 hys.1 (ends_fieldsText rest r) (ends_fieldsText rest' s)
      (List.cons.inj hcolon).2 with ⟨hvalue, hrest⟩
    rcases fieldsText_peel rest rest' hxs.2 hys.2 [','] (by decide) hrest with ⟨hrests, hrs⟩
    exact ⟨by rw [hname, hvalue, hrests], hrs⟩

end

theorem toText_inj {a b : Json} (ha : Numeric a) (hb : Numeric b) (h : toText a = toText b) :
    a = b := by
  have htext : text a ++ [] = text b ++ [] := by
    rw [append_nil, append_nil]
    exact String.ofList_injective h
  exact (text_peel a b ha hb (fun c hc => by cases hc) (fun c hc => by cases hc) htext).1

open Classical in
/-- The value that has the text, if there is one. -/
noncomputable def fromText (text : String) : Option Json :=
  if h : ∃ j, Numeric j ∧ toText j = text then some h.choose else none

theorem fromText_toText (h : Numeric j) : fromText (toText j) = some j := by
  have hsome : ∃ j', Numeric j' ∧ toText j' = toText j := ⟨j, h, rfl⟩
  rw [fromText, dif_pos hsome, toText_inj hsome.choose_spec.1 h hsome.choose_spec.2]

end Waygate.Json
