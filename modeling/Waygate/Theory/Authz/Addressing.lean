import Mathlib.Data.List.Forall2
import Waygate.Theory.Authz.Segment

/-!
# Addressing One Policy

An accepted segmentation is compared with the parser by the number of statements and the
set of their identifiers, and not one by one. The parser unescapes an identifier, which
never gets longer, so no two can change places. The tokenizer works on bytes; those of a
character that is not ASCII are not ASCII either, and it passes over both.

## Main definitions

* `Escapes`, `Addresses`

## Theorems

* `Cuts.lexFragments_utf8`, `eq_of_forall₂_perm`, `segmentVerified_addresses`
-/

namespace Waygate.Authz

open Text List

section Ranges

variable {n : Nat} {content text tail w : List Char} {fragments : List PolicyFragment}

def Contiguous : Nat → List PolicyFragment → Prop
  | _, [] => True
  | n, f :: fragments => f.leading.start = n ∧ n ≤ f.leading.stop
    ∧ f.statement.start = f.leading.stop ∧ f.leading.stop < f.statement.stop
    ∧ Contiguous f.statement.stop fragments

theorem Cuts.slices (h : Cuts n text fragments tail) (hcontent : content = w ++ text)
    (hn : w.length = n) :
    Contiguous n fragments
      ∧ text = fragments.flatMap (fun f => slice content f.leading ++ slice content f.statement)
        ++ tail
      ∧ fragments.map PolicyFragment.id
        = fragments.map (fun f => statementId (slice content f.statement)) := by
  induction h generalizing w with
  | nil => exact ⟨trivial, rfl, rfl⟩
  | @cons n t s rest tail fragments ht hbegins hends _ ih =>
    have hleading := slice_append w t (s ++ rest)
    have hstatement := slice_append (w ++ t) s rest
    rw [append_assoc, ← hcontent, length_append, hn] at hstatement
    rw [← hcontent, hn] at hleading
    rcases ih (w := w ++ (t ++ s)) (by rw [hcontent]; simp) (by simp [hn, Nat.add_assoc]) with
      ⟨hcontiguous, hrest, hids⟩
    refine ⟨⟨rfl, Nat.le_add_right _ _, rfl,
      Nat.lt_add_of_pos_right (length_pos_iff.mpr hends.ne_nil), hcontiguous⟩, ?_⟩
    simp only [flatMap_cons, map_cons, hleading, hstatement, append_assoc, ← hrest, ← hids,
      and_self]

theorem Cuts.unique {text' tail' : List Char} {fragments' : List PolicyFragment}
    (h : Cuts n text fragments tail) (h' : Cuts n text' fragments' tail') (heq : text = text')
    (htail : ended .code tail = 0) (htail' : ended .code tail' = 0) : fragments = fragments' := by
  have hnone : ∀ {t s rest : List Char}, Trivia t → Ends .code s →
      ended .code (t ++ (s ++ rest)) ≠ 0 := by
    intro t s rest ht hends
    rw [ended_append, ended_append, ht.scan, ht.ended, hends.ended]
    omega
  induction h generalizing text' fragments' with
  | nil =>
    cases h' with
    | nil => rfl
    | cons ht' _ hends' _ => exact absurd (heq ▸ htail) (hnone ht' hends')
  | cons ht hbegins hends _ ih =>
    cases h' with
    | nil => exact absurd (heq ▸ htail') (hnone ht hends)
    | cons ht' hbegins' hends' hrest' =>
      rcases ht.unique ht' (hbegins.append hends _) (hbegins'.append hends' _) heq with ⟨rfl, hs⟩
      rcases hends.unique hends' hs with ⟨rfl, rfl⟩
      rw [ih hrest' rfl htail]

def utf8 (text : List Char) : List Char :=
  text.flatMap (fun c => (String.utf8EncodeChar c).map Char.ofUInt8)

def byteSpan (content : List Char) (range : Span) : Span :=
  ⟨(utf8 (content.take range.start)).length, (utf8 (content.take range.stop)).length⟩

theorem utf8_append (a b : List Char) : utf8 (a ++ b) = utf8 a ++ utf8 b :=
  flatMap_append

theorem encodes_utf8 (text : List Char) : Encodes text (utf8 text) := by
  have hval : ∀ n < 256, (Char.ofUInt8 (UInt8.ofNat n)).toNat = n := fun n hn =>
    UInt8.toNat_ofNat_of_lt' hn
  have hbyte : ∀ n, 128 ≤ n → n < 256 → high (Char.ofUInt8 (UInt8.ofNat n)) = true :=
    fun n hlow hlt => decide_eq_true ((hval n hlt).symm ▸ hlow)
  induction text with
  | nil => exact .nil
  | cons c text ih =>
    rw [utf8, flatMap_cons, ← utf8]
    simp only [String.utf8EncodeChar, Char.toNat_val]
    by_cases hc : c.toNat ≤ 127
    · rw [if_pos hc, map_singleton, Char.toNat_inj.mp (hval c.toNat (by omega))]
      exact .same c ih
    · have hhigh : high c = true := decide_eq_true (by omega)
      rw [if_neg hc]
      split_ifs
      all_goals
        simp only [map_cons, map_nil, cons_append, nil_append]
        repeat first
          | exact .last hhigh (hbyte _ (by omega) (by omega)) ih
          | refine .more hhigh (hbyte _ (by omega) (by omega)) ?_

theorem Cuts.utf8 (h : Cuts n text fragments tail) (hcontent : content = w ++ text)
    (hn : w.length = n) :
    Cuts (utf8 w).length (utf8 text)
      (fragments.map (fun f =>
        { id := statementId (utf8 (slice content f.statement))
          leading := byteSpan content f.leading
          statement := byteSpan content f.statement })) (utf8 tail) := by
  induction h generalizing w with
  | nil => exact .nil _ _
  | @cons n t s rest tail fragments ht hbegins hends _ ih =>
    have hstatement := slice_append (w ++ t) s rest
    rw [append_assoc, ← hcontent, length_append, hn] at hstatement
    have hw : content.take n = w := by simp [hcontent, ← hn]
    have hwt : content.take (n + t.length) = w ++ t := by
      simp [hcontent, ← hn, take_length_add_append]
    have hwts : content.take (n + t.length + s.length) = w ++ (t ++ s) := by
      simp [hcontent, ← hn, Nat.add_assoc, take_length_add_append]
    have hrest := ih (w := w ++ (t ++ s)) (by rw [hcontent]; simp) (by simp [hn, Nat.add_assoc])
    rw [map_cons, hstatement]
    simp only [byteSpan, hw, hwt, hwts, utf8_append, length_append, ← Nat.add_assoc] at hrest ⊢
    exact .cons ((encodes_utf8 t).readTrivia.trans ht) ((encodes_utf8 s).begins hbegins)
      ((encodes_utf8 s).ends.mpr hends) hrest

/-- Each index that the tokenizer returns is that of a character. -/
theorem Cuts.lexFragments_utf8 (h : Cuts 0 content fragments tail)
    (htail : ended .code tail = 0) :
    (lexFragments (Authz.utf8 content)).map (fun f => (f.leading, f.statement))
      = fragments.map (fun f => (byteSpan content f.leading, byteSpan content f.statement)) := by
  rcases lexFragments_cuts (Authz.utf8 content) with ⟨tail', hcuts, htail'⟩
  have hbytes := (encodes_utf8 tail).ended.trans htail
  rw [hcuts.unique (h.utf8 (w := []) rfl rfl) rfl htail' hbytes, map_map]
  rfl

end Ranges

section Identifiers

variable {E : Escapes} {a lit s v : List Char} {id : Option (List Char)} {m : Mode}

/-- The escape sequences of a string literal. Each is longer than what it denotes, and
    only one that contains a quote stands for text with a quote. -/
structure Escapes where
  denotes : List Char → List Char → Prop
  longer : ∀ e v, denotes e v → (utf8 v).length < (utf8 e).length
  quote : ∀ e v, denotes e v → '"' ∈ e → '"' ∈ v

inductive Escapes.Unescapes (E : Escapes) : List Char → List Char → Prop
  | nil : Unescapes E [] []
  | plain {c : Char} {lit v : List Char} (hc : c ≠ '\\' ∧ c ≠ '"') (h : Unescapes E lit v) :
      Unescapes E (c :: lit) (c :: v)
  | escape {e u lit v : List Char} (he : E.denotes e u) (h : Unescapes E lit v) :
      Unescapes E (e ++ lit) (u ++ v)

theorem Escapes.Unescapes.spec (h : E.Unescapes lit v) :
    ('"' ∈ lit → '"' ∈ v) ∧ (v = lit ∨ (utf8 v).length < (utf8 lit).length) := by
  induction h with
  | nil => exact ⟨fun h => h, .inl rfl⟩
  | plain _ _ ih =>
    refine ⟨by grind, ?_⟩
    rcases ih.2 with rfl | hlt
    · exact .inl rfl
    · exact .inr (by simpa [utf8] using hlt)
  | escape he _ ih =>
    have hlonger := E.longer _ _ he
    have hquote := E.quote _ _ he
    rw [utf8_append, utf8_append, length_append, length_append]
    grind

def openedLiteral (after : List Char) : Option (List Char) :=
  match after.dropWhile whiteSpace with
  | '(' :: rest =>
    match rest.dropWhile whiteSpace with
    | '"' :: rest => some rest
    | _ => none
  | _ => none

/-- What follows each `@id("` that stands outside of strings and comments. -/
def idLiterals : Mode → List Char → List (List Char)
  | _, [] => []
  | m, c :: rest =>
    (if m.top ∧ c = '@' ∧ rest.take 2 = ['i', 'd'] then (openedLiteral (rest.drop 2)).toList
      else []) ++ idLiterals (m.next c) rest

/-- The parser reads the identifier of a statement from the literal of its `@id`. -/
def Escapes.ReadsId (E : Escapes) (s : List Char) (id : Option (List Char)) : Prop :=
  ∀ rest ∈ idLiterals .code s,
    ∃ lit tail v, rest = lit ++ '"' :: tail ∧ E.Unescapes lit v ∧ id = some v

theorem annotationValue_eq (after : List Char) :
    annotationValue after = (openedLiteral after).bind
      (fun rest => if '"' ∈ rest then some (rest.takeWhile (· ≠ '"')) else none) := by
  unfold annotationValue openedLiteral
  split
  · split <;> simp [*]
  · simp [*]

theorem statementIdFrom_some (h : statementIdFrom m s = some a) :
    ∃ rest ∈ idLiterals m s, a = rest.takeWhile (· ≠ '"') := by
  induction s generalizing m with
  | nil => cases h
  | cons c s ih =>
    rw [statementIdFrom] at h
    rw [idLiterals]
    split at h
    · rename_i hid
      rw [if_pos hid]
      split at h
      · rename_i value hvalue
        rw [annotationValue_eq, Option.bind_eq_some_iff] at hvalue
        rcases hvalue with ⟨rest, hrest, hvalue⟩
        refine ⟨rest, mem_append_left _ (by rw [hrest]; exact mem_cons_self), ?_⟩
        grind
      · grind
    · grind

/-- The text between the quotes is no shorter than the identifier, unless that contains
    a quote. -/
theorem readsId_some (h : E.ReadsId s id) (ha : statementId s = some a) :
    ∃ v, id = some v ∧ ('"' ∈ v ∨ v = a ∨ (utf8 v).length < (utf8 a).length) := by
  rcases statementIdFrom_some ha with ⟨rest, hrest, rfl⟩
  rcases h rest hrest with ⟨lit, tail, v, rfl, hv, rfl⟩
  refine ⟨v, rfl, ?_⟩
  by_cases hlit : '"' ∈ lit
  · exact .inl (hv.spec.1 hlit)
  · have htake : (lit ++ '"' :: tail).takeWhile (· ≠ '"') = lit := by
      rw [takeWhile_append_of_pos (fun c hc => decide_eq_true (ne_of_mem_of_not_mem hc hlit))]
      simp
    rw [htake]
    exact .inr hv.spec.2

/-- Two lists have the same entries in the same places, if the second has an entry
    wherever the first has one, equal or smaller, and they have the same entries. -/
theorem eq_of_forall₂_perm {α : Type} (size : α → Nat) {l l' : List (Option α)}
    (h : Forall₂ (fun o' o => ∀ x, o = some x → ∃ y, o' = some y ∧ (y = x ∨ size y < size x)) l' l)
    (hperm : (l.filterMap (fun o => o)).Perm (l'.filterMap (fun o => o))) : l = l' := by
  -- Two inequalities, of the number and of the sizes, that the permutation makes equations.
  have key : (l.filterMap (fun o => o)).length ≤ (l'.filterMap (fun o => o)).length
      ∧ ((l.filterMap (fun o => o)).length = (l'.filterMap (fun o => o)).length →
        ((l'.filterMap (fun o => o)).map size).sum ≤ ((l.filterMap (fun o => o)).map size).sum
        ∧ (((l'.filterMap (fun o => o)).map size).sum = ((l.filterMap (fun o => o)).map size).sum →
          l = l')) := by
    clear hperm
    induction h with
    | nil => exact ⟨Nat.le_refl _, fun _ => ⟨Nat.le_refl _, fun _ => rfl⟩⟩
    | @cons o' o l' l ho _ ih =>
      cases o with
      | none =>
        cases o' with
        | none => simpa using ih
        | some y =>
          simp only [filterMap_cons, length_cons]
          omega
      | some x =>
        rcases ho x rfl with ⟨y, rfl, hy⟩
        simp only [filterMap_cons, length_cons, map_cons, sum_cons]
        grind
  exact (key.2 hperm.length_eq).2 (hperm.map size).sum_nat.symm

end Identifiers

section Addressing

variable {content : List Char} {fragments : List PolicyFragment} {ids : List (Option (List Char))}
  {E : Escapes}

theorem ids_eq (hperm : (((statements content).map statementId).filterMap (fun p => p)).Perm
      (ids.filterMap (fun p => p))) (hids : Forall₂ E.ReadsId (statements content) ids) :
    (statements content).map statementId = ids := by
  -- What stands between quotes contains none, and the identifiers are the same.
  have hquote : ∀ id ∈ ids, ∀ v, id = some v → '"' ∉ v := by
    rintro id hid v rfl hv
    have hmem := hperm.mem_iff.mpr (mem_filterMap.mpr ⟨some v, hid, rfl⟩)
    rcases mem_filterMap.mp hmem with ⟨id, hid, rfl⟩
    rcases mem_map.mp hid with ⟨s, -, hs⟩
    rcases statementIdFrom_some hs with ⟨rest, -, rfl⟩
    simpa using all_eq_true.mp all_takeWhile _ hv
  refine eq_of_forall₂_perm (fun v => (utf8 v).length) ?_ hperm
  rw [forall₂_map_right_iff]
  refine ((forall₂_and_left _ _).mpr ⟨hquote, hids.flip⟩).imp ?_
  rintro id s ⟨hquote, hreads⟩ a ha
  rcases readsId_some hreads ha with ⟨v, rfl, hv⟩
  exact ⟨v, rfl, hv.resolve_left (hquote v rfl)⟩

/-- The fragments are where the tokenizer finds them in the bytes, they follow each other
    from the first byte to what the parser skips at the end, and each has the identifier that the
    parser gives to its statement. -/
structure Addresses (content : List Char) (fragments : List PolicyFragment)
    (ids : List (Option (List Char))) : Prop where
  contiguous : Contiguous 0 (lexFragments (utf8 content))
  spans : (lexFragments (utf8 content)).map (fun f => (f.leading, f.statement))
    = fragments.map (fun f => (byteSpan content f.leading, byteSpan content f.statement))
  joined : content = fragments.flatMap
    (fun f => slice content f.leading ++ slice content f.statement) ++ tailText content
  trivia : parserTrivia false (tailText content) = true
  ids : fragments.map PolicyFragment.id = ids

/-- An accepted segmentation addresses the right policies, for a parser that splits at the
    same semicolons and unescapes the literals of the identifiers. -/
theorem segmentVerified_addresses (E : Escapes) (parser : PolicyParser) {content : List Char}
    {fragments : List PolicyFragment} {ids : List (Option (List Char))}
    (h : segmentVerified parser content = .ok fragments)
    (hids : parser.fromStr content = .ok ids)
    (hreads : Forall₂ E.ReadsId (statements content) ids) : Addresses content fragments ids := by
  rcases segmentVerified_ok h with ⟨rfl, -, hcuts, htail⟩
  rcases segmentVerified_checks h with ⟨ids', hids', -, hperm, -⟩
  obtain rfl : ids' = ids := Except.ok.inj (hids'.symm.trans hids)
  rcases lexFragments_cuts (utf8 content) with ⟨_, hbytes, -⟩
  rcases hcuts.slices (w := []) (nil_append content).symm rfl with ⟨-, hjoined, hsame⟩
  have heq : (lexFragments content).map PolicyFragment.id
      = (statements content).map statementId := by
    rw [hsame, statements, map_map]
    rfl
  refine ⟨(hbytes.slices (w := []) rfl rfl).1,
    hcuts.lexFragments_utf8 (parserTrivia_ended htail), hjoined, htail,
    heq.trans (ids_eq ?_ hreads)⟩
  rw [← heq, filterMap_map]
  exact hperm

def quoteEscape : Escapes :=
  { denotes := fun e v => e = ['\\', '"'] ∧ v = ['"']
    longer := by
      rintro e v ⟨rfl, rfl⟩
      decide
    quote := by
      rintro e v ⟨rfl, rfl⟩ -
      exact mem_cons_self }

theorem segmentVerified_addresses_lines :
    Addresses onTwoLines (lexFragments onTwoLines) [some ['a'], some ['b']] := by
  have hreads : ∀ (c : Char) (s rest : List Char), c ≠ '\\' ∧ c ≠ '"' →
      idLiterals .code s = [c :: '"' :: rest] → quoteEscape.ReadsId s (some [c]) := by
    intro c s rest hc hs literal hliteral
    rw [hs, mem_singleton] at hliteral
    exact ⟨[c], rest, [c], hliteral, .plain hc .nil, rfl⟩
  have hstatements : statements onTwoLines = [permitA, forbidB] := by decide +kernel
  refine segmentVerified_addresses quoteEscape sampleParser (by decide +kernel)
    (by decide +kernel) ?_
  rw [hstatements]
  refine .cons (hreads 'a' _ (permitA.drop 7) (by decide) (by decide +kernel))
    (.cons (hreads 'b' _ (forbidB.drop 7) (by decide) (by decide +kernel)) .nil)

end Addressing

end Waygate.Authz
