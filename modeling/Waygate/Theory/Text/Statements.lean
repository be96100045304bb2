import Mathlib.Data.List.Basic

/-!
# Statements in Text

Text with quoted strings and line comments, in which a statement ends at a semicolon
outside of both. No reader tells characters that are not ASCII apart, so the bytes of a
text read as the text does.

## Main definitions

* `Reads`
* `Mode`, `scan`: Where a reader is.
* `Ends`, `Trivia`, `Begins`: Statements, and what is between them.

## Theorems

* `readTrivia_scan`: Trivia leaves a reader in code, or in a comment.
* `Reads.unique`: A text is read in one way.
* `Encodes.ends`, `Encodes.readTrivia`: Bytes read as the text does.
-/

namespace Waygate.Text

open List

/-- What a reader is in the middle of. After a slash it is in code, unless
    another slash follows. -/
inductive Mode where
  | code
  | slash
  | string
  | escape
  | comment
  deriving DecidableEq

def Mode.next : Mode → Char → Mode
  | .code, c => if c = '"' then .string else if c = '/' then .slash else .code
  | .slash, c => if c = '"' then .string else if c = '/' then .comment else .code
  | .string, c => if c = '\\' then .escape else if c = '"' then .code else .string
  | .escape, _ => .string
  | .comment, c => if c = '\n' then .code else .comment

def Mode.top : Mode → Bool
  | .code | .slash => true
  | .string | .escape | .comment => false

def scan (m : Mode) (text : List Char) : Mode :=
  text.foldl Mode.next m

@[simp] theorem scan_nil (m : Mode) : scan m [] = m := rfl

@[simp] theorem scan_cons (m : Mode) (c : Char) (text : List Char) :
    scan m (c :: text) = scan (m.next c) text := rfl

@[simp] theorem scan_append (m : Mode) (a b : List Char) :
    scan m (a ++ b) = scan (scan m a) b :=
  foldl_append

section Ended

variable {m : Mode} {s : List Char}

def ended : Mode → List Char → Nat
  | _, [] => 0
  | m, c :: rest => (if m.top ∧ c = ';' then 1 else 0) + ended (m.next c) rest

theorem ended_append (m : Mode) (a b : List Char) :
    ended m (a ++ b) = ended m a + ended (scan m a) b := by
  induction a generalizing m with
  | nil => exact (Nat.zero_add _).symm
  | cons c rest ih =>
    rw [cons_append, ended, ended, ih, scan_cons, Nat.add_assoc]

def Ends : Mode → List Char → Prop
  | _, [] => False
  | m, c :: rest => if m.top ∧ c = ';' then rest = [] else Ends (m.next c) rest

theorem Ends.ended (h : Ends m s) : Text.ended m s = 1 := by
  induction s generalizing m with
  | nil => cases h
  | cons c rest ih =>
    rw [Ends] at h
    rw [Text.ended]
    split at h
    · rename_i hend
      rw [if_pos hend, h]
      rfl
    · rename_i hgo
      rw [if_neg hgo, ih h]

theorem Ends.scan (h : Ends m s) : Text.scan m s = .code := by
  induction s generalizing m with
  | nil => cases h
  | cons c rest ih =>
    rw [Ends] at h
    split at h
    · rename_i hend
      rcases hend with ⟨htop, rfl⟩
      rw [h]
      revert htop
      cases m <;> decide
    · exact ih h

theorem Ends.semicolon (h : Ends m s) : ∃ w, s = w ++ [';'] := by
  induction s generalizing m with
  | nil => cases h
  | cons c rest ih =>
    rw [Ends] at h
    split at h
    · rename_i hend
      exact ⟨[], by rw [h, hend.2]; rfl⟩
    · rcases ih h with ⟨w, rfl⟩
      exact ⟨c :: w, rfl⟩

theorem Ends.ne_nil (h : Ends m s) : s ≠ [] := by
  rintro rfl
  cases h

theorem ends_append {v p : List Char} (hp : p ≠ []) :
    Ends m (v ++ p) ↔ Text.ended m v = 0 ∧ Ends (Text.scan m v) p := by
  induction v generalizing m with
  | nil => simp only [nil_append, Text.ended, scan_nil, true_and]
  | cons c rest ih =>
    rw [cons_append, Ends, Text.ended, scan_cons]
    split
    · refine ⟨fun h => absurd (append_eq_nil_iff.mp h).2 hp, fun h => ?_⟩
      exact absurd h.1 (by omega)
    · rw [ih, Nat.zero_add]

theorem Ends.unique {s' r r' : List Char} (h : Ends m s) (h' : Ends m s') (heq : s ++ r = s' ++ r')
    :
    s = s' ∧ r = r' := by
  rcases append_eq_append_iff.mp heq with ⟨p, hs, hr⟩ | ⟨p, hs, hr⟩
  · rcases eq_nil_or_concat p with rfl | ⟨p', c, rfl⟩
    · exact ⟨by rw [hs, append_nil], by rw [hr, nil_append]⟩
    · rw [hs, ends_append (by simp), h.ended] at h'
      exact absurd h'.1 Nat.one_ne_zero
  · rcases eq_nil_or_concat p with rfl | ⟨p', c, rfl⟩
    · exact ⟨by rw [hs, append_nil], by rw [hr, nil_append]⟩
    · rw [hs, ends_append (by simp), h'.ended] at h
      exact absurd h.1 Nat.one_ne_zero

end Ended

section Trivia

variable {c : Char} {b b' : Bool} {r t : List Char} {m : Mode}

def asciiSpace (c : Char) : Bool :=
  c == ' ' || c == '\t' || c == '\n' || c == '\x0c' || c == '\r'

/-- The text is read as trivia, from within a comment or not. The result is
    whether it ends within a comment. -/
def readTrivia : Bool → List Char → Option Bool
  | inComment, [] => some inComment
  | true, c :: rest => readTrivia (c != '\n') rest
  | false, c :: rest =>
    if asciiSpace c then readTrivia false rest
    else if c = '/' ∧ rest.head? = some '/' then readTrivia true rest
    else none

def Trivia (t : List Char) : Prop := readTrivia false t = some false

def Begins : List Char → Prop
  | [] => False
  | c :: rest => asciiSpace c = false ∧ ¬ (c = '/' ∧ rest.head? = some '/')

theorem trivia_nil : Trivia [] := rfl

theorem asciiSpace_ne (h : asciiSpace c = true) :
    c ≠ '"' ∧ c ≠ '/' ∧ c ≠ '\\' ∧ c ≠ ';' := by
  refine ⟨?_, ?_, ?_, ?_⟩ <;> (rintro rfl; revert h; decide)

theorem readTrivia_append (h : readTrivia b t = some b') :
    readTrivia b (t ++ r) = readTrivia b' r := by
  induction t generalizing b with
  | nil =>
    cases h
    rfl
  | cons c rest ih =>
    cases b with
    | true => grind [readTrivia]
    | false =>
      rw [readTrivia] at h
      rw [cons_append, readTrivia]
      split at h
      · rename_i hspace
        rw [if_pos hspace]
        exact ih h
      · rename_i hspace
        rw [if_neg hspace]
        split at h
        · grind
        · cases h

theorem Trivia.append (ht : Trivia t) (hr : Trivia r) : Trivia (t ++ r) :=
  (readTrivia_append ht).trans hr

theorem readTrivia_before {g : List Char} (hc : c ≠ '/') (h : readTrivia b (g ++ c :: r) = some b')
    :
    ∃ b'', readTrivia b g = some b'' := by
  induction g generalizing b with
  | nil => exact ⟨b, rfl⟩
  | cons d rest ih =>
    cases b with
    | true => exact ih h
    | false =>
      rw [cons_append, readTrivia] at h
      rw [readTrivia]
      split at h
      · rename_i hspace
        rw [if_pos hspace]
        exact ih h
      · rename_i hspace
        rw [if_neg hspace]
        split at h
        · rename_i hslash
          cases rest with
          | nil => exact absurd (Option.some.inj hslash.2) hc
          | cons e rest' =>
            rw [if_pos ⟨hslash.1, hslash.2⟩]
            exact ih h
        · cases h

def triviaMode (inComment : Bool) : Mode :=
  if inComment then .comment else .code

theorem next_comment (c : Char) : (triviaMode true).next c = triviaMode (c != '\n') := by
  by_cases hc : c = '\n'
  · subst hc
    rfl
  · simp [triviaMode, Mode.next]

theorem next_space (hc : asciiSpace c = true) : Mode.code.next c = .code := by
  grind [asciiSpace, Mode.next]

theorem readTrivia_scan (h : readTrivia b t = some b') :
    scan (triviaMode b) t = triviaMode b' ∧ ended (triviaMode b) t = 0 := by
  induction t generalizing b with
  | nil =>
    cases h
    exact ⟨rfl, rfl⟩
  | cons c rest ih =>
    cases b with
    | true =>
      rw [readTrivia] at h
      rw [scan_cons, ended, if_neg (fun hend => by cases hend.1), Nat.zero_add, next_comment]
      exact ih h
    | false =>
      rw [readTrivia] at h
      split at h
      · rename_i hspace
        rw [scan_cons, ended, if_neg (fun hend => (asciiSpace_ne hspace).2.2.2 hend.2),
          Nat.zero_add]
        exact next_space hspace ▸ ih h
      · split at h
        · rename_i hslash
          rcases head?_eq_some_iff.mp hslash.2 with ⟨rest', rfl⟩
          rw [hslash.1]
          have hcomment := ih h
          simp only [triviaMode, scan_cons, ended, Mode.next, Mode.top] at hcomment ⊢
          simpa using hcomment
        · cases h

theorem Trivia.scan (h : Trivia t) : Text.scan .code t = .code :=
  (readTrivia_scan h).1

theorem Trivia.ended (h : Trivia t) : Text.ended .code t = 0 :=
  (readTrivia_scan h).2

end Trivia

section Reading

variable {r s : List Char}

/-- Statements that are read from a text, each after its trivia, and what is left. -/
inductive Reads : List Char → List (List Char) → List Char → Prop
  | nil (rest : List Char) : Reads rest [] rest
  | cons {t s rest tail : List Char} {statements : List (List Char)} (ht : Trivia t)
      (hbegins : Begins s) (hends : Ends .code s) (h : Reads rest statements tail) :
      Reads (t ++ (s ++ rest)) (s :: statements) tail

variable {text rest tail tail' : List Char} {statements statements' : List (List Char)}

theorem Reads.trans (h : Reads text statements rest) (h' : Reads rest statements' tail) :
    Reads text (statements ++ statements') tail := by
  induction h with
  | nil => exact h'
  | cons ht hbegins hends _ ih => exact .cons ht hbegins hends (ih h')

theorem Reads.consumed (h : Reads text statements rest) :
    ∃ w, text = w ++ rest ∧ scan .code w = .code
      ∧ ∀ rest', Reads (w ++ rest') statements rest' := by
  induction h with
  | nil => exact ⟨[], rfl, rfl, fun rest' => .nil rest'⟩
  | @cons t s _ _ _ ht hbegins hends _ ih =>
    rcases ih with ⟨w, rfl, hscan, hw⟩
    refine ⟨t ++ (s ++ w), by simp only [append_assoc], ?_, fun rest' => ?_⟩
    · rw [scan_append, scan_append, ht.scan, hends.scan, hscan]
    · rw [append_assoc, append_assoc]
      exact .cons ht hbegins hends (hw rest')

theorem Reads.length (h : Reads text statements tail) :
    ended .code text = statements.length + ended .code tail := by
  induction h with
  | nil => exact (Nat.zero_add _).symm
  | cons ht _ hends _ ih =>
    rw [ended_append, ended_append, ht.scan, ht.ended, hends.scan, hends.ended, ih,
      length_cons]
    omega

theorem Reads.of_nil (h : Reads text [] tail) : tail = text := by
  cases h
  rfl

theorem Reads.of_cons (h : Reads text (s :: statements) tail) :
    ∃ t rest, text = t ++ (s ++ rest) ∧ Trivia t ∧ Begins s ∧ Ends .code s
      ∧ Reads rest statements tail := by
  cases h with
  | cons ht hbegins hends h => exact ⟨_, _, rfl, ht, hbegins, hends, h⟩

theorem Begins.append (h : Begins s) (hends : Ends .code s) (r : List Char) :
    Begins (s ++ r) := by
  cases s with
  | nil => cases h
  | cons c rest =>
    refine ⟨h.1, fun hslash => h.2 ⟨hslash.1, ?_⟩⟩
    cases rest with
    | nil =>
      rcases hends.semicolon with ⟨w, hw⟩
      have hc : c = ';' := by
        cases w with
        | nil => exact head_eq_of_cons_eq hw
        | cons d w' => cases w' <;> cases hw
      rw [hc] at hslash
      exact absurd hslash.1 (by decide)
    | cons d rest' => exact hslash.2

theorem Begins.of_append (hs : s ≠ []) (h : Begins (s ++ r)) : Begins s := by
  cases s with
  | nil => exact absurd rfl hs
  | cons c rest =>
    refine ⟨h.1, fun hslash => h.2 ⟨hslash.1, ?_⟩⟩
    rcases head?_eq_some_iff.mp hslash.2 with ⟨rest', rfl⟩
    rfl

theorem Trivia.begins_nil {p : List Char} (hp : Trivia p) (h : Begins (p ++ r)) : p = [] := by
  cases p with
  | nil => rfl
  | cons c rest =>
    rw [Trivia, readTrivia, if_neg (by rw [h.1]; exact Bool.false_ne_true)] at hp
    split at hp
    · rename_i hslash
      rcases head?_eq_some_iff.mp hslash.2 with ⟨rest', rfl⟩
      exact absurd ⟨hslash.1, rfl⟩ h.2
    · cases hp

theorem Trivia.unique {t t' r' : List Char} (ht : Trivia t) (ht' : Trivia t') (hr : Begins r)
    (hr' : Begins r') (heq : t ++ r = t' ++ r') : t = t' ∧ r = r' := by
  rcases append_eq_append_iff.mp heq with ⟨p, rfl, rfl⟩ | ⟨p, rfl, rfl⟩
  · have hp : Trivia p := (readTrivia_append ht).symm.trans ht'
    rw [hp.begins_nil hr]
    exact ⟨(append_nil t).symm, rfl⟩
  · have hp : Trivia p := (readTrivia_append ht').symm.trans ht
    rw [hp.begins_nil hr']
    exact ⟨append_nil t', rfl⟩

theorem Reads.unique (h : Reads text statements tail) (h' : Reads text statements' tail')
    (htail : ended .code tail = 0) (htail' : ended .code tail' = 0) :
    statements = statements' ∧ tail = tail' := by
  have hlength : statements.length = statements'.length := by
    have h1 := h.length
    have h2 := h'.length
    omega
  induction statements generalizing text statements' with
  | nil => grind [Reads.of_nil]
  | cons s statements ih =>
    cases statements' with
    | nil => cases hlength
    | cons s' statements' =>
      rcases h.of_cons with ⟨t, rest, rfl, ht, hbegins, hends, hrest⟩
      rcases h'.of_cons with ⟨t', rest', heq, ht', hbegins', hends', hrest'⟩
      have hsame := (ht.unique ht' (hbegins.append hends _) (hbegins'.append hends' _) heq).2
      rcases hends.unique hends' hsame with ⟨rfl, rfl⟩
      rcases ih hrest hrest' (Nat.succ.inj hlength) with ⟨rfl, htails⟩
      exact ⟨rfl, htails⟩

end Reading

section Encoding

variable {c d : Char} {m : Mode} {b : Bool} {s t : List Char}

def high (c : Char) : Bool :=
  128 ≤ c.toNat

/-- The second text has, for each character of the first that is not ASCII, one or more
    that are not. -/
inductive Encodes : List Char → List Char → Prop
  | nil : Encodes [] []
  | same {s t : List Char} (c : Char) (h : Encodes s t) : Encodes (c :: s) (c :: t)
  | last {s t : List Char} {c d : Char} (hc : high c = true) (hd : high d = true)
      (h : Encodes s t) : Encodes (c :: s) (d :: t)
  | more {s t : List Char} {c d : Char} (hc : high c = true) (hd : high d = true)
      (h : Encodes (c :: s) t) : Encodes (c :: s) (d :: t)

theorem high_ne (hc : high c = true) (hd : high d = false) : c ≠ d := by
  rintro rfl
  cases hc.symm.trans hd

theorem high_space (hc : high c = true) : asciiSpace c = false := by
  simp only [asciiSpace, Bool.or_eq_false_iff, beq_eq_false_iff_ne]
  exact ⟨⟨⟨⟨high_ne hc rfl, high_ne hc rfl⟩, high_ne hc rfl⟩, high_ne hc rfl⟩, high_ne hc rfl⟩

theorem readTrivia_high (hc : high c = true) :
    readTrivia b (c :: s) = if b then readTrivia true s else none := by
  have hline : (c != '\n') = true := bne_iff_ne.mpr (high_ne hc rfl)
  have hslash : c ≠ '/' := high_ne hc rfl
  cases b <;> simp [readTrivia, hline, hslash, high_space hc]

theorem ends_high (hc : high c = true) : Ends m (c :: s) ↔ Ends (m.next c) s := by
  rw [Ends, if_neg (fun hend => high_ne hc rfl hend.2)]

theorem ended_high (hc : high c = true) : Text.ended m (c :: s) = Text.ended (m.next c) s := by
  rw [Text.ended, if_neg (fun hend => high_ne hc rfl hend.2), Nat.zero_add]

theorem next_high (hc : high c = true) (hd : high d = true) :
    m.next d = m.next c ∧ (m.next d).next c = m.next c := by
  have hne : ∀ {e}, high e = true → e ≠ '"' ∧ e ≠ '/' ∧ e ≠ '\\' ∧ e ≠ '\n' := fun he =>
    ⟨high_ne he rfl, high_ne he rfl, high_ne he rfl, high_ne he rfl⟩
  have hc := hne hc
  have hd := hne hd
  cases m <;> simp [Mode.next, hc, hd]

theorem Encodes.head (h : Encodes s t) (hd : high d = false) :
    t.head? = some d ↔ s.head? = some d := by
  cases h with
  | nil | same => exact Iff.rfl
  | last hc he | more hc he =>
    exact iff_of_false (fun h => high_ne he hd (Option.some.inj h))
      (fun h => high_ne hc hd (Option.some.inj h))

theorem Encodes.ends (h : Encodes s t) : Ends m t ↔ Ends m s := by
  induction h generalizing m with
  | nil => exact Iff.rfl
  | @same s t c h ih =>
    have hnil : t = [] ↔ s = [] := by cases h <;> simp
    rw [Ends, Ends, ih, hnil]
  | last hc hd _ ih => rw [ends_high hd, ends_high hc, ih, (next_high hc hd).1]
  | more hc hd _ ih => rw [ends_high hd, ih, ends_high hc, ends_high hc, (next_high hc hd).2]

theorem Encodes.ended (h : Encodes s t) : Text.ended m t = Text.ended m s := by
  induction h generalizing m with
  | nil => rfl
  | same c _ ih => rw [Text.ended, Text.ended, ih]
  | last hc hd _ ih => rw [ended_high hd, ended_high hc, ih, (next_high hc hd).1]
  | more hc hd _ ih =>
    rw [ended_high hd, ih, ended_high hc, ended_high hc, (next_high hc hd).2]

theorem Encodes.readTrivia (h : Encodes s t) : Text.readTrivia b t = Text.readTrivia b s := by
  induction h generalizing b with
  | nil => rfl
  | @same s t c h ih => cases b <;> simp only [Text.readTrivia, ih, h.head (d := '/') rfl]
  | last hc hd _ ih => rw [readTrivia_high hd, readTrivia_high hc, ih]
  | more hc hd _ ih =>
    rw [readTrivia_high hd, readTrivia_high hc, ih, readTrivia_high hc]
    cases b <;> rfl

theorem Encodes.begins (h : Encodes s t) (hs : Begins s) : Begins t := by
  cases h with
  | nil => exact hs
  | same c h => exact ⟨hs.1, fun hslash => hs.2 ⟨hslash.1, (h.head rfl).mp hslash.2⟩⟩
  | last hc hd | more hc hd => exact ⟨high_space hd, fun hslash => high_ne hd rfl hslash.1⟩

end Encoding

end Waygate.Text
