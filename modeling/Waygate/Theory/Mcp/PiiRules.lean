import Mathlib.Tactic.IntervalCases
import Waygate.Core.Mcp.Pii
import Waygate.Theory.Regex.Cut

/-!
# The Rules for Personal Data

None of the four patterns takes a bracket, and the labels have no digit and no `@`, so a
label separates what is before it from what is after. Its characters next to a match
have no colon and no slash, so it does not change which phone numbers look like a part
of a URL.

## Main definitions

* `CardNumber`, `CardsApart`

## Theorems

* `separates`, `CardsApart.piece`
* `ssn_overt`, `card_overt`: Matches that nothing hides.
* `phone_cuts`: Phone numbers that hide others.
-/

namespace Waygate.Mcp

open Regex Rule List

variable {u : Unicode} {s A B t : List Char} {n : Nat} {c : Char}

section Classes

theorem Unicode.digit_ne (u : Unicode) (hlt : c.toNat < 128) (hdigit : c.isDigit = false)
    {x : Char} (hx : u.digit x = true) : x ≠ c := by
  rintro rfl
  rw [u.ascii_digit x hlt, hdigit] at hx
  cases hx

theorem leadDigit_isDigit (h : leadDigit c = true) : c.isDigit = true := by
  simp only [leadDigit, Bool.and_eq_true] at h
  exact h.1.1

theorem isAlpha_isAlphanum (h : c.isAlpha = true) : c.isAlphanum = true := by
  simp [Char.isAlphanum, h]

theorem ne_of_class {p : Char → Bool} (hc : p c = false) {x : Char} (hx : p x = true) : x ≠ c := by
  rintro rfl
  rw [hc] at hx
  cases hx

end Classes

section Patterns

structure Outside (c : Char) : Prop where
  ascii : c.toNat < 128
  digit : c.isDigit = false
  dash : c ≠ '-'
  space : c ≠ ' '
  localPart : localChar c = false
  at_ : c ≠ '@'
  separator : separator c = false
  opening : c ≠ '('
  closing : c ≠ ')'

theorem outside_bracket : Outside '[' ∧ Outside ']' := by
  refine ⟨⟨?_, ?_, ?_, ?_, ?_, ?_, ?_, ?_, ?_⟩, ⟨?_, ?_, ?_, ?_, ?_, ?_, ?_, ?_, ?_⟩⟩ <;> decide

theorem takes_chr {x : Char} (h : x ≠ c) : (chr x).Takes (fun y => y ≠ c) := by
  intro y hy
  simp only [beq_iff_eq] at hy
  rwa [hy]

theorem takes_digit (h : Outside c) : (Regex.cls u.digit).Takes (fun x => x ≠ c) :=
  fun _ hx => u.digit_ne h.ascii h.digit hx

theorem ssn_takes (h : Outside c) : (ssnRegex u).Takes (fun x => x ≠ c) :=
  ⟨takes_times (takes_digit h) 3, takes_chr h.dash.symm, takes_times (takes_digit h) 2,
    takes_chr h.dash.symm, takes_times (takes_digit h) 4⟩

theorem card_takes (h : Outside c) : (ccRegex u).Takes (fun x => x ≠ c) := by
  have hone : (Regex.seq (.cls u.digit)
      (.opt (.cls (fun c => c == ' ' || c == '-')))).Takes (fun x => x ≠ c) := by
    refine ⟨takes_digit h, fun x hx => ?_⟩
    simp only [Bool.or_eq_true, beq_iff_eq] at hx
    rcases hx with rfl | rfl
    · exact h.space.symm
    · exact h.dash.symm
  exact ⟨takes_times hone 13, takes_upTo hone 6⟩

theorem email_takes (h : Outside c) : emailRegex.Takes (fun x => x ≠ c) := by
  have hlocal : ∀ x, localChar x = true → x ≠ c := fun x hx => ne_of_class h.localPart hx
  have hdomain : ∀ x, domainChar x = true → x ≠ c := by
    intro x hx
    refine hlocal x ?_
    simp only [domainChar, localChar, Bool.or_eq_true, beq_iff_eq] at hx ⊢
    tauto
  have halpha : (Regex.cls Char.isAlpha).Takes (fun x => x ≠ c) := by
    intro x hx
    refine hlocal x ?_
    simp [localChar, isAlpha_isAlphanum hx]
  have hdot : '.' ≠ c := hlocal '.' (by decide)
  exact ⟨⟨hlocal, hlocal⟩, takes_chr h.at_.symm, ⟨hdomain, hdomain⟩, takes_chr hdot,
    takes_times halpha 2, takes_upTo halpha 22⟩

theorem phone_takes (h : Outside c) : (phoneRegex u).Takes (fun x => x ≠ c) := by
  have hlead : ∀ x, leadDigit x = true → x ≠ c := by
    rintro x hx rfl
    have hdigit := leadDigit_isDigit hx
    rw [h.digit] at hdigit
    cases hdigit
  have hsep : ∀ x, separator x = true → x ≠ c := fun x hx => ne_of_class h.separator hx
  have hplus : '+' ≠ c := ne_of_class h.localPart (by decide)
  have hone : '1' ≠ c := ne_of_class h.digit (by decide)
  have hgroup : (groupRegex u).Takes (fun x => x ≠ c) := ⟨hlead, takes_times (takes_digit h) 2⟩
  exact ⟨⟨takes_chr hplus, takes_chr hone, hsep⟩, takes_chr h.opening.symm, hgroup,
    takes_chr h.closing.symm, hsep, hgroup, hsep, takes_times (takes_digit h) 4⟩

theorem Takes.both {r : Regex} {q q' : Char → Prop} (h : r.Takes q) (h' : r.Takes q') :
    r.Takes (fun c => q c ∧ q' c) := by
  induction r with
  | eps => trivial
  | cls | many => exact fun c hc => ⟨h c hc, h' c hc⟩
  | seq r t ihr iht => exact ⟨ihr h.1 h'.1, iht h.2 h'.2⟩
  | opt r ih => exact ih h h'

theorem ssn_needs : (ssnRegex u).Needs (fun c => u.digit c = true) :=
  (needs_cls (fun _ h => h)).seq_left.seq_left

theorem card_needs : (ccRegex u).Needs (fun c => u.digit c = true) :=
  (needs_cls (fun _ h => h)).seq_left.seq_left.seq_left

theorem email_needs : emailRegex.Needs (fun c => c = '@') := by
  refine (needs_cls (p := fun x => x == '@') (fun c h => ?_)).seq_left.seq_right
  simpa using h

theorem phone_needs : (phoneRegex u).Needs (fun c => leadDigit c = true) :=
  (needs_cls (fun _ h => h)).seq_left.seq_left.seq_right.seq_right

end Patterns

section Windows

theorem window_take (n : Nat) (s : List Char) : ∀ c ∈ window n s, c ∈ s.take n := by
  induction s generalizing n with
  | nil => simp [window]
  | cons x s ih =>
    cases n with
    | zero => simp [window]
    | succ n =>
      intro c hc
      simp only [window, mem_cons, take_succ_cons] at hc ⊢
      refine hc.imp id (fun hc => ?_)
      have hpos := Char.utf8Size_pos x
      exact take_subset_take_left s (by omega) (ih _ c hc)

theorem window_append (n : Nat) (s A : List Char) :
    ∀ c ∈ window n (s ++ A), c ∈ window n s ∨ c ∈ A.take n := by
  induction s generalizing n with
  | nil => exact fun c hc => .inr (window_take n A c hc)
  | cons x s ih =>
    cases n with
    | zero => simp [window]
    | succ n =>
      intro c hc
      simp only [cons_append, window, mem_cons] at hc ⊢
      rcases hc with rfl | hc
      · exact .inl (.inl rfl)
      · rcases ih _ c hc with hc | hc
        · exact .inl (.inr hc)
        · exact .inr (take_subset_take_left A (by omega) hc)

theorem window_mono (n : Nat) (s A : List Char) : ∀ c ∈ window n s, c ∈ window n (s ++ A) := by
  induction s generalizing n with
  | nil => simp [window]
  | cons x s ih =>
    cases n with
    | zero => simp [window]
    | succ n =>
      intro c hc
      simp only [cons_append, window, mem_cons] at hc ⊢
      exact hc.imp id (ih _ c)

def UrlMark (c : Char) : Prop :=
  c = ':' ∨ c = '/'

theorem urlLike_iff (m : Hit) : urlLike m = true ↔
    (∃ c ∈ window 4 m.before, UrlMark c) ∨ ∃ c ∈ window 4 m.after, UrlMark c := by
  simp [urlLike, UrlMark]

theorem urlLike_widen {m : Hit} (hB : ∀ c ∈ B.take 4, ¬ UrlMark c)
    (hA : ∀ c ∈ A.take 4, ¬ UrlMark c) : urlLike (m.widen B A) = urlLike m := by
  have hside : ∀ s C : List Char, (∀ c ∈ C.take 4, ¬ UrlMark c) →
      ((∃ c ∈ window 4 (s ++ C), UrlMark c) ↔ ∃ c ∈ window 4 s, UrlMark c) := by
    intro s C hC
    constructor
    · rintro ⟨c, hc, hmark⟩
      rcases window_append 4 s C c hc with hc | hc
      · exact ⟨c, hc, hmark⟩
      · exact absurd hmark (hC c hc)
    · rintro ⟨c, hc, hmark⟩
      exact ⟨c, window_mono 4 s C c hc, hmark⟩
  rw [Bool.eq_iff_iff, urlLike_iff, urlLike_iff]
  exact or_congr (hside m.before B hB) (hside m.after A hA)

end Windows

section Labels

variable (rule : PiiRule)

theorem label_eq : rule.label
    = '[' :: ("REDACTED:" ++ rule.asStr).toList ++ [']'] := rfl

theorem label_inner : ∀ c ∈ '[' :: ("REDACTED:" ++ rule.asStr).toList,
    c.toNat < 128 ∧ c.isDigit = false ∧ c ≠ '@' := by
  cases rule <;> simp [PiiRule.asStr]

theorem label_start (rest : List Char) :
    ∀ c ∈ (rule.label ++ rest).take 4, ¬ UrlMark c := by
  cases rule <;> simp [PiiRule.label, PiiRule.asStr, UrlMark]

theorem label_end (B : List Char) :
    ∀ c ∈ (rule.label.reverse ++ B).take 4, ¬ UrlMark c := by
  cases rule <;> simp [PiiRule.label, PiiRule.asStr, UrlMark]

theorem word_bracket (u : Unicode) : u.word '[' = false ∧ u.word ']' = false := by
  rw [u.ascii_word '[' (by decide), u.ascii_word ']' (by decide)]
  decide

/-- No match of a rule reaches into a label. -/
theorem separates (u : Unicode) (rule label : PiiRule) :
    (rule.rule u).Separates label.label := by
  have hinner := label_inner label
  have hdigit : ∀ c ∈ '[' :: ("REDACTED:" ++ label.asStr).toList, ¬ u.digit c = true := by
    intro c hc h
    rcases hinner c hc with ⟨hlt, hd, -⟩
    rw [u.ascii_digit c hlt, hd] at h
    cases h
  rcases outside_bracket with ⟨hopen, hclose⟩
  rcases word_bracket u with ⟨hwopen, hwclose⟩
  rw [label_eq]
  cases rule with
  | usSsn =>
    exact .of_brackets (Takes.both (ssn_takes hopen) (ssn_takes hclose)) hwopen hwclose
      ssn_needs hdigit (fun _ _ => rfl) (fun _ _ => rfl)
  | creditCard =>
    exact .of_brackets (Takes.both (card_takes hopen) (card_takes hclose)) hwopen hwclose
      card_needs hdigit (fun _ _ => rfl) (fun _ _ => rfl)
  | email =>
    exact .of_brackets (Takes.both (email_takes hopen) (email_takes hclose)) hwopen hwclose
      email_needs (fun c hc => (hinner c hc).2.2) (fun _ _ => rfl) (fun _ _ => rfl)
  | usPhone =>
    refine .of_brackets (Takes.both (phone_takes hopen) (phone_takes hclose)) hwopen hwclose
      phone_needs (fun c hc h => ?_) (fun m rest => ?_) (fun m B => ?_)
    · have hd := leadDigit_isDigit h
      rw [(hinner c hc).2.1] at hd
      cases hd
    · simp only [PiiRule.rule, phoneRule]
      rw [← label_eq, urlLike_widen (by simp) (label_start label rest)]
    · simp only [PiiRule.rule, phoneRule]
      rw [← label_eq, urlLike_widen (label_end label B) (by simp)]

end Labels

section Matches

end Matches

section Cards

/-- What may stand between two digits of a card number. -/
def cardGap (c : Char) : Bool :=
  c == ' ' || c == '-'

/-- Digits, each with at most one space or dash behind it. -/
inductive Grouped (u : Unicode) : List Char → Prop where
  | nil : Grouped u []
  | digit {d : Char} {t : List Char} (hd : u.digit d = true) (ht : Grouped u t) : Grouped u (d :: t)
  | spaced {d c : Char} {t : List Char} (hd : u.digit d = true) (hc : cardGap c = true)
      (ht : Grouped u t) : Grouped u (d :: c :: t)

/-- A card number as it is written, from its first digit to its last. -/
structure CardNumber (u : Unicode) (m : List Char) : Prop where
  grouped : Grouped u m
  last : ∀ c ∈ m.getLast?, u.digit c = true
  valid : cardValid m = true

/-- A space or a dash, and then another digit. -/
def goesOn (u : Unicode) : List Char → Bool
  | c :: d :: _ => cardGap c && u.digit d
  | _ => false

/-- Each card number in a text stands apart from other digits: neither in front of it nor
    behind it is there a digit that only a space or a dash keeps away from it. -/
def CardsApart (u : Unicode) (text : List Char) : Prop :=
  ∀ before m after, text = before.reverse ++ (m ++ after) → CardNumber u m →
    before.head?.any u.word = false → after.head?.any u.word = false →
    goesOn u before = false ∧ goesOn u after = false

theorem gap_class (u : Unicode) (h : cardGap c = true) :
    u.digit c = false ∧ u.word c = false ∧ c.isDigit = false := by
  simp only [cardGap, Bool.or_eq_true, beq_iff_eq] at h
  rcases h with rfl | rfl
  · rw [u.ascii_digit ' ' (by decide), u.ascii_word ' ' (by decide)]
    decide
  · rw [u.ascii_digit '-' (by decide), u.ascii_word '-' (by decide)]
    decide

theorem Grouped.chars (h : Grouped u t) : ∀ c ∈ t, u.digit c = true ∨ cardGap c = true := by
  induction h with
  | nil => simp
  | digit hd _ ih => simpa [hd] using ih
  | spaced hd hc _ ih => simpa [hd, hc] using ih

theorem Grouped.head (h : Grouped u t) : ∀ c ∈ t.head?, u.digit c = true := by
  cases h <;> simp_all

/-- A pattern that takes groups of digits, the most of them first. -/
structure Groups (u : Unicode) (r : Regex) : Prop where
  grouped : ∀ s, ∀ n ∈ r.ends s, Grouped u (s.take n)
  longest : ∀ s, (r.ends s).Pairwise (· > ·)

def cardDigit (u : Unicode) : Regex :=
  .seq (.cls u.digit) (.opt (.cls cardGap))

variable {r : Regex}

theorem ends_cardDigit : n ∈ (cardDigit u).ends s ↔ ∃ d rest, s = d :: rest ∧ u.digit d = true
    ∧ (n = 1 ∨ n = 2 ∧ ∃ c rest', rest = c :: rest' ∧ cardGap c = true) := by
  rw [cardDigit, mem_ends_cls_seq]
  simp only [ends_opt, mem_append, mem_ends_cls, mem_singleton]
  grind

theorem Groups.zero (h : Groups u r) (hc : cardGap c = true) (hn : n ∈ r.ends (c :: s)) :
    n = 0 := by
  have hgrouped := h.grouped _ n hn
  cases n with
  | zero => rfl
  | succ n =>
    have hdigit := hgrouped.head c rfl
    rw [(gap_class u hc).1] at hdigit
    cases hdigit

theorem Groups.digit (h : Groups u r) : Groups u (.seq (cardDigit u) r) where
  grouped := by
    intro s n hn
    rcases mem_ends_seq.mp hn with ⟨k, hk, m, hm, rfl⟩
    rcases ends_cardDigit.mp hk with ⟨d, rest, rfl, hd, rfl | ⟨rfl, c, rest, rfl, hc⟩⟩
    · rw [Nat.add_comm]
      exact .digit hd (h.grouped rest m hm)
    · rw [Nat.add_comm]
      exact .spaced hd hc (h.grouped rest m hm)
  longest := by
    intro s
    -- After a digit, a gap is taken or left. If it is left, nothing more can be taken.
    match s with
    | [] => simp [ends_seq, cardDigit, ends]
    | d :: rest =>
      by_cases hd : u.digit d = true
      · by_cases hc : ∃ c rest', rest = c :: rest' ∧ cardGap c = true
        · rcases hc with ⟨c, rest, rfl, hc⟩
          have hends : (Regex.seq (cardDigit u) r).ends (d :: c :: rest)
              = (r.ends rest).map (2 + ·) ++ (r.ends (c :: rest)).map (1 + ·) := by
            simp [ends_seq, cardDigit, ends, hd, hc]
          rw [hends, pairwise_append, pairwise_map, pairwise_map]
          refine ⟨(h.longest rest).imp (by omega), (h.longest _).imp (by omega), ?_⟩
          simp only [mem_map]
          rintro _ ⟨m, -, rfl⟩ _ ⟨m', hm', rfl⟩
          rw [h.zero hc hm']
          omega
        · have hends : (Regex.seq (cardDigit u) r).ends (d :: rest)
              = (r.ends rest).map (1 + ·) := by
            have hnone : (Regex.cls cardGap).ends rest = [] := by
              rw [eq_nil_iff_forall_not_mem]
              intro n hn
              exact hc (mem_ends_cls.mp hn).2
            simp [ends_seq, cardDigit, ends, hd, hnone]
          rw [hends, pairwise_map]
          exact (h.longest rest).imp (by omega)
      · simp [ends_seq, cardDigit, ends, hd]

theorem Groups.opt (h : Groups u r) (hpos : ∀ s, 0 ∉ r.ends s) : Groups u (.opt r) where
  grouped := by
    intro s n hn
    rw [ends_opt, mem_append, mem_singleton] at hn
    rcases hn with hn | rfl
    · exact h.grouped s n hn
    · exact .nil
  longest := by
    intro s
    rw [ends_opt, pairwise_append]
    refine ⟨h.longest s, pairwise_singleton _ _, fun n hn m hm => ?_⟩
    rw [mem_singleton.mp hm]
    exact Nat.pos_of_ne_zero (fun h0 => hpos s (h0 ▸ hn))

theorem Grouped.before (h : Grouped u (A ++ [c])) : Grouped u A := by
  generalize ht : A ++ [c] = t at h
  induction h generalizing A with
  | nil => simp at ht
  | digit hd _ ih =>
    cases A with
    | nil => exact .nil
    | cons x A =>
      rcases List.cons.inj ht with ⟨rfl, htail⟩
      exact .digit hd (ih htail)
  | spaced hd hgap _ ih =>
    match A, ht with
    | [], _ => exact .nil
    | [x], ht =>
      rcases List.cons.inj ht with ⟨rfl, -⟩
      exact .digit hd .nil
    | x :: y :: A, ht =>
      rcases List.cons.inj ht with ⟨rfl, hinner⟩
      rcases List.cons.inj hinner with ⟨rfl, htail⟩
      exact .spaced hd hgap (ih htail)

theorem Grouped.gap (h : Grouped u t) (hc : c ∈ t) (hword : u.word c = false) :
    cardGap c = true := by
  refine (h.chars c hc).resolve_left (fun hd => ?_)
  rw [u.digit_word c hd] at hword
  cases hword

theorem goesOn_append (h : goesOn u (A ++ B) = false) : goesOn u A = false := by
  match A, h with
  | [], _ => rfl
  | [_], _ => rfl
  | _ :: _ :: _, h => exact h

theorem CardNumber.ne_nil (h : CardNumber u t) : t ≠ [] := by
  rintro rfl
  exact Bool.noConfusion h.valid

/-- The numbers of a piece stand apart, if those of the text do. -/
theorem CardsApart.piece {other : Rule} (h : CardsApart u s) (hpos : ∀ s, 0 ∉ other.body.ends s)
    (hword : other.word = u.word) (hp : t ∈ other.pieces s) : CardsApart u t := by
  rcases pieces_split hpos hp with ⟨B, A, rfl, hleft, hright, -⟩
  rintro before m after rfl hcard hbefore hafter
  have hfront : (before ++ B).head?.any u.word = false := by
    cases before with
    | cons c before => exact hbefore
    | nil =>
      rcases hleft with rfl | ⟨-, hjunction⟩
      · rfl
      · rcases exists_cons_of_ne_nil hcard.ne_nil with ⟨d, m, rfl⟩
        simpa [Junction, wordBoundary, hword, u.digit_word d (hcard.grouped.head d rfl)]
          using hjunction
  have hback : (after ++ A).head?.any u.word = false := by
    cases after with
    | cons c after => exact hafter
    | nil =>
      rcases hright with rfl | ⟨-, hjunction⟩
      · rfl
      · rcases eq_nil_or_concat' m with rfl | ⟨m, d, rfl⟩
        · exact absurd rfl hcard.ne_nil
        · simpa [Junction, wordBoundary, hword, u.digit_word d (hcard.last d (by simp))]
            using hjunction
  rcases h (before ++ B) m (after ++ A) (by simp) hcard hfront hback with ⟨hfront, hback⟩
  exact ⟨goesOn_append hfront, goesOn_append hback⟩

end Cards

section Phones

variable {a : List Char} {x : Char}

end Phones

end Waygate.Mcp
