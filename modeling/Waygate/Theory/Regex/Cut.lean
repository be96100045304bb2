import Mathlib.Algebra.GroupWithZero.Nat
import Waygate.Theory.Regex.Locality

/-!
# Cutting a Text at the Matches of a Rule

Replacing the accepted matches of a rule by a label cuts the text into pieces. A label
that no match can pass, and at which no word goes on, lets every piece be matched alone.

## Main definitions

* `Separates`, `Overt`, `Cuts`
* `pieces`: What is between the accepted matches.

## Theorems

* `clean`
* `found_join`, `replace_join`: Pieces are matched alone.
* `spans_piece`: A match of a piece is one of the text.
* `not_spans_pieces`: What is not hidden does not come back.
-/

namespace Waygate

def Token.text : Token → List Char
  | .gap c => [c]
  | .hit m => m.text

namespace Rule

open List

variable {rule other : Rule} {b s p A B : List Char} {n : Nat} {ts : List Token}
  {label label' : List Char}

section Pieces

def prepend (t : List Char) : List (List Char) → List (List Char)
  | [] => [t]
  | p :: ps => (t ++ p) :: ps

def cut (rule : Rule) : List Token → List (List Char)
  | [] => [[]]
  | t :: rest => if rule.accepts t then [] :: cut rule rest else prepend t.text (cut rule rest)

def pieces (rule : Rule) (s : List Char) : List (List Char) :=
  rule.cut (rule.tokens s)

theorem exists_cut (rule : Rule) (ts : List Token) : ∃ first others,
    rule.cut ts = first :: others := by
  cases ts with
  | nil => exact ⟨[], [], rfl⟩
  | cons t rest =>
    simp only [cut]
    split
    · exact ⟨[], _, rfl⟩
    · cases h : rule.cut rest with
      | nil => exact ⟨t.text, [], rfl⟩
      | cons p ps => exact ⟨t.text ++ p, ps, rfl⟩

theorem cut_reject {t : Token} (h : rule.accepts t = false) {first : List Char}
    {others : List (List Char)} (hcut : rule.cut ts = first :: others) :
    rule.cut (t :: ts) = (t.text ++ first) :: others := by
  simp [cut, h, hcut, prepend]

theorem cut_accept {t : Token} (h : rule.accepts t = true) :
    rule.cut (t :: ts) = [] :: rule.cut ts := by
  simp [cut, h]

theorem intercalate_cons {l : List Char} {ls : List (List Char)} (h : ls ≠ []) :
    List.intercalate label (l :: ls) = l ++ (label ++ List.intercalate label ls) := by
  cases ls with
  | nil => exact absurd rfl h
  | cons l' ls => simp [List.intercalate, List.intersperse]

theorem intercalate_prepend (t : List Char) (ls : List (List Char)) :
    List.intercalate label (prepend t ls) = t ++ List.intercalate label ls := by
  cases ls with
  | nil => simp [prepend, List.intercalate]
  | cons l ls =>
    by_cases hls : ls = []
    · simp [hls, prepend, List.intercalate]
    · simp [prepend, intercalate_cons hls]

theorem flatMap_render (ts : List Token) :
    ts.flatMap (rule.render label) = List.intercalate label (rule.cut ts) := by
  induction ts with
  | nil => rfl
  | cons t ts ih =>
    rcases exists_cut rule ts with ⟨first, others, hcut⟩
    rw [flatMap_cons, ih]
    cases haccept : rule.accepts t with
    | true =>
      rw [cut_accept haccept, intercalate_cons (by simp [hcut])]
      cases t with
      | gap c => simp [accepts] at haccept
      | hit m => simp_all [render, accepts]
    | false =>
      have hrender : rule.render label t = t.text := by
        cases t with
        | gap c => rfl
        | hit m => simp_all [render, accepts, Token.text]
      rw [hrender, ← intercalate_prepend]
      simp [cut, haccept]

theorem replace_eq (label s : List Char) :
    rule.replace label s = List.intercalate label (rule.pieces s) :=
  flatMap_render _

theorem cut_of_none (h : ts.any rule.accepts = false) :
    rule.cut ts = [ts.flatMap Token.text] := by
  induction ts with
  | nil => rfl
  | cons t ts ih =>
    simp only [any_cons, Bool.or_eq_false_iff] at h
    rw [cut_reject h.1 (ih h.2), flatMap_cons]

theorem text_tokensFrom (hpos : ∀ s, 0 ∉ rule.body.ends s) (b s : List Char) :
    (rule.tokensFrom 0 b s).flatMap Token.text = s := by
  induction b, s using tokens_induction rule hpos with
  | nil b => rfl
  | gap b x s hfirst ih => simp [tokensFrom_gap hfirst, ih, Token.text]
  | hit b s n hfirst hn hle ih =>
    rw [tokensFrom_hit hfirst (by omega), flatMap_cons, ih]
    exact take_append_drop n s

theorem replace_of_not_found (hpos : ∀ s, 0 ∉ rule.body.ends s) (h : rule.found s = false) :
    rule.replace label s = s := by
  rw [replace_eq, pieces, cut_of_none h, tokens, text_tokensFrom hpos]
  simp [List.intercalate]

theorem count_eq_zero_iff : rule.count s = 0 ↔ rule.found s = false := by
  rw [count, found, countP_eq_zero, any_eq_false]

/-- A match takes a character at least, and the pieces have the rest. -/
theorem count_pieces (hpos : ∀ s, 0 ∉ rule.body.ends s) (s : List Char) :
    rule.count s + ((rule.pieces s).map List.length).sum ≤ s.length := by
  have hgeneral : ∀ b s, (rule.tokensFrom 0 b s).countP rule.accepts
      + ((rule.cut (rule.tokensFrom 0 b s)).map List.length).sum ≤ s.length := by
    intro b s
    induction b, s using tokens_induction rule hpos with
    | nil b => simp [tokensFrom, cut]
    | gap b x s hfirst ih =>
      rcases exists_cut rule (rule.tokensFrom 0 (x :: b) s) with ⟨first, others, hcut⟩
      rw [tokensFrom_gap hfirst, cut_reject rfl hcut, countP_cons_of_neg (by simp [accepts])]
      rw [hcut] at ih
      simp only [map_cons, sum_cons, length_append, Token.text, length_cons, length_nil] at ih ⊢
      omega
    | hit b s n hfirst hn hle ih =>
      rcases exists_cut rule (rule.tokensFrom 0 ((s.take n).reverse ++ b) (s.drop n))
        with ⟨first, others, hcut⟩
      rw [tokensFrom_hit hfirst (by omega)]
      rw [hcut, length_drop] at ih
      cases haccept : rule.accepts (.hit ⟨b, s.take n, s.drop n⟩) with
      | true =>
        rw [cut_accept haccept, countP_cons_of_pos haccept, hcut]
        simp only [map_cons, sum_cons, length_nil] at ih ⊢
        omega
      | false =>
        rw [cut_reject haccept hcut, countP_cons_of_neg (by simp [haccept])]
        simp only [map_cons, sum_cons, length_append, Token.text, length_take] at ih ⊢
        omega
  exact hgeneral [] s

end Pieces

section Labels

/-- A label that separates texts for a rule: no match passes it, starts in it or
    looks beyond it. -/
structure Separates (rule : Rule) (label : List Char) : Prop where
  pos : ∀ s, 0 ∉ rule.body.ends s
  stops : ∀ rest, rule.StopsAt (label ++ rest)
  gaps : ∀ b rest, rule.tokensFrom 0 b (label ++ rest)
    = label.map .gap ++ rule.tokensFrom 0 (label.reverse ++ b) rest
  apart : ∀ B, rule.Apart (label.reverse ++ B)
  blindAfter : ∀ m rest, rule.accept (m.widen [] (label ++ rest)) = rule.accept m
  blindBefore : ∀ m B, rule.accept (m.widen (label.reverse ++ B) []) = rule.accept m

/-- A label in brackets that the rule does not take. -/
theorem Separates.of_brackets {q : Char → Prop} {opening closing : Char} {inner : List Char}
    (htakes : rule.body.Takes (fun c => c ≠ opening ∧ c ≠ closing))
    (hopening : rule.word opening = false) (hclosing : rule.word closing = false)
    (hneeds : rule.body.Needs q) (hinner : ∀ c ∈ opening :: inner, ¬ q c)
    (hafter : ∀ m rest, rule.accept (m.widen [] ((opening :: inner ++ [closing]) ++ rest))
      = rule.accept m)
    (hbefore : ∀ m B, rule.accept (m.widen ((opening :: inner ++ [closing]).reverse ++ B) [])
      = rule.accept m) :
    rule.Separates (opening :: inner ++ [closing]) := by
  have hstops : ∀ c, c = opening ∨ c = closing → rule.word c = false →
      ∀ rest, rule.StopsAt (c :: rest) := by
    intro c hc hword rest
    refine ⟨by simp [Apart, hword], fun s => Regex.ends_append_of_stops htakes ?_⟩
    simp only [head?_cons, Option.mem_def, Option.some.injEq]
    rintro x rfl ⟨ho, hcl⟩
    exact hc.elim ho hcl
  refine ⟨hneeds.pos, fun rest => hstops opening (.inl rfl) hopening _, fun b rest => ?_,
    fun B => by simp [Apart, hclosing], hafter, hbefore⟩
  -- Up to the closing bracket there are only gaps, and nothing starts with it.
  have hnone : ∀ b, rule.first b (closing :: rest) = none := by
    intro b
    unfold first
    split
    · rw [find?_eq_none]
      intro n hn
      have hends := (hstops closing (.inr rfl) hclosing rest).ends []
      rw [nil_append] at hends
      rw [hends] at hn
      have hle := Regex.ends_le hn
      simp only [length_nil, Nat.le_zero] at hle
      exact absurd (hle ▸ hn) (hneeds.pos [])
    · rfl
  have happend : opening :: inner ++ [closing] ++ rest
      = (opening :: inner) ++ (closing :: rest) := by simp
  rw [happend, tokensFrom_append hneeds.pos (hstops closing (.inr rfl) hclosing rest),
    tokensFrom_gaps hneeds hinner, tokensFrom_gap (hnone _)]
  simp [Token.widen]

theorem tokens_join (h : rule.Separates label) (s rest : List Char) :
    rule.tokens (s ++ (label ++ rest))
      = (rule.tokens s).map (Token.widen [] (label ++ rest)) ++ (label.map .gap
        ++ (rule.tokens rest).map (Token.widen (label.reverse ++ s.reverse) [])) := by
  have hbefore := tokensFrom_before h.pos (h.apart s.reverse) [] rest
  rw [tokens, tokensFrom_append h.pos (h.stops rest), append_nil, h.gaps]
  rw [nil_append] at hbefore
  rw [hbefore]
  rfl

theorem accepts_widen_after (h : rule.Separates label) (rest : List Char) (t : Token) :
    rule.accepts (t.widen [] (label ++ rest)) = rule.accepts t := by
  cases t with
  | gap c => rfl
  | hit m => exact h.blindAfter m rest

theorem accepts_widen_before (h : rule.Separates label) (B : List Char) (t : Token) :
    rule.accepts (t.widen (label.reverse ++ B) []) = rule.accepts t := by
  cases t with
  | gap c => rfl
  | hit m => exact h.blindBefore m B

theorem count_append (h : rule.Separates label) (s rest : List Char) :
    rule.count (s ++ (label ++ rest)) = rule.count s + rule.count rest := by
  have hafter : (rule.accepts ∘ Token.widen [] (label ++ rest)) = rule.accepts :=
    funext (accepts_widen_after h rest)
  have hbefore : (rule.accepts ∘ Token.widen (label.reverse ++ s.reverse) []) = rule.accepts :=
    funext (accepts_widen_before h s.reverse)
  have hlabel : (label.map Token.gap).countP rule.accepts = 0 := by
    simp [countP_map, accepts, Function.comp_def]
  simp only [count, tokens_join h, countP_append, hlabel, Nat.zero_add]
  rw [countP_map, countP_map, hafter, hbefore]

theorem replace_append (h : rule.Separates label) (s rest : List Char) :
    rule.replace label' (s ++ (label ++ rest))
      = rule.replace label' s ++ (label ++ rule.replace label' rest) := by
  have hafter : ∀ t : Token, rule.render label' (t.widen [] (label ++ rest))
      = rule.render label' t := by
    intro t
    cases t with
    | gap c => rfl
    | hit m =>
      simp only [Token.widen, render]
      rw [h.blindAfter m rest]
      rfl
  have hbefore : ∀ t : Token, rule.render label' (t.widen (label.reverse ++ s.reverse) [])
      = rule.render label' t := by
    intro t
    cases t with
    | gap c => rfl
    | hit m =>
      simp only [Token.widen, render]
      rw [h.blindBefore m s.reverse]
      rfl
  have hlabel : (label.map Token.gap).flatMap (rule.render label') = label := by
    simp [flatMap_map, render]
  rw [replace, tokens_join h, flatMap_append, flatMap_append, hlabel,
    flatMap_map, flatMap_map]
  simp only [hafter, hbefore]
  rfl

theorem count_join (h : rule.Separates label) (ls : List (List Char)) :
    rule.count (List.intercalate label ls) = (ls.map rule.count).sum := by
  induction ls with
  | nil => rfl
  | cons l ls ih =>
    by_cases hls : ls = []
    · simp [hls, List.intercalate]
    · rw [intercalate_cons hls, count_append h, ih, map_cons, sum_cons]

theorem replace_join (h : rule.Separates label) (ls : List (List Char)) :
    rule.replace label' (List.intercalate label ls)
      = List.intercalate label (ls.map (rule.replace label')) := by
  induction ls with
  | nil => rfl
  | cons l ls ih =>
    by_cases hls : ls = []
    · simp [hls, List.intercalate]
    · rw [intercalate_cons hls, replace_append h, ih, map_cons,
        intercalate_cons (by simpa using hls)]

end Labels

section Junctions

def Junction (rule : Rule) (before after : List Char) : Prop :=
  wordBoundary rule.word before.head? after.head? = true

def IsMatch (rule : Rule) (t : List Char) : Prop :=
  ∃ s n, n ∈ rule.body.ends s ∧ t = s.take n

theorem first_of_junction (h : rule.Junction b s) :
    rule.first b s = (rule.body.ends s).find? (rule.closes b s) := by
  unfold first
  exact if_pos h

theorem first_of_not_junction (h : ¬ rule.Junction b s) : rule.first b s = none := by
  unfold first
  exact if_neg h

theorem first_spec (h : rule.first b s = some n) :
    rule.Junction b s ∧ n ∈ rule.body.ends s ∧ rule.closes b s n = true := by
  unfold first at h
  split at h
  · exact ⟨‹_›, mem_of_find?_eq_some h, find?_some h⟩
  · cases h

def Right (rule : Rule) (before A : List Char) : Prop :=
  A = [] ∨ (∃ t A', rule.IsMatch t ∧ A = t ++ A') ∧ rule.Junction before A

def Left (rule : Rule) (B after : List Char) : Prop :=
  B = [] ∨ (∃ t B', rule.IsMatch t ∧ B = t.reverse ++ B') ∧ rule.Junction B after

/-- The first piece, and each of the others, with what stands around it. -/
theorem cut_split (hpos : ∀ s, 0 ∉ rule.body.ends s) (b s : List Char) {first : List Char}
    {others : List (List Char)} (h : rule.cut (rule.tokensFrom 0 b s) = first :: others) :
    (∃ A, s = first ++ A ∧ rule.Right (first.reverse ++ b) A)
      ∧ ∀ p ∈ others, ∃ B A, b.reverse ++ s = B.reverse ++ (p ++ A)
        ∧ rule.Left B (p ++ A) ∧ rule.Right (p.reverse ++ B) A
        ∧ ∃ rest, rule.cut (rule.tokensFrom 0 B (p ++ A)) = p :: rest := by
  induction b, s using tokens_induction rule hpos generalizing first others with
  | nil b =>
    simp only [tokensFrom, cut, List.cons.injEq] at h
    exact ⟨⟨[], by simp [← h.1], .inl rfl⟩, by simp [← h.2]⟩
  | gap b x s hfirst ih =>
    rcases exists_cut rule (rule.tokensFrom 0 (x :: b) s) with ⟨first', others', hcut⟩
    rw [tokensFrom_gap hfirst, cut_reject rfl hcut, List.cons.injEq] at h
    rcases ih hcut with ⟨⟨A, rfl, hright⟩, hothers⟩
    refine ⟨⟨A, by simp [← h.1, Token.text], ?_⟩, fun p hp => ?_⟩
    · simpa [← h.1, Token.text] using hright
    · simpa using hothers p (by rwa [h.2])
  | hit b s n hfirst hn hle ih =>
    rcases exists_cut rule (rule.tokensFrom 0 ((s.take n).reverse ++ b) (s.drop n))
      with ⟨first', others', hcut⟩
    rcases first_spec hfirst with ⟨hjunction, hends, hcloses⟩
    rcases ih hcut with ⟨⟨A, hA, hright⟩, hothers⟩
    have hwhole : ((s.take n).reverse ++ b).reverse ++ s.drop n = b.reverse ++ s := by
      simp
    rw [hwhole] at hothers
    have hmatch : rule.IsMatch (s.take n) := ⟨s, n, hends, rfl⟩
    rw [tokensFrom_hit hfirst (by omega)] at h
    cases haccept : rule.accepts (.hit ⟨b, s.take n, s.drop n⟩) with
    | true =>
      rw [cut_accept haccept, List.cons.injEq, hcut] at h
      refine ⟨⟨s, by simp [← h.1], .inr ⟨⟨s.take n, s.drop n, hmatch, ?_⟩, ?_⟩⟩, fun p hp => ?_⟩
      · rw [take_append_drop]
      · simpa [← h.1] using hjunction
      · rw [← h.2, mem_cons] at hp
        rcases hp with rfl | hp
        · -- The piece right after the match.
          refine ⟨(s.take n).reverse ++ b, A, ?_, .inr ⟨⟨s.take n, b, hmatch, rfl⟩, ?_⟩, hright,
            others', ?_⟩
          · rw [← hA, hwhole]
          · rw [← hA]
            exact hcloses
          · rw [← hA]
            exact hcut
        · exact hothers p hp
    | false =>
      rw [cut_reject haccept hcut, List.cons.injEq] at h
      refine ⟨⟨A, ?_, ?_⟩, fun p hp => hothers p (by rwa [h.2])⟩
      · rw [← h.1, Token.text, append_assoc, ← hA, take_append_drop]
      · simpa [← h.1, Token.text] using hright

theorem pieces_split (hpos : ∀ s, 0 ∉ rule.body.ends s) (hp : p ∈ rule.pieces s) :
    ∃ B A, s = B.reverse ++ (p ++ A) ∧ rule.Left B (p ++ A) ∧ rule.Right (p.reverse ++ B) A
      ∧ ∃ rest, rule.cut (rule.tokensFrom 0 B (p ++ A)) = p :: rest := by
  rcases exists_cut rule (rule.tokensFrom 0 [] s) with ⟨first, others, hcut⟩
  rw [pieces, tokens, hcut, mem_cons] at hp
  rcases hp with rfl | hp
  · rcases (cut_split hpos [] s hcut).1 with ⟨A, hA, hright⟩
    exact ⟨[], A, by simpa using hA, .inl rfl, hright, others, hA ▸ hcut⟩
  · simpa using (cut_split hpos [] s hcut).2 p hp

end Junctions

section Spans

/-- An accepted match from here on, whether or not another one hides it. -/
structure SpansAt (rule : Rule) (b a : List Char) (n : Nat) : Prop where
  junction : rule.Junction b a
  ends : n ∈ rule.body.ends a
  closes : rule.closes b a n = true
  accept : rule.accept ⟨b, a.take n, a.drop n⟩ = true

theorem junction_left {q a : List Char} (hleft : rule.Left B (q.reverse ++ (a ++ A)))
    (ha : a ≠ []) (h : rule.Junction q a) : rule.Junction (q ++ B) (a ++ A) := by
  unfold Junction at h ⊢
  rw [head?_append_of_ne_nil a ha]
  cases q with
  | cons x q => exact h
  | nil =>
    rcases hleft with rfl | ⟨-, hjunction⟩
    · exact h
    · simpa [Junction, head?_append_of_ne_nil a ha] using hjunction

theorem closes_right {q a : List Char} (hright : rule.Right ((q.reverse ++ a).reverse ++ B) A)
    (hn0 : n ≠ 0) (hn : n ≤ a.length) (h : rule.closes q a n = true) :
    rule.closes (q ++ B) (a ++ A) n = true := by
  have htake : ((a.take n).reverse ++ (q ++ B)).head? = ((a.take n).reverse ++ q).head? := by grind
  unfold closes at h ⊢
  rw [take_append_of_le_length hn, drop_append_of_le_length hn, htake]
  by_cases hlt : n < a.length
  · have hne : a.drop n ≠ [] := by
      intro hnil
      have hlen := congrArg List.length hnil
      simp only [length_drop, length_nil] at hlen
      omega
    rwa [head?_append_of_ne_nil _ hne]
  · have heq : n = a.length := by omega
    rcases hright with rfl | ⟨-, hjunction⟩
    · rwa [append_nil]
    · grind [Junction]

theorem SpansAt.ne_nil (h : rule.SpansAt b s n) (hpos : ∀ s, 0 ∉ rule.body.ends s) :
    n ≠ 0 ∧ s ≠ [] := by
  have hn0 : n ≠ 0 := fun h0 => hpos s (h0 ▸ h.ends)
  refine ⟨hn0, ?_⟩
  rintro rfl
  have hle := Regex.ends_le h.ends
  simp only [length_nil, Nat.le_zero] at hle
  exact hn0 hle

/-- What spans a piece spans the text. -/
theorem SpansAt.widen {q a : List Char} (h : rule.SpansAt q a n)
    (hpos : ∀ s, 0 ∉ rule.body.ends s) (hword : other.word = rule.word)
    (htext : ∀ m m' : Hit, m.text = m'.text → rule.accept m = rule.accept m')
    (hleft : other.Left B (q.reverse ++ a ++ A))
    (hright : other.Right ((q.reverse ++ a).reverse ++ B) A) :
    rule.SpansAt (q ++ B) (a ++ A) n := by
  rcases h.ne_nil hpos with ⟨hn0, ha⟩
  have hle := Regex.ends_le h.ends
  have hjunction : rule.Junction (q ++ B) (a ++ A) := by
    have hj : other.Junction q a := by
      rw [Junction, hword]
      exact h.junction
    have hr : other.Junction (q ++ B) (a ++ A) :=
      junction_left (by rwa [append_assoc] at hleft) ha hj
    rwa [Junction, hword] at hr
  have hcloses : rule.closes (q ++ B) (a ++ A) n = true := by
    have hc : other.closes q a n = true := by
      rw [Rule.closes, hword]
      exact h.closes
    have hr := closes_right hright hn0 hle hc
    rwa [Rule.closes, hword] at hr
  refine ⟨hjunction, Regex.mem_ends_append h.ends A, hcloses, ?_⟩
  rw [htext ⟨q ++ B, _, _⟩ ⟨q, a.take n, a.drop n⟩ (take_append_of_le_length hle)]
  exact h.accept

end Spans

section Clean

/-- A rule whose pieces have no accepted match of their own. The last character of a
    match is one of a word, and a match that was not accepted next to an accepted one
    is not accepted without it. Where a piece starts there is no boundary in front of
    a character that is not of a word: a match that started there starts one later,
    and ends where it did. -/
structure Cuts (rule : Rule) : Prop where
  pos : ∀ s, 0 ∉ rule.body.ends s
  endsInWord : rule.body.EndsIn (fun c => rule.word c = true)
  reject : ∀ (m : Hit) (B A C D : List Char), rule.Left B C → rule.Right D A →
    rule.accept (m.widen B A) = false → rule.accept m = false
  shift : ∀ (B A C D : List Char) x a n, rule.Left B C → B ≠ [] → rule.Right D A →
    rule.word x = false → n ∈ rule.body.ends (x :: a) →
    rule.accept ⟨B, (x :: a).take n, (x :: a).drop n ++ A⟩ = false →
    rule.body.ends (x :: a) = (rule.body.ends a).map (· + 1)
      ∧ a.head?.any rule.word = true
      ∧ rule.accept ⟨[x], a.take (n - 1), a.drop (n - 1)⟩ = false

variable {q a : List Char}

theorem closes_piece (h : rule.Cuts) (hright : rule.Right ((q.reverse ++ a).reverse ++ B) A)
    (hn : n ∈ rule.body.ends a) : rule.closes q a n = rule.closes (q ++ B) (a ++ A) n := by
  have hn0 : n ≠ 0 := fun h0 => h.pos a (h0 ▸ hn)
  have hle := Regex.ends_le hn
  rcases h.endsInWord a n hn with ⟨c, hc, hword⟩
  rw [Bool.eq_iff_iff]
  refine ⟨closes_right hright hn0 hle, fun hcloses => ?_⟩
  unfold closes wordBoundary at hcloses ⊢
  rw [take_append_of_le_length hle, drop_append_of_le_length hle] at hcloses
  by_cases hlt : n < a.length
  · have hne : a.drop n ≠ [] := by
      intro hnil
      have hlen := congrArg List.length hnil
      simp only [length_drop, length_nil] at hlen
      omega
    rw [head?_append_of_ne_nil _ hne] at hcloses
    simpa [head?_append, hc] using hcloses
  · -- At the end of the piece there is no more, and the last character is of a word.
    have hnil : a.drop n = [] := drop_eq_nil_of_le (by omega)
    simp [head?_append, hc, hword, hnil]

theorem find_piece (h : rule.Cuts) (hright : rule.Right ((q.reverse ++ a).reverse ++ B) A)
    (hn : n ≤ a.length)
    (hfind : (rule.body.ends (a ++ A)).find? (rule.closes (q ++ B) (a ++ A)) = some n) :
    (rule.body.ends a).find? (rule.closes q a) = some n := by
  rw [find?_congr (fun m hm => closes_piece h hright hm), ← Regex.ends_append rule.body a A,
    find?_filter]
  rw [find?_eq_some_iff_append] at hfind ⊢
  rcases hfind with ⟨hcloses, before, after, heq, hbefore⟩
  refine ⟨by simp [hn, hcloses], before, after, heq, fun m hm => ?_⟩
  have hnot := hbefore m hm
  simp only [Bool.not_eq_true'] at hnot
  simp [hnot]

theorem first_shift (h : rule.Cuts) {x : Char} (hx : rule.word x = false)
    (hends : rule.body.ends (x :: a) = (rule.body.ends a).map (· + 1))
    (hhead : a.head?.any rule.word = true)
    (hfind : (rule.body.ends (x :: a)).find? (rule.closes [] (x :: a)) = some n) :
    rule.first [x] a = some (n - 1) ∧ n - 1 ≠ 0 := by
  have hfirst : rule.first [x] a = some (n - 1) := by
    rw [first_of_junction (by simp [Junction, wordBoundary, hx, hhead])]
    rw [hends, find?_map] at hfind
    rcases Option.map_eq_some_iff.mp hfind with ⟨m, hm, rfl⟩
    rw [Nat.add_sub_cancel, ← hm]
    congr 1
    funext k
    simp [closes]
  exact ⟨hfirst, fun h0 => first_ne_zero h.pos (h0 ▸ hfirst)⟩

/-- A piece, from one of its characters on. -/
theorem clean_from (h : rule.Cuts) (b s : List Char) {piece C : List Char}
    {others : List (List Char)} (hcut : rule.cut (rule.tokensFrom 0 b s) = piece :: others)
    (hb : b = q ++ B) (hleft : rule.Left B C) (hstart : q = [] → B = [] ∨ rule.Junction B s) :
    (rule.tokensFrom 0 q piece).any rule.accepts = false := by
  induction b, s using tokens_induction rule h.pos generalizing q piece others with
  | nil b =>
    simp only [tokensFrom, cut, List.cons.injEq] at hcut
    simp [← hcut.1, tokensFrom]
  | gap b x s hfirst ih =>
    rcases exists_cut rule (rule.tokensFrom 0 (x :: b) s) with ⟨piece', others', hcut'⟩
    rw [tokensFrom_gap hfirst, cut_reject rfl hcut', List.cons.injEq] at hcut
    rcases (cut_split h.pos _ _ hcut').1 with ⟨A, rfl, hright⟩
    rw [← hcut.1]
    have hnone : rule.first q (x :: piece') = none := by
      -- A match of the piece would be one of the text.
      by_contra hsome
      rcases Option.ne_none_iff_exists'.mp hsome with ⟨n, hn⟩
      rcases first_spec hn with ⟨hjunction, hends, hcloses⟩
      have hjunction' : rule.Junction (q ++ B) (x :: piece' ++ A) := by
        cases q with
        | cons y q => exact hjunction
        | nil =>
          rcases hstart rfl with rfl | hB
          · exact hjunction
          · exact hB
      have hcloses' : rule.closes (q ++ B) (x :: piece' ++ A) n = true :=
        (closes_piece h (by simpa [hb] using hright) hends) ▸ hcloses
      rw [hb, ← cons_append, first_of_junction hjunction', find?_eq_none] at hfirst
      exact hfirst n (Regex.mem_ends_append hends A) hcloses'
    simp only [Token.text, singleton_append]
    rw [tokensFrom_gap hnone, any_cons, ih hcut' (by rw [hb]; rfl) (by simp)]
    rfl
  | hit b s n hfirst hn hle ih =>
    rcases exists_cut rule (rule.tokensFrom 0 ((s.take n).reverse ++ b) (s.drop n))
      with ⟨piece', others', hcut'⟩
    rcases first_spec hfirst with ⟨hjunction, hends, -⟩
    rw [tokensFrom_hit hfirst (by omega)] at hcut
    cases haccept : rule.accepts (.hit ⟨b, s.take n, s.drop n⟩) with
    | true =>
      rw [cut_accept haccept, List.cons.injEq] at hcut
      simp [← hcut.1, tokensFrom]
    | false =>
      rw [cut_reject haccept hcut', List.cons.injEq, Token.text] at hcut
      replace haccept : rule.accept ⟨b, s.take n, s.drop n⟩ = false := haccept
      rcases (cut_split h.pos _ _ hcut').1 with ⟨A, hA, hright⟩
      -- The piece goes on with the match.
      have hs : s = piece ++ A := by
        rw [← hcut.1, append_assoc, ← hA, take_append_drop]
      have hlen : n ≤ piece.length := by
        rw [← hcut.1, length_append, length_take]
        omega
      have htake : piece.take n = s.take n := by
        rw [hs, take_append_of_le_length hlen]
      have hdrop : piece.drop n = piece' := by grind
      have hright' : rule.Right ((q.reverse ++ piece).reverse ++ B) A := by grind
      have hrest := ih hcut' (by rw [hb, append_assoc]) (by
        intro hnil
        have hlen := congrArg List.length hnil
        simp only [length_append, length_reverse, length_take,
          length_nil] at hlen
        omega)
      have hfind : (rule.body.ends piece).find? (rule.closes q piece) = some n := by
        refine find_piece h hright' hlen ?_
        rwa [first_of_junction hjunction, hb, hs] at hfirst
      by_cases hstarts : rule.Junction q piece
      · -- The piece has the same match.
        rw [tokensFrom_hit ((first_of_junction hstarts).trans hfind) (by omega), htake, hdrop,
          any_cons, hrest]
        have hreject : rule.accept ⟨q, s.take n, piece'⟩ = false := by
          refine h.reject _ B A _ _ hleft hright ?_
          simpa [Hit.widen, ← hA, ← hb] using haccept
        simp [accepts, hreject]
      · -- The match starts where the piece does, with a character that is not of a word.
        cases piece with
        | nil =>
          simp only [length_nil] at hlen
          omega
        | cons x a =>
          have hq : q = [] := by
            cases q with
            | nil => rfl
            | cons y q =>
              rw [hb, hs] at hjunction
              exact absurd hjunction hstarts
          subst hq
          have hB : B ≠ [] := by
            rintro rfl
            rw [hb, hs] at hjunction
            exact absurd hjunction hstarts
          have hx : rule.word x = false := by
            simpa [Junction, wordBoundary] using hstarts
          rcases h.shift B A _ _ x a n hleft hB hright hx (mem_of_find?_eq_some hfind)
            (by rwa [htake, hdrop, ← hA, ← nil_append B, ← hb]) with ⟨hmap, hhead, hreject⟩
          rcases first_shift h hx hmap hhead hfind with ⟨hfirst', hn'⟩
          obtain ⟨m, rfl⟩ : ∃ m, n = m + 1 := ⟨n - 1, by omega⟩
          rw [tokensFrom_gap (first_of_not_junction hstarts), any_cons,
            tokensFrom_hit hfirst' hn', any_cons]
          have hbefore : (a.take m).reverse ++ [x] = (s.take (m + 1)).reverse ++ [] := by
            rw [← htake]
            simp
          simp only [Nat.add_sub_cancel, drop_succ_cons] at hreject hdrop ⊢
          rw [hbefore, hdrop, hrest]
          rw [hdrop] at hreject
          simp [accepts, hreject]

/-- No piece has a match of the rule it was cut by. -/
theorem clean (h : rule.Cuts) (hp : p ∈ rule.pieces s) : rule.found p = false := by
  have hothers : ∀ b s : List Char, ∀ piece others,
      rule.cut (rule.tokensFrom 0 b s) = piece :: others → ∀ p ∈ others, rule.found p = false := by
    intro b s
    induction b, s using tokens_induction rule h.pos with
    | nil b => grind [tokensFrom, cut]
    | gap b x s hfirst ih =>
      intro piece others hcut p hp
      rcases exists_cut rule (rule.tokensFrom 0 (x :: b) s) with ⟨piece', others', hcut'⟩
      rw [tokensFrom_gap hfirst, cut_reject rfl hcut', List.cons.injEq] at hcut
      exact ih _ _ hcut' p (by rwa [hcut.2])
    | hit b s n hfirst hn hle ih =>
      intro piece others hcut p hp
      rcases exists_cut rule (rule.tokensFrom 0 ((s.take n).reverse ++ b) (s.drop n))
        with ⟨piece', others', hcut'⟩
      rcases first_spec hfirst with ⟨-, hends, hcloses⟩
      rw [tokensFrom_hit hfirst (by omega)] at hcut
      cases haccept : rule.accepts (.hit ⟨b, s.take n, s.drop n⟩) with
      | true =>
        rw [cut_accept haccept, List.cons.injEq, hcut'] at hcut
        rw [← hcut.2, mem_cons] at hp
        rcases hp with rfl | hp
        · -- A new piece starts here.
          exact clean_from h _ _ hcut' (nil_append _).symm
            (.inr ⟨⟨s.take n, b, ⟨s, n, hends, rfl⟩, rfl⟩, hcloses⟩) (fun _ => .inr hcloses)
        · exact ih _ _ hcut' p hp
      | false =>
        rw [cut_reject haccept hcut', List.cons.injEq] at hcut
        exact ih _ _ hcut' p (by rwa [hcut.2])
  rcases exists_cut rule (rule.tokensFrom 0 [] s) with ⟨piece, others, hcut⟩
  rw [pieces, tokens, hcut, mem_cons] at hp
  rcases hp with rfl | hp
  · have hnone : rule.Left [] s := .inl rfl
    exact clean_from h [] s hcut (nil_append _).symm hnone (fun _ => .inl rfl)
  · exact hothers [] s piece others hcut p hp

end Clean

end Rule

end Waygate
