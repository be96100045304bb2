import Mathlib.Data.List.Basic
import Waygate.Theory.Regex.Engine

/-!
# What a Match Depends On

Where a match may end does not depend on what is before it, and whether it may end
somewhere does not depend on what is after that. Only the boundaries look further, by
one character on each side.

## Main definitions

* `Apart`, `StopsAt`
* `Takes`, `Needs`, `EndsIn`: The characters of a match.

## Theorems

* `ends_append`: Ends in a longer text.
* `tokens_induction`: Induction over the matches.
* `tokensFrom_before`, `tokensFrom_append`: A text before, and a text after.
* `tokensFrom_gaps`: A text in which nothing can match.
-/

namespace Waygate

namespace Regex

def Takes (q : Char → Prop) : Regex → Prop
  | .eps => True
  | .cls p => ∀ c, p c = true → q c
  | .many p => ∀ c, p c = true → q c
  | .seq r t => r.Takes q ∧ t.Takes q
  | .opt r => r.Takes q

def Needs (q : Char → Prop) (r : Regex) : Prop :=
  ∀ s n, n ∈ r.ends s → ∃ c ∈ s.take n, q c

variable {q : Char → Prop} {r t : Regex} {s A : List Char} {n : Nat}

theorem ends_seq (r t : Regex) (s : List Char) : (Regex.seq r t).ends s
    = (r.ends s).flatMap (fun n => (t.ends (s.drop n)).map (n + ·)) := rfl

theorem ends_opt (r : Regex) (s : List Char) : (Regex.opt r).ends s = r.ends s ++ [0] := rfl

theorem mem_ends_seq : n ∈ (Regex.seq r t).ends s ↔
    ∃ k ∈ r.ends s, ∃ m ∈ t.ends (s.drop k), n = k + m := by grind [ends]

variable {p : Char → Bool}

theorem manyEnds_spec (h : n ∈ manyEnds p s) :
    n ≤ s.length ∧ ∀ c ∈ s.take n, p c = true := by
  induction s generalizing n with
  | nil =>
    simp only [manyEnds, List.mem_singleton] at h
    simp [h]
  | cons x s ih => grind [manyEnds]

theorem ends_le (h : n ∈ r.ends s) : n ≤ s.length := by
  induction r generalizing s n with
  | eps => simp_all [ends]
  | cls p =>
    cases s with
    | nil => simp [ends] at h
    | cons x s =>
      by_cases hx : p x = true <;> simp_all [ends]
  | many p => exact (manyEnds_spec h).1
  | seq r t ihr iht => grind [mem_ends_seq]
  | opt r ih => grind [ends]

theorem take_of_mem_ends (hr : r.Takes q) (h : n ∈ r.ends s) : ∀ c ∈ s.take n, q c := by
  induction r generalizing s n with
  | eps => simp_all [ends]
  | cls p =>
    cases s with
    | nil => simp [ends] at h
    | cons x s =>
      by_cases hx : p x = true
      · simp only [ends, hx, if_true, List.mem_singleton] at h
        subst h
        simpa using hr x hx
      · simp [ends, hx] at h
  | many p => exact fun c hc => hr c ((manyEnds_spec h).2 c hc)
  | seq r t ihr iht =>
    rcases mem_ends_seq.mp h with ⟨k, hk, m, hm, rfl⟩
    intro c hc
    rw [List.take_add, List.mem_append] at hc
    rcases hc with hc | hc
    · exact ihr hr.1 hk c hc
    · exact iht hr.2 hm c hc
  | opt r ih =>
    simp only [ends, List.mem_append, List.mem_singleton] at h
    rcases h with h | rfl
    · exact ih hr h
    · simp

theorem manyEnds_append (p : Char → Bool) (s A : List Char) :
    (manyEnds p (s ++ A)).filter (fun n => decide (n ≤ s.length)) = manyEnds p s := by
  induction s with
  | nil =>
    cases A with
    | nil => rfl
    | cons x A =>
      simp only [List.nil_append, List.length_nil, manyEnds]
      split
      · simp
      · rfl
  | cons x s ih =>
    simp only [List.cons_append, manyEnds]
    split
    · rw [List.filter_append, List.filter_map, ← ih]
      congr 1
      congr 1
      refine List.filter_congr (fun n _ => ?_)
      simp
    · rfl

theorem flatMap_filter {α β : Type*} (l : List α) (p : α → Bool) (f : α → List β) :
    (l.filter p).flatMap f = l.flatMap (fun a => if p a then f a else []) := by
  induction l with
  | nil => rfl
  | cons a l ih =>
    rw [List.filter_cons, List.flatMap_cons, ← ih]
    split <;> simp

theorem ends_append (r : Regex) (s A : List Char) :
    (r.ends (s ++ A)).filter (fun n => decide (n ≤ s.length)) = r.ends s := by
  induction r generalizing s with
  | eps => simp [ends]
  | cls p =>
    cases s with
    | nil =>
      cases A with
      | nil => rfl
      | cons x A =>
        simp only [List.nil_append, ends]
        split <;> simp
    | cons x s =>
      simp only [List.cons_append, ends]
      split <;> simp
  | many p => exact manyEnds_append p s A
  | seq r t ihr iht =>
    simp only [ends, List.filter_flatMap]
    rw [← ihr s, flatMap_filter]
    refine List.flatMap_congr (fun k _ => ?_)
    by_cases hk : k ≤ s.length
    · -- The first part ends within the text, and so must the second.
      rw [if_pos (by simpa using hk), List.filter_map, ← iht (s.drop k),
        List.drop_append_of_le_length hk]
      congr 1
      refine List.filter_congr (fun m _ => ?_)
      simp only [Function.comp, List.length_drop, decide_eq_decide]
      omega
    · rw [if_neg (by simpa using hk), List.filter_eq_nil_iff]
      intro m hm
      rcases List.mem_map.mp hm with ⟨j, -, rfl⟩
      simp only [decide_eq_true_eq]
      omega
  | opt r ih =>
    simp only [ends, List.filter_append]
    rw [ih]
    simp

theorem mem_ends_append (h : n ∈ r.ends s) (A : List Char) : n ∈ r.ends (s ++ A) := by
  rw [← ends_append r s A] at h
  exact (List.mem_filter.mp h).1

theorem ends_append_of_stops (hr : r.Takes q) (hA : ∀ c ∈ A.head?, ¬ q c) :
    r.ends (s ++ A) = r.ends s := by
  rw [← ends_append r s A, List.filter_eq_self.mpr]
  intro n hn
  by_contra hlt
  simp only [decide_eq_true_eq, Nat.not_le] at hlt
  have hle := ends_le hn
  rw [List.length_append] at hle
  cases A with
  | nil =>
    simp only [List.length_nil] at hle
    omega
  | cons x A =>
    refine hA x rfl (take_of_mem_ends hr hn x ?_)
    rw [List.take_append, List.mem_append]
    right
    obtain ⟨m, hm⟩ : ∃ m, n - s.length = m + 1 := ⟨n - s.length - 1, by omega⟩
    rw [hm, List.take_succ_cons]
    exact List.mem_cons_self

theorem needs_cls (h : ∀ c, p c = true → q c) : (Regex.cls p).Needs q := by
  intro s n hn
  cases s with
  | nil => simp [ends] at hn
  | cons x s => grind [ends]

theorem Needs.seq_left (h : r.Needs q) : (Regex.seq r t).Needs q := by
  intro s n hn
  rcases mem_ends_seq.mp hn with ⟨k, hk, m, hm, rfl⟩
  rcases h s k hk with ⟨c, hc, hq⟩
  exact ⟨c, by rw [List.take_add]; exact List.mem_append_left _ hc, hq⟩

theorem Needs.seq_right (h : t.Needs q) : (Regex.seq r t).Needs q := by
  intro s n hn
  rcases mem_ends_seq.mp hn with ⟨k, hk, m, hm, rfl⟩
  rcases h _ m hm with ⟨c, hc, hq⟩
  exact ⟨c, by rw [List.take_add]; exact List.mem_append_right _ hc, hq⟩

theorem Needs.pos (h : r.Needs q) : ∀ s, 0 ∉ r.ends s := by
  intro s hs
  rcases h s 0 hs with ⟨c, hc, -⟩
  simp at hc

def EndsIn (q : Char → Prop) (r : Regex) : Prop :=
  ∀ s n, n ∈ r.ends s → ∃ c, (s.take n).reverse.head? = some c ∧ q c

theorem EndsIn.seq_right (h : t.EndsIn q) : (Regex.seq r t).EndsIn q := by
  intro s n hn
  rcases mem_ends_seq.mp hn with ⟨k, hk, m, hm, rfl⟩
  rcases h _ m hm with ⟨c, hc, hq⟩
  refine ⟨c, ?_, hq⟩
  rw [List.take_add, List.reverse_append, List.head?_append, hc]
  rfl

theorem mem_ends_cls :
    n ∈ (Regex.cls p).ends s ↔ n = 1 ∧ ∃ x rest, s = x :: rest ∧ p x = true := by
  cases s with
  | nil => simp [ends]
  | cons x s =>
    by_cases hx : p x = true <;> simp [ends, hx]

theorem mem_ends_cls_seq : n ∈ (Regex.seq (.cls p) t).ends s ↔
    ∃ x rest m, s = x :: rest ∧ p x = true ∧ m ∈ t.ends rest ∧ n = m + 1 := by
  rw [mem_ends_seq]
  constructor
  · grind [mem_ends_cls]
  · rintro ⟨x, rest, m, rfl, hx, hm, rfl⟩
    exact ⟨1, mem_ends_cls.mpr ⟨rfl, x, rest, rfl, hx⟩, m, hm, Nat.add_comm m 1⟩

theorem takes_times (h : r.Takes q) (j : Nat) : (times r j).Takes q := by
  induction j with
  | zero => trivial
  | succ j ih => exact ⟨h, ih⟩

theorem takes_upTo (h : r.Takes q) (j : Nat) : (upTo r j).Takes q := by
  induction j with
  | zero => trivial
  | succ j ih => exact ⟨h, ih⟩

theorem EndsIn.seq_eps (h : r.EndsIn q) : (Regex.seq r .eps).EndsIn q := by grind [EndsIn, ends]

theorem EndsIn.times (h : r.EndsIn q) (j : Nat) : (times r (j + 1)).EndsIn q := by
  induction j with
  | zero => exact h.seq_eps
  | succ j ih => exact ih.seq_right

end Regex

section Widening

def Hit.widen (B A : List Char) (m : Hit) : Hit :=
  { before := m.before ++ B, text := m.text, after := m.after ++ A }

def Token.widen (B A : List Char) : Token → Token
  | .gap c => .gap c
  | .hit m => .hit (m.widen B A)

end Widening

namespace Rule

open List

variable {rule : Rule} {b s A B : List Char} {n : Nat} {q : Char → Prop}

/-- No word goes on into a text. -/
def Apart (rule : Rule) (s : List Char) : Prop :=
  s.head?.any rule.word = false

theorem any_head?_append (h : rule.Apart B) :
    (b ++ B).head?.any rule.word = b.head?.any rule.word := by
  cases b with
  | nil => simpa [Apart] using h
  | cons x b => rfl

theorem tokensFrom_skip (h : n ≤ s.length) :
    rule.tokensFrom n b s = rule.tokensFrom 0 ((s.take n).reverse ++ b) (s.drop n) := by
  induction n generalizing b s with
  | zero => simp
  | succ n ih =>
    cases s with
    | nil => simp at h
    | cons x s =>
      rw [tokensFrom, ih (by simpa using h)]
      simp

theorem first_le (h : rule.first b s = some n) : n ≤ s.length := by
  unfold first at h
  split at h
  · exact Regex.ends_le (mem_of_find?_eq_some h)
  · cases h

theorem tokensFrom_hit (h : rule.first b s = some n) (hn : n ≠ 0) :
    rule.tokensFrom 0 b s
      = .hit { before := b, text := s.take n, after := s.drop n }
        :: rule.tokensFrom 0 ((s.take n).reverse ++ b) (s.drop n) := by
  have hle := first_le h
  obtain ⟨k, rfl⟩ := Nat.exists_eq_succ_of_ne_zero hn
  cases s with
  | nil => simp at hle
  | cons x s => grind [tokensFrom, tokensFrom_skip]

theorem tokensFrom_gap {x : Char} (h : rule.first b (x :: s) = none) :
    rule.tokensFrom 0 b (x :: s) = .gap x :: rule.tokensFrom 0 (x :: b) s := by
  rw [tokensFrom, h]

theorem first_ne_zero (hpos : ∀ s, 0 ∉ rule.body.ends s) : rule.first b s ≠ some 0 := by
  intro h
  unfold first at h
  split at h
  · exact hpos s (mem_of_find?_eq_some h)
  · cases h

theorem tokens_induction {motive : List Char → List Char → Prop} (rule : Rule)
    (hpos : ∀ s, 0 ∉ rule.body.ends s) (nil : ∀ b, motive b [])
    (gap : ∀ b x s, rule.first b (x :: s) = none → motive (x :: b) s → motive b (x :: s))
    (hit : ∀ b s n, rule.first b s = some n → 0 < n → n ≤ s.length →
      motive ((s.take n).reverse ++ b) (s.drop n) → motive b s) (b s : List Char) :
    motive b s := by
  induction hlen : s.length using Nat.strongRecOn generalizing b s with
  | _ len ih =>
    subst hlen
    cases s with
    | nil => exact nil b
    | cons x s =>
      cases hfirst : rule.first b (x :: s) with
      | none => exact gap b x s hfirst (ih _ (by simp) _ _ rfl)
      | some n => grind [first_ne_zero, first_le]

theorem closes_before (h : rule.Apart B) : rule.closes (b ++ B) s n = rule.closes b s n := by
  unfold closes wordBoundary
  rw [← append_assoc, any_head?_append h]

theorem first_before (h : rule.Apart B) : rule.first (b ++ B) s = rule.first b s := by
  unfold first wordBoundary
  rw [any_head?_append h]
  have hcloses : rule.closes (b ++ B) s = rule.closes b s := funext fun n => closes_before h
  rw [hcloses]

theorem tokensFrom_before (hpos : ∀ s, 0 ∉ rule.body.ends s) (h : rule.Apart B) (b s : List Char) :
    rule.tokensFrom 0 (b ++ B) s = (rule.tokensFrom 0 b s).map (Token.widen B []) := by
  induction b, s using tokens_induction rule hpos with
  | nil b => rfl
  | gap b x s hfirst ih =>
    rw [tokensFrom_gap hfirst, tokensFrom_gap (by rwa [first_before h]), map_cons, ← ih]
    rfl
  | hit b s n hfirst hn hle ih => grind [tokensFrom_hit, first_before, Token.widen, Hit.widen]

/-- No match passes into this text, and no word goes on into it. -/
structure StopsAt (rule : Rule) (A : List Char) : Prop where
  apart : rule.Apart A
  ends : ∀ s, rule.body.ends (s ++ A) = rule.body.ends s

theorem closes_append (h : rule.Apart A) (hn : n ≤ s.length) :
    rule.closes b (s ++ A) n = rule.closes b s n := by
  unfold closes wordBoundary
  rw [take_append_of_le_length hn, drop_append_of_le_length hn, any_head?_append h]

theorem find?_congr {α : Type*} {p p' : α → Bool} {l : List α} (h : ∀ a ∈ l, p a = p' a) :
    l.find? p = l.find? p' := by
  induction l with
  | nil => rfl
  | cons a l ih =>
    rw [find?_cons, find?_cons, h a mem_cons_self,
      ih (fun x hx => h x (mem_cons_of_mem a hx))]

theorem first_append (h : rule.StopsAt A) (hs : s ≠ []) :
    rule.first b (s ++ A) = rule.first b s := by
  unfold first
  rw [h.ends, head?_append_of_ne_nil s hs]
  split
  · refine find?_congr (fun n hn => ?_)
    exact closes_append h.apart (Regex.ends_le hn)
  · rfl

theorem tokensFrom_append (hpos : ∀ s, 0 ∉ rule.body.ends s) (h : rule.StopsAt A)
    (b s : List Char) :
    rule.tokensFrom 0 b (s ++ A) = (rule.tokensFrom 0 b s).map (Token.widen [] A)
      ++ rule.tokensFrom 0 (s.reverse ++ b) A := by
  induction b, s using tokens_induction rule hpos with
  | nil b => rfl
  | gap b x s hfirst ih => grind [first_append, tokensFrom_gap, Token.widen]
  | hit b s n hfirst hn hle ih =>
    have hn0 : n ≠ 0 := by omega
    have hs : s ≠ [] := by
      rintro rfl
      simp at hle
      omega
    have hfirst' : rule.first b (s ++ A) = some n := by rwa [first_append h hs]
    rw [tokensFrom_hit hfirst' hn0, tokensFrom_hit hfirst hn0,
      take_append_of_le_length hle, drop_append_of_le_length hle, ih]
    have hsplit : (s.drop n).reverse ++ ((s.take n).reverse ++ b) = s.reverse ++ b := by
      rw [← append_assoc, ← reverse_append, take_append_drop]
    rw [hsplit]
    simp [Token.widen, Hit.widen]

theorem tokensFrom_gaps (hneeds : rule.body.Needs q) (h : ∀ c ∈ s, ¬ q c) (b : List Char) :
    rule.tokensFrom 0 b s = s.map .gap := by
  induction s generalizing b with
  | nil => rfl
  | cons x s ih =>
    have hfirst : rule.first b (x :: s) = none := by
      unfold first
      split
      · rw [find?_eq_none]
        intro n hn
        rcases hneeds _ n hn with ⟨c, hc, hq⟩
        exact absurd hq (h c (mem_of_mem_take hc))
      · rfl
    rw [tokensFrom_gap hfirst, ih (fun c hc => h c (mem_cons_of_mem x hc))]
    rfl

end Rule

end Waygate
