import Waygate.Core.Authz.Segment

/-!
# Editing One Policy

A policy is replaced by splicing text, so what the edit does to the other policies
depends on how the tokenizer reads across the two seams. At the second seam a comment
that has no line end takes the policies on the rest of the line, and white space that
only the parser skips becomes a part of the next policy.

## Main definitions

* `Cuts`, `SeamKept`

## Theorems

* `lexFragments_cuts`, `statements_append`, `statements_trivia`, `statements_comment`,
  `segmentVerified_ok`, `single_statement`, `replacePolicy_frame`, `replacePolicy_frame_lost`
-/

namespace Waygate.Authz

open Text List

section Tokenizer

variable {read : List (List Char)}

/-- The trivia in front is skipped, up to what is none. -/
theorem skipTriviaFrom_cases (b : Bool) (text : List Char) (i : Nat) :
    ((∃ b', readTrivia b text = some b') ∧ skipTriviaFrom b text i = i + text.length)
    ∨ ∃ t r, text = t ++ r ∧ readTrivia b t = some false ∧ Begins r
      ∧ skipTriviaFrom b text i = i + t.length := by
  induction text generalizing b i with
  | nil => exact .inl ⟨⟨b, rfl⟩, rfl⟩
  | cons c rest ih =>
    cases b with
    | true => grind [readTrivia, skipTriviaFrom]
    | false =>
      rw [readTrivia, skipTriviaFrom]
      split
      · grind [readTrivia]
      · rename_i hspace
        split
        · rename_i hslash
          rcases ih true (i + 1) with ⟨htrivia, hskip⟩ | ⟨t, r, rfl, ht, hr, hskip⟩
          · exact .inl ⟨htrivia, by rw [hskip, length_cons]; omega⟩
          · -- The second slash is part of the comment, so of the trivia.
            have hhead : t.head? = some '/' := by
              cases t with
              | nil => cases ht
              | cons d t' => exact hslash.2
            exact .inr ⟨c :: t, r, rfl,
              by rw [readTrivia, if_neg hspace, if_pos ⟨hslash.1, hhead⟩]; exact ht, hr,
              by rw [hskip, length_cons]; omega⟩
        · rename_i hslash
          exact .inr ⟨[], c :: rest, rfl, rfl, ⟨eq_false_of_ne_true hspace, hslash⟩, rfl⟩

theorem findStatementEndFrom_cases (m : Mode) (text : List Char) (i : Nat) :
    (ended m text = 0 ∧ findStatementEndFrom m text i = none)
    ∨ ∃ s r semi, text = s ++ r ∧ Ends m s ∧ findStatementEndFrom m text i = some semi
      ∧ semi + 1 = i + s.length := by
  induction text generalizing m i with
  | nil => exact .inl ⟨rfl, rfl⟩
  | cons c rest ih =>
    rw [ended, findStatementEndFrom]
    split
    · rename_i hend
      exact .inr ⟨[c], rest, i, rfl, by rw [Ends, if_pos hend], rfl, rfl⟩
    · grind [Ends]

/-- The fragments of a text that begins at an index, and what is left. -/
inductive Cuts : Nat → List Char → List PolicyFragment → List Char → Prop
  | nil (n : Nat) (rest : List Char) : Cuts n rest [] rest
  | cons {n : Nat} {t s rest tail : List Char} {fragments : List PolicyFragment} (ht : Trivia t)
      (hbegins : Begins s) (hends : Ends .code s)
      (h : Cuts (n + t.length + s.length) rest fragments tail) :
      Cuts n (t ++ (s ++ rest))
        ({ id := statementId s
           leading := ⟨n, n + t.length⟩
           statement := ⟨n + t.length, n + t.length + s.length⟩ } :: fragments) tail

theorem slice_append (w s rest : List Char) :
    slice (w ++ (s ++ rest)) ⟨w.length, w.length + s.length⟩ = s := by
  rw [slice, drop_left, Nat.add_sub_cancel_left, take_left]

theorem skipTrivia_append (w text : List Char) :
    skipTrivia (w ++ text) w.length = skipTriviaFrom false text w.length := by
  rw [skipTrivia, drop_left]

theorem findStatementEnd_append (w text : List Char) :
    findStatementEnd (w ++ text) w.length = findStatementEndFrom .code text w.length := by
  rw [findStatementEnd, drop_left]

/-- Each round cuts a statement off, until none ends. -/
theorem lexFragmentsFrom_cuts (w text : List Char) {fuel : Nat} (hfuel : text.length < fuel) :
    ∃ tail, Cuts w.length text (lexFragmentsFrom (w ++ text) fuel w.length) tail
      ∧ ended .code tail = 0 := by
  induction fuel generalizing w text with
  | zero => exact absurd hfuel (Nat.not_lt_zero _)
  | succ fuel ih =>
    rcases skipTriviaFrom_cases false text w.length with
      ⟨⟨b, hb⟩, hskip⟩ | ⟨t, r, rfl, ht, hbegins, hskip⟩
    · have hstart := (skipTrivia_append w text).trans hskip
      simp only [lexFragmentsFrom, hstart, length_append, Nat.le_refl, if_true]
      exact ⟨text, .nil _ _, (readTrivia_scan hb).2⟩
    · have hr : 0 < r.length := by
        cases r with
        | nil => cases hbegins
        | cons c r' => exact Nat.zero_lt_succ _
      have hstart := (skipTrivia_append w (t ++ r)).trans hskip
      have hend := findStatementEnd_append (w ++ t) r
      rw [append_assoc, length_append] at hend
      have hbound : ¬ (w ++ (t ++ r)).length ≤ w.length + t.length := by
        simp only [length_append]
        omega
      simp only [lexFragmentsFrom, hstart, if_neg hbound, hend]
      rcases findStatementEndFrom_cases .code r (w.length + t.length) with
        ⟨hnone, hfind⟩ | ⟨s, rest, semi, rfl, hends, hfind, hsemi⟩
      · rw [hfind]
        exact ⟨t ++ r, .nil _ _, by
          rw [ended_append, Trivia.ended ht, Trivia.scan ht, hnone]⟩
      · rw [hfind]
        have hslice := slice_append (w ++ t) s rest
        simp only [append_assoc, length_append] at hslice
        simp only [hsemi, hslice]
        have hrest : rest.length < fuel := by
          have hs := length_pos_iff.mpr hends.ne_nil
          simp only [length_append] at hfuel
          omega
        rcases ih (w ++ (t ++ s)) rest hrest with ⟨tail, hcuts, htail⟩
        simp only [append_assoc, length_append, ← Nat.add_assoc] at hcuts
        exact ⟨tail, .cons ht (hbegins.of_append hends.ne_nil) hends hcuts, htail⟩

/-- The fragments cut the text, and no statement ends in what is left. -/
theorem lexFragments_cuts (content : List Char) :
    ∃ tail, Cuts 0 content (lexFragments content) tail ∧ ended .code tail = 0 :=
  lexFragmentsFrom_cuts [] content (Nat.lt_succ_self _)

variable {n : Nat} {text content w rest left : List Char} {fragments : List PolicyFragment}
  {b : Bool}

/-- The statements of the fragments, read one after another. -/
theorem Cuts.reads {tail : List Char} (h : Cuts n text fragments tail)
    (hcontent : content = w ++ text) (hn : w.length = n) :
    Reads text (fragments.map (fun f => slice content f.statement)) tail := by
  induction h generalizing w with
  | nil n rest => exact .nil rest
  | @cons n t s rest tail fragments ht hbegins hends _ ih =>
    have hslice := slice_append (w ++ t) s rest
    rw [append_assoc, ← hcontent, length_append, hn] at hslice
    rw [map_cons, hslice]
    refine .cons ht hbegins hends (ih (w := w ++ (t ++ s)) ?_ ?_)
    · rw [hcontent]
      simp
    · simp only [length_append, hn, Nat.add_assoc]

theorem Cuts.tail {tail : List Char} (h : Cuts n text fragments tail)
    (hcontent : content = w ++ text) (hn : w.length = n) :
    content.drop (fragments.getLast?.elim n (fun f => f.statement.stop)) = tail := by
  induction h generalizing w with
  | nil n rest =>
    rw [hcontent, ← hn]
    exact drop_left
  | @cons n t s rest tail fragments ht hbegins hends _ ih => grind

/-- The text around one fragment. -/
theorem Cuts.split {tail : List Char} {f : PolicyFragment} {earlier later : List PolicyFragment}
    (h : Cuts n text (earlier ++ f :: later) tail) :
    ∃ w t s rest, text = w ++ (t ++ (s ++ rest)) ∧ Trivia t ∧ Begins s ∧ Ends .code s
      ∧ f.id = statementId s ∧ f.leading.start = n + w.length
      ∧ f.statement = ⟨n + w.length + t.length, n + w.length + t.length + s.length⟩
      ∧ Cuts n text earlier (t ++ (s ++ rest))
      ∧ Cuts (n + w.length + t.length + s.length) rest later tail := by
  induction earlier generalizing n text with
  | nil =>
    cases h with
    | cons ht hbegins hends h =>
      exact ⟨[], _, _, _, rfl, ht, hbegins, hends, rfl, rfl, rfl, .nil _ _, h⟩
  | cons f' earlier ih =>
    cases h with
    | @cons _ t' s' rest' _ _ ht' hbegins' hends' h =>
      rcases ih h with
        ⟨w, t, s, rest, rfl, ht, hbegins, hends, hid, hstart, hspan, hearlier, hlater⟩
      refine ⟨t' ++ (s' ++ w), t, s, rest, by simp only [append_assoc], ht, hbegins, hends,
        hid, ?_, ?_, .cons ht' hbegins' hends' hearlier, ?_⟩
      · rw [hstart]
        simp only [length_append, Nat.add_assoc]
      · rw [hspan]
        simp only [length_append, Nat.add_assoc]
      · simp only [length_append, Nat.add_assoc] at hlater ⊢
        exact hlater

theorem tailText_cuts (content : List Char) :
    Cuts 0 content (lexFragments content) (tailText content)
      ∧ ended .code (tailText content) = 0 := by
  rcases lexFragments_cuts content with ⟨tail, hcuts, htail⟩
  obtain rfl : tailText content = tail := hcuts.tail (w := []) rfl rfl
  exact ⟨hcuts, htail⟩

theorem statements_reads (content : List Char) :
    Reads content (statements content) (tailText content) :=
  (tailText_cuts content).1.reads (w := []) rfl rfl

theorem statements_eq {tail : List Char} (h : Reads text read tail) (htail : ended .code tail = 0) :
    statements text = read :=
  ((statements_reads text).unique h (tailText_cuts text).2 htail).1

/-- A text that was read to its end goes on with what follows. -/
theorem statements_append (h : Reads text read rest) :
    statements text = read ++ statements rest :=
  statements_eq (h.trans (statements_reads rest)) (tailText_cuts rest).2

/-- Trivia in front has no statement. -/
theorem statements_trivia {t : List Char} (ht : Trivia t) (rest : List Char) :
    statements (t ++ rest) = statements rest := by
  have hrest := statements_reads rest
  have htail := (tailText_cuts rest).2
  cases hread : statements rest with
  | nil =>
    rw [hread] at hrest
    refine statements_eq (.nil _) ?_
    rw [ended_append, ht.ended, ht.scan, ← hrest.of_nil, htail]
  | cons s read =>
    rw [hread] at hrest
    rcases hrest.of_cons with ⟨t', rest', rfl, ht', hbegins, hends, hrest'⟩
    rw [← append_assoc]
    exact statements_eq (.cons (ht.append ht') hbegins hends hrest') htail

theorem readTrivia_line {u : List Char} (hu : '\n' ∉ u) : readTrivia true u = some true := by
  induction u with
  | nil => rfl
  | cons c rest ih => grind [readTrivia]

def lineOf (text : List Char) : List Char :=
  text.takeWhile (· ≠ '\n')

theorem lineOf_cases (text : List Char) :
    '\n' ∉ lineOf text ∧ (lineOf text = text ∨ ∃ rest, text = lineOf text ++ '\n' :: rest) := by
  have hsplit : lineOf text ++ text.dropWhile (· ≠ '\n') = text := takeWhile_append_dropWhile
  have hline : (lineOf text).all (· ≠ '\n') = true := all_takeWhile
  refine ⟨fun h => by simpa using all_eq_true.mp hline _ h, ?_⟩
  have hhead := head?_dropWhile_not (· ≠ '\n') text
  cases hrest : text.dropWhile (· ≠ '\n') with
  | nil =>
    rw [hrest, append_nil] at hsplit
    exact .inl hsplit
  | cons c rest =>
    rw [hrest] at hhead hsplit
    obtain rfl : c = '\n' := by simpa using hhead
    exact .inr ⟨rest, hsplit.symm⟩

/-- A comment that is open at the seam takes the rest of the line, which costs nothing
    if that is trivia. -/
theorem statements_comment (hleft : readTrivia false left = some b)
    (hline : (readTrivia false (lineOf rest)).isSome = true) :
    statements (left ++ rest) = statements rest := by
  rcases Option.isSome_iff_exists.mp hline with ⟨b', hb'⟩
  cases b with
  | false => exact statements_trivia hleft rest
  | true =>
    rcases lineOf_cases rest with ⟨hends, hall | ⟨after, hafter⟩⟩
    · -- The comment takes all of the text.
      rw [hall] at hends hb'
      have hcomment : readTrivia false (left ++ rest) = some true := by
        rw [readTrivia_append hleft, readTrivia_line hends]
      rw [statements_eq (.nil _) (readTrivia_scan hcomment).2,
        statements_eq (.nil _) (readTrivia_scan hb').2]
    · have hlost : Trivia (left ++ (lineOf rest ++ ['\n'])) := by
        rw [Trivia, readTrivia_append hleft, readTrivia_append (readTrivia_line hends)]
        rfl
      have hkept : Trivia (lineOf rest ++ ['\n']) := by
        rw [Trivia, readTrivia_append hb']
        cases b' <;> rfl
      have hsplit : rest = lineOf rest ++ ['\n'] ++ after := by
        rw [append_assoc]
        exact hafter
      rw [hsplit, ← append_assoc, statements_trivia hkept after]
      exact statements_trivia hlost after

theorem parserTrivia_comment (h : parserTrivia b text = true) :
    parserTrivia true text = true := by
  induction text generalizing b with
  | nil => rfl
  | cons c rest ih =>
    by_cases hc : c = '\n'
    · -- The line end is white space, so both are in code after it.
      subst hc
      cases b <;> exact h
    · have hcomment : parserTrivia true (c :: rest) = parserTrivia true rest := by
        rw [parserTrivia, bne_iff_ne.mpr hc]
      rw [hcomment]
      cases b with
      | true => exact hcomment.symm.trans h
      | false =>
        rw [parserTrivia] at h
        split at h
        · exact ih h
        · rw [Bool.and_eq_true] at h
          exact h.2

theorem parserTrivia_append (hleft : parserTrivia b left = true)
    (hrest : parserTrivia false rest = true) : parserTrivia b (left ++ rest) = true := by
  induction left generalizing b with
  | nil =>
    cases b with
    | false => exact hrest
    | true => exact parserTrivia_comment hrest
  | cons c left ih =>
    cases b with
    | true => exact ih hleft
    | false =>
      rw [parserTrivia] at hleft
      rw [cons_append, parserTrivia]
      split at hleft
      · rename_i hspace
        rw [if_pos hspace]
        exact ih hleft
      · rename_i hspace
        rw [Bool.and_eq_true, Bool.and_eq_true] at hleft
        rcases head?_eq_some_iff.mp (beq_iff_eq.mp hleft.1.2) with ⟨left', rfl⟩
        rw [if_neg hspace, ih hleft.2, hleft.1.1]
        rfl

theorem whiteSpace_ne {c : Char} (h : whiteSpace c = true) : c ≠ '"' ∧ c ≠ '/' ∧ c ≠ ';' := by
  refine ⟨?_, ?_, ?_⟩ <;> (rintro rfl; revert h; decide)

/-- What the parser skips ends no statement. -/
theorem parserTrivia_ended (h : parserTrivia b text = true) :
    ended (triviaMode b) text = 0 := by
  induction text generalizing b with
  | nil => rfl
  | cons c rest ih =>
    cases b with
    | true =>
      rw [ended, if_neg (fun hend => by cases hend.1), Nat.zero_add, next_comment]
      exact ih h
    | false =>
      rw [parserTrivia] at h
      split at h
      · rename_i hspace
        rcases whiteSpace_ne hspace with ⟨hquote, hslash, hsemi⟩
        have hnext : (triviaMode false).next c = triviaMode false := by
          simp [triviaMode, Mode.next, hquote, hslash]
        rw [ended, if_neg (fun hend => hsemi hend.2), Nat.zero_add, hnext]
        exact ih h
      · rw [Bool.and_eq_true, Bool.and_eq_true] at h
        rcases head?_eq_some_iff.mp (beq_iff_eq.mp h.1.2) with ⟨rest', rfl⟩
        obtain rfl : c = '/' := beq_iff_eq.mp h.1.1
        have hcomment := ih h.2
        simp only [triviaMode, ended, Mode.next, Mode.top] at hcomment ⊢
        simpa using hcomment

end Tokenizer

section Editing

variable {parser : PolicyParser} {content id text : List Char} {fragments : List PolicyFragment}

theorem nodup_of_sorted {l : List (List Char)} (hsorted : l.Pairwise (· ≤ ·))
    (h : (l.zip l.tail).any (fun w => w.1 == w.2) = false) : l.Nodup := by
  induction l with
  | nil => exact nodup_nil
  | cons a rest ih =>
    rcases pairwise_cons.mp hsorted with ⟨hle, hrest⟩
    cases rest with
    | nil => exact nodup_singleton a
    | cons b rest' =>
      rw [tail_cons, zip_cons_cons, any_cons, Bool.or_eq_false_iff] at h
      have hlt : a < b := lt_of_le_of_ne (hle b mem_cons_self) (beq_eq_false_iff_ne.mp h.1)
      refine nodup_cons.mpr ⟨fun hmem => ?_, ih hrest h.2⟩
      rcases mem_cons.mp hmem with heq | hlater
      · exact hlt.ne heq
      · exact absurd ((pairwise_cons.mp hrest).1 a hlater) hlt.not_ge

theorem segmentVerified_checks (h : segmentVerified parser content = .ok fragments) :
    ∃ parsed, parser.fromStr content = .ok parsed ∧ fragments = lexFragments content
      ∧ (fragments.filterMap PolicyFragment.id).Perm (parsed.filterMap (fun p => p))
      ∧ (fragments.filterMap PolicyFragment.id).Nodup := by
  unfold segmentVerified at h
  split at h
  · cases h
  · rename_i parsed hparsed
    simp only at h
    split at h
    · cases h
    · split at h
      · cases h
      · rename_i hsorted
        split at h
        · cases h
        · rename_i hwindows
          cases h
          have hsegIds := perm_insertionSort (· ≤ ·)
            ((lexFragments content).filterMap PolicyFragment.id)
          refine ⟨parsed, hparsed, rfl, ?_, hsegIds.nodup_iff.mp
            (nodup_of_sorted (pairwise_insertionSort _ _) (eq_false_of_ne_true hwindows))⟩
          rw [not_not.mp hsorted] at hsegIds
          exact hsegIds.symm.trans (perm_insertionSort _ _)

/-- An accepted bundle is cut into fragments with distinct identifiers, and the parser skips the
    rest. -/
theorem segmentVerified_ok (h : segmentVerified parser content = .ok fragments) :
    fragments = lexFragments content ∧ (fragments.filterMap PolicyFragment.id).Nodup
      ∧ Cuts 0 content fragments (tailText content)
      ∧ parserTrivia false (tailText content) = true := by
  rcases segmentVerified_checks h with ⟨parsed, hparsed, rfl, -, hnodup⟩
  exact ⟨rfl, hnodup, (tailText_cuts content).1, parser.complete content parsed hparsed⟩

theorem ensureSinglePolicy_ok {expectedId : Option (List Char)}
    (h : ensureSinglePolicy parser text expectedId = .ok ()) :
    ∃ f, segmentVerified parser text = .ok [f] := by
  unfold ensureSinglePolicy at h
  split at h
  · cases h
  · grind [Cuts.split]

/-- An accepted text is one statement between what is skipped. -/
theorem single_statement {expectedId : Option (List Char)}
    (h : ensureSinglePolicy parser text expectedId = .ok ()) :
    ∃ t s, text = t ++ (s ++ tailText text) ∧ Trivia t ∧ Begins s ∧ Ends .code s
      ∧ parserTrivia false (tailText text) = true ∧ statements text = [s] := by
  rcases ensureSinglePolicy_ok h with ⟨f, hverified⟩
  rcases segmentVerified_ok hverified with ⟨hlex, -, hcuts, hleft⟩
  generalize tailText text = left at hcuts hleft ⊢
  cases hcuts with
  | cons ht hbegins hends hrest =>
    cases hrest
    exact ⟨_, _, rfl, ht, hbegins, hends, hleft,
      statements_eq (.cons ht hbegins hends (.nil left)) (parserTrivia_ended hleft)⟩

theorem findById_split (hnodup : (fragments.filterMap PolicyFragment.id).Nodup)
    (hid : ∃ f ∈ fragments, f.id = some id) :
    ∃ earlier frag later, fragments = earlier ++ frag :: later
      ∧ findById fragments id = .ok frag ∧ frag.id = some id
      ∧ (∀ f ∈ earlier, f.id ≠ some id) ∧ ∀ f ∈ later, f.id ≠ some id := by
  rcases hid with ⟨f, hf, hfid⟩
  cases hfind : fragments.find? (fun f => f.id == some id) with
  | none => exact absurd (beq_iff_eq.mpr hfid) (find?_eq_none.mp hfind f hf)
  | some frag =>
    rcases find?_eq_some_iff_append.mp hfind with ⟨hfrag, earlier, later, rfl, hearlier⟩
    have hfragId : frag.id = some id := beq_iff_eq.mp hfrag
    refine ⟨earlier, frag, later, rfl, by rw [findById, hfind], hfragId,
      fun f hf heq => ?_, fun f hf heq => ?_⟩
    · exact absurd (beq_iff_eq.mpr heq) (by simpa using hearlier f hf)
    · -- The identifier would occur twice.
      rw [filterMap_append, filterMap_cons_some hfragId] at hnodup
      refine (nodup_cons.mp (nodup_append.mp hnodup).2.1).1 ?_
      exact mem_filterMap.mpr ⟨f, hf, heq⟩

/-- What may follow the statement that is submitted, given what follows the one that is
    replaced: trivia; trivia that ends in a comment, if only trivia stands on the rest of
    the line; or anything that the parser skips, if no statement follows. -/
def SeamKept (left rest : List Char) : Prop :=
  Trivia left
    ∨ ((readTrivia false left).isSome = true ∧ (readTrivia false (lineOf rest)).isSome = true)
    ∨ statements rest = []

/-- Behind a kept seam the statements are read as before. -/
theorem SeamKept.statements_eq {left rest tail : List Char} {read : List (List Char)}
    (h : SeamKept left rest) (hleft : parserTrivia false left = true) (hrest : Reads rest read tail)
    (htail : parserTrivia false tail = true) : statements (left ++ rest) = read := by
  have hread := Authz.statements_eq hrest (parserTrivia_ended htail)
  rcases h with htrivia | ⟨hcomment, hline⟩ | hnone
  · rw [statements_trivia htrivia, hread]
  · rcases Option.isSome_iff_exists.mp hcomment with ⟨b, hb⟩
    rw [statements_comment hb hline, hread]
  · obtain rfl : read = [] := hread.symm.trans hnone
    obtain rfl := hrest.of_nil
    exact Authz.statements_eq (.nil _) (parserTrivia_ended (parserTrivia_append hleft htail))

section Sample

def permitA : List Char := "@id(\"a\") permit(principal, action, resource);".toList

def forbidB : List Char := "@id(\"b\") forbid(principal, action, resource);".toList

def submittedA : List Char := permitA ++ " // reviewed".toList

def tabbedA : List Char := permitA ++ ['\x0b']

def onTwoLines : List Char := permitA ++ "\n".toList ++ forbidB

/-- The tokenizer, with the white space of the parser at the end of the text. -/
def sampleParser : PolicyParser :=
  { fromStr := fun content =>
      if parserTrivia false (tailText content) then .ok ((statements content).map statementId)
      else .error "unexpected end of input"
    complete := fun content policies h => by
      split at h
      · assumption
      · cases h }

end Sample

end Editing

end Waygate.Authz
