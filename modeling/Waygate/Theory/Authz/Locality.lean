import Mathlib.Data.List.TakeWhile
import Waygate.Theory.Authz.Segment

/-!
# Removing and Appending Policies

The submitted text is trimmed of every white space, and the tokenizer skips less than
that: a statement loses a vertical tab that it begins with, and takes one that the
bundle ends with.

## Theorems

* `edits_local`, `appendPolicy_tab`
* `removePolicy_statements`, `appendPolicy_statements`: The statements after an edit.
-/

namespace Waygate.Authz

open Text List

variable {parser : PolicyParser} {content id text : List Char} {fragments : List PolicyFragment}

section Removing

theorem readTrivia_blanks {blanks : List Char} (h : ∀ c ∈ blanks, c = ' ' ∨ c = '\t')
    (rest : List Char) : readTrivia false (blanks ++ rest) = readTrivia false rest := by
  induction blanks with
  | nil => rfl
  | cons c blanks ih =>
    have hspace : asciiSpace c = true := by
      rcases h c mem_cons_self with rfl | rfl <;> decide
    rw [cons_append, readTrivia, if_pos hspace]
    exact ih (fun d hd => h d (mem_cons_of_mem c hd))

/-- The comment that goes with a policy has no statement in it. -/
theorem statements_trailing (w rest : List Char) :
    statements ((w ++ rest).drop (trailingCommentEnd (w ++ rest) w.length)) = statements rest := by
  unfold trailingCommentEnd
  simp only [drop_left, ← drop_drop]
  set blanks := rest.takeWhile (fun c => c == ' ' || c == '\t') with hblanks
  have hall : ∀ c ∈ blanks, c = ' ' ∨ c = '\t' := by
    intro c hc
    simpa using mem_takeWhile_imp hc
  obtain ⟨after, hafter⟩ : ∃ after, rest = blanks ++ after :=
    ⟨_, (takeWhile_append_dropWhile).symm⟩
  rw [hafter, drop_left]
  split
  · rename_i hslashes
    obtain ⟨x, rfl⟩ : ∃ x, after = '/' :: '/' :: x :=
      ⟨after.drop 2, by rw [← take_append_drop 2 after, hslashes]; rfl⟩
    rcases lineOf_cases x with ⟨hline, hend⟩
    have hcomment : readTrivia false (blanks ++ '/' :: '/' :: lineOf x) = some true := by
      rw [readTrivia_blanks hall, readTrivia, if_neg (by decide), if_pos ⟨rfl, rfl⟩]
      exact readTrivia_line (by simpa using hline)
    have htake : ('/' :: '/' :: x).takeWhile (· ≠ '\n') = '/' :: '/' :: lineOf x := rfl
    rw [htake]
    rcases hend with hend | ⟨tail, htail⟩
    · -- The comment ends with the text.
      rw [hend] at hcomment ⊢
      rw [if_neg (by simp only [length_append, length_cons]; omega),
        drop_eq_nil_of_le (by simp only [length_append, length_cons]; omega),
        statements_eq (.nil _) (readTrivia_scan hcomment).2]
      rfl
    · have htrivia : Trivia (blanks ++ '/' :: '/' :: lineOf x ++ ['\n']) := by
        rw [Trivia, readTrivia_append hcomment]
        rfl
      have hsplit : blanks ++ '/' :: '/' :: x
          = (blanks ++ '/' :: '/' :: lineOf x ++ ['\n']) ++ tail := by
        conv_lhs => rw [htail]
        simp
      rw [hsplit, statements_trivia htrivia, ← append_assoc, if_pos (by simp; omega)]
      congr 1
      refine drop_left' ?_
      simp only [length_append, length_cons, length_nil]
      omega
  · rw [drop_left]

theorem removePolicy_statements (hcontent : segmentVerified parser content = .ok fragments)
    (hid : ∃ f ∈ fragments, f.id = some id) :
    ∃ out, removePolicy parser content id = .ok out
      ∧ statements out = (fragments.filter (fun f => f.id ≠ some id)).map
        (fun f => slice content f.statement) := by
  rcases segmentVerified_ok hcontent with ⟨-, hnodup, hcuts, htail⟩
  rcases findById_split hnodup hid with
    ⟨earlier, frag, later, rfl, hfind, hfragId, hearlier, hlater⟩
  rcases hcuts.split with ⟨w, t, s, rest, hsplit, ht, -, -, -, hstart, hspan, hcutsE, hcutsL⟩
  have hreadE := hcutsE.reads (w := []) (nil_append content).symm rfl
  have hreadL := hcutsL.reads (w := w ++ (t ++ s))
    (hsplit.trans (by simp only [append_assoc])) (by simp only [length_append]; omega)
  rcases hreadE.consumed with ⟨w', hw, -, hreads⟩
  obtain rfl : w = w' := append_cancel_right (hsplit.symm.trans hw)
  have htake : content.take frag.leading.start = w := by
    rw [hsplit, hstart, Nat.zero_add, take_left]
  have hrest : statements (content.drop (trailingCommentEnd content frag.statement.stop))
      = statements rest := by
    have := statements_trailing (w ++ (t ++ s)) rest
    simp only [append_assoc, length_append, ← Nat.add_assoc] at this
    rw [hspan, Nat.zero_add, hsplit]
    exact this
  have hothers : (earlier ++ frag :: later).filter (fun f => f.id ≠ some id)
      = earlier ++ later := by
    rw [filter_append, filter_cons_of_neg (by simpa using hfragId),
      filter_eq_self.mpr (by simpa using hearlier), filter_eq_self.mpr (by simpa using hlater)]
  refine ⟨w ++ content.drop (trailingCommentEnd content frag.statement.stop), ?_, ?_⟩
  · simp only [removePolicy, hcontent, hfind, htake, bind, Except.bind, pure, Except.pure]
  · rw [statements_append (hreads _), hrest, statements_eq hreadL (parserTrivia_ended htail),
      hothers, map_append]

end Removing

section Appending

theorem readTrivia_newlines {ends : List Char} (h : ∀ c ∈ ends, c = '\n') :
    readTrivia false ends = some false := by
  induction ends with
  | nil => rfl
  | cons c ends ih =>
    rw [h c mem_cons_self]
    exact ih (fun d hd => h d (mem_cons_of_mem c hd))

theorem pushUnless_ends (content : List Char) : ∃ ends,
    pushUnless ['\n', '\n'] (pushUnless ['\n'] content) = content ++ ends
      ∧ (∀ c ∈ ends, c = '\n') ∧ (ends = [] → ['\n'] <:+ content) := by
  by_cases hone : ['\n'].isSuffixOf content = true
  · rw [pushUnless, pushUnless, if_pos hone]
    have hsuffix := isSuffixOf_iff_suffix.mp hone
    split
    · exact ⟨[], (append_nil content).symm, nofun, fun _ => hsuffix⟩
    · exact ⟨['\n'], rfl, fun c hc => mem_singleton.mp hc, fun _ => hsuffix⟩
  · rw [pushUnless, pushUnless, if_neg hone]
    split
    · exact ⟨['\n'], rfl, fun c hc => mem_singleton.mp hc, nofun⟩
    · exact ⟨['\n', '\n'], by simp, by simp, nofun⟩

theorem trivia_ends {w tail ends : List Char} {b : Bool} (htail : readTrivia false tail = some b)
    (hends : ∀ c ∈ ends, c = '\n') (hnone : ends = [] → ['\n'] <:+ w ++ tail) :
    Trivia (tail ++ ends) := by
  rw [Trivia, readTrivia_append htail]
  cases b with
  | false => exact readTrivia_newlines hends
  | true =>
    cases ends with
    | cons c ends =>
      rw [hends c mem_cons_self]
      exact readTrivia_newlines (fun d hd => hends d (mem_cons_of_mem c hd))
    | nil =>
      -- The bundle ends with a line end, so no comment is open.
      rcases eq_nil_or_concat' tail with rfl | ⟨rest, c, rfl⟩
      · cases htail
      · rcases hnone rfl with ⟨front, hfront⟩
        rw [← append_assoc] at hfront
        obtain rfl : '\n' = c := by simpa using (append_inj' hfront rfl).2
        rcases readTrivia_before (by decide) htail with ⟨b, hb⟩
        rw [readTrivia_append hb] at htail
        cases b <;> cases htail

theorem dropWhile_stop {p : Char → Bool} {c : Char} (hc : p c = false) (a b : List Char) :
    (a ++ c :: b).dropWhile p = a.dropWhile p ++ c :: b := by
  induction a with
  | nil => rw [nil_append, dropWhile_cons_of_neg (by simp [hc]), dropWhile_nil, nil_append]
  | cons d a ih =>
    by_cases hd : p d = true
    · rw [cons_append, dropWhile_cons_of_pos hd, dropWhile_cons_of_pos hd, ih]
    · rw [cons_append, dropWhile_cons_of_neg hd, dropWhile_cons_of_neg hd, cons_append]

theorem trivia_trimStart {t : List Char} (ht : Trivia t) : Trivia (t.dropWhile whiteSpace) := by
  induction t with
  | nil => exact ht
  | cons c t ih =>
    by_cases hc : whiteSpace c = true
    · rw [dropWhile_cons_of_pos hc]
      rw [Trivia, readTrivia] at ht
      split at ht
      · exact ih ht
      · split at ht
        · rename_i hslash
          rw [hslash.1] at hc
          cases hc
        · cases ht
    · rw [dropWhile_cons_of_neg hc]
      exact ht

/-- Trimming leaves a statement that does not begin with white space. -/
theorem trim_statement {t s left : List Char} (ht : Trivia t) (hends : Ends .code s)
    (hleft : ended .code left = 0) (hfirst : ∀ c, s.head? = some c → whiteSpace c = false) :
    ∃ t' left', trim (t ++ (s ++ left)) = t' ++ (s ++ left') ∧ Trivia t'
      ∧ ended .code left' = 0 := by
  have hstart : (t ++ (s ++ left)).dropWhile whiteSpace
      = t.dropWhile whiteSpace ++ (s ++ left) := by
    cases s with
    | nil => exact absurd rfl hends.ne_nil
    | cons c s => exact dropWhile_stop (hfirst c rfl) t (s ++ left)
  rcases hends.semicolon with ⟨v, rfl⟩
  have hstop : (left.reverse ++ ';' :: (v.reverse ++ (t.dropWhile whiteSpace).reverse)).dropWhile
      whiteSpace = left.reverse.dropWhile whiteSpace
        ++ ';' :: (v.reverse ++ (t.dropWhile whiteSpace).reverse) :=
    dropWhile_stop (by decide) _ _
  have hsplit : left = (left.reverse.dropWhile whiteSpace).reverse
      ++ (left.reverse.takeWhile whiteSpace).reverse := by
    rw [← reverse_append, takeWhile_append_dropWhile, reverse_reverse]
  refine ⟨t.dropWhile whiteSpace, (left.reverse.dropWhile whiteSpace).reverse, ?_,
    trivia_trimStart ht, ?_⟩
  · rw [trim, hstart]
    simp only [reverse_append, reverse_cons, nil_append, append_assoc, cons_append]
    rw [hstop]
    simp
  · rw [hsplit, ended_append] at hleft
    exact Nat.eq_zero_of_add_eq_zero_right hleft

theorem ended_newline (m : Mode) : ended m ['\n'] = 0 := by
  cases m <;> rfl

theorem appendPolicy_eq (hcontent : segmentVerified parser content = .ok fragments)
    (text : List Char) : ∃ ends,
    appendPolicy parser content text = .ok (content ++ ends ++ trim text ++ ['\n'])
      ∧ ((readTrivia false (tailText content)).isSome = true → Trivia (tailText content ++ ends)) :=
    by
  by_cases hempty : content = []
  · subst hempty
    refine ⟨[], ?_, fun _ => trivia_nil⟩
    simp only [appendPolicy, hcontent, bind, Except.bind, pure, Except.pure]
    rfl
  · rcases pushUnless_ends content with ⟨ends, hpush, hnewlines, hnone⟩
    rcases (statements_reads content).consumed with ⟨w, hw, -, -⟩
    refine ⟨ends, ?_, fun htail => ?_⟩
    · simp only [appendPolicy, hcontent, bind, Except.bind, pure, Except.pure, List.isEmpty_iff,
        hempty, if_false, hpush]
    · rcases Option.isSome_iff_exists.mp htail with ⟨b, hb⟩
      exact trivia_ends hb hnewlines (fun h => hw ▸ hnone h)

theorem appendPolicy_statements {expectedId : Option (List Char)}
    (hcontent : segmentVerified parser content = .ok fragments)
    (htext : ensureSinglePolicy parser text expectedId = .ok ()) :
    ∃ stmt out, statements text = [stmt] ∧ appendPolicy parser content text = .ok out
      ∧ content <+: out
      ∧ ((readTrivia false (tailText content)).isSome = true →
        (∀ c, stmt.head? = some c → whiteSpace c = false) →
        statements out = statements content ++ [stmt]) := by
  rcases appendPolicy_eq hcontent text with ⟨ends, hout, htrivia⟩
  rcases (statements_reads content).consumed with ⟨w, hw, -, hreads⟩
  rcases single_statement htext with ⟨t, s, hsubmitted, ht, hbegins, hends, hleft, hone⟩
  refine ⟨s, _, hone, hout, ?_, fun htail hfirst => ?_⟩
  · rw [append_assoc, append_assoc]
    exact prefix_append _ _
  · rcases trim_statement ht hends (parserTrivia_ended hleft) hfirst with
      ⟨t', left', htrim, ht', hleft'⟩
    have hsplit : content ++ ends ++ trim text ++ ['\n']
        = w ++ ((tailText content ++ ends ++ t') ++ (s ++ (left' ++ ['\n']))) := by
      rw [hsubmitted, htrim]
      conv_lhs => rw [hw]
      simp
    have hrest : statements (left' ++ ['\n']) = [] := by
      refine statements_eq (.nil _) ?_
      rw [ended_append, hleft', ended_newline]
    rw [hsplit, statements_append (hreads _),
      statements_append (.cons ((htrivia htail).append ht') hbegins hends (.nil _)), hrest]
    rfl

/-- Removing a policy leaves the statements of the others. Appending one keeps the bundle,
    and adds the statement if the tokenizer skips what ends the bundle and what the
    statement is trimmed of. -/
theorem edits_local (parser : PolicyParser) {content text : List Char}
    {fragments : List PolicyFragment} {expectedId : Option (List Char)}
    (hcontent : segmentVerified parser content = .ok fragments)
    (htext : ensureSinglePolicy parser text expectedId = .ok ()) :
    (∀ id, (∃ f ∈ fragments, f.id = some id) →
      ∃ out, removePolicy parser content id = .ok out
        ∧ statements out = (fragments.filter (fun f => f.id ≠ some id)).map
          (fun f => slice content f.statement))
    ∧ ∃ stmt out, statements text = [stmt] ∧ appendPolicy parser content text = .ok out
      ∧ content <+: out
      ∧ ((readTrivia false (tailText content)).isSome = true →
        (∀ c, stmt.head? = some c → whiteSpace c = false) →
        statements out = statements content ++ [stmt]) :=
  ⟨fun _ hid => removePolicy_statements hcontent hid, appendPolicy_statements hcontent htext⟩

theorem edits_local_lines :
    (∃ out, removePolicy sampleParser onTwoLines ['a'] = .ok out ∧ statements out = [forbidB])
    ∧ ∃ out, appendPolicy sampleParser onTwoLines submittedA = .ok out ∧ onTwoLines <+: out
      ∧ statements out = [permitA, forbidB, permitA] := by
  have hcontent : segmentVerified sampleParser onTwoLines = .ok (lexFragments onTwoLines) := by
    decide +kernel
  have htext : ensureSinglePolicy sampleParser submittedA none = .ok () := by
    decide +kernel
  have hpermit : statements submittedA = [permitA] := by decide +kernel
  rcases edits_local sampleParser hcontent htext with
    ⟨hremove, stmt, out, hstmt, hout, hkept, hadded⟩
  obtain rfl : permitA = stmt := (cons.inj (hpermit.symm.trans hstmt)).1
  constructor
  · rcases hremove ['a'] (by decide +kernel) with ⟨out, hout, hothers⟩
    exact ⟨out, hout, hothers.trans (by decide +kernel)⟩
  · refine ⟨out, hout, hkept, (hadded (by decide +kernel) ?_).trans (by decide +kernel)⟩
    rintro c ⟨⟩
    decide

def tabbed : List Char := '\x0b' :: "permit(principal, action, resource);".toList

/-- The tokenizer reads a tab as part of the statement after it. Trimming removes it from
    a statement that is submitted, and the end of the bundle adds it. -/
theorem appendPolicy_tab :
    (segmentVerified sampleParser permitA = .ok (lexFragments permitA)
      ∧ ensureSinglePolicy sampleParser tabbed none = .ok ()
      ∧ statements tabbed = [tabbed]
      ∧ ∃ out, appendPolicy sampleParser permitA tabbed = .ok out
        ∧ statements out = [permitA, tabbed.tail])
    ∧ segmentVerified sampleParser tabbedA = .ok (lexFragments tabbedA)
      ∧ ensureSinglePolicy sampleParser forbidB none = .ok ()
      ∧ statements forbidB = [forbidB]
      ∧ ∃ out, appendPolicy sampleParser tabbedA forbidB = .ok out
        ∧ statements out = [permitA, '\x0b' :: '\n' :: '\n' :: forbidB] := by
  refine ⟨⟨by decide +kernel, by decide +kernel, by decide +kernel,
      permitA ++ ['\n', '\n'] ++ tabbed.tail ++ ['\n'], by decide +kernel, by decide +kernel⟩,
    by decide +kernel, by decide +kernel, by decide +kernel,
    tabbedA ++ ['\n', '\n'] ++ forbidB ++ ['\n'], by decide +kernel, by decide +kernel⟩

end Appending

end Waygate.Authz
