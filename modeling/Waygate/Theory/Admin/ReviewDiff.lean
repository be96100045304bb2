import Mathlib.Data.List.Forall2
import Mathlib.Data.List.TakeWhile
import Waygate.Core.Admin.ReviewDiff

/-!
# Complete Comparisons

A comparison that shows rows shows all of both texts: the blocks so far number the lines
up to the place the script has reached, on both sides.

## Main definitions

* `Inv`, `Valid`
* `Shows`: The segments of a line spell it.
* `Complete`: Every line is shown or counted.

## Theorems

* `segments_lossless`, `Inv.unchanged`, `Inv.change`, `Inv.build`, `compareBefore_complete`
* `StateShows.pushMarked`, `StateShows.pushPlain`: One character of a line.
-/

namespace Waygate.ReviewDiff

open List

section Segments

variable {s : SegmentState} {line read : List Char}

/-- A segment shows a run of characters: a badge shows one marked character, so
    often as it counts, and any other segment shows its text. -/
inductive ShowsRun : Segment → List Char → Prop
  | plain (segment : Segment) (hlabel : segment.label = none)
      (hplain : ∀ c ∈ segment.text, marked c = none) : ShowsRun segment segment.text
  | badge (c : Char) (kind cssClass : String) (n : Nat) (hmarked : marked c = some kind) :
      ShowsRun (badge c kind cssClass (n + 1)) (List.replicate (n + 1) c)

def Shows (segments : List Segment) (line : List Char) : Prop :=
  ∃ runs : List (List Char), runs.flatten = line ∧ List.Forall₂ ShowsRun segments runs

theorem badge_label (c : Char) (kind cssClass : String) (n : Nat) :
    (badge c kind cssClass n).label ≠ none := by
  unfold badge
  split <;> exact Option.some_ne_none _

/-- The segments so far show what has been read, and the badge that is being repeated
    is the last of them. -/
def StateShows (s : SegmentState) (read : List Char) : Prop :=
  ∃ runs : List (List Char), runs.reverse.flatten = read ∧ List.Forall₂ ShowsRun s.out runs
    ∧ ∀ c cssClass n, s.repeated = some (c, cssClass, n) →
      ∃ before, runs = List.replicate n c :: before

theorem StateShows.pushMarked (h : StateShows s read) {c : Char} {kind : String}
    (hmarked : marked c = some kind) (cssClass : String) :
    StateShows (pushMarked s c kind cssClass) (read ++ [c]) := by
  rcases h with ⟨runs, rfl, hshows, hrepeated⟩
  -- A new badge for one character.
  have hnew : StateShows
      { out := badge c kind cssClass 1 :: s.out, repeated := some (c, cssClass, 1) }
      (runs.reverse.flatten ++ [c]) := by
    refine ⟨[c] :: runs, ?_, .cons (.badge c kind cssClass 0 hmarked) hshows, ?_⟩
    · rw [reverse_cons, flatten_append, flatten_singleton]
    · rintro c' cssClass' n heq
      cases heq
      exact ⟨runs, rfl⟩
  unfold ReviewDiff.pushMarked
  split
  · rename_i last lastClass count previous before hlast hout
    split
    · rename_i hsame
      rcases hsame with ⟨rfl, rfl⟩
      rcases hrepeated _ _ _ hlast with ⟨earlier, rfl⟩
      rw [hout] at hshows
      cases hshows with
      | cons _ hshows =>
        refine ⟨List.replicate (count + 1) last :: earlier, ?_,
          .cons (.badge last kind _ count hmarked) hshows, ?_⟩
        · simp only [reverse_cons, flatten_append, flatten_singleton,
            append_assoc, replicate_succ']
        · simp
    · exact hnew
  · exact hnew

theorem StateShows.pushPlain (h : StateShows s read) {c : Char} (hplain : marked c = none)
    (cssClass : String) :
    StateShows (pushPlain s c cssClass) (read ++ [c]) := by
  rcases h with ⟨runs, rfl, hshows, -⟩
  have hnew : StateShows
      { out := { text := [c], cssClass := cssClass, label := none } :: s.out, repeated := none }
      (runs.reverse.flatten ++ [c]) := by
    refine ⟨[c] :: runs, ?_, .cons (.plain _ rfl (fun d hd => ?_)) hshows, fun _ _ _ heq => ?_⟩
    · rw [reverse_cons, flatten_append, flatten_singleton]
    · rw [mem_singleton.mp hd]
      exact hplain
    · cases heq
  unfold ReviewDiff.pushPlain
  split
  · rename_i last before hout
    split
    · rename_i hsame
      rw [hout] at hshows
      cases hshows with
      | @cons _ run _ runs hrun hshows =>
        cases hrun with
        | plain _ hlabel htext =>
          refine ⟨(last.text ++ [c]) :: runs, ?_, .cons (.plain _ hlabel ?_) hshows,
            fun _ _ _ heq => ?_⟩
          · simp
          · grind
          · cases heq
        | badge c' kind cssClass n hmarked => exact absurd hsame.2 (badge_label _ _ _ _)
    · exact hnew
  · rename_i hout
    rw [hout] at hnew
    exact hnew

theorem segmentsFrom_shows {changed : Ranges} {changedLine : Bool} {trailing at_ : Nat}
    (h : StateShows s read) :
    StateShows (segmentsFrom changed changedLine trailing at_ line s) (read ++ line) := by
  induction line generalizing at_ read s with
  | nil =>
    rw [append_nil]
    exact h
  | cons c rest ih =>
    rw [segmentsFrom, ← singleton_append, ← append_assoc]
    refine ih ?_
    unfold segmentStep
    simp only
    cases hmarked : marked c with
    | some kind => exact h.pushMarked hmarked _
    | none => exact h.pushPlain hmarked _

theorem segments_shows (line : List Char) (changed : Ranges) (changedLine : Bool) :
    Shows (segments line changed changedLine) line := by
  have hempty : StateShows { out := [], repeated := none } [] :=
    ⟨[], rfl, .nil, nofun⟩
  rcases segmentsFrom_shows hempty with ⟨runs, hruns, hshows, -⟩
  exact ⟨runs.reverse, hruns, List.forall₂_reverse_iff.mpr hshows⟩

theorem textSegments_shows (h : byteLen line ≤ MAX_TEXT_BYTES) :
    Shows (textSegments line) line := by
  rw [textSegments, if_neg (Nat.not_lt.mpr h)]
  exact segments_shows line [] false

def digitValue (c : Char) : Nat :=
  if c.isDigit then c.toNat - 48 else c.toNat - 55

def hexValue (digits : List Char) : Nat :=
  digits.foldl (fun value c => 16 * value + digitValue c) 0

/-- The run a segment stands for: its text, and for a badge the code point, so often
    as it counts. -/
def runOf (segment : Segment) : List Char :=
  match segment.label with
  | none => segment.text
  | some _ =>
    let c := Char.ofNat (hexValue ((segment.text.takeWhile (· ≠ ' ')).drop 2))
    match segment.text.dropWhile (· ≠ ' ') with
    | [] => [c]
    | repeats => List.replicate (Nat.ofDigitChars 10 (repeats.drop 2) 0) c

def lineOf (segments : List Segment) : List Char :=
  (segments.map runOf).flatten

/-- The text read back from its segments. The notice of a large text is not part of
    it, nor is the line break after the notice. -/
def textOf (segments : List Segment) : List Char :=
  match segments with
  | first :: rest =>
    if first.cssClass = "diff-char" ∧ first.label = none then (lineOf rest).drop 1
    else lineOf segments
  | [] => []

theorem upperDigit (n : Nat) (h : n < 16) :
    digitValue n.digitChar.toUpper = n ∧ n.digitChar.toUpper ≠ ' ' := by
  revert n
  decide

theorem hexValue_toDigits (n : Nat) :
    hexValue ((Nat.toDigits 16 n).map Char.toUpper) = n
      ∧ ' ' ∉ (Nat.toDigits 16 n).map Char.toUpper := by
  induction n using Nat.strongRecOn with
  | ind n ih =>
    have hlast := upperDigit (n % 16) (Nat.mod_lt n (by decide))
    rw [Nat.toDigits_eq_if (by decide)]
    by_cases h : n < 16
    · rw [Nat.mod_eq_of_lt h] at hlast
      rw [if_pos h]
      simp [hexValue, hlast.1, hlast.2.symm]
    · rcases ih (n / 16) (by omega) with ⟨hvalue, hblank⟩
      rw [if_neg h]
      unfold hexValue at hvalue ⊢
      simp only [map_append, foldl_append, hvalue, map_cons, map_nil, foldl_cons, foldl_nil,
        hlast.1, mem_append, hblank, mem_singleton, hlast.2.symm, or_self, not_false_eq_true,
        and_true]
      omega

theorem codePoint_digits (c : Char) : ∃ digits : List Char,
    (codePoint c).toList = 'U' :: '+' :: digits ∧ hexValue digits = c.toNat ∧ ' ' ∉ digits := by
  rcases hexValue_toDigits c.toNat with ⟨hvalue, hblank⟩
  refine ⟨List.replicate (4 - ((Nat.toDigits 16 c.toNat).map Char.toUpper).length) '0'
    ++ (Nat.toDigits 16 c.toNat).map Char.toUpper, ?_, ?_, ?_⟩
  · simp only [codePoint, String.toList_append, String.toList_ofList]
    rfl
  · -- Zeros before the digits leave the value zero.
    have hzeros : ∀ k, (List.replicate k '0').foldl
        (fun value c => 16 * value + digitValue c) 0 = 0 := by
      intro k
      induction k with
      | zero => rfl
      | succ k ih => exact ih
    unfold hexValue at hvalue ⊢
    rw [foldl_append, hzeros, hvalue]
  · rw [mem_append, not_or]
    exact ⟨fun h => absurd (eq_of_mem_replicate h) (by decide), hblank⟩

theorem runOf_badge (c : Char) (kind cssClass : String) (n : Nat) :
    runOf (badge c kind cssClass (n + 1)) = List.replicate (n + 1) c := by
  rcases codePoint_digits c with ⟨digits, hdigits, hvalue, hblank⟩
  have hkeep : ∀ x ∈ (codePoint c).toList, decide (x ≠ ' ') = true := by
    simp only [hdigits, mem_cons, decide_eq_true_eq]
    rintro x (rfl | rfl | hx)
    · decide
    · decide
    · exact fun h => hblank (h ▸ hx)
  have hc : Char.ofNat (hexValue ((codePoint c).toList.drop 2)) = c := by
    rw [hdigits, drop_succ_cons, drop_succ_cons, drop_zero, hvalue, Char.ofNat_toNat]
  by_cases hone : n = 0
  · subst hone
    simp only [runOf, badge, if_true, takeWhile_eq_self_iff.mpr hkeep,
      dropWhile_eq_nil_iff.mpr hkeep, hc]
    rfl
  · -- The blank before the count ends the code point.
    have htext : (codePoint c ++ " ×" ++ toString (n + 1)).toList
        = (codePoint c).toList ++ ' ' :: '×' :: Nat.toDigits 10 (n + 1) := by
      simp only [String.toList_append, Nat.toString_eq_repr, Nat.toList_repr, append_assoc]
      rfl
    simp only [runOf, badge, if_neg (show ¬ n + 1 = 1 by omega), htext,
      takeWhile_append_of_pos hkeep, dropWhile_append_of_pos hkeep]
    simp [hc, Nat.ofDigitChars_ten_toDigits]

theorem ShowsRun.runOf_eq {segment : Segment} {run : List Char} (h : ShowsRun segment run) :
    runOf segment = run := by
  cases h with
  | plain _ hlabel _ => rw [runOf, hlabel]
  | badge c kind cssClass n _ => exact runOf_badge c kind cssClass n

theorem Shows.lineOf_eq {segments : List Segment} (h : Shows segments line) :
    lineOf segments = line := by
  rcases h with ⟨runs, rfl, hshows⟩
  have hruns : segments.map runOf = runs := by
    induction hshows with
    | nil => rfl
    | cons hrun _ ih => rw [map_cons, hrun.runOf_eq, ih]
  rw [lineOf, hruns]

theorem segmentsFrom_class {changed : Ranges} {changedLine : Bool} {trailing at_ : Nat}
    (h : ∀ segment ∈ s.out, segment.label = none → segment.cssClass ≠ "diff-char") :
    ∀ segment ∈ (segmentsFrom changed changedLine trailing at_ line s).out,
      segment.label = none → segment.cssClass ≠ "diff-char" := by
  induction line generalizing at_ s with
  | nil => exact h
  | cons c rest ih =>
    refine ih ?_
    have hclass : ∀ word space, textClass word space ≠ "diff-char" := by decide
    unfold segmentStep
    simp only
    cases marked c with
    | some kind =>
      have hbadge := badge_label c kind
      simp only [pushMarked]
      grind
    | none =>
      simp only [pushPlain]
      grind

theorem textOf_textSegments (text : List Char) : textOf (textSegments text) = text := by
  unfold textSegments
  split
  · simp [textOf, lineOf, runOf]
  · have hclass : ∀ segment ∈ segments text [] false,
        segment.label = none → segment.cssClass ≠ "diff-char" := by
      intro segment hmem
      exact segmentsFrom_class (fun _ h => absurd h not_mem_nil) segment (mem_reverse.mp hmem)
    have hline := (segments_shows text [] false).lineOf_eq
    revert hclass hline
    cases segments text [] false with
    | nil => exact fun _ hline => hline
    | cons first rest =>
      intro hclass hline
      rw [textOf, if_neg (fun h => hclass first mem_cons_self h.2 h.1), hline]

/-- The segments of a line show it, marked characters in badges and no others there,
    and the line is read back from them. So is a text, of any length. -/
theorem segments_lossless (line : List Char) (changed : Ranges) (changedLine : Bool) :
    Shows (segments line changed changedLine) line
      ∧ lineOf (segments line changed changedLine) = line
      ∧ (∀ line' changed' changedLine',
        segments line' changed' changedLine' = segments line changed changedLine → line' = line)
      ∧ textOf (textSegments line) = line := by
  have hback : ∀ line changed changedLine, lineOf (segments line changed changedLine) = line :=
    fun line changed changedLine => (segments_shows line changed changedLine).lineOf_eq
  refine ⟨segments_shows line changed changedLine, hback line changed changedLine, ?_,
    textOf_textSegments line⟩
  intro line' changed' changedLine' heq
  rw [← hback line' changed' changedLine', heq, hback]

end Segments

section Blocks

def Row.oldCell (r : Row) : Option Cell :=
  r.old.map (fun n => { kind := r.kind, number := n, segments := r.segments })

def Row.newCell (r : Row) : Option Cell :=
  r.new.map (fun n => { kind := r.kind, number := n, segments := r.segments })

def Block.oldNumbers (b : Block) : List Nat :=
  if b.collapsed = true ∧ b.rows = [] then List.range' (b.start.1 + 1) b.hidden
  else b.rows.filterMap Row.old

def Block.newNumbers (b : Block) : List Nat :=
  if b.collapsed = true ∧ b.rows = [] then List.range' (b.start.2 + 1) b.hidden
  else b.rows.filterMap Row.new

variable {old new : List (List Char)}

/-- A row shows the lines it numbers. An unchanged line is in both texts. -/
inductive RowShows (old new : List (List Char)) : Row → Prop
  | context (i j : Nat) (line : List Char) (segments : List Segment) (hold : old[i]? = some line)
      (hnew : new[j]? = some line) (hshows : Shows segments line) :
      RowShows old new ⟨.context, some (i + 1), some (j + 1), segments⟩
  | removed (i : Nat) (line : List Char) (segments : List Segment) (hold : old[i]? = some line)
      (hshows : Shows segments line) : RowShows old new ⟨.removed, some (i + 1), none, segments⟩
  | added (j : Nat) (line : List Char) (segments : List Segment) (hnew : new[j]? = some line)
      (hshows : Shows segments line) : RowShows old new ⟨.added, none, some (j + 1), segments⟩

def Common (old new : List (List Char)) (i j : Nat) : Prop :=
  ∃ line, old[i]? = some line ∧ new[j]? = some line

/-- The rows of a block show their lines, the side-by-side view has the same cells in
    the same order, and lines that are only counted are unchanged. -/
structure Block.Faithful (old new : List (List Char)) (b : Block) : Prop where
  rows : ∀ r ∈ b.rows, RowShows old new r
  oldCells : b.split.filterMap SplitRow.old = b.rows.filterMap Row.oldCell
  newCells : b.split.filterMap SplitRow.new = b.rows.filterMap Row.newCell
  splitLength : b.split.length ≤ b.rows.length
  hidden : b.collapsed = true → b.rows = [] →
    ∀ k < b.hidden, Common old new (b.start.1 + k) (b.start.2 + k)

theorem Block.Faithful.empty : Block.Faithful old new {} :=
  ⟨nofun, rfl, rfl, Nat.le_refl 0, nofun⟩

theorem lineAt_of_common {lines : List (List Char)} {i : Nat} {line : List Char}
    (h : lines[i]? = some line) : Builder.lineAt lines i = line := by
  rw [Builder.lineAt, getD_eq_getElem?_getD, h]
  rfl

theorem Block.Faithful.pushContext {b : Block} (h : b.Faithful old new)
    (hsize : ∀ line ∈ old, byteLen line ≤ MAX_TEXT_BYTES) {i j : Nat} (hline : Common old new i j) :
    (Builder.pushContext b old i j).Faithful old new := by
  rcases hline with ⟨line, hold, hnew⟩
  have hshows : Shows (textSegments (Builder.lineAt old i)) line := by
    rw [lineAt_of_common hold]
    exact textSegments_shows (hsize line (mem_of_getElem? hold))
  refine ⟨fun r hr => ?_, ?_, ?_, ?_, fun _ hrows => ?_⟩
  · rcases mem_append.mp hr with hr | hr
    · exact h.rows r hr
    · rw [mem_singleton.mp hr]
      exact .context i j line _ hold hnew hshows
  · simp only [Builder.pushContext, filterMap_append, h.oldCells]
    rfl
  · simp only [Builder.pushContext, filterMap_append, h.newCells]
    rfl
  · simp only [Builder.pushContext, length_append, length_singleton]
    exact Nat.add_le_add_right h.splitLength 1
  · exact absurd (append_eq_nil_iff.mp hrows).2 (cons_ne_nil _ _)

end Blocks

section Building

variable {b : Builder} {i index j : Nat} {α : Type*} {ops : List DiffOp}
  {old new : List (List Char)}

/-- What holds of the builder when the script has reached the old line `i` and the new
    line `j`: the blocks so far number the lines up to there. -/
structure Inv (old new : List (List Char)) (b : Builder) (i j : Nat) : Prop where
  going : b.truncated = false
  blocks : ∀ block ∈ b.blocks, block.Faithful old new
    ∧ (block.collapsed = true → block.rows = [] ∧ block.split = [])
  current : b.current.Faithful old new
  shown : b.current.collapsed = false ∧ b.current.hidden = 0
  oldNumbers : b.blocks.flatMap Block.oldNumbers ++ b.current.rows.filterMap Row.old
    = List.range' 1 i
  newNumbers : b.blocks.flatMap Block.newNumbers ++ b.current.rows.filterMap Row.new
    = List.range' 1 j
  budget : (b.blocks.map (fun block => block.rows.length)).sum + b.current.rows.length + b.rowsLeft
    = MAX_ROWS

theorem Inv.empty : Inv old new .empty 0 0 :=
  ⟨rfl, nofun, .empty, ⟨rfl, rfl⟩, rfl, rfl, rfl⟩

theorem take_cases (b : Builder) (rows : Nat) :
    (b.take rows = (true, { b with rowsLeft := b.rowsLeft - rows }) ∧ rows ≤ b.rowsLeft)
    ∨ ∃ b', b.take rows = (false, b') ∧ b'.truncated = true := by
  unfold Builder.take
  split
  · rename_i h
    exact .inl ⟨rfl, h.2⟩
  · exact .inr ⟨_, rfl, rfl⟩

theorem range'_snoc (n : Nat) : List.range' 1 n ++ [n + 1] = List.range' 1 (n + 1) := by
  rw [range'_concat, Nat.one_mul, Nat.add_comm 1 n]

theorem Inv.context (h : Inv old new b i j) (hsize : ∀ line ∈ old, byteLen line ≤ MAX_TEXT_BYTES)
    (hrows : 1 ≤ b.rowsLeft) (hline : Common old new i j) :
    Inv old new ({ b with rowsLeft := b.rowsLeft - 1 }.context old i j) (i + 1) (j + 1) := by
  refine ⟨h.going, h.blocks, h.current.pushContext hsize hline, h.shown, ?_, ?_, ?_⟩
  · rw [← range'_snoc, ← h.oldNumbers]
    simp only [Builder.context, Builder.pushContext, filterMap_append, append_assoc]
    rfl
  · rw [← range'_snoc, ← h.newNumbers]
    simp only [Builder.context, Builder.pushContext, filterMap_append, append_assoc]
    rfl
  · have hbudget := h.budget
    simp only [Builder.context, Builder.pushContext, length_append, length_singleton]
    omega

theorem Inv.contexts (hsize : ∀ line ∈ old, byteLen line ≤ MAX_TEXT_BYTES) {oldIndex newIndex : Nat}
    (n : Nat) {s : Nat} (h : Inv old new b (oldIndex + s) (newIndex + s))
    (hlines : ∀ k < n, Common old new (oldIndex + (s + k)) (newIndex + (s + k))) :
    ∃ b' go, Builder.contexts old oldIndex newIndex (List.range' s n) b = (go, b')
      ∧ ((go = true ∧ Inv old new b' (oldIndex + (s + n)) (newIndex + (s + n)))
        ∨ (go = false ∧ b'.truncated = true)) := by
  induction n generalizing s b with
  | zero => exact ⟨b, true, rfl, .inl ⟨rfl, h⟩⟩
  | succ n ih =>
    rw [range'_succ, Builder.contexts]
    rcases take_cases b 1 with ⟨htake, hrows⟩ | ⟨b', htake, hstopped⟩
    · rw [htake]
      have hnext := h.context hsize hrows (hlines 0 (Nat.zero_lt_succ n))
      rw [Nat.add_assoc, Nat.add_assoc] at hnext
      rcases ih hnext (fun k hk => by
        have hline := hlines (k + 1) (Nat.succ_lt_succ hk)
        rwa [Nat.add_comm k 1, ← Nat.add_assoc s 1 k] at hline) with ⟨b', go, heq, hresult⟩
      rw [Nat.add_assoc s 1 n, Nat.add_comm 1 n] at hresult
      exact ⟨b', go, heq, hresult⟩
    · rw [htake]
      exact ⟨b', false, rfl, .inr ⟨rfl, hstopped⟩⟩

theorem oldNumbers_shown {b : Block} (h : b.collapsed = false) :
    b.oldNumbers = b.rows.filterMap Row.old :=
  if_neg (fun hcollapsed => by rw [h] at hcollapsed; cases hcollapsed.1)

theorem newNumbers_shown {b : Block} (h : b.collapsed = false) :
    b.newNumbers = b.rows.filterMap Row.new :=
  if_neg (fun hcollapsed => by rw [h] at hcollapsed; cases hcollapsed.1)

theorem close_current (b : Builder) : b.close.current = {} := by
  unfold Builder.close
  split <;> rfl

theorem Inv.close (h : Inv old new b i j) : Inv old new b.close i j := by
  unfold Builder.close
  split
  · refine ⟨h.going, fun block hblock => ?_, .empty, ⟨rfl, rfl⟩, ?_, ?_, ?_⟩
    · rcases mem_append.mp hblock with hold | hnew
      · exact h.blocks block hold
      · rw [mem_singleton.mp hnew]
        exact ⟨h.current, fun hcollapsed => by rw [h.shown.1] at hcollapsed; cases hcollapsed⟩
    · rw [← h.oldNumbers, flatMap_append, flatMap_singleton,
        oldNumbers_shown h.shown.1]
      exact append_nil _
    · rw [← h.newNumbers, flatMap_append, flatMap_singleton,
        newNumbers_shown h.shown.1]
      exact append_nil _
    · rw [← h.budget, map_append, sum_append]
      rfl
  · rename_i hempty
    have hrows : b.current.rows = [] := by grind
    have hold := h.oldNumbers
    have hnew := h.newNumbers
    have hbudget := h.budget
    rw [hrows] at hold hnew hbudget
    exact ⟨h.going, h.blocks, .empty, ⟨rfl, rfl⟩, hold, hnew, hbudget⟩

theorem collapse_eq (b : Builder) {gap : Nat} (hgap : 0 < gap) (start : Nat × Nat) :
    b.collapse gap start = { b.close with
      blocks := b.close.blocks ++ [{ collapsed := true, hidden := gap, start := start }]
      current := {} } := by
  unfold Builder.collapse
  simp only [close_current]
  rw [Builder.close, if_pos (.inr hgap)]

theorem Inv.collapse {gap : Nat} (h : Inv old new b i j) (hgap : 0 < gap)
    (hlines : ∀ k < gap, Common old new (i + k) (j + k)) :
    Inv old new (b.collapse gap (i, j)) (i + gap) (j + gap) := by
  have hclosed := h.close
  rw [collapse_eq b hgap]
  refine ⟨hclosed.going, fun block hblock => ?_, .empty, ⟨rfl, rfl⟩, ?_, ?_, ?_⟩
  · rcases mem_append.mp hblock with hold | hnew
    · exact hclosed.blocks block hold
    · rw [mem_singleton.mp hnew]
      exact ⟨⟨nofun, rfl, rfl, Nat.le_refl 0,
        fun _ _ => hlines⟩, fun _ => ⟨rfl, rfl⟩⟩
  · have hold := hclosed.oldNumbers
    rw [close_current] at hold
    rw [flatMap_append, flatMap_singleton, ← range'_append_1,
      ← (append_nil _).symm.trans hold, Nat.add_comm 1 i]
    exact append_nil _
  · have hnew := hclosed.newNumbers
    rw [close_current] at hnew
    rw [flatMap_append, flatMap_singleton, ← range'_append_1,
      ← (append_nil _).symm.trans hnew, Nat.add_comm 1 j]
    exact append_nil _
  · have hbudget := hclosed.budget
    rw [close_current] at hbudget
    rw [← hbudget, map_append, sum_append]
    rfl

/-- Unchanged lines are shown, or collapsed in the middle. -/
theorem Inv.unchanged {len : Nat} (h : Inv old new b i j)
    (hsize : ∀ line ∈ old, byteLen line ≤ MAX_TEXT_BYTES)
    (hlines : ∀ k < len, Common old new (i + k) (j + k)) {first last : Bool}
    (hgoing : (b.unchanged old i j len first last).truncated = false) :
    Inv old new (b.unchanged old i j len first last) (i + len) (j + len) := by
  unfold Builder.unchanged at hgoing ⊢
  simp only [range_eq_range'] at hgoing ⊢
  generalize (if first = true then 0 else CONTEXT) = before at hgoing ⊢
  generalize (if last = true then 0 else CONTEXT) = after at hgoing ⊢
  by_cases hhidden : 1 < len - (before + after)
  · simp only [if_pos hhidden] at hgoing ⊢
    have hgap : 0 < len - (before + after) := Nat.lt_of_succ_lt hhidden
    generalize hhid : len - (before + after) = hidden at hgoing hgap ⊢
    rcases h.contexts hsize before (s := 0) (fun k hk => hlines (0 + k) (by omega)) with
      ⟨b', go, heq, ⟨rfl, hshown⟩ | ⟨rfl, hstopped⟩⟩
    · rw [heq] at hgoing ⊢
      simp only [if_pos hgap] at hgoing ⊢
      rw [Nat.zero_add] at hshown
      have hcollapsed := hshown.collapse hgap (fun k hk => by
        have hline := hlines (before + k) (by omega)
        rwa [← Nat.add_assoc, ← Nat.add_assoc] at hline)
      rw [Nat.add_assoc, Nat.add_assoc] at hcollapsed
      rcases hcollapsed.contexts hsize (len - (before + hidden))
        (fun k hk => hlines _ (by omega)) with ⟨b'', go, heq', ⟨rfl, hdone⟩ | ⟨rfl, hstopped⟩⟩
      · rw [heq']
        rwa [Nat.add_sub_cancel' (by omega : before + hidden ≤ len)] at hdone
      · rw [heq', hstopped] at hgoing
        cases hgoing
    · rw [heq] at hgoing
      cases hstopped.symm.trans hgoing
  · simp only [if_neg hhidden] at hgoing ⊢
    rcases h.contexts hsize len (s := 0) (fun k hk => hlines (0 + k) (by omega)) with
      ⟨b', go, heq, ⟨rfl, hdone⟩ | ⟨rfl, hstopped⟩⟩
    · rw [heq]
      rwa [Nat.zero_add] at hdone
    · rw [heq] at hgoing
      cases hstopped.symm.trans hgoing

theorem filterMap_getElem?_range (l : List α) {n : Nat} (h : l.length ≤ n) :
    (List.range n).filterMap (fun k => l[k]?) = l := by
  induction l generalizing n with
  | nil =>
    refine filterMap_eq_nil_iff.mpr (fun k _ => ?_)
    exact getElem?_nil
  | cons x l ih =>
    cases n with
    | zero => exact absurd h (Nat.not_succ_le_zero _)
    | succ n =>
      rw [range_succ_eq_map, filterMap_cons, filterMap_map]
      exact congrArg (List.cons x) (ih (Nat.le_of_succ_le_succ h))

theorem changedLines_numbers (lines : List (List Char)) (start len : Nat) (words : Nat → Ranges) :
    (Builder.changedLines lines (start, len) words).map (fun l => l.1 + 1)
      = List.range' (start + 1) len := by
  rw [Builder.changedLines, map_map, range'_eq_map_range]
  refine map_congr_left (fun k _ => ?_)
  simp only [Function.comp_apply]
  omega

theorem changedLines_length (lines : List (List Char)) (start len : Nat) (words : Nat → Ranges) :
    (Builder.changedLines lines (start, len) words).length = len := by
  rw [Builder.changedLines, length_map, length_range]

theorem changedLines_shows {lines : List (List Char)} {start len : Nat}
    (hlen : start + len ≤ lines.length) {words : Nat → Ranges} {l : Nat × List Segment}
    (h : l ∈ Builder.changedLines lines (start, len) words) :
    ∃ line, lines[l.1]? = some line ∧ Shows l.2 line := by
  rcases mem_map.mp h with ⟨k, hk, rfl⟩
  have hbound : start + k < lines.length := by
    have := mem_range.mp hk
    omega
  refine ⟨lines[start + k], getElem?_eq_getElem hbound, ?_⟩
  rw [lineAt_of_common (getElem?_eq_getElem hbound)]
  exact segments_shows _ _ _

theorem filterMap_changed {β γ : Type*} (f : α → β) (g : β → Option γ) (f' : α → γ)
    (h : ∀ x, g (f x) = some (f' x)) (l : List α) : (l.map f).filterMap g = l.map f' := by
  rw [filterMap_map, ← filterMap_eq_map]
  exact filterMap_congr (fun x _ => h x)

theorem filterMap_other {β γ : Type*} (f : α → β) (g : β → Option γ) (h : ∀ x, g (f x) = none)
    (l : List α) : (l.map f).filterMap g = [] := by
  rw [filterMap_map, filterMap_eq_nil_iff]
  exact fun x _ => h x

theorem Block.Faithful.pushChange {b : Block} (h : b.Faithful old new)
    (hshown : b.collapsed = false) {removed added : List (Nat × List Segment)}
    (hremoved : ∀ l ∈ removed, ∃ line, old[l.1]? = some line ∧ Shows l.2 line)
    (hadded : ∀ l ∈ added, ∃ line, new[l.1]? = some line ∧ Shows l.2 line) :
    (Builder.pushChange b removed added).Faithful old new := by
  refine ⟨fun r hr => ?_, ?_, ?_, ?_, fun hcollapsed => ?_⟩
  · rcases mem_append.mp hr with hr | hr
    · exact h.rows r hr
    · rcases mem_append.mp hr with hr | hr
      · rcases mem_map.mp hr with ⟨l, hl, rfl⟩
        rcases hremoved l hl with ⟨line, hline, hshows⟩
        exact .removed l.1 line l.2 hline hshows
      · rcases mem_map.mp hr with ⟨l, hl, rfl⟩
        rcases hadded l hl with ⟨line, hline, hshows⟩
        exact .added l.1 line l.2 hline hshows
  · simp only [Builder.pushChange, filterMap_append, h.oldCells]
    rw [filterMap_changed Builder.removedRow Row.oldCell Builder.removedCell (fun _ => rfl),
      filterMap_other Builder.addedRow Row.oldCell (fun _ => rfl), append_nil,
      filterMap_map]
    refine congrArg _ (filterMap_getElem?_range _ ?_)
    rw [length_map]
    exact Nat.le_max_left _ _
  · simp only [Builder.pushChange, filterMap_append, h.newCells]
    rw [filterMap_other Builder.removedRow Row.newCell (fun _ => rfl),
      filterMap_changed Builder.addedRow Row.newCell Builder.addedCell (fun _ => rfl),
      nil_append, filterMap_map]
    refine congrArg _ (filterMap_getElem?_range _ ?_)
    rw [length_map]
    exact Nat.le_max_right _ _
  · simp only [Builder.pushChange, length_append, length_map, length_range]
    have := h.splitLength
    omega
  · exact absurd (hshown.symm.trans hcollapsed) Bool.false_ne_true

/-- A change shows the lines of both sides. -/
theorem Inv.change {oldLen newLen : Nat} (h : Inv old new b i j) (hold : i + oldLen ≤ old.length)
    (hnew : j + newLen ≤ new.length) {wordChanges : Nat → Nat → Option (Ranges × Ranges)}
    (hgoing : (b.change old (i, oldLen) new (j, newLen) wordChanges).truncated = false) :
    Inv old new (b.change old (i, oldLen) new (j, newLen) wordChanges) (i + oldLen)
      (j + newLen) := by
  unfold Builder.change at hgoing ⊢
  rcases take_cases b (oldLen + newLen) with ⟨htake, hrows⟩ | ⟨b', htake, hstopped⟩
  · simp only [htake]
    refine ⟨h.going, h.blocks, h.current.pushChange h.shown.1 (fun l => changedLines_shows hold)
      (fun l => changedLines_shows hnew), h.shown, ?_, ?_, ?_⟩
    · simp only [Builder.pushChange, filterMap_append]
      rw [filterMap_changed Builder.removedRow Row.old (fun l => l.1 + 1) (fun _ => rfl),
        filterMap_other Builder.addedRow Row.old (fun _ => rfl), append_nil,
        changedLines_numbers, ← append_assoc, h.oldNumbers, Nat.add_comm i 1]
      exact range'_append_1
    · simp only [Builder.pushChange, filterMap_append]
      rw [filterMap_other Builder.removedRow Row.new (fun _ => rfl),
        filterMap_changed Builder.addedRow Row.new (fun l => l.1 + 1) (fun _ => rfl),
        nil_append, changedLines_numbers, ← append_assoc, h.newNumbers, Nat.add_comm j 1]
      exact range'_append_1
    · simp only [Builder.pushChange, length_append, length_map, changedLines_length]
      have := h.budget
      omega
  · simp only [htake] at hgoing
    cases hstopped.symm.trans hgoing

/-- The script covers both texts in order, and what it calls equal is equal. -/
def Valid (old new : List (List Char)) : Nat → Nat → List DiffOp → Prop
  | i, j, [] => i = old.length ∧ j = new.length
  | i, j, op :: rest =>
    op.oldRange.1 = i ∧ op.newRange.1 = j
    ∧ (op.isEqual = true → ∀ k < op.oldRange.2, old[i + k]? = new[j + k]?)
    ∧ Valid old new (i + op.oldRange.2) (j + op.newRange.2) rest

instance Valid.decidable (old new : List (List Char)) :
    (i j : Nat) → (ops : List DiffOp) → Decidable (Valid old new i j ops)
  | _, _, [] => inferInstanceAs (Decidable (_ ∧ _))
  | i, j, op :: rest =>
    have := Valid.decidable old new (i + op.oldRange.2) (j + op.newRange.2) rest
    inferInstanceAs (Decidable (_ ∧ _ ∧ (_ → _) ∧ _))

theorem Valid.le (h : Valid old new i j ops) :
    i ≤ old.length ∧ j ≤ new.length := by
  induction ops generalizing i j with
  | nil => exact ⟨Nat.le_of_eq h.1, Nat.le_of_eq h.2⟩
  | cons op rest ih =>
    have hrest := ih h.2.2.2
    exact ⟨Nat.le_trans (Nat.le_add_right _ _) hrest.1,
      Nat.le_trans (Nat.le_add_right _ _) hrest.2⟩

theorem going_of_build {m : Matching} (h : (build m old new index ops b).truncated = false) :
    b.truncated = false := by
  cases ops with
  | nil => exact h
  | cons op rest =>
    by_contra hstopped
    have hbuild : build m old new index (op :: rest) b = b := by
      cases op
      all_goals simp only [build, eq_true_of_ne_false hstopped, if_true]
    rw [hbuild] at h
    exact hstopped h

theorem build_change (m : Matching) {op : DiffOp} {rest : List DiffOp}
    (hgoing : b.truncated = false) (h : op.isEqual = false) :
    build m old new index (op :: rest) b = build m old new (index + 1) rest
      (b.change old op.oldRange new op.newRange m.wordChanges) := by
  cases op with
  | equal => cases h
  | delete | insert | replace => simp [build, hgoing]

/-- The script, by induction over its operations. -/
theorem Inv.build {m : Matching} (hsize : ∀ line ∈ old, byteLen line ≤ MAX_TEXT_BYTES)
    (h : Inv old new b i j) (hvalid : Valid old new i j ops)
    (hgoing : (build m old new index ops b).truncated = false) :
    Inv old new (build m old new index ops b) old.length new.length := by
  induction ops generalizing index i j b with
  | nil =>
    rcases hvalid with ⟨rfl, rfl⟩
    exact h
  | cons op rest ih =>
    rcases hvalid with ⟨rfl, rfl, hequal, hrest⟩
    have hbounds := hrest.le
    have hchange : op.isEqual = false →
        Inv old new (ReviewDiff.build m old new index (op :: rest) b) old.length new.length := by
      intro hop
      rw [build_change m h.going hop] at hgoing ⊢
      exact ih (h.change hbounds.1 hbounds.2 (going_of_build hgoing)) hrest hgoing
    cases op with
    | equal oldIndex newIndex len =>
      rw [ReviewDiff.build, if_neg (by rw [h.going]; exact Bool.false_ne_true)] at hgoing ⊢
      refine ih (h.unchanged hsize (fun k hk => ?_) (going_of_build hgoing)) hrest hgoing
      have hbound : oldIndex + k < old.length :=
        Nat.lt_of_lt_of_le (Nat.add_lt_add_left hk _) hbounds.1
      have hline := getElem?_eq_getElem hbound
      exact ⟨_, hline, (hequal rfl k hk).symm.trans hline⟩
    | delete | insert | replace => exact hchange rfl

end Building

section Expansion

variable {old new : List (List Char)}

/-- An expanded block shows the lines it stood for. -/
theorem expand_spec {block : Block} (h : block.Faithful old new)
    (hsize : ∀ line ∈ old, byteLen line ≤ MAX_TEXT_BYTES) (hcollapsed : block.collapsed = true)
    (hrows : block.rows = []) :
    (Builder.expand old block).Faithful old new
    ∧ (Builder.expand old block).oldNumbers = block.oldNumbers
    ∧ (Builder.expand old block).newNumbers = block.newNumbers
    ∧ (Builder.expand old block).rows.length = block.hidden := by
  -- The induction is on the number of lines put in, over a block that stays collapsed.
  have hgen : ∀ n ≤ block.hidden, ∀ b, b = (List.range n).foldl (fun b offset =>
        Builder.pushContext b old (block.start.1 + offset) (block.start.2 + offset)) block →
      b.Faithful old new ∧ b.collapsed = true ∧ b.hidden = block.hidden ∧ b.start = block.start
      ∧ b.rows.filterMap Row.old = List.range' (block.start.1 + 1) n
      ∧ b.rows.filterMap Row.new = List.range' (block.start.2 + 1) n ∧ b.rows.length = n := by
    intro n hn b hb
    induction n generalizing b with
    | zero => grind
    | succ n ih =>
      rcases ih (Nat.le_of_succ_le hn) _ rfl with
        ⟨hfaithful, hstill, hhidden, hstart, hold, hnew, hlength⟩
      rw [range_succ, foldl_append, foldl_cons, foldl_nil] at hb
      subst hb
      refine ⟨hfaithful.pushContext hsize (h.hidden hcollapsed hrows n hn), hstill, hhidden,
        hstart, ?_, ?_, ?_⟩
      · rw [range'_concat, ← hold, Nat.one_mul, Nat.add_right_comm]
        exact filterMap_append
      · rw [range'_concat, ← hnew, Nat.one_mul, Nat.add_right_comm]
        exact filterMap_append
      · rw [Builder.pushContext, length_append, hlength]
        rfl
  rcases hgen block.hidden (Nat.le_refl _) (Builder.expand old block) rfl with
    ⟨hfaithful, -, hhidden, hstart, hold, hnew, hlength⟩
  have hbefore : block.collapsed = true ∧ block.rows = [] := ⟨hcollapsed, hrows⟩
  refine ⟨hfaithful, ?_, ?_, hlength⟩
  · rw [Block.oldNumbers, Block.oldNumbers, if_pos hbefore]
    split
    · rw [hhidden, hstart]
    · exact hold
  · rw [Block.newNumbers, Block.newNumbers, if_pos hbefore]
    split
    · rw [hhidden, hstart]
    · exact hnew

structure Complete (old new : List (List Char)) (blocks : List Block) : Prop where
  faithful : ∀ block ∈ blocks, block.Faithful old new
  oldNumbers : blocks.flatMap Block.oldNumbers = List.range' 1 old.length
  newNumbers : blocks.flatMap Block.newNumbers = List.range' 1 new.length
  budget : (blocks.map (fun block => block.rows.length)).sum ≤ MAX_ROWS

theorem expandAll_spec (hsize : ∀ line ∈ old, byteLen line ≤ MAX_TEXT_BYTES) {blocks : List Block}
    (h : ∀ block ∈ blocks, block.Faithful old new
      ∧ (block.collapsed = true → block.rows = [] ∧ block.split = [])) (rowsLeft : Nat) :
    (∀ block ∈ Builder.expandAll old rowsLeft blocks, block.Faithful old new)
    ∧ (Builder.expandAll old rowsLeft blocks).flatMap Block.oldNumbers
      = blocks.flatMap Block.oldNumbers
    ∧ (Builder.expandAll old rowsLeft blocks).flatMap Block.newNumbers
      = blocks.flatMap Block.newNumbers
    ∧ ((Builder.expandAll old rowsLeft blocks).map (fun block => block.rows.length)).sum
      ≤ (blocks.map (fun block => block.rows.length)).sum + rowsLeft := by
  induction blocks generalizing rowsLeft with
  | nil => exact ⟨nofun, rfl, rfl, Nat.zero_le _⟩
  | cons block rest ih =>
    have hblock := h block mem_cons_self
    have hrest := ih (fun block hmem => h block (mem_cons_of_mem _ hmem))
    rw [Builder.expandAll]
    split
    · grind [expand_spec]
    · grind

theorem Inv.finish {b : Builder} (h : Inv old new b old.length new.length)
    (hsize : ∀ line ∈ old, byteLen line ≤ MAX_TEXT_BYTES) :
    Complete old new (b.finish old) := by
  have hclosed := h.close
  have hleft : b.close.rowsLeft = b.rowsLeft := by
    unfold Builder.close
    split <;> rfl
  rcases expandAll_spec hsize hclosed.blocks b.rowsLeft with ⟨hfaithful, hold, hnew, hbudget⟩
  have holdNumbers := hclosed.oldNumbers
  have hnewNumbers := hclosed.newNumbers
  have hrows := hclosed.budget
  rw [close_current] at holdNumbers hnewNumbers hrows
  refine ⟨hfaithful, hold.trans ((append_nil _).symm.trans holdNumbers),
    hnew.trans ((append_nil _).symm.trans hnewNumbers), ?_⟩
  rw [hleft] at hrows
  exact Nat.le_trans hbudget (Nat.le_of_eq hrows)

end Expansion

section Lines

variable {line text : List Char}

def body (text : List Char) : List Char :=
  if text.getLast? = some '\n' then text.dropLast else text

theorem lines_eq (h : text ≠ []) : lines text = (body text).splitOn '\n' :=
  if_neg h

theorem body_sublist (text : List Char) : (body text).Sublist text := by
  unfold body
  split
  · exact dropLast_sublist text
  · exact List.Sublist.refl text

theorem sublist_intercalate (sep : List Char) {parts : List (List Char)} (h : line ∈ parts) :
    line.Sublist (sep.intercalate parts) := by
  induction parts with
  | nil => cases h
  | cons part rest ih =>
    cases rest with
    | nil =>
      rw [intercalate_singleton, mem_singleton.mp h]
    | cons next rest =>
      rw [intercalate_cons_cons]
      rcases mem_cons.mp h with rfl | h
      · exact (sublist_append_left _ _).trans (sublist_append_left _ _)
      · exact (ih h).trans (sublist_append_right _ _)

theorem byteLen_mono (h : line.Sublist text) :
    byteLen line ≤ byteLen text := by
  induction h with
  | slnil => exact Nat.le_refl _
  | cons c _ ih => exact Nat.le_trans ih (Nat.le_add_left _ _)
  | cons_cons c _ ih => exact Nat.add_le_add_left ih _

theorem byteLen_of_mem_lines (h : line ∈ lines text) :
    byteLen line ≤ byteLen text := by
  by_cases hempty : text = []
  · rw [hempty] at h
    cases h
  · rw [lines_eq hempty] at h
    have hsub := sublist_intercalate ['\n'] h
    rw [intercalate_splitOn] at hsub
    exact byteLen_mono (hsub.trans (body_sublist text))

theorem append_final (h : text.getLast? = some '\n') :
    body text ++ ['\n'] = text := by
  rw [body, if_pos h]
  exact dropLast_append_getLast? '\n' h

theorem final_of_lines_eq {before after : List Char} (hne : before ≠ after)
    (hlines : lines before = lines after) :
    before ≠ [] ∧ after ≠ []
      ∧ (before.getLast? = some '\n') ≠ (after.getLast? = some '\n') := by
  have hsides : ∀ {text other : List Char}, text ≠ other → lines text = lines other →
      text ≠ [] := by
    rintro text other hdiff heq rfl
    rw [lines_eq (Ne.symm hdiff)] at heq
    exact absurd heq.symm (splitOn_ne_nil _ _)
  have hbefore := hsides hne hlines
  have hafter := hsides hne.symm hlines.symm
  have hbody : body before = body after := by
    rw [lines_eq hbefore, lines_eq hafter] at hlines
    have hjoined := congrArg (['\n'].intercalate) hlines
    rwa [intercalate_splitOn, intercalate_splitOn] at hjoined
  refine ⟨hbefore, hafter, fun hsame => hne ?_⟩
  by_cases hfinal : before.getLast? = some '\n'
  · grind [append_final]
  · rw [body, body, if_neg hfinal, if_neg (hsame ▸ hfinal)] at hbody
    exact hbody

end Lines

section Counting

variable {ops : List DiffOp} {old new : List (List Char)}

def inserted : List DiffOp → Nat
  | [] => 0
  | .equal _ _ _ :: rest => inserted rest
  | .delete _ _ _ :: rest => inserted rest
  | .insert _ _ newLen :: rest => newLen + inserted rest
  | .replace _ _ _ newLen :: rest => newLen + inserted rest

def deleted : List DiffOp → Nat
  | [] => 0
  | .equal _ _ _ :: rest => deleted rest
  | .delete _ oldLen _ :: rest => oldLen + deleted rest
  | .insert _ _ _ :: rest => deleted rest
  | .replace _ oldLen _ _ :: rest => oldLen + deleted rest

theorem inserted_eq (ops : List DiffOp) :
    ((ops.filter (fun op => !op.isEqual)).map (fun op => op.newRange.2)).sum = inserted ops := by
  induction ops with
  | nil => rfl
  | cons op rest ih =>
    cases op with
    | equal oldIndex newIndex len => exact ih
    | delete oldIndex oldLen newIndex => exact (Nat.zero_add _).trans ih
    | insert | replace => exact congrArg (_ + ·) ih

theorem deleted_eq (ops : List DiffOp) :
    ((ops.filter (fun op => !op.isEqual)).map (fun op => op.oldRange.2)).sum = deleted ops := by
  induction ops with
  | nil => rfl
  | cons op rest ih =>
    cases op with
    | equal oldIndex newIndex len => exact ih
    | insert oldIndex newIndex newLen => exact (Nat.zero_add _).trans ih
    | delete | replace => exact congrArg (_ + ·) ih

theorem Valid.getElem?_eq {i j : Nat} (h : Valid old new i j ops) (hinserted : inserted ops = 0)
    (hdeleted : deleted ops = 0) (k : Nat) :
    old[i + k]? = new[j + k]? := by
  induction ops generalizing i j k with
  | nil =>
    rcases h with ⟨rfl, rfl⟩
    rw [getElem?_eq_none (Nat.le_add_right _ _),
      getElem?_eq_none (Nat.le_add_right _ _)]
  | cons op rest ih =>
    rcases h with ⟨rfl, rfl, hequal, hrest⟩
    cases op with
    | equal oldIndex newIndex len =>
      by_cases hk : k < len
      · exact hequal rfl k hk
      · have hlater := ih hrest hinserted hdeleted (k - len)
        simp only [DiffOp.oldRange, DiffOp.newRange] at hlater ⊢
        rwa [Nat.add_assoc, Nat.add_assoc, Nat.add_sub_cancel' (Nat.le_of_not_lt hk)] at hlater
    | delete oldIndex oldLen newIndex =>
      cases Nat.eq_zero_of_add_eq_zero_right hdeleted
      exact ih hrest hinserted (Nat.eq_zero_of_add_eq_zero_left hdeleted) k
    | insert oldIndex newIndex newLen =>
      cases Nat.eq_zero_of_add_eq_zero_right hinserted
      exact ih hrest (Nat.eq_zero_of_add_eq_zero_left hinserted) hdeleted k
    | replace oldIndex oldLen newIndex newLen =>
      cases Nat.eq_zero_of_add_eq_zero_right hdeleted
      cases Nat.eq_zero_of_add_eq_zero_right hinserted
      exact ih hrest (Nat.eq_zero_of_add_eq_zero_left hinserted)
        (Nat.eq_zero_of_add_eq_zero_left hdeleted) k

theorem Valid.lines_eq (h : Valid old new 0 0 ops) (hinserted : inserted ops = 0)
    (hdeleted : deleted ops = 0) : old = new := by
  refine ext_getElem? (fun k => ?_)
  have hline := h.getElem?_eq hinserted hdeleted k
  rwa [Nat.zero_add] at hline

theorem counts_of_equal (h : ∀ op ∈ ops, op.isEqual = true) :
    inserted ops = 0 ∧ deleted ops = 0 := by
  induction ops with
  | nil => exact ⟨rfl, rfl⟩
  | cons op rest ih =>
    rcases forall_mem_cons.mp h with ⟨hop, hrest⟩
    cases op with
    | equal oldIndex newIndex len => exact ih hrest
    | delete | insert | replace => cases hop

end Counting

section Comparing

theorem finalNote_mem {oldText newText : List Char} {changed : Bool} (hold : oldText ≠ [])
    (hnew : newText ≠ [])
    (hfinal : (oldText.getLast? = some '\n') ≠ (newText.getLast? = some '\n')) :
    "A final line break was added." ∈ changeNotes (some oldText) (some newText) changed
    ∨ "The final line break was removed." ∈ changeNotes (some oldText) (some newText) changed := by
  have hne : oldText ≠ newText := fun heq => hfinal (by rw [heq])
  simp only [changeNotes, if_neg hne, if_pos (And.intro hold (And.intro hnew hfinal)),
    mem_append, mem_singleton]
  by_cases hadded : newText.getLast? = some '\n'
  · exact .inl (.inr (if_pos hadded).symm)
  · exact .inr (.inr (if_neg hadded).symm)

variable {m : Matching} {before after : Option (List Char)}

theorem compareBefore_parts (hbefore : ∀ text ∈ before, byteLen text ≤ MAX_TEXT_BYTES)
    (hafter : ∀ text ∈ after, byteLen text ≤ MAX_TEXT_BYTES) {builder : Builder}
    (hbuilder : (if m.ops.any (fun op => !op.isEqual) then
        build m (lines (before.getD [])) (lines (after.getD [])) 0 m.ops .empty
      else .empty) = builder) :
    (compareBefore m before after).truncated = builder.truncated
    ∧ (compareBefore m before after).blocks
      = (if builder.truncated then [] else builder.finish (lines (before.getD [])))
    ∧ (compareBefore m before after).added = inserted m.ops
    ∧ (compareBefore m before after).removed = deleted m.ops
    ∧ ∀ note ∈ changeNotes before after (m.ops.any (fun op => !op.isEqual)),
      note ∈ (compareBefore m before after).notes := by
  have hfits : ¬((∃ text ∈ before, MAX_TEXT_BYTES < byteLen text)
      ∨ (∃ text ∈ after, MAX_TEXT_BYTES < byteLen text)) := by grind
  rw [compareBefore, if_neg hfits]
  simp only [hbuilder]
  refine ⟨trivial, trivial, inserted_eq m.ops, deleted_eq m.ops, fun note hnote => ?_⟩
  exact mem_append_left _ (mem_append_right _ hnote)

/-- A comparison with a change, if it is not too long, shows all of both texts within
    its budget. One that is too long shows nothing, and so does one without a change,
    where the lines are the same. The counts are those of the script, and texts that
    differ have a counted line or a note on the final line break. -/
theorem compareBefore_complete (hbefore : ∀ text ∈ before, byteLen text ≤ MAX_TEXT_BYTES)
    (hafter : ∀ text ∈ after, byteLen text ≤ MAX_TEXT_BYTES)
    (hvalid : Valid (lines (before.getD [])) (lines (after.getD [])) 0 0 m.ops) :
    ((∃ op ∈ m.ops, op.isEqual = false) → (compareBefore m before after).truncated = false →
      Complete (lines (before.getD [])) (lines (after.getD []))
        (compareBefore m before after).blocks)
    ∧ ((∀ op ∈ m.ops, op.isEqual = true) →
      (compareBefore m before after).truncated = false
      ∧ (compareBefore m before after).blocks = []
      ∧ lines (before.getD []) = lines (after.getD []))
    ∧ ((compareBefore m before after).truncated = true →
      (compareBefore m before after).blocks = [])
    ∧ (compareBefore m before after).added = inserted m.ops
    ∧ (compareBefore m before after).removed = deleted m.ops
    ∧ (∀ oldText ∈ before, ∀ newText ∈ after, oldText ≠ newText →
      0 < (compareBefore m before after).added + (compareBefore m before after).removed
      ∨ "A final line break was added." ∈ (compareBefore m before after).notes
      ∨ "The final line break was removed." ∈ (compareBefore m before after).notes) := by
  rcases compareBefore_parts (m := m) hbefore hafter rfl with
    ⟨htruncated, hblocks, hadded, hremoved, hnotes⟩
  have hsize : ∀ line ∈ lines (before.getD []), byteLen line ≤ MAX_TEXT_BYTES := by
    intro line hline
    cases before with
    | none => cases hline
    | some text => exact Nat.le_trans (byteLen_of_mem_lines hline) (hbefore text rfl)
  refine ⟨?_, ?_, ?_, hadded, hremoved, ?_⟩
  · rintro ⟨op, hop, hchange⟩ hshown
    have hany : m.ops.any (fun op => !op.isEqual) = true :=
      any_eq_true.mpr ⟨op, hop, by rw [hchange]; rfl⟩
    rw [htruncated] at hshown
    rw [hblocks, if_neg (by rw [hshown]; exact Bool.false_ne_true)]
    rw [if_pos hany] at hshown ⊢
    exact (Inv.empty.build hsize hvalid hshown).finish hsize
  · intro hequal
    have hany : m.ops.any (fun op => !op.isEqual) = false :=
      any_eq_false.mpr (fun op hop => by rw [hequal op hop]; exact Bool.false_ne_true)
    rcases counts_of_equal hequal with ⟨hinserted, hdeleted⟩
    rw [htruncated, hblocks, hany]
    exact ⟨rfl, rfl, hvalid.lines_eq hinserted hdeleted⟩
  · grind
  · rintro oldText hold newText hnew hne
    cases hold
    cases hnew
    rw [hadded, hremoved]
    by_cases hcount : 0 < inserted m.ops + deleted m.ops
    · exact .inl hcount
    · have hzero := Nat.eq_zero_of_not_pos hcount
      have hlines := hvalid.lines_eq (Nat.eq_zero_of_add_eq_zero_right hzero)
        (Nat.eq_zero_of_add_eq_zero_left hzero)
      rcases final_of_lines_eq hne hlines with ⟨hold, hnew, hfinal⟩
      exact .inr ((finalNote_mem hold hnew hfinal).imp (hnotes _) (hnotes _))

def sample : Matching :=
  { ops := [.replace 0 1 0 1, .equal 1 1 1], wordChanges := fun _ _ => none, late := false }

theorem compareBefore_complete_sample :
    Valid (lines ['a', '\n', 'b']) (lines ['c', '\n', 'b']) 0 0 sample.ops
    ∧ (compareBefore sample (some ['a', '\n', 'b']) (some ['c', '\n', 'b'])).truncated = false
    ∧ Complete (lines ['a', '\n', 'b']) (lines ['c', '\n', 'b'])
      (compareBefore sample (some ['a', '\n', 'b']) (some ['c', '\n', 'b'])).blocks := by
  have hvalid : Valid (lines ['a', '\n', 'b']) (lines ['c', '\n', 'b']) 0 0 sample.ops := by
    decide +kernel
  have hshown : (compareBefore sample (some ['a', '\n', 'b'])
      (some ['c', '\n', 'b'])).truncated = false := by
    decide +kernel
  have hbefore : ∀ text ∈ some ['a', '\n', 'b'], byteLen text ≤ MAX_TEXT_BYTES := by
    rintro _ ⟨⟩
    decide +kernel
  have hafter : ∀ text ∈ some ['c', '\n', 'b'], byteLen text ≤ MAX_TEXT_BYTES := by
    rintro _ ⟨⟩
    decide +kernel
  refine ⟨hvalid, hshown, (compareBefore_complete hbefore hafter hvalid).1 ?_ hshown⟩
  exact ⟨.replace 0 1 0 1, mem_cons_self, rfl⟩

theorem compareBefore_unchanged :
    Valid (lines ['a']) (lines ['a']) 0 0 [.equal 0 0 1]
    ∧ (compareBefore { sample with ops := [.equal 0 0 1] } (some ['a']) (some ['a'])).truncated
      = false
    ∧ (compareBefore { sample with ops := [.equal 0 0 1] } (some ['a']) (some ['a'])).blocks = []
    ∧ ¬ Complete (lines ['a']) (lines ['a'])
      (compareBefore { sample with ops := [.equal 0 0 1] } (some ['a']) (some ['a'])).blocks := by
  have hblocks : (compareBefore { sample with ops := [.equal 0 0 1] } (some ['a'])
      (some ['a'])).blocks = [] := rfl
  refine ⟨by decide +kernel, by decide +kernel, hblocks, fun h => ?_⟩
  have hnumbers := h.oldNumbers
  rw [hblocks] at hnumbers
  revert hnumbers
  decide +kernel

end Comparing

end Waygate.ReviewDiff
