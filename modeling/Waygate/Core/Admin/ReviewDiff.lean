import Waygate.Core.Primitive

/-!
# Review Comparisons

How two versions of a text are compared for review, from `review_diff.rs`: changes are
shown whole with a few unchanged lines around them, longer unchanged runs are collapsed,
and all rows share one budget. What the `similar` crate finds, and whether its deadline
has passed, is an argument. Texts are lists of characters.

## Main definitions

* `Matching`
* `segments`: A line in segments, with marked characters as badges.
* `Builder`: The blocks so far and the budget that is left.
* `unchanged`, `change`: The two kinds of operation.
* `compareBefore`: The comparison as it is shown.
-/

namespace Waygate

namespace ReviewDiff

def CONTEXT : Nat := 3

def MAX_ROWS : Nat := 2000

def MAX_TEXT_BYTES : Nat := 256 * 1024

def TOO_LARGE : String :=
  "This text is larger than the 256 KiB comparison limit, so both versions are shown whole, "
    ++ "as stored, without line, word, or character marking."

/-- `str::len`. -/
def byteLen (text : List Char) : Nat :=
  (text.map Char.utf8Size).sum

section Segments

structure Segment where
  text : List Char
  cssClass : String
  label : Option String
  deriving DecidableEq

def inRange (lo hi n : Nat) : Bool :=
  lo ≤ n && n ≤ hi

def marked (c : Char) : Option String :=
  let n := c.toNat
  if n == 0x09 || n == 0x0A then none
  else if n ≤ 0x1F || inRange 0x7F 0x9F n then some "control character"
  else if n == 0x061C || n == 0x200E || n == 0x200F || inRange 0x202A 0x202E n
      || inRange 0x2066 0x2069 n then some "text direction control"
  else if n == 0x00A0 || n == 0x1680 || inRange 0x2000 0x200A n || n == 0x2028 || n == 0x2029
      || n == 0x202F || n == 0x205F || n == 0x3000 then
    some "non-standard space or line separator"
  else if n == 0x00AD || n == 0x034F || inRange 0x0600 0x0605 n || n == 0x06DD || n == 0x070F
      || inRange 0x0890 0x0891 n || n == 0x08E2 || n == 0x115F || n == 0x1160 || n == 0x17B4
      || n == 0x17B5 || inRange 0x180B 0x180F n || inRange 0x200B 0x200D n
      || inRange 0x2060 0x2064 n || inRange 0x206A 0x206F n || n == 0x2800 || n == 0x3164
      || inRange 0xFE00 0xFE0F n || n == 0xFEFF || n == 0xFFA0 || inRange 0xFFF9 0xFFFB n
      || n == 0x110BD || n == 0x110CD || inRange 0x13430 0x1343F n || inRange 0x1BCA0 0x1BCA3 n
      || inRange 0x1D173 0x1D17A n || inRange 0xE0000 0xE0FFF n then some "invisible character"
  else none

/-- The characters that remain when whitespace and marked characters are removed. -/
def visible (text : List Char) : List Char :=
  text.filter (fun c => !whiteSpace c && (marked c).isNone)

/-- `U+` and at least four hexadecimal digits. -/
def codePoint (c : Char) : String :=
  let digits := (Nat.toDigits 16 c.toNat).map Char.toUpper
  "U+" ++ String.ofList (List.replicate (4 - digits.length) '0' ++ digits)

def badge (c : Char) (kind cssClass : String) (count : Nat) : Segment :=
  if count = 1 then
    { text := (codePoint c).toList
      cssClass := cssClass
      label := some (codePoint c ++ ", " ++ kind) }
  else
    { text := (codePoint c ++ " ×" ++ toString count).toList
      cssClass := cssClass
      label := some (toString count ++ " × " ++ codePoint c ++ ", " ++ kind) }

abbrev Ranges := List (Nat × Nat)

/-- The segments so far, the last one first, and the marked character that is being
    repeated. -/
structure SegmentState where
  out : List Segment
  repeated : Option (Char × String × Nat)

def badgeClass (word : Bool) : String :=
  if word then "diff-char diff-word" else "diff-char"

def textClass (word space : Bool) : String :=
  match word, space with
  | false, false => ""
  | true, false => "diff-word"
  | false, true => "diff-ws"
  | true, true => "diff-ws diff-word"

/-- A marked character repeats the last badge or begins one. -/
def pushMarked (s : SegmentState) (c : Char) (kind cssClass : String) : SegmentState :=
  match s.repeated, s.out with
  | some (last, lastClass, count), _ :: before =>
    if last = c ∧ lastClass = cssClass then
      { out := badge c kind cssClass (count + 1) :: before
        repeated := some (c, cssClass, count + 1) }
    else
      { out := badge c kind cssClass 1 :: s.out, repeated := some (c, cssClass, 1) }
  | _, _ => { out := badge c kind cssClass 1 :: s.out, repeated := some (c, cssClass, 1) }

/-- Any other character joins the last segment or begins one. -/
def pushPlain (s : SegmentState) (c : Char) (cssClass : String) : SegmentState :=
  match s.out with
  | last :: before =>
    if last.cssClass = cssClass ∧ last.label = none then
      { out := { last with text := last.text ++ [c] } :: before, repeated := none }
    else { out := { text := [c], cssClass := cssClass, label := none } :: s.out, repeated := none }
  | [] => { out := [{ text := [c], cssClass := cssClass, label := none }], repeated := none }

def segmentStep (changed : Ranges) (changedLine : Bool) (trailing : Nat) (s : SegmentState)
    (at_ : Nat) (c : Char) : SegmentState :=
  let word := changed.any (fun range => range.1 ≤ at_ && at_ < range.2)
  match marked c with
  | some kind => pushMarked s c kind (badgeClass word)
  | none =>
    let space := changedLine && (c == '\t' || (trailing ≤ at_ && c == ' '))
    pushPlain s c (textClass word space)

def segmentsFrom (changed : Ranges) (changedLine : Bool) (trailing : Nat) :
    Nat → List Char → SegmentState → SegmentState
  | _, [], s => s
  | at_, c :: rest, s =>
    segmentsFrom changed changedLine trailing (at_ + c.utf8Size) rest
      (segmentStep changed changedLine trailing s at_ c)

/-- `line.trim_end_matches([' ', '\t'])`. -/
def trimEnd (line : List Char) : List Char :=
  (line.reverse.dropWhile (fun c => c == ' ' || c == '\t')).reverse

def segments (line : List Char) (changed : Ranges) (changedLine : Bool) : List Segment :=
  let trailing := if changedLine then byteLen (trimEnd line) else byteLen line
  (segmentsFrom changed changedLine trailing 0 line { out := [], repeated := none }).out.reverse

def textSegments (text : List Char) : List Segment :=
  if MAX_TEXT_BYTES < byteLen text then
    [{ text := ("Shown as stored, without marking, because it is larger than 256 KiB. "
          ++ "Unlabelled invisible or control characters: "
          ++ toString (text.countP (fun c => (marked c).isSome)) ++ ".").toList
       cssClass := "diff-char"
       label := none },
     { text := '\n' :: text, cssClass := "", label := none }]
  else segments text [] false

end Segments

inductive RowKind where
  | context
  | added
  | removed
  deriving DecidableEq

structure Row where
  kind : RowKind
  old : Option Nat
  new : Option Nat
  segments : List Segment
  deriving DecidableEq

structure Cell where
  kind : RowKind
  number : Nat
  segments : List Segment
  deriving DecidableEq

structure SplitRow where
  old : Option Cell
  new : Option Cell
  deriving DecidableEq

/-- Consecutive lines shown together. A collapsed block stands for unchanged lines,
    from where it starts in the old and in the new lines. -/
structure Block where
  collapsed : Bool := false
  hidden : Nat := 0
  start : Nat × Nat := (0, 0)
  rows : List Row := []
  split : List SplitRow := []
  deriving DecidableEq

structure Comparison where
  added : Nat
  removed : Nat
  truncated : Bool
  oversized : Bool
  blocks : List Block
  notes : List String
  before : Option (List Segment)
  after : Option (List Segment)
  deriving DecidableEq

inductive DiffOp where
  | equal (oldIndex newIndex len : Nat)
  | delete (oldIndex oldLen newIndex : Nat)
  | insert (oldIndex newIndex newLen : Nat)
  | replace (oldIndex oldLen newIndex newLen : Nat)
  deriving DecidableEq

namespace DiffOp

def isEqual : DiffOp → Bool
  | .equal _ _ _ => true
  | _ => false

/-- `old_range`, as its start and its length. -/
def oldRange : DiffOp → Nat × Nat
  | .equal oldIndex _ len => (oldIndex, len)
  | .delete oldIndex oldLen _ => (oldIndex, oldLen)
  | .insert oldIndex _ _ => (oldIndex, 0)
  | .replace oldIndex oldLen _ _ => (oldIndex, oldLen)

/-- `new_range`, as its start and its length. -/
def newRange : DiffOp → Nat × Nat
  | .equal _ newIndex len => (newIndex, len)
  | .delete _ _ newIndex => (newIndex, 0)
  | .insert _ newIndex newLen => (newIndex, newLen)
  | .replace _ _ newIndex newLen => (newIndex, newLen)

end DiffOp

/-- What the matching finds: the script over the lines, the words that differ
    between an old and a new line, and whether it ran late. -/
structure Matching where
  ops : List DiffOp
  wordChanges : Nat → Nat → Option (Ranges × Ranges)
  late : Bool

structure Builder where
  blocks : List Block
  current : Block
  rowsLeft : Nat
  truncated : Bool

namespace Builder

def empty : Builder :=
  { blocks := [], current := {}, rowsLeft := MAX_ROWS, truncated := false }

def take (b : Builder) (rows : Nat) : Bool × Builder :=
  if b.truncated = false ∧ rows ≤ b.rowsLeft then
    (true, { b with rowsLeft := b.rowsLeft - rows })
  else (false, { b with truncated := true })

/-- A line, by its index. Indices come from the script and are in range. -/
def lineAt (lines : List (List Char)) (i : Nat) : List Char :=
  lines.getD i []

def pushContext (block : Block) (lines : List (List Char)) (oldIndex newIndex : Nat) : Block :=
  let segments := textSegments (lineAt lines oldIndex)
  { block with
    split := block.split ++
      [{ old := some { kind := .context, number := oldIndex + 1, segments := segments }
         new := some { kind := .context, number := newIndex + 1, segments := segments } }]
    rows := block.rows ++
      [{ kind := .context
         old := some (oldIndex + 1)
         new := some (newIndex + 1)
         segments := segments }] }

def context (b : Builder) (lines : List (List Char)) (oldIndex newIndex : Nat) : Builder :=
  { b with current := pushContext b.current lines oldIndex newIndex }

/-- Unchanged lines one after another, as long as the budget lasts. The result says
    whether it did. -/
def contexts (lines : List (List Char)) (oldIndex newIndex : Nat) :
    List Nat → Builder → Bool × Builder
  | [], b => (true, b)
  | offset :: rest, b =>
    match b.take 1 with
    | (true, b) =>
      contexts lines oldIndex newIndex rest
        (b.context lines (oldIndex + offset) (newIndex + offset))
    | (false, b) => (false, b)

def close (b : Builder) : Builder :=
  if b.current.rows.isEmpty = false ∨ 0 < b.current.hidden then
    { b with blocks := b.blocks ++ [b.current], current := {} }
  else { b with current := {} }

def collapse (b : Builder) (hidden : Nat) (start : Nat × Nat) : Builder :=
  let b := b.close
  close { b with
    current := { b.current with collapsed := true, hidden := hidden, start := start } }

def unchanged (b : Builder) (lines : List (List Char)) (oldIndex newIndex len : Nat)
    (first last : Bool) : Builder :=
  let shownBefore := if first then 0 else CONTEXT
  let shownAfter := if last then 0 else CONTEXT
  let hidden := len - (shownBefore + shownAfter)
  let head := if 1 < hidden then shownBefore else len
  let gap := if 1 < hidden then hidden else 0
  match contexts lines oldIndex newIndex (List.range head) b with
  | (false, b) => b
  | (true, b) =>
    if 0 < gap then
      (contexts lines oldIndex newIndex (List.range' (head + gap) (len - (head + gap)))
        (b.collapse gap (oldIndex + head, newIndex + head))).2
    else b

def changedLines (lines : List (List Char)) (range : Nat × Nat) (words : Nat → Ranges) :
    List (Nat × List Segment) :=
  (List.range range.2).map (fun k =>
    (range.1 + k, Waygate.ReviewDiff.segments (lineAt lines (range.1 + k)) (words k) true))

def removedRow (l : Nat × List Segment) : Row :=
  { kind := .removed, old := some (l.1 + 1), new := none, segments := l.2 }

def addedRow (l : Nat × List Segment) : Row :=
  { kind := .added, old := none, new := some (l.1 + 1), segments := l.2 }

def removedCell (l : Nat × List Segment) : Cell :=
  { kind := .removed, number := l.1 + 1, segments := l.2 }

def addedCell (l : Nat × List Segment) : Cell :=
  { kind := .added, number := l.1 + 1, segments := l.2 }

/-- Put the lines of a change into a block: below each other, and side by side. -/
def pushChange (block : Block) (removed added : List (Nat × List Segment)) : Block :=
  { block with
    rows := block.rows ++ (removed.map removedRow ++ added.map addedRow)
    split := block.split ++ (List.range (max removed.length added.length)).map (fun k =>
      { old := (removed.map removedCell)[k]?, new := (added.map addedCell)[k]? }) }

def change (b : Builder) (old : List (List Char)) (oldRange : Nat × Nat)
    (new : List (List Char)) (newRange : Nat × Nat)
    (wordChanges : Nat → Nat → Option (Ranges × Ranges)) : Builder :=
  match b.take (oldRange.2 + newRange.2) with
  | (false, b) => b
  | (true, b) =>
    -- Removed and added lines are paired in order.
    let words := fun k => if k < min oldRange.2 newRange.2 then
        wordChanges (oldRange.1 + k) (newRange.1 + k)
      else none
    let removed := changedLines old oldRange (fun k => (words k).elim [] Prod.fst)
    let added := changedLines new newRange (fun k => (words k).elim [] Prod.snd)
    { b with current := pushChange b.current removed added }

def expand (lines : List (List Char)) (block : Block) : Block :=
  (List.range block.hidden).foldl
    (fun b offset => pushContext b lines (block.start.1 + offset) (block.start.2 + offset)) block

def expandAll (lines : List (List Char)) : Nat → List Block → List Block
  | _, [] => []
  | rowsLeft, block :: rest =>
    if block.collapsed = true ∧ block.hidden ≤ rowsLeft then
      expand lines block :: expandAll lines (rowsLeft - block.hidden) rest
    else block :: expandAll lines rowsLeft rest

def finish (b : Builder) (lines : List (List Char)) : List Block :=
  expandAll lines b.rowsLeft b.close.blocks

end Builder

/-- Lines without their terminating line feed. Empty text has no lines. -/
def lines (text : List Char) : List (List Char) :=
  if text = [] then []
  else (if text.getLast? = some '\n' then text.dropLast else text).splitOn '\n'

def build (m : Matching) (old new : List (List Char)) : Nat → List DiffOp → Builder → Builder
  | _, [], b => b
  | index, op :: rest, b =>
    if b.truncated then b
    else build m old new (index + 1) rest (match op with
      | .equal oldIndex newIndex len =>
        b.unchanged old oldIndex newIndex len (index == 0) (index == m.ops.length - 1)
      | _ => b.change old op.oldRange new op.newRange m.wordChanges)

def changeNotes (before after : Option (List Char)) (changed : Bool) : List String :=
  match before, after with
  | none, some _ => ["Not present before this change."]
  | some _, none => ["Removed by this change."]
  | some oldText, some newText =>
    if oldText = newText then ["The stored text is identical."]
    else
      (if changed = true ∧ visible oldText = visible newText then
        ["Only invisible characters or whitespace changed. "
          ++ "Invisible characters are shown as code points."] else [])
      ++ (if oldText ≠ [] ∧ newText ≠ []
          ∧ (oldText.getLast? = some '\n') ≠ (newText.getLast? = some '\n') then
        [if newText.getLast? = some '\n' then "A final line break was added."
          else "The final line break was removed."] else [])
  | none, none => []

def compareBefore (m : Matching) (before after : Option (List Char)) : Comparison :=
  if (∃ text ∈ before, MAX_TEXT_BYTES < byteLen text)
      ∨ (∃ text ∈ after, MAX_TEXT_BYTES < byteLen text) then
    { added := 0
      removed := 0
      truncated := false
      oversized := true
      blocks := []
      notes := [TOO_LARGE]
      before := before.map textSegments
      after := after.map textSegments }
  else
    let old := lines (before.getD [])
    let new := lines (after.getD [])
    let changed := m.ops.any (fun op => !op.isEqual)
    let builder := if changed then build m old new 0 m.ops .empty else .empty
    let changes := m.ops.filter (fun op => !op.isEqual)
    { added := (changes.map (fun op => op.newRange.2)).sum
      removed := (changes.map (fun op => op.oldRange.2)).sum
      truncated := builder.truncated
      oversized := false
      blocks := if builder.truncated then [] else builder.finish old
      notes :=
        (if m.late then
          ["Some highlighting is coarser because detailed matching was limited. "
            ++ "Complete definitions remain available."] else [])
        ++ changeNotes before after changed
        ++ (if builder.truncated then
          ["This comparison is too long to show line by line, so the complete text is shown "
            ++ "instead. The counts cover every change."] else [])
      before := before.map textSegments
      after := after.map textSegments }

end ReviewDiff

end Waygate
