import Mathlib.Data.Char
import Mathlib.Data.List.Lex
import Mathlib.Data.List.Sort
import Waygate.Core.Primitive
import Waygate.Theory.Text.Statements

/-!
# Policy Segmentation

How a bundle of policies is edited one policy at a time, from `segment.rs`. Every
delimiter is ASCII, so texts are lists of characters and the indices count characters.
The functions that end in `From` have the rest of the text as an argument.

## Main definitions

* `PolicyParser`
* `lexFragments`, `statements`: The bundle in fragments, and their statements.
* `segmentVerified`, `ensureSinglePolicy`: The checks against the parser.
* `replacePolicy`, `removePolicy`, `appendPolicy`: The edits.
-/

namespace Waygate.Authz

open Text

/-- `Range<usize>`. -/
structure Span where
  start : Nat
  stop : Nat
  deriving DecidableEq

def slice (content : List Char) (range : Span) : List Char :=
  (content.drop range.start).take (range.stop - range.start)

structure PolicyFragment where
  id : Option (List Char)
  leading : Span
  statement : Span
  deriving DecidableEq

inductive SegmentError where
  | parse (error : String)
  | ambiguous
  | notFound (id : List Char)
  deriving DecidableEq

def SegmentError.display : SegmentError → String
  | .parse e => "policy set does not parse as Cedar: " ++ e
  | .ambiguous =>
    "policy text could not be safely segmented per-policy (it disagrees with the "
      ++ "parser); edit the whole bundle instead"
  | .notFound id => "no policy with @id \"" ++ String.ofList id ++ "\" in this bundle"

section Tokenizer

/-- The inner loop, to the end of a line, is the case within a comment. -/
def skipTriviaFrom : Bool → List Char → Nat → Nat
  | _, [], i => i
  | true, c :: rest, i => skipTriviaFrom (c != '\n') rest (i + 1)
  | false, c :: rest, i =>
    if asciiSpace c then skipTriviaFrom false rest (i + 1)
    else if c = '/' ∧ rest.head? = some '/' then skipTriviaFrom true rest (i + 1)
    else i

def skipTrivia (bytes : List Char) (i : Nat) : Nat :=
  skipTriviaFrom false (bytes.drop i) i

def findStatementEndFrom : Mode → List Char → Nat → Option Nat
  | _, [], _ => none
  | m, c :: rest, i =>
    if m.top ∧ c = ';' then some i else findStatementEndFrom (m.next c) rest (i + 1)

def findStatementEnd (bytes : List Char) (i : Nat) : Option Nat :=
  findStatementEndFrom .code (bytes.drop i) i

/-- What follows `@id`: the quoted text in parentheses, up to the next quote. -/
def annotationValue (after : List Char) : Option (List Char) :=
  match after.dropWhile whiteSpace with
  | '(' :: rest =>
    match rest.dropWhile whiteSpace with
    | '"' :: rest => if '"' ∈ rest then some (rest.takeWhile (· ≠ '"')) else none
    | _ => none
  | _ => none

def statementIdFrom : Mode → List Char → Option (List Char)
  | _, [] => none
  | m, c :: rest =>
    if m.top ∧ c = '@' ∧ rest.take 2 = ['i', 'd'] then
      match annotationValue (rest.drop 2) with
      | some id => some id
      | none => statementIdFrom (m.next c) rest
    else statementIdFrom (m.next c) rest

def statementId (stmt : List Char) : Option (List Char) :=
  statementIdFrom .code stmt

def lexFragmentsFrom (content : List Char) : Nat → Nat → List PolicyFragment
  | 0, _ => []
  | fuel + 1, segStart =>
    let stmtStart := skipTrivia content segStart
    if content.length ≤ stmtStart then []
    else match findStatementEnd content stmtStart with
      | some semi =>
        { id := statementId (slice content ⟨stmtStart, semi + 1⟩)
          leading := ⟨segStart, stmtStart⟩
          statement := ⟨stmtStart, semi + 1⟩ } :: lexFragmentsFrom content fuel (semi + 1)
      | none => []

/-- Each round takes at least a character, so there are never more rounds than
    characters. -/
def lexFragments (content : List Char) : List PolicyFragment :=
  lexFragmentsFrom content (content.length + 1) 0

/-- Past a comment that follows a statement on its own line, with the line end. -/
def trailingCommentEnd (bytes : List Char) (i : Nat) : Nat :=
  let blanks := (bytes.drop i).takeWhile (fun c => c == ' ' || c == '\t')
  let rest := bytes.drop (i + blanks.length)
  if rest.take 2 = ['/', '/'] then
    let j := i + blanks.length + (rest.takeWhile (· ≠ '\n')).length
    if j < bytes.length then j + 1 else j
  else i

def statements (content : List Char) : List (List Char) :=
  (lexFragments content).map (fun f => slice content f.statement)

def tailText (content : List Char) : List Char :=
  content.drop ((lexFragments content).getLast?.elim 0 (fun f => f.statement.stop))

end Tokenizer

/-- What the parser skips, from within a comment or not. Its white space is that of
    Unicode, so it skips more than `skipTrivia`. -/
def parserTrivia : Bool → List Char → Bool
  | _, [] => true
  | true, c :: rest => parserTrivia (c != '\n') rest
  | false, c :: rest =>
    if whiteSpace c then parserTrivia false rest
    else c == '/' && rest.head? == some '/' && parserTrivia true rest

/-- The parser: `PolicySet::from_str`, with the annotated identifier of each policy.
    It ends statements where the tokenizer does, so it skips what is left of a text that
    it accepts. -/
structure PolicyParser where
  fromStr : List Char → Except String (List (Option (List Char)))
  complete : ∀ content policies, fromStr content = .ok policies →
    parserTrivia false (tailText content) = true

section Editing

variable (parser : PolicyParser)

def segmentVerified (content : List Char) : Except SegmentError (List PolicyFragment) :=
  match parser.fromStr content with
  | .error e => .error (.parse e)
  | .ok parsed =>
    let cedarIds := (parsed.filterMap (fun p => p)).insertionSort (· ≤ ·)
    let fragments := lexFragments content
    let segIds := (fragments.filterMap PolicyFragment.id).insertionSort (· ≤ ·)
    if fragments.length ≠ parsed.length then .error .ambiguous
    else if segIds ≠ cedarIds then .error .ambiguous
    else if (segIds.zip segIds.tail).any (fun w => w.1 == w.2) then .error .ambiguous
    else .ok fragments

def findById (fragments : List PolicyFragment) (id : List Char) :
    Except SegmentError PolicyFragment :=
  match fragments.find? (fun f => f.id == some id) with
  | some f => .ok f
  | none => .error (.notFound id)

def ensureSinglePolicy (text : List Char) (expectedId : Option (List Char)) :
    Except String Unit :=
  match segmentVerified parser text with
  | .error e => .error ("the submitted policy text is invalid: " ++ e.display)
  | .ok frags =>
    match frags with
    | [f] =>
      match expectedId, f.id with
      | none, _ => .ok ()
      | some want, some got =>
        if got = want then .ok ()
        else .error ("the edited policy's @id must stay \"" ++ String.ofList want
          ++ "\", got \"" ++ String.ofList got ++ "\"")
      | some want, none =>
        .error ("the edited policy must keep its @id(\"" ++ String.ofList want ++ "\")")
    | _ => .error ("expected exactly one policy, found " ++ toString frags.length)

def removePolicy (content id : List Char) : Except SegmentError (List Char) := do
  let fragments ← segmentVerified parser content
  let frag ← findById fragments id
  let stop := trailingCommentEnd content frag.statement.stop
  return content.take frag.leading.start ++ content.drop stop

/-- `str::trim`. -/
def trim (text : List Char) : List Char :=
  ((text.dropWhile whiteSpace).reverse.dropWhile whiteSpace).reverse

/-- `String::push`, of a line end, unless the text ends so already. -/
def pushUnless (ending out : List Char) : List Char :=
  if ending.isSuffixOf out then out else out ++ ['\n']

def appendPolicy (content newStatement : List Char) : Except SegmentError (List Char) := do
  let _ ← segmentVerified parser content
  let stmt := trim newStatement
  if content.isEmpty then return stmt ++ ['\n']
  else return pushUnless ['\n', '\n'] (pushUnless ['\n'] content) ++ stmt ++ ['\n']

end Editing

end Waygate.Authz
