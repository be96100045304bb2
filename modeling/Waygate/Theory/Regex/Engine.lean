/-!
# Regular Expressions

Patterns over classes of characters, matched as a backtracking matcher does: all ends of
a match in the order of preference, the longest repetition first. A pattern is matched
between two word boundaries, at the leftmost place, and the next match is looked for
after it.

## Main definitions

* `Rule`, `tokensFrom`
* `Regex`, `ends`: Patterns, and where they may end.
* `found`, `count`, `replace`: What is done with them.
-/

namespace Waygate

inductive Regex where
  | eps
  | cls (p : Char → Bool)
  | many (p : Char → Bool)
  | seq (r t : Regex)
  | opt (r : Regex)

namespace Regex

def chr (c : Char) : Regex :=
  .cls (fun x => x == c)

def plus (p : Char → Bool) : Regex :=
  .seq (.cls p) (.many p)

def times (r : Regex) : Nat → Regex
  | 0 => .eps
  | n + 1 => .seq r (times r n)

def upTo (r : Regex) : Nat → Regex
  | 0 => .eps
  | n + 1 => .opt (.seq r (upTo r n))

def manyEnds (p : Char → Bool) : List Char → List Nat
  | [] => [0]
  | x :: s => if p x then (manyEnds p s).map (· + 1) ++ [0] else [0]

/-- How many characters a match may take, in the order of preference. -/
def ends : Regex → List Char → List Nat
  | .eps, _ => [0]
  | .cls _, [] => []
  | .cls p, x :: _ => if p x then [1] else []
  | .many p, s => manyEnds p s
  | .seq r t, s => (ends r s).flatMap (fun n => (ends t (s.drop n)).map (n + ·))
  | .opt r, s => ends r s ++ [0]

end Regex

/-- A match in a text. What is before it is listed from the match on. -/
structure Hit where
  before : List Char
  text : List Char
  after : List Char

inductive Token where
  | gap (c : Char)
  | hit (m : Hit)

/-- `\b`, between two characters. -/
def wordBoundary (word : Char → Bool) (before after : Option Char) : Bool :=
  before.any word != after.any word

/-- The matches of a pattern between word boundaries, and which of them count. -/
structure Rule where
  word : Char → Bool
  body : Regex
  accept : Hit → Bool

namespace Rule

def closes (rule : Rule) (before s : List Char) (n : Nat) : Bool :=
  wordBoundary rule.word ((s.take n).reverse ++ before).head? (s.drop n).head?

def first (rule : Rule) (before s : List Char) : Option Nat :=
  if wordBoundary rule.word before.head? s.head? then
    (rule.body.ends s).find? (rule.closes before s)
  else none

/-- The text from here on. The characters of a match are skipped one by one. -/
def tokensFrom (rule : Rule) : Nat → List Char → List Char → List Token
  | _, _, [] => []
  | skip + 1, before, x :: s => tokensFrom rule skip (x :: before) s
  | 0, before, x :: s =>
    match rule.first before (x :: s) with
    | some (n + 1) =>
      .hit { before := before, text := (x :: s).take (n + 1), after := (x :: s).drop (n + 1) }
        :: tokensFrom rule n (x :: before) s
    | _ => .gap x :: tokensFrom rule 0 (x :: before) s

def tokens (rule : Rule) (s : List Char) : List Token :=
  rule.tokensFrom 0 [] s

def accepts (rule : Rule) : Token → Bool
  | .gap _ => false
  | .hit m => rule.accept m

def found (rule : Rule) (s : List Char) : Bool :=
  (rule.tokens s).any rule.accepts

def count (rule : Rule) (s : List Char) : Nat :=
  (rule.tokens s).countP rule.accepts

def render (rule : Rule) (label : List Char) : Token → List Char
  | .gap c => [c]
  | .hit m => if rule.accept m then label else m.text

def replace (rule : Rule) (label : List Char) (s : List Char) : List Char :=
  (rule.tokens s).flatMap (rule.render label)

end Rule

end Waygate
