import Waygate.Core.Json
import Waygate.Core.Primitive
import Waygate.Theory.Regex.Engine

/-!
# Personal Data in Responses

The inspector of `waygate-mcp` that looks for personal data in the response of a tool.
In redact mode every match is replaced by a label, one rule after another, each on what
the rule before has left. Of the Unicode classes only what is needed is assumed. Counts
are saturated where the source saturates, and wrap where it sums `u32`.

## Main definitions

* `inspect`
* `PiiRule.rule`: The four rules.
* `scanText`, `redactText`: A text scanned, and redacted.
-/

namespace Waygate.Mcp

open Regex

/-- The classes of characters that depend on Unicode. -/
structure Unicode where
  word : Char → Bool
  digit : Char → Bool
  digit_word : ∀ c, digit c = true → word c = true
  ascii_word : ∀ c : Char, c.toNat < 128 → word c = (c.isAlphanum || c == '_')
  ascii_digit : ∀ c : Char, c.toNat < 128 → digit c = c.isDigit

inductive PiiRule where
  | usSsn
  | creditCard
  | email
  | usPhone
  deriving DecidableEq

def PiiRule.asStr : PiiRule → String
  | .usSsn => "US_SSN"
  | .creditCard => "CREDIT_CARD"
  | .email => "EMAIL"
  | .usPhone => "US_PHONE"

def PiiRule.label (rule : PiiRule) : List Char :=
  '[' :: ("REDACTED:" ++ rule.asStr).toList ++ [']']

section Rules

variable (u : Unicode)

/-- `\d{3}-\d{2}-\d{4}`. -/
def ssnRegex : Regex :=
  .seq (times (.cls u.digit) 3) (.seq (chr '-') (.seq (times (.cls u.digit) 2)
    (.seq (chr '-') (times (.cls u.digit) 4))))

/-- The numbers that are never given out. -/
def ssnValid (text : List Char) : Bool :=
  let a := text.take 3
  let b := (text.drop 4).take 2
  let c := (text.drop 7).take 4
  !(a == ['0', '0', '0'] || a == ['6', '6', '6'] || a.head? == some '9' || b == ['0', '0']
    || c == ['0', '0', '0', '0'])

def ssnRule : Rule :=
  { word := u.word, body := ssnRegex u, accept := fun m => ssnValid m.text }

/-- `(?:\d[ -]?){13,19}`. -/
def ccRegex : Regex :=
  let digit := Regex.seq (.cls u.digit) (.opt (.cls (fun c => c == ' ' || c == '-')))
  .seq (times digit 13) (upTo digit 6)

/-- Digits from the right, every other one doubled. -/
def luhnSum : Bool → List Char → Nat
  | _, [] => 0
  | alternate, ch :: rest =>
    let d := ch.toNat - '0'.toNat
    let d := if alternate then (if 9 < d * 2 then d * 2 - 9 else d * 2) else d
    d + luhnSum (!alternate) rest

def luhnCheck (digits : List Char) : Bool :=
  !digits.isEmpty && digits.all Char.isDigit && luhnSum false digits.reverse % 10 == 0

def cardValid (text : List Char) : Bool :=
  let digits := text.filter Char.isDigit
  decide (13 ≤ digits.length) && decide (digits.length ≤ 19) && luhnCheck digits

def cardRule : Rule :=
  { word := u.word, body := ccRegex u, accept := fun m => cardValid m.text }

def localChar (c : Char) : Bool :=
  c.isAlphanum || c == '.' || c == '_' || c == '%' || c == '+' || c == '-'

def domainChar (c : Char) : Bool :=
  c.isAlphanum || c == '.' || c == '-'

/-- `[A-Za-z0-9._%+\-]+@[A-Za-z0-9.\-]+\.[A-Za-z]{2,24}`. -/
def emailRegex : Regex :=
  .seq (plus localChar) (.seq (chr '@') (.seq (plus domainChar) (.seq (chr '.')
    (.seq (times (.cls Char.isAlpha) 2) (upTo (.cls Char.isAlpha) 22)))))

def emailRule : Rule :=
  { word := u.word, body := emailRegex, accept := fun _ => true }

def leadDigit (c : Char) : Bool :=
  c.isDigit && c != '0' && c != '1'

def separator (c : Char) : Bool :=
  c == '-' || c == '.' || whiteSpace c

def countryRegex : Regex :=
  .seq (.opt (chr '+')) (.seq (chr '1') (.opt (.cls separator)))

/-- `[2-9]\d{2}`. -/
def groupRegex : Regex :=
  .seq (.cls leadDigit) (times (.cls u.digit) 2)

/-- `([2-9]\d{2})\)?[-.\s]?([2-9]\d{2})[-.\s]?(\d{4})`. -/
def numberRegex : Regex :=
  .seq (groupRegex u) (.seq (.opt (chr ')')) (.seq (.opt (.cls separator))
    (.seq (groupRegex u) (.seq (.opt (.cls separator)) (times (.cls u.digit) 4)))))

/-- `(?:\+?1[-.\s]?)?\(?([2-9]\d{2})\)?[-.\s]?([2-9]\d{2})[-.\s]?(\d{4})`. -/
def phoneRegex : Regex :=
  .seq (.opt countryRegex) (.seq (.opt (chr '(')) (numberRegex u))

/-- Characters that cover a number of bytes, or all there are. -/
def window : Nat → List Char → List Char
  | _, [] => []
  | 0, _ => []
  | n + 1, c :: rest => c :: window (n + 1 - c.utf8Size) rest

/-- A part of a URL or of a host with its port. -/
def urlLike (m : Hit) : Bool :=
  (window 4 m.before ++ window 4 m.after).any (fun c => c == ':' || c == '/')

def phoneRule : Rule :=
  { word := u.word, body := phoneRegex u, accept := fun m => !urlLike m }

def PiiRule.rule : PiiRule → Rule
  | .usSsn => ssnRule u
  | .creditCard => cardRule u
  | .email => emailRule u
  | .usPhone => phoneRule u

end Rules

section Texts

variable (u : Unicode)

def hasUsSsn (text : List Char) : Bool := (ssnRule u).found text

def hasCreditCard (text : List Char) : Bool := (cardRule u).found text

def hasEmail (text : List Char) : Bool := (emailRule u).found text

def hasUsPhone (text : List Char) : Bool := (phoneRule u).found text

def scanText (text : List Char) : Option PiiRule :=
  if hasUsSsn u text then some .usSsn
  else if hasCreditCard u text then some .creditCard
  else if hasEmail u text then some .email
  else if hasUsPhone u text then some .usPhone
  else none

/-- `u32::saturating_add`. -/
def saturatingAdd (a b : Nat) : Nat :=
  min (a + b) (2 ^ 32 - 1)

def redactWith (rule : PiiRule) (r : List Char × Nat) : List Char × Nat :=
  ((rule.rule u).replace rule.label r.1,
    saturatingAdd r.2 (min ((rule.rule u).count r.1) (2 ^ 32 - 1)))

def redactSsn : List Char × Nat → List Char × Nat := redactWith u .usSsn

def redactCreditCard : List Char × Nat → List Char × Nat := redactWith u .creditCard

def redactEmail : List Char × Nat → List Char × Nat := redactWith u .email

def redactPhone : List Char × Nat → List Char × Nat := redactWith u .usPhone

def redactText (text : List Char) : List Char × Nat :=
  redactPhone u (redactEmail u (redactCreditCard u (redactSsn u (text, 0))))

end Texts

section Responses

inductive ContentBlock where
  | text (text : String)
  /-- An image, audio, a resource or a link to one. -/
  | other (content : Json)

structure CallToolResult where
  structuredContent : Option Json
  content : List ContentBlock

variable (u : Unicode)

mutual

def scanValue : Json → Option PiiRule
  | .string s => scanText u s.toList
  | .array items => scanItems items
  | .object fields => scanFields fields
  | _ => none

def scanItems : List Json → Option PiiRule
  | [] => none
  | v :: rest => (scanValue v).or (scanItems rest)

def scanFields : List (String × Json) → Option PiiRule
  | [] => none
  | (_, v) :: rest => (scanValue v).or (scanFields rest)

end

def redactString (s : String) : String × Nat :=
  let r := redactText u s.toList
  if 0 < r.2 then (String.ofList r.1, r.2) else (s, r.2)

mutual

def redactValue : Json → Json × Nat
  | .string s => Prod.map .string id (redactString u s)
  | .array items => Prod.map .array id (redactItems items)
  | .object fields => Prod.map .object id (redactFields fields)
  | v => (v, 0)

def redactItems : List Json → List Json × Nat
  | [] => ([], 0)
  | v :: rest =>
    let first := redactValue v
    let others := redactItems rest
    (first.1 :: others.1, (first.2 + others.2) % 2 ^ 32)

def redactFields : List (String × Json) → List (String × Json) × Nat
  | [] => ([], 0)
  | (name, v) :: rest =>
    let first := redactValue v
    let others := redactFields rest
    ((name, first.1) :: others.1, (first.2 + others.2) % 2 ^ 32)

end

inductive Decision where
  | pass
  | block (reason : String)
  | redact (redacted : CallToolResult) (findingsCount : Nat)

end Responses

end Waygate.Mcp
