import JobWatch.Text.Alphanumeric
import JobWatch.Text.Blank
import JobWatch.Text.Digits
import JobWatch.Text.Parser
import JobWatch.Text.Pattern.Basic

/-!
# Reading patterns

A pattern is read from the left: alternatives with bars between them, each a sequence of characters,
sets and groups that may be repeated. Where a pattern is spaced out, blanks and comments in it do
not count. There are no repetitions by number.
-/

set_option autoImplicit false

namespace JobWatch.Text.Pattern

open JobWatch.Text.Parser

def depthLimit : Nat := 250

def gap (spaced : Bool) : Parser Unit := do
  if spaced then
    let _ ← many ((do let _ ← run1 isBlank) <|> (do char '#'; skip (· ≠ '\n')))

/-! ### Characters -/

def isAsciiLetter (c : Char) : Bool :=
  ('a'.toNat ≤ c.toNat && c.toNat ≤ 'z'.toNat) || ('A'.toNat ≤ c.toNat && c.toNat ≤ 'Z'.toNat)

def isEscapable (c : Char) : Bool :=
  c.toNat < 0x80 && ¬ isAsciiLetter c && ¬ isDigit c && c ≠ '<' && c ≠ '>'

def hexDigits (spaced : Bool) : Nat → Parser (List Char)
  | 0 => pure []
  | n + 1 => do
    gap spaced
    let c ← charOf isHexDigit
    let more ← hexDigits spaced n
    pure (c :: more)

def coded (spaced : Bool) (digits : Nat) : Parser Nat := do
  let n := ofDigits 16 (← hexDigits spaced digits)
  if n < 0xD800 ∨ (0xDFFF < n ∧ n < 0x110000) then pure n else failure

def escape (spaced : Bool) : Parser Tree := do
  char '\\'
  let letter (code : Nat) : Parser Tree := pure (.letter { code })
  match ← charOf fun _ => true with
  | 'a' => letter 0x07
  | 't' => letter 0x09
  | 'n' => letter 0x0A
  | 'v' => letter 0x0B
  | 'f' => letter 0x0C
  | 'r' => letter 0x0D
  | 'x' => pure (.letter ⟨← coded spaced 2, true⟩)
  | 'u' => letter (← coded spaced 4)
  | 'U' => letter (← coded spaced 8)
  | 'A' => pure .edge
  | 'z' => pure .edge
  | 'b' => pure .wordEdge
  | 'B' => pure .wordEdge
  | '<' => pure .wordEdge
  | '>' => pure .wordEdge
  | c =>
    if "dswDSW".toList.contains c then pure (.shorthand c)
    else if isEscapable c then letter c.toNat
    else failure

/-! ### Sets -/

def classNames : List String :=
  ["alnum", "alpha", "ascii", "blank", "cntrl", "digit", "graph", "lower", "print", "punct",
    "space", "upper", "word", "xdigit"]

def namedClass : Parser Member := do
  chars ['[', ':']
  let negated ← maybe (char '^')
  let name := String.ofList (← run (· ≠ ':'))
  chars [':', ']']
  if classNames.contains name then pure (.named name negated.isSome) else failure

def point (spaced : Bool) : Parser Tree :=
  escape spaced <|> (do
    let c ← charOf (· ≠ '\\')
    pure (.letter { code := c.toNat }))

def afterHyphen (spaced : Bool) (rest : List Char) : Option Char :=
  if spaced then
    let next := rest.dropWhile isBlank
    let next := if next.head? = some '#' then next.tail.dropWhile isBlank else next
    next.head?.or rest.head?
  else rest.head?

/-- Does a hyphen come next that makes a range? It does not before a bracket or another hyphen. -/
def rangeAhead (spaced : Bool) : Parser Bool := fun s =>
  let ahead := match s with
    | '-' :: rest => afterHyphen spaced rest ≠ some ']' && afterHyphen spaced rest ≠ some '-'
    | _ => false
  some (ahead, s)

def range (spaced : Bool) : Parser Member := do
  let first ← point spaced
  gap spaced
  if ← rangeAhead spaced then
    char '-'
    gap spaced
    match first, ← point spaced with
    | .letter first, .letter last =>
      if first.code ≤ last.code then pure (.range first last) else failure
    | _, _ => failure
  else
    match first with
    | .letter l => pure (.letter l)
    | .shorthand mark => pure (.shorthand mark)
    | _ => failure

def joint : Parser Joint :=
  (do chars ['&', '&']; pure .intersection)
  <|> (do chars ['-', '-']; pure .difference)
  <|> (do chars ['~', '~']; pure .symmetricDifference)

/-- What has been read of a set: what stands before the last sign, and the members after it with the
last one first. -/
structure SetReading where
  before : Option (Joint × Content) := none
  members : List Member

def SetReading.content (r : SetReading) : Content :=
  match r.before with
  | none => .members r.members.reverse
  | some (joint, left) => .joined joint left (.members r.members.reverse)

def SetReading.add (r : SetReading) (m : Member) : SetReading :=
  { r with members := m :: r.members }

/-- A set in brackets. Hyphens in front, or a closing bracket, stand for themselves. -/
def set (spaced : Bool) : Nat → Parser (Bool × Content)
  | 0 => failure
  | depth + 1 => do
    char '['
    gap spaced
    let negated ← maybe (char '^')
    gap spaced
    let hyphens ← many (do char '-'; gap spaced)
    let bracket ← if hyphens.isEmpty then maybe (char ']') else pure none
    let hyphens := hyphens.map fun _ => Member.letter { code := '-'.toNat }
    let bracket := bracket.toList.map fun _ => Member.letter { code := ']'.toNat }
    let step (r : SetReading) : Parser SetReading := do
      gap spaced
      (do pure (r.add (← namedClass)))
        <|> (do
          let (negated, content) ← set spaced depth
          pure (r.add (.nested negated content)))
        <|> (do pure ⟨some (← joint, r.content), []⟩)
        <|> (do
          match ← peek with
          | some '[' => failure
          | some ']' => failure
          | _ => pure (r.add (← range spaced)))
    let r ← iterate step { members := hyphens ++ bracket }
    gap spaced
    char ']'
    pure (negated.isSome, r.content)

/-! ### Groups -/

def Flag.ofLetter? : Char → Option Flag
  | 'i' => some .ignoreCase
  | 'm' => some .multiLine
  | 's' => some .dotAll
  | 'U' => some .swapGreed
  | 'u' => some .unicode
  | 'R' => some .carriageReturns
  | 'x' => some .spaced
  | _ => none

def switches? (letters : List Char) : Option Switches := do
  let on ← (letters.takeWhile (· ≠ '-')).mapM Flag.ofLetter?
  let off ← match letters.dropWhile (· ≠ '-') with
    | [] => some []
    | ['-'] => none
    | _ :: letters => letters.mapM Flag.ofLetter?
  if (on ++ off).eraseDups = on ++ off then some (on.map (·, true) ++ off.map (·, false)) else none

def switches (closing : Char) : Parser Switches := do
  let letters ← run fun c => c ≠ ':' && c ≠ ')'
  char closing
  ofOption (switches? letters)

def groupName : Parser (List Char) := do
  chars ['?', 'P', '<'] <|> chars ['?', '<']
  let first ← charOf fun c => c = '_' || isAlphabetic c
  let more ← run fun c => c = '_' || c = '.' || c = '[' || c = ']' || isAlphanumeric c
  char '>'
  pure (first :: more)

def heading : Parser (Option (List Char) × Switches) :=
  (do pure (some (← groupName), []))
  <|> (do char '?'; pure (none, ← switches ':'))
  <|> pure (none, [])

def setting (spaced : Bool) : Parser Switches := do
  char '('
  gap spaced
  char '?'
  let found ← switches ')'
  if found.isEmpty then failure else pure found

structure Reading where
  spaced : Bool
  branches : List Tree := []
  parts : List Tree := []

namespace Reading

def add (r : Reading) (t : Tree) : Reading := { r with parts := t :: r.parts }

def branch (r : Reading) : Tree := .sequence r.parts.reverse

def tree (r : Reading) : Tree := .alternatives (r.branch :: r.branches).reverse

def repeated? (r : Reading) : Option Reading :=
  match r.parts with
  | [] => none
  | .switch _ :: _ => none
  | t :: ts => some { r with parts := .repeated t :: ts }

end Reading

def isPlain (c : Char) : Bool := ¬ ['\\', '|', '(', ')', '[', '\x7b', '*', '+', '?'].contains c

def single (spaced : Bool) : Parser Tree :=
  escape spaced
  <|> (do char '.'; pure .any)
  <|> (do let _ ← charOf fun c => c = '^' || c = '$'; pure .edge)
  <|> (do
    let c ← charOf isPlain
    pure (.letter { code := c.toNat }))

def body : Nat → Bool → Parser Tree
  | 0, _ => failure
  | depth + 1, spaced => do
    let group (spaced : Bool) : Parser Tree := do
      char '('
      gap spaced
      let (name, found) ← heading
      let inner ← body depth (found.apply .spaced spaced)
      char ')'
      pure (.group name found inner)
    let step (r : Reading) : Parser Reading := do
      gap r.spaced
      (do char '|'; pure { r with branches := r.branch :: r.branches, parts := [] })
        <|> (do
          let _ ← charOf fun c => c = '*' || c = '+' || c = '?'
          let _ ← maybe (char '?')
          ofOption r.repeated?)
        <|> (do
          let found ← setting r.spaced
          pure { r.add (.switch found) with spaced := found.apply .spaced r.spaced })
        <|> (do pure (r.add (← group r.spaced)))
        <|> (do
          let (negated, content) ← set r.spaced depthLimit
          pure (r.add (.set negated content)))
        <|> (do pure (r.add (← single r.spaced)))
    let r ← iterate step { spaced }
    gap r.spaced
    pure r.tree

def parse? (s : List Char) : Option Tree := whole? (body (depthLimit + 1) false) s

end JobWatch.Text.Pattern
