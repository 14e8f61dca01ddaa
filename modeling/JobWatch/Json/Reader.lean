import JobWatch.Json.Value
import JobWatch.Number.Binary64
import JobWatch.Text.Parser

/-!
# Reading JSON text

A text is read in two passes: characters into tokens, tokens into a value with the open arrays and
objects on a stack. Each pass looks at each element once, and neither limits the nesting. Reading is
strict: one value, blanks around it, nothing else.
-/

set_option autoImplicit false

namespace JobWatch.Json

inductive Token where
  | openArray
  | closeArray
  | openObject
  | closeObject
  | comma
  | colon
  | scalar (value : Json)
  /-- A string; nothing if its escapes name no character. -/
  | string (content : Option String)

structure Numeral where
  negative : Bool
  whole : List Char
  fraction : List Char
  exponent : Option (Bool × List Char)

open Text Text.Parser in
def numeral : Parser Numeral := do
  let sign ← maybe (char '-')
  let whole ← run1 isDigit
  if 1 < whole.length ∧ whole.head? = some '0' then failure
  let fraction ← maybe (do char '.'; run1 isDigit)
  let exponent ← maybe do
    let _ ← charOf (fun c => c = 'e' || c = 'E')
    let sign ← maybe (charOf (fun c => c = '+' || c = '-'))
    let digits ← run1 isDigit
    pure (decide (sign = some '-'), digits)
  finish
  pure ⟨sign.isSome, whole, fraction.getD [], exponent⟩

def appended (n : Nat) : List Char → Nat × List Char
  | [] => (n, [])
  | c :: rest =>
    let next := 10 * n + Text.digitValue c
    if next < 0x10000000000000000 then appended next rest else (n, c :: rest)

/-- The digits of a numeral as far as they fit into 64 bits, and the exponent of ten that goes with
them. Digits before the point that do not fit count, those after it are dropped. -/
def Numeral.scaled (n : Numeral) : Nat × Int :=
  let (whole, excess) := appended 0 n.whole
  let (digits, dropped) := appended whole n.fraction
  let shift : Int := match n.exponent with
    | none => 0
    | some (true, written) => -(Text.ofDecimal written : Int)
    | some (false, written) => Text.ofDecimal written
  (digits, excess.length - (n.fraction.length - dropped.length) + shift)

def greatestScale : Nat := 308

/-- Is a numeral beyond all bounds? Digits and power of ten are rounded, and so is their product. -/
def Numeral.isTooLarge (n : Numeral) : Bool :=
  match n.scaled with
  | (0, _) => false
  | (_, .negSucc _) => false
  | (digits, .ofNat exponent) =>
    greatestScale < exponent ||
      Binary64.productOverflows (.ofInt digits) (.ofDecimal false 1 exponent)

def ofNumeral? (written : List Char) : Option Json := do
  let n ← (numeral written).map (·.1)
  let value := Text.ofDecimal n.whole
  if n.isTooLarge then some .broken
  else if n.fraction.isEmpty ∧ n.exponent.isNone ∧ ¬ (n.negative ∧ value = 0) then
    some (.int (if n.negative then -(value : Int) else value))
  else some (.real (String.ofList written))

/-- Where the reading of characters stands. Characters read so far are held last first. -/
inductive Mode where
  | between
  | number (read : List Char)
  | word (read : List Char)
  /-- Inside a string. `high` is the first half of a surrogate pair that still lacks its second, and
  `sound` says that all escapes so far name characters. -/
  | string (read : List Char) (high : Option Nat) (sound : Bool)

def isSpace (c : Char) : Bool := c = ' ' || c = '\t' || c = '\n' || c = '\r'

def isNumberChar (c : Char) : Bool :=
  Text.isDigit c || c = '-' || c = '+' || c = '.' || c = 'e' || c = 'E'

def isLetter (c : Char) : Bool := 'a'.toNat ≤ c.toNat && c.toNat ≤ 'z'.toNat

def Mode.token? : Mode → Option (List Token)
  | .between => some []
  | .number read => (ofNumeral? read.reverse).map fun j => [.scalar j]
  | .word read =>
    match String.ofList read.reverse with
    | "null" => some [.scalar .null]
    | "true" => some [.scalar (.bool true)]
    | "false" => some [.scalar (.bool false)]
    | _ => none
  | .string .. => none

def Mode.continued? (c : Char) : Mode → Option Mode
  | .number read => if isNumberChar c then some (.number (c :: read)) else none
  | .word read => if isLetter c then some (.word (c :: read)) else none
  | _ => none

def startOf? (c : Char) : Option (Mode × List Token) :=
  if isSpace c then some (.between, [])
  else if c = '[' then some (.between, [.openArray])
  else if c = ']' then some (.between, [.closeArray])
  else if c = '\x7b' then some (.between, [.openObject])
  else if c = '\x7d' then some (.between, [.closeObject])
  else if c = ',' then some (.between, [.comma])
  else if c = ':' then some (.between, [.colon])
  else if c = '"' then some (.string [] none true, [])
  else if Text.isDigit c || c = '-' then some (.number [c], [])
  else if isLetter c then some (.word [c], [])
  else none

def escaped? (c : Char) : Option Char :=
  match c with
  | '"' => some '"'
  | '\\' => some '\\'
  | '/' => some '/'
  | 'b' => some '\x08'
  | 'f' => some '\x0c'
  | 'n' => some '\n'
  | 'r' => some '\r'
  | 't' => some '\t'
  | _ => none

def Mode.withUnit (read : List Char) (high : Option Nat) (sound : Bool) (unit : Nat) : Mode :=
  if 0xD800 ≤ unit ∧ unit < 0xDC00 then .string read (some unit) (sound && high.isNone)
  else if 0xDC00 ≤ unit ∧ unit < 0xE000 then
    match high with
    | some first =>
      .string (Char.ofNat (0x10000 + (first - 0xD800) * 0x400 + (unit - 0xDC00)) :: read) none sound
    | none => .string read none false
  else .string (Char.ofNat unit :: read) none (sound && high.isNone)

def tokens? : Mode → List Token → List Char → Option (List Token)
  | mode, read, [] => do
    let last ← mode.token?
    some (last.reverse ++ read).reverse
  | .string chars high sound, read, '"' :: rest =>
    let content := if sound && high.isNone then some (String.ofList chars.reverse) else none
    tokens? .between (.string content :: read) rest
  | .string chars high sound, read, '\\' :: 'u' :: a :: b :: c :: d :: rest =>
    if [a, b, c, d].all Text.isHexDigit then
      tokens? (.withUnit chars high sound (Text.ofDigits 16 [a, b, c, d])) read rest
    else none
  | .string chars high sound, read, '\\' :: c :: rest =>
    match escaped? c with
    | some stands => tokens? (.string (stands :: chars) none (sound && high.isNone)) read rest
    | none => none
  | .string chars high sound, read, c :: rest =>
    if c.toNat < 0x20 || c = '\\' then none
    else tokens? (.string (c :: chars) none (sound && high.isNone)) read rest
  | mode, read, c :: rest =>
    match mode.continued? c with
    | some mode => tokens? mode read rest
    | none =>
      match mode.token?, startOf? c with
      | some before, some (mode, here) =>
        tokens? mode (here.reverse ++ (before.reverse ++ read)) rest
      | _, _ => none

inductive Frame where
  | array (items : List Json)
  | object (members : List (Option String × Json)) (name : Option String)

inductive Awaiting where
  | value
  | valueOrClose
  | name (members : List (Option String × Json))
  | nameOrClose
  | colon (members : List (Option String × Json)) (name : Option String)
  | separator
  | nothing (result : Json)

def ofMembers (members : List (Option String × Json)) : Json :=
  match members.mapM (fun (name, j) => name.map (·, j)) with
  | some named => .object named
  | none => .broken

def deliver (j : Json) : List Frame → Awaiting × List Frame
  | [] => (.nothing j, [])
  | .array items :: outer => (.separator, .array (j :: items) :: outer)
  | .object members name :: outer => (.separator, .object ((name, j) :: members) none :: outer)

def begin? (stack : List Frame) : Token → Option (Awaiting × List Frame)
  | .openArray => some (.valueOrClose, .array [] :: stack)
  | .openObject => some (.nameOrClose, stack)
  | .scalar j => some (deliver j stack)
  | .string (some s) => some (deliver (.text s) stack)
  | .string none => some (deliver .broken stack)
  | _ => none

def step? : Awaiting → List Frame → Token → Option (Awaiting × List Frame)
  | .value, stack, token => begin? stack token
  | .valueOrClose, .array [] :: stack, .closeArray => some (deliver (.array []) stack)
  | .valueOrClose, stack, token => begin? stack token
  | .nameOrClose, stack, .closeObject => some (deliver (.object []) stack)
  | .nameOrClose, stack, .string name => some (.colon [] name, stack)
  | .name members, stack, .string name => some (.colon members name, stack)
  | .colon members name, stack, .colon => some (.value, .object members name :: stack)
  | .separator, .array items :: stack, .comma => some (.value, .array items :: stack)
  | .separator, .array items :: stack, .closeArray => some (deliver (.array items.reverse) stack)
  | .separator, .object members _ :: stack, .comma => some (.name members, stack)
  | .separator, .object members _ :: stack, .closeObject =>
    some (deliver (ofMembers members.reverse) stack)
  | _, _, _ => none

def ofTokens? : Awaiting → List Frame → List Token → Option Json
  | .nothing result, [], [] => some result
  | awaiting, stack, token :: rest => do
    let (awaiting, stack) ← step? awaiting stack token
    ofTokens? awaiting stack rest
  | _, _, [] => none

def parse? (s : String) : Option Json := do
  let tokens ← tokens? .between [] s.toList
  ofTokens? .value [] tokens

end JobWatch.Json
