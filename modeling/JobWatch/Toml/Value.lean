import JobWatch.Calendar.Date
import JobWatch.Number.Literal
import JobWatch.Settings.Value

/-!
# Scalar values of TOML

A scalar is a string in one of four kinds of quotes, a number, a truth value, a date or a time.
Dates and times are kept in one normal form.
-/

set_option autoImplicit false

namespace JobWatch.Toml

open JobWatch.Text JobWatch.Text.Parser
open JobWatch.Number (sign sign? signed inRange64)

def isBlank (c : Char) : Bool := c = ' ' || c = '\t'

def blanks : Parser Unit := skip isBlank

def newline : Parser Unit :=
  char '\n' <|> (do char '\r'; char '\n')

def isPlain (c : Char) : Bool := c = '\t' || (0x20 ≤ c.toNat && c.toNat ≠ 0x7F)

def comment : Parser Unit := do
  char '#'
  skip isPlain

def trivia : Parser Unit := do
  let _ ← many (do let _ ← run1 isBlank)
  let _ ← many (do
    (newline <|> (do comment; newline))
    blanks)

/-! ### Strings -/

def unicode (digits : Nat) : Parser Char := do
  let ds ← exactly isHexDigit digits
  let n := ofDigits 16 ds
  if n < 0xD800 ∨ (0xDFFF < n ∧ n < 0x110000) then pure (Char.ofNat n) else failure

def escape : Parser Char := do
  match ← charOf fun _ => true with
  | 'b' => pure '\x08'
  | 't' => pure '\t'
  | 'n' => pure '\n'
  | 'f' => pure '\x0c'
  | 'r' => pure '\r'
  | '"' => pure '"'
  | '\\' => pure '\\'
  | 'u' => unicode 4
  | 'U' => unicode 8
  | _ => failure

def basicChar : Parser Char :=
  (do char '\\'; escape) <|> charOf fun c => isPlain c && c ≠ '"' && c ≠ '\\'

def basicString : Parser String := do
  char '"'
  let cs ← many basicChar
  char '"'
  pure (String.ofList cs)

def apostrophe : Char := '\x27'

def literalString : Parser String := do
  char apostrophe
  let cs ← run fun c => isPlain c && c ≠ apostrophe
  char apostrophe
  pure (String.ofList cs)

def lineFeed : Parser (List Char) := do
  newline
  pure ['\n']

def continuation : Parser (List Char) := do
  char '\\'
  blanks
  newline
  let _ ← many (newline <|> (do let _ ← run1 isBlank))
  pure []

def innerQuotes (quote : Char) : Parser (List Char) := do
  let quotes ← run1 (· = quote)
  if quotes.length < 3 then pure quotes else failure

def closingQuotes (quote : Char) : Parser (List Char) := do
  let quotes ← run1 (· = quote)
  -- three quotes end the string, up to two more before them belong to it
  if 3 ≤ quotes.length ∧ quotes.length ≤ 5 then pure (quotes.drop 3) else failure

def multiline (quote : Char) (content : Parser (List Char)) : Parser String := do
  chars [quote, quote, quote]
  let _ ← maybe newline
  let cs ← many (content <|> lineFeed <|> innerQuotes quote)
  let last ← closingQuotes quote
  pure (String.ofList (cs.flatten ++ last))

def multilineBasic : Parser String :=
  multiline '"' ((do let c ← basicChar; pure [c]) <|> continuation)

def multilineLiteral : Parser String :=
  multiline apostrophe (run1 fun c => isPlain c && c ≠ apostrophe)

def string : Parser String :=
  multilineBasic <|> basicString <|> multilineLiteral <|> literalString

/-! ### Numbers -/

def figures (ok : Char → Bool) : Parser (List Char) := do
  let first ← charOf ok
  let more ← many (charOf ok <|> (do char '_'; charOf ok))
  pure (first :: more)

def integral : Parser (List Char) := do
  let digits ← figures isDigit
  if digits.head? = some '0' ∧ 1 < digits.length then failure else pure digits

def decimal : Parser SettingValue := do
  let negative ← sign?
  let whole ← integral
  let fraction ← maybe (do char '.'; figures isDigit)
  let exponent ← maybe do
    let _ ← charOf fun c => c = 'e' || c = 'E'
    let negative ← sign?
    let digits ← figures isDigit
    pure (signed negative (ofDecimal digits))
  if fraction.isNone ∧ exponent.isNone then failure
  else
    let x := Number.ofParts negative whole (fraction.getD []) (exponent.getD 0)
    if x = .infinite false then failure else pure (.real x)

def namedReal : Parser SettingValue := do
  let negative ← sign?
  (do chars ['i', 'n', 'f']; pure (.real (.infinite negative)))
    <|> (do chars ['n', 'a', 'n']; pure (.real .notANumber))

def based : Parser SettingValue := do
  char '0'
  let c ← charOf fun c => c = 'x' || c = 'o' || c = 'b'
  let base := if c = 'x' then 16 else if c = 'o' then 8 else 2
  let digits ← figures fun c => (hexValue? c).any (· < base)
  let n := ofDigits base digits
  if inRange64 n then pure (.integer n) else failure

def integer : Parser SettingValue := do
  let negative ← sign?
  let digits ← integral
  let n := signed negative (ofDecimal digits)
  if inRange64 n then pure (.integer n) else failure

def number : Parser SettingValue := decimal <|> namedReal <|> based <|> integer

/-! ### Dates and times -/

def twoDigits (least greatest : Nat) : Parser Nat := do
  let digits ← exactly isDigit 2
  let n := ofDecimal digits
  if least ≤ n ∧ n ≤ greatest then pure n else failure

def date : Parser (List Char) := do
  let digits ← exactly isDigit 4
  let year := ofDecimal digits
  char '-'
  let month ← twoDigits 1 12
  char '-'
  let day ← twoDigits 1 31
  if (Calendar.Date.mk year month day).isValid then
    pure (padded 4 year ++ '-' :: padded 2 month ++ '-' :: padded 2 day)
  else failure

def secondFraction : Parser (List Char) := do
  char '.'
  let digits ← run1 isDigit
  let kept := ((digits.take 9).reverse.dropWhile (· = '0')).reverse
  pure (if kept.isEmpty then [] else '.' :: kept)

def time : Parser (List Char) := do
  let hour ← twoDigits 0 23
  char ':'
  let minute ← twoDigits 0 59
  char ':'
  let second ← twoDigits 0 60
  let fraction ← maybe secondFraction
  pure (padded 2 hour ++ ':' :: padded 2 minute ++ ':' :: padded 2 second ++ fraction.getD [])

def offsetText (negative : Bool) (minutes : Nat) : List Char :=
  (if negative ∧ minutes ≠ 0 then '-' else '+') ::
    padded 2 (minutes / 60) ++ ':' :: padded 2 (minutes % 60)

def offset : Parser (List Char) :=
  (do let _ ← charOf fun c => c = 'Z' || c = 'z'; pure ['Z'])
  <|> (do
    let negative ← sign
    let hours ← twoDigits 0 23
    char ':'
    let minutes ← twoDigits 0 59
    pure (offsetText negative (hours * 60 + minutes)))

def moment : Parser String :=
  (do
    let d ← date
    let t ← maybe do
      let _ ← charOf fun c => c = 'T' || c = 't' || c = ' '
      let t ← time
      let o ← maybe offset
      pure ('T' :: t ++ o.getD [])
    pure (String.ofList (d ++ t.getD [])))
  <|> (do
    let t ← time
    pure (String.ofList t))

def dateTime : Parser SettingValue := do
  let s ← moment
  pure (.moment s)

def momentOf? (s : String) : Option String := whole? moment s.toList

def boolean : Parser SettingValue :=
  (do chars "true".toList; pure (.bool true)) <|> (do chars "false".toList; pure (.bool false))

def scalar : Parser SettingValue :=
  (do let s ← string; pure (.text s)) <|> dateTime <|> number <|> boolean

end JobWatch.Toml
