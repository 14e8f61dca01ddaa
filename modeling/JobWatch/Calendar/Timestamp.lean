import JobWatch.Calendar.Instant
import JobWatch.Text.Blank
import JobWatch.Text.Digits
import JobWatch.Text.Parser

/-!
# Instants as text

Written: date, `T`, time and `Z`, with the shortest fraction of 0, 3, 6 or 9 digits that is exact,
and a sign on years of more or less than four digits. Read: the same, with blanks between the parts,
numbers without padding, a fraction of any length and any offset from universal time.
-/

set_option autoImplicit false

namespace JobWatch.Calendar

open JobWatch.Text

def yearText (year : Int) : List Char :=
  if 0 ≤ year ∧ year ≤ 9999 then padded 4 year.toNat
  else (if year < 0 then '-' else '+') :: padded 4 year.natAbs

def fractionText (nano : Nat) : List Char :=
  if nano = 0 then []
  else if nano % 1000000 = 0 then '.' :: padded 3 (nano / 1000000)
  else if nano % 1000 = 0 then '.' :: padded 6 (nano / 1000)
  else '.' :: padded 9 nano

def Date.text (d : Date) : List Char :=
  yearText d.year ++ '-' :: padded 2 d.month ++ '-' :: padded 2 d.day

def timeText (second nano : Nat) : List Char :=
  let leap := nano / nanosPerSecond
  padded 2 (second / 3600) ++ ':' :: padded 2 (second / 60 % 60) ++
    ':' :: padded 2 (second % 60 + leap) ++ fractionText (nano % nanosPerSecond)

def Instant.text (i : Instant) : String :=
  String.ofList ((Date.ofDays i.day).text ++ 'T' :: timeText i.second i.nano ++ ['Z'])

namespace Timestamp

open Parser

def blanks : Parser Unit := skip isBlank

def digitsUpTo : Nat → Parser (List Char)
  | 0 => pure []
  | n + 1 => do
    match ← maybe (charOf isDigit) with
    | none => pure []
    | some c =>
      let more ← digitsUpTo n
      pure (c :: more)

def number (width : Nat) : Parser Nat := do
  blanks
  let digits ← digitsUpTo width
  if digits.isEmpty then failure else pure (ofDecimal digits)

def separator (c : Char) : Parser Unit := do
  blanks
  char c

def year : Parser Int := do
  blanks
  match ← maybe (charOf fun c => c = '+' || c = '-') with
  | none => do
    let y ← number 4
    pure y
  | some sign =>
    let digits ← run1 isDigit
    let value : Int := ofDecimal digits
    pure (if sign = '-' then -value else value)

def date : Parser Date := do
  let y ← year
  separator '-'
  let m ← number 2
  separator '-'
  let d ← number 2
  pure ⟨y, m, d⟩

def fraction : Parser Nat := do
  match ← maybe (char '.') with
  | none => pure 0
  | some _ =>
    let digits ← run1 isDigit
    let kept := digits.take 9
    pure (ofDecimal (kept ++ List.replicate (9 - kept.length) '0'))

def time : Parser (Nat × Nat) := do
  let h ← number 2
  separator ':'
  let m ← number 2
  separator ':'
  let s ← number 2
  let nano ← fraction
  if h < 24 ∧ m < 60 ∧ s < 60 then pure (h * 3600 + m * 60 + s, nano)
  else if h < 24 ∧ m < 60 ∧ s = 60 then pure (h * 3600 + m * 60 + 59, nanosPerSecond + nano)
  else failure

def isMinus (c : Char) : Bool := c = '-' || c = '\u2212'

def offset : Parser Int := do
  blanks
  let utc : Parser Int := do
    let _ ← charOf fun c => c = 'U' || c = 'u'
    let _ ← charOf fun c => c = 'T' || c = 't'
    let _ ← charOf fun c => c = 'C' || c = 'c'
    pure 0
  let zulu : Parser Int := do
    let _ ← charOf fun c => c = 'Z' || c = 'z'
    pure 0
  let shift : Parser Int := do
    let sign ← charOf fun c => c = '+' || isMinus c
    let hours ← exactly isDigit 2
    skip fun c => c = ':' || isBlank c
    let minutes ← exactly isDigit 2
    let minutes := ofDecimal minutes
    let hours := ofDecimal hours
    if hours < 24 ∧ minutes < 60 then
      let seconds : Int := hours * 3600 + minutes * 60
      pure (if sign = '+' then seconds else -seconds)
    else failure
  utc <|> zulu <|> shift

end Timestamp

def Instant.ofText? (s : String) : Option Instant := do
  let (date, second, nano, offset) ← Parser.whole? (α := Date × Nat × Nat × Int) (do
    let date ← Timestamp.date
    let _ ← Parser.charOf fun c => c = 'T' || c = 't' || c = ' '
    let (second, nano) ← Timestamp.time
    let offset ← Timestamp.offset
    Timestamp.blanks
    pure (date, second, nano, offset)) s.toList
  if date.isValid then
    -- the local date has to be in the range as well as the instant
    let _ ← Instant.of? date.toDays second nano
    let utc := (second : Int) - offset
    Instant.of? (date.toDays + utc / secondsPerDay) (utc % secondsPerDay).toNat nano
  else none

end JobWatch.Calendar
