import JobWatch.Cron.Field
import JobWatch.Text.Digits
import JobWatch.Text.Parser

/-!
# Cron expressions and schedules

An expression stands for a set of numbers in each field. It has six fields and a seventh for the
years if it wants one, or is one of five shorthands. A field is a list of items; an item stands for
the numbers from a first to a last one in steps.
-/

set_option autoImplicit false

namespace JobWatch.Cron

inductive Mark where
  | number (n : Nat)
  | name (n : String)
  deriving DecidableEq, Repr

inductive Span where
  | all
  | point (mark : Mark)
  | range (first last : Mark)
  deriving DecidableEq, Repr

/-- An item of a field. With a step, a single number goes on to the greatest one. -/
structure Item where
  span : Span
  step : Option Nat
  deriving DecidableEq, Repr

structure Stride where
  first : Nat
  last : Nat
  step : Nat
  deriving DecidableEq, Repr

def Stride.covers (s : Stride) (n : Nat) : Bool :=
  s.first ≤ n && n ≤ s.last && (n - s.first) % s.step = 0

structure Schedule where
  source : String
  seconds : List Nat
  minutes : List Nat
  hours : List Nat
  daysOfMonth : List Nat
  months : List Nat
  daysOfWeek : List Nat
  years : List Nat
  deriving DecidableEq, Repr

section Grammar

open JobWatch.Text JobWatch.Text.Parser

def isSpace (c : Char) : Bool := c = ' ' || c = '\t' || c = '\r' || c = '\n'

def isLetter (c : Char) : Bool :=
  ('a'.toNat ≤ c.toNat && c.toNat ≤ 'z'.toNat) || ('A'.toNat ≤ c.toNat && c.toNat ≤ 'Z'.toNat)

def spaces : Parser Unit := skip isSpace

def number : Parser Nat := do
  spaces
  let digits ← run1 isDigit
  spaces
  let n := ofDecimal digits
  if n < 0x100000000 then pure n else failure

def name : Parser String := do
  spaces
  let letters ← run1 isLetter
  spaces
  pure (String.ofList (letters.map Char.toLower))

def span (f : Field) : Parser Span :=
  (do char '*'; pure .all)
  <|> (do if f.allowsAny then char '?'; pure .all else failure)
  <|> (do
    let first ← number
    char '-'
    let last ← number
    pure (.range (.number first) (.number last)))
  <|> (do
    let n ← number
    pure (.point (.number n)))
  <|> (do
    let first ← name
    char '-'
    let last ← name
    pure (.range (.name first) (.name last)))

def item (f : Field) : Parser Item :=
  (do
    let s ← span f
    char '/'
    let step ← number
    pure ⟨s, some step⟩)
  <|> (do
    let s ← span f
    pure ⟨s, none⟩)
  <|> (do
    let n ← name
    pure ⟨.point (.name n), none⟩)

def items (f : Field) : Parser (List Item) := do
  spaces
  let found ← sepBy1 (item f) (char ',')
  spaces
  pure found

structure Longhand where
  seconds : List Item
  minutes : List Item
  hours : List Item
  daysOfMonth : List Item
  months : List Item
  daysOfWeek : List Item
  years : List Item

def longhand : Parser Longhand := do
  let seconds ← items .seconds
  let minutes ← items .minutes
  let hours ← items .hours
  let daysOfMonth ← items .daysOfMonth
  let months ← items .months
  let daysOfWeek ← items .daysOfWeek
  let years ← maybe (items .years)
  pure ⟨seconds, minutes, hours, daysOfMonth, months, daysOfWeek, years.getD [⟨.all, none⟩]⟩

def every : List Item := [⟨.all, none⟩]

def only (n : Nat) : List Item := [⟨.point (.number n), none⟩]

def shorthands : List (String × Longhand) :=
  [("@yearly", ⟨only 0, only 0, only 0, only 1, only 1, every, every⟩),
    ("@monthly", ⟨only 0, only 0, only 0, only 1, every, every, every⟩),
    ("@weekly", ⟨only 0, only 0, only 0, every, every, only 1, every⟩),
    ("@daily", ⟨only 0, only 0, only 0, every, every, every, every⟩),
    ("@hourly", ⟨only 0, only 0, every, every, every, every, every⟩)]

def shorthand : Parser Longhand := do
  spaces
  let words ← run1 fun c => ¬ isSpace c
  spaces
  ofOption (shorthands.lookup (String.ofList words))

end Grammar

def Mark.resolve? (f : Field) : Mark → Option Nat
  | .number n => if f.least ≤ n ∧ n ≤ f.greatest then some n else none
  | .name n => f.named? n

/-- The numbers an item stands for. Its marks have to be numbers of the field in ascending order,
and its step may not be zero. -/
def Item.stride? (f : Field) (i : Item) : Option Stride := do
  let step := i.step.getD 1
  if step = 0 then none
  match i.span with
  | .all => some ⟨f.least, f.greatest, step⟩
  | .point mark =>
    let n ← mark.resolve? f
    some ⟨n, if i.step.isSome then f.greatest else n, step⟩
  | .range first last =>
    let first ← first.resolve? f
    let last ← last.resolve? f
    if first ≤ last then some ⟨first, last, step⟩ else none

def Field.resolve? (f : Field) (items : List Item) : Option (List Nat) := do
  let strides ← items.mapM (Item.stride? f)
  some (f.numbers.filter fun n => strides.any (·.covers n))

def Schedule.parse? (source : String) : Option Schedule := do
  let l ← Text.Parser.whole? (shorthand <|> longhand) source.toList
  some {
    source
    seconds := ← Field.seconds.resolve? l.seconds
    minutes := ← Field.minutes.resolve? l.minutes
    hours := ← Field.hours.resolve? l.hours
    daysOfMonth := ← Field.daysOfMonth.resolve? l.daysOfMonth
    months := ← Field.months.resolve? l.months
    daysOfWeek := ← Field.daysOfWeek.resolve? l.daysOfWeek
    years := ← Field.years.resolve? l.years }

end JobWatch.Cron
