/-!
# The proleptic Gregorian calendar

Days are counted from 1970-01-01; a date is a year, a month and a day of the month. Years go on in
both directions, the year before 1 is 0.
-/

set_option autoImplicit false

namespace JobWatch.Calendar

structure Date where
  year : Int
  month : Nat
  day : Nat
  deriving DecidableEq, Repr

def isLeapYear (year : Int) : Bool := year % 4 = 0 && (year % 100 ≠ 0 || year % 400 = 0)

def monthLengths (leap : Bool) : List Nat :=
  [31, if leap then 29 else 28, 31, 30, 31, 30, 31, 31, 30, 31, 30, 31]

def daysInMonth (year : Int) (month : Nat) : Nat :=
  (monthLengths (isLeapYear year))[month - 1]?.getD 0

def yearStart (year : Int) : Int :=
  365 * (year - 1970) + (year - 1) / 4 - (year - 1) / 100 + (year - 1) / 400 - 477

def monthStart (leap : Bool) (month : Nat) : Nat :=
  ((monthLengths leap).take (month - 1)).foldl (· + ·) 0

def yearOf (day : Int) : Int :=
  -- the quotient by the mean length of a year is off by one at most
  let guess := (400 * (day + 719162)) / 146097 + 1
  if yearStart (guess + 1) ≤ day then guess + 1
  else if day < yearStart guess then guess - 1
  else guess

theorem yearStart_yearOf (day : Int) :
    yearStart (yearOf day) ≤ day ∧ day < yearStart (yearOf day + 1) := by
  have low : yearStart ((400 * (day + 719162)) / 146097 + 1 - 1) ≤ day := by
    unfold yearStart
    omega
  have high : day < yearStart ((400 * (day + 719162)) / 146097 + 1 + 1 + 1) := by
    unfold yearStart
    omega
  unfold yearOf
  simp only
  split
  · exact ⟨by assumption, high⟩
  · split
    · refine ⟨low, ?_⟩
      rw [Int.sub_add_cancel]
      assumption
    · omega

/-- The month and the day of the month of a day of the year, counted from zero; `month` is the
month with which the given lengths begin. -/
def monthDay (month : Nat) : List Nat → Nat → Nat × Nat
  | [], dayOfYear => (month, dayOfYear + 1)
  | [_], dayOfYear => (month, dayOfYear + 1)
  | length :: rest, dayOfYear =>
    if dayOfYear < length then (month, dayOfYear + 1)
    else monthDay (month + 1) rest (dayOfYear - length)

namespace Date

def isValid (d : Date) : Bool :=
  1 ≤ d.month && d.month ≤ 12 && 1 ≤ d.day && d.day ≤ daysInMonth d.year d.month

def toDays (d : Date) : Int :=
  yearStart d.year + (monthStart (isLeapYear d.year) d.month + d.day : Nat) - 1

def ofDays (day : Int) : Date :=
  let year := yearOf day
  let dayOfYear := (day - yearStart year).toNat
  let (month, dayOfMonth) := monthDay 1 (monthLengths (isLeapYear year)) dayOfYear
  ⟨year, month, dayOfMonth⟩

end Date

/-- The day of the week, from 1 for Sunday to 7 for Saturday. -/
def weekday (day : Int) : Nat := ((day + 4) % 7).toNat + 1

end JobWatch.Calendar
