import JobWatch.Calendar.Date

/-!
# Instants in universal time

An instant is a day, a second of it and a nanosecond, over half a million years. A leap second has
no number of its own: the nanoseconds of a second go on from one thousand million, so that they sort
between that second and the next. The calendar adds leap seconds to the ends of minutes only, but
any second can have one here.
-/

set_option autoImplicit false

namespace JobWatch.Calendar

def nanosPerSecond : Nat := 1000000000

def secondsPerDay : Nat := 86400

def firstDay : Int := -96465292

def lastDay : Int := 95026236

example : Date.ofDays firstDay = ⟨-262143, 1, 1⟩ := by decide

example : Date.ofDays lastDay = ⟨262142, 12, 31⟩ := by decide

structure Instant where
  day : Int
  second : Nat
  nano : Nat
  second_lt : second < secondsPerDay
  nano_lt : nano < 2 * nanosPerSecond
  firstDay_le : firstDay ≤ day
  le_lastDay : day ≤ lastDay
  deriving DecidableEq, Repr

namespace Instant

def of? (day : Int) (second nano : Nat) : Option Instant :=
  if h : second < secondsPerDay ∧ nano < 2 * nanosPerSecond ∧ firstDay ≤ day ∧ day ≤ lastDay then
    some ⟨day, second, nano, h.1, h.2.1, h.2.2.1, h.2.2.2⟩
  else none

def ofEpochSecond? (second : Int) : Option Instant :=
  of? (second / secondsPerDay) (second % secondsPerDay).toNat 0

def epochSecond (i : Instant) : Int := i.day * secondsPerDay + i.second

def isLeap (i : Instant) : Bool := nanosPerSecond ≤ i.nano

def rank (i : Instant) : Int := i.epochSecond * (2 * nanosPerSecond : Nat) + i.nano

instance : LE Instant := ⟨fun a b => a.rank ≤ b.rank⟩

instance : LT Instant := ⟨fun a b => a.rank < b.rank⟩

instance (a b : Instant) : Decidable (a ≤ b) := inferInstanceAs (Decidable (a.rank ≤ b.rank))

instance (a b : Instant) : Decidable (a < b) := inferInstanceAs (Decidable (a.rank < b.rank))

def earlier (a b : Instant) : Instant := if b < a then b else a

def later (a b : Instant) : Instant := if a < b then b else a

protected theorem le_refl (a : Instant) : a ≤ a := Int.le_refl _

protected theorem le_trans {a b c : Instant} (hab : a ≤ b) (hbc : b ≤ c) : a ≤ c :=
  Int.le_trans hab hbc

theorem rank_injective {a b : Instant} (h : a.rank = b.rank) : a = b := by
  have hsecond : a.second < secondsPerDay ∧ b.second < secondsPerDay := ⟨a.second_lt, b.second_lt⟩
  have hnano : a.nano < 2 * nanosPerSecond ∧ b.nano < 2 * nanosPerSecond := ⟨a.nano_lt, b.nano_lt⟩
  obtain ⟨aday, asecond, anano⟩ := a
  obtain ⟨bday, bsecond, bnano⟩ := b
  simp only [rank, epochSecond, secondsPerDay, nanosPerSecond] at h hsecond hnano
  have hd : aday = bday := by omega
  have hs : asecond = bsecond := by omega
  have hn : anano = bnano := by omega
  subst hd hs hn
  rfl

protected theorem le_antisymm {a b : Instant} (hab : a ≤ b) (hba : b ≤ a) : a = b :=
  rank_injective (Int.le_antisymm hab hba)

theorem earlier_eq (a b : Instant) : earlier a b = a ∨ earlier a b = b := by
  unfold earlier
  split <;> simp

theorem earlier_le (a b : Instant) : earlier a b ≤ a ∧ earlier a b ≤ b := by
  unfold earlier
  split
  next h => exact ⟨Int.le_of_lt h, Instant.le_refl b⟩
  next h => exact ⟨Instant.le_refl a, Int.not_lt.mp h⟩

theorem later_eq (a b : Instant) : later a b = a ∨ later a b = b := by
  unfold later
  split <;> simp

theorem le_later (a b : Instant) : a ≤ later a b ∧ b ≤ later a b := by
  unfold later
  split
  next h => exact ⟨Int.le_of_lt h, Instant.le_refl b⟩
  next h => exact ⟨Instant.le_refl a, Int.not_lt.mp h⟩

/-- Nanoseconds from one time of day to another. A leap second counts only where it lies in the
second that one of the two is in. -/
def nanosBetween (earlierSecond earlierNano laterSecond laterNano : Nat) : Int :=
  let passed : Int :=
    if earlierSecond < laterSecond ∧ nanosPerSecond ≤ earlierNano then 1
    else if laterSecond < earlierSecond ∧ nanosPerSecond ≤ laterNano then -1
    else 0
  ((laterSecond : Int) - earlierSecond + passed) * nanosPerSecond +
    ((laterNano : Int) - earlierNano)

def nanosSince (i start : Instant) : Int :=
  (i.day - start.day) * secondsPerDay * nanosPerSecond +
    nanosBetween start.second start.nano i.second i.nano

def millisSince (i start : Instant) : Int := (i.nanosSince start).tdiv 1000000

def addMillis? (i : Instant) (millis : Nat) : Option Instant :=
  let seconds := millis / 1000
  let nanos := millis % 1000 * 1000000
  if i.isLeap ∧ seconds = 0 ∧ i.nano + nanos < 2 * nanosPerSecond then
    -- inside a leap second time goes on to the end of that second
    of? i.day i.second (i.nano + nanos)
  else
    -- past its end the leap second has taken no time
    let nano := (if i.isLeap then i.nano - nanosPerSecond else i.nano) + nanos
    let second := i.second + seconds + nano / nanosPerSecond
    of? (i.day + (second / secondsPerDay : Nat)) (second % secondsPerDay) (nano % nanosPerSecond)

end Instant

end JobWatch.Calendar
