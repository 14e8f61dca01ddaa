import JobWatch.Calendar.Instant
import JobWatch.Calendar.Zone
import JobWatch.Cron.Schedule
import JobWatch.Outcome

/-!
# The next occurrence of a schedule

The search goes through years, months, days, hours, minutes and seconds in turn, and looks at local
times in ascending order. The local time one second after the reference is a lower bound for the
first year that is tried, for its first month if that is the month of the bound, and so on down. A
local time that clocks skip or show twice is passed over; a local date that clocks skip as a whole
breaks the search down.
-/

set_option autoImplicit false

namespace JobWatch.Cron

open JobWatch.Calendar

structure Clock where
  year : Int
  month : Nat
  day : Nat
  hour : Nat
  minute : Nat
  second : Nat
  deriving DecidableEq, Repr

namespace Clock

def ofLocal (time : Int) : Clock :=
  let date := Date.ofDays (time / secondsPerDay)
  let second := (time % secondsPerDay).toNat
  ⟨date.year, date.month, date.day, second / 3600, second / 60 % 60, second % 60⟩

def localDay (c : Clock) : Int := (Date.mk c.year c.month c.day).toDays

def toLocal (c : Clock) : Int :=
  c.localDay * secondsPerDay + (c.hour * 3600 + c.minute * 60 + c.second : Nat)

end Clock

def Schedule.admits (s : Schedule) (c : Clock) : Bool :=
  s.seconds.contains c.second && s.minutes.contains c.minute && s.hours.contains c.hour &&
    s.daysOfMonth.contains c.day && s.months.contains c.month &&
    s.daysOfWeek.contains (weekday c.localDay) &&
    decide (0 ≤ c.year) && s.years.contains c.year.toNat

inductive Hit where
  | nothing
  | wrongWeekday
  | skippedDate
  | found (instant : Int)
  deriving DecidableEq, Repr

def firstHit (search : Option Clock → Nat → Hit) (bound : Option Clock) : List Nat → Hit
  | [] => .nothing
  | n :: rest =>
    match search bound n with
    -- only the first number inherits the lower bound
    | .nothing => firstHit search none rest
    | hit => hit

/-- Tries the numbers of a field up to `last`, from the lower bound on or from `last` if that is
less. The bound holds below the field only if the field has the number of the bound itself. -/
def searchField (numbers : List Nat) (last : Nat) (boundOf : Clock → Nat)
    (search : Option Clock → Nat → Hit) : Option Clock → Hit
  | none => firstHit search none (numbers.filter (· ≤ last))
  | some q =>
    firstHit search (if numbers.contains (boundOf q) then some q else none)
      (numbers.filter fun n => min (boundOf q) last ≤ n && n ≤ last)

def tryTime (s : Schedule) (z : Zone) (c : Clock) : Hit :=
  if z.hasDate c.localDay then
    match z.instantsAt c.toLocal with
    | [instant] =>
      if s.daysOfWeek.contains (weekday c.localDay) then .found instant else .wrongWeekday
    | _ => .nothing
  else .skippedDate

def searchDay (s : Schedule) (z : Zone) (year month : Nat) (bound : Option Clock) (day : Nat) :
    Hit :=
  let hit := searchField s.hours 23 Clock.hour (fun bound hour =>
    searchField s.minutes 59 Clock.minute (fun bound minute =>
      searchField s.seconds 59 Clock.second (fun _ second =>
        tryTime s z ⟨year, month, day, hour, minute, second⟩) bound) bound) bound
  -- the day of the week is wrong for the date as a whole, so its first time gives it up
  if hit = .wrongWeekday then .nothing else hit

def searchMonth (s : Schedule) (z : Zone) (year : Nat) (bound : Option Clock) (month : Nat) : Hit :=
  searchField s.daysOfMonth (daysInMonth year month) Clock.day (searchDay s z year month) bound

def searchYear (s : Schedule) (z : Zone) (bound : Option Clock) (year : Nat) : Hit :=
  searchField s.months 12 Clock.month (searchMonth s z year) bound

def search (s : Schedule) (z : Zone) (bound : Clock) : Hit :=
  if 0 ≤ bound.year then
    -- the bound holds for the first year that is tried, also if that is not its own
    firstHit (searchYear s z) (some bound) (s.years.filter (bound.year.toNat ≤ ·))
  else .nothing

/-- The next instant at which the schedule is due in a zone, strictly after the given one. It breaks
down if the second after that is beyond the latest instant, or at a date that clocks skip. -/
def Schedule.next {ε : Type} (s : Schedule) (z : Zone) (after : Instant) :
    Outcome ε (Option Instant) :=
  let following := after.epochSecond + 1
  if (lastDay + 1) * secondsPerDay ≤ following then .crashed
  else
    match search s z (Clock.ofLocal (z.localTime following)) with
    | .found instant => .done (Instant.ofEpochSecond? instant)
    | .skippedDate => .crashed
    | _ => .done none

end JobWatch.Cron
