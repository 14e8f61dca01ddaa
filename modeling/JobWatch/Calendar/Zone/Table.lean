import JobWatch.Calendar.Zone

/-!
# The time zones that are known by name

Rules for daylight saving time are written out as changes for the years 2013 to 2099, the years that
the table covers; after the last change a zone keeps its offset.
-/

set_option autoImplicit false

namespace JobWatch.Calendar.Zone

def hours (n : Int) : Int := n * 3600

def minutes (n : Int) : Int := n * 60

def sundayFrom (year : Int) (month day : Nat) : Int :=
  let start := (Date.mk year month day).toDays
  start + ((8 - weekday start) % 7 : Nat)

structure YearlyChange where
  month : Nat
  earliestDay : Nat
  second : Int
  offset : Int

def YearlyChange.inYear (c : YearlyChange) (year : Int) : OffsetChange :=
  ⟨sundayFrom year c.month c.earliestDay * 86400 + c.second, c.offset⟩

def twiceYearly (initial : Int) (first second : YearlyChange) : Zone :=
  let years := List.range' 2013 87
  ⟨initial, years.flatMap fun (year : Nat) => [first.inYear year, second.inYear year]⟩

def northAmerican (standard : Int) : Zone :=
  twiceYearly standard
    ⟨3, 8, hours 2 - standard, standard + hours 1⟩
    ⟨11, 1, hours 1 - standard, standard⟩

def european (standard : Int) : Zone :=
  twiceYearly standard
    ⟨3, 25, hours 1, standard + hours 1⟩
    ⟨10, 25, hours 1, standard⟩

def lordHowe : Zone :=
  twiceYearly (hours 11)
    ⟨4, 1, hours 2 - hours 11, hours 10 + minutes 30⟩
    ⟨10, 1, hours 2 - (hours 10 + minutes 30), hours 11⟩

def saoPaulo : Zone :=
  ⟨-hours 3,
    [⟨(Date.mk 2018 11 4).toDays * 86400 + hours 3, -hours 2⟩,
      ⟨(Date.mk 2019 2 17).toDays * 86400 + hours 2, -hours 3⟩]⟩

/-- The date line moved: 2011-12-30 was left out. Daylight saving time ended that summer on
2012-04-01, and up to 2021 it lasted from the last Sunday of September, 03:00 standard time, to the
first Sunday of April, 04:00 daylight time. -/
def apia : Zone :=
  let spring : YearlyChange := ⟨9, 24, hours 3 - hours 13, hours 14⟩
  let autumn : YearlyChange := ⟨4, 1, hours 4 - hours 14, hours 13⟩
  ⟨-hours 10,
    ⟨(Date.mk 2011 12 30).toDays * 86400 + hours 10, hours 14⟩ :: autumn.inYear 2012 ::
      (List.range' 2012 9).flatMap fun (year : Nat) =>
        [spring.inYear year, autumn.inYear (year + 1)]⟩

def named? (name : String) : Option Zone :=
  match name with
  | "UTC" => some utc
  | "Asia/Ho_Chi_Minh" => some (fixed (hours 7))
  | "Asia/Tokyo" => some (fixed (hours 9))
  | "Asia/Kolkata" => some (fixed (hours 5 + minutes 30))
  | "Asia/Kathmandu" => some (fixed (hours 5 + minutes 45))
  | "Etc/GMT+12" => some (fixed (-hours 12))
  | "Etc/GMT-14" => some (fixed (hours 14))
  | "America/New_York" => some (northAmerican (-hours 5))
  | "America/St_Johns" => some (northAmerican (-(hours 3 + minutes 30)))
  | "Europe/London" => some (european 0)
  | "Australia/Lord_Howe" => some lordHowe
  | "America/Sao_Paulo" => some saoPaulo
  | "Pacific/Apia" => some apia
  | _ => none

end JobWatch.Calendar.Zone
