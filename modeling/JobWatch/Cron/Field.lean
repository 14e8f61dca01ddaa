/-!
# The fields of a cron expression

Each of the seven fields has a least and a greatest number, and two of them have names for their
numbers.
-/

set_option autoImplicit false

namespace JobWatch.Cron

inductive Field where
  | seconds
  | minutes
  | hours
  | daysOfMonth
  | months
  | daysOfWeek
  | years
  deriving DecidableEq, Repr

namespace Field

def least : Field → Nat
  | seconds => 0
  | minutes => 0
  | hours => 0
  | daysOfMonth => 1
  | months => 1
  | daysOfWeek => 1
  | years => 1970

def greatest : Field → Nat
  | seconds => 59
  | minutes => 59
  | hours => 23
  | daysOfMonth => 31
  | months => 12
  | daysOfWeek => 7
  | years => 2100

def allowsAny : Field → Bool
  | daysOfMonth => true
  | daysOfWeek => true
  | _ => false

def monthNames : List (String × Nat) :=
  [("jan", 1), ("january", 1), ("feb", 2), ("february", 2), ("mar", 3), ("march", 3), ("apr", 4),
    ("april", 4), ("may", 5), ("jun", 6), ("june", 6), ("jul", 7), ("july", 7), ("aug", 8),
    ("august", 8), ("sep", 9), ("september", 9), ("oct", 10), ("october", 10), ("nov", 11),
    ("november", 11), ("dec", 12), ("december", 12)]

def dayNames : List (String × Nat) :=
  [("sun", 1), ("sunday", 1), ("mon", 2), ("monday", 2), ("tue", 3), ("tues", 3), ("tuesday", 3),
    ("wed", 4), ("wednesday", 4), ("thu", 5), ("thurs", 5), ("thursday", 5), ("fri", 6),
    ("friday", 6), ("sat", 7), ("saturday", 7)]

def named? (name : String) : Field → Option Nat
  | months => monthNames.lookup name
  | daysOfWeek => dayNames.lookup name
  | _ => none

def numbers (f : Field) : List Nat := List.range' f.least (f.greatest + 1 - f.least)

end Field

end JobWatch.Cron
