import JobWatch.Text.Digits

/-!
# Double-precision numbers and their shortest text

A finite number is held exactly, as a whole number times a power of two. A decimal is rounded to the
nearest of them, a tie to the even mantissa. The text of a number has the fewest digits that round
back to it, of these the nearest to it, and no exponent.
-/

set_option autoImplicit false

namespace JobWatch

inductive Binary64 where
  | finite (negative : Bool) (mantissa : Nat) (exponent : Int)
  | infinite (negative : Bool)
  | notANumber
  deriving DecidableEq, Repr

namespace Binary64

def precision : Nat := 0x20000000000000

def leastExponent : Int := -1074

def greatestExponent : Int := 971

def nearestEven (numerator denominator : Nat) : Nat :=
  let whole := numerator / denominator
  let twice := 2 * (numerator % denominator)
  if twice < denominator then whole
  else if denominator < twice then whole + 1
  else if whole % 2 = 0 then whole else whole + 1

def scaleDown (numerator denominator : Nat) (exponent : Int) : Nat × Nat :=
  match exponent with
  | .ofNat e => (numerator, denominator * Nat.pow 2 e)
  | .negSucc e => (numerator * Nat.pow 2 (e + 1), denominator)

/-- The number nearest to a positive quotient. The exponent is the one that leaves 53 binary
digits, or the least exponent where there are fewer. -/
def ofQuotient (negative : Bool) (numerator denominator : Nat) : Binary64 :=
  let guess : Int := (Nat.log2 numerator : Int) - Nat.log2 denominator - 53
  let (n, d) := scaleDown numerator denominator guess
  let exponent := max leastExponent (if precision ≤ n / d then guess + 1 else guess)
  let (n, d) := scaleDown numerator denominator exponent
  let rounded := nearestEven n d
  let (mantissa, exponent) :=
    if rounded = precision then (precision / 2, exponent + 1) else (rounded, exponent)
  if greatestExponent < exponent then .infinite negative else .finite negative mantissa exponent

def ofDecimal (negative : Bool) (digits : Nat) (exponent : Int) : Binary64 :=
  let magnitude : Int := exponent + (Text.decimal digits).length
  -- far outside the range the answer is known without computing the power
  if digits = 0 then .finite negative 0 leastExponent
  else if 310 < magnitude then .infinite negative
  else if magnitude < -330 then .finite negative 0 leastExponent
  else
    match exponent with
    | .ofNat e => ofQuotient negative (digits * Nat.pow 10 e) 1
    | .negSucc e => ofQuotient negative digits (Nat.pow 10 (e + 1))

def ofInt (n : Int) : Binary64 := ofDecimal (n < 0) n.natAbs 0

def ofScaled (negative : Bool) (mantissa : Nat) (exponent : Int) : Binary64 :=
  if mantissa = 0 then .finite negative 0 leastExponent
  else
    match exponent with
    | .ofNat e => ofQuotient negative (mantissa * Nat.pow 2 e) 1
    | .negSucc e => ofQuotient negative mantissa (Nat.pow 2 (e + 1))

def isFinite : Binary64 → Bool
  | .finite .. => true
  | _ => false

def productOverflows : Binary64 → Binary64 → Bool
  | .finite _ m e, .finite _ n f => ¬ (ofScaled false (m * n) (e + f)).isFinite
  | _, _ => false

def isZero : Binary64 → Bool
  | .finite _ mantissa _ => mantissa = 0
  | _ => false

/-- The decimals that round to a positive number: from `low` to `high`, in units of
`1 / denominator`, with the ends if `closed`. -/
structure Interval where
  low : Nat
  value : Nat
  high : Nat
  denominator : Nat
  closed : Bool

def interval (mantissa : Nat) (exponent : Int) : Interval :=
  let below := if 2 * mantissa = precision ∧ leastExponent < exponent then 1 else 2
  let (unit, denominator) : Nat × Nat :=
    match exponent - 2 with
    | .ofNat e => (Nat.pow 2 e, 1)
    | .negSucc e => (1, Nat.pow 2 (e + 1))
  { low := (4 * mantissa - below) * unit
    value := 4 * mantissa * unit
    high := (4 * mantissa + 2) * unit
    denominator
    closed := mantissa % 2 = 0 }

namespace Interval

def magnitude (i : Interval) : Int :=
  if i.denominator ≤ i.value then ((Text.decimal (i.value / i.denominator)).length : Int)
  else
    let reaches (zeros : Nat) : Bool := i.denominator ≤ i.value * Nat.pow 10 (zeros + 1)
    match (List.range 400).find? reaches with
    | some zeros => -(zeros : Int)
    | none => -400

/-- The decimal `c * 10 ^ exponent` of the interval that is nearest to the value, if one of the two
neighbours of the value on that grid lies in the interval; a tie goes up. -/
def onGrid (i : Interval) (exponent : Int) : Option Nat :=
  let (finer, coarser) : Nat × Nat :=
    match exponent with
    | .ofNat e => (1, Nat.pow 10 e)
    | .negSucc e => (Nat.pow 10 (e + 1), 1)
  let unit := i.denominator * coarser
  let value := i.value * finer
  let holds (c : Nat) : Bool :=
    if i.closed then i.low * finer ≤ c * unit && c * unit ≤ i.high * finer
    else i.low * finer < c * unit && c * unit < i.high * finer
  let under := value / unit
  match holds under, holds (under + 1) with
  | true, true => if 2 * (value % unit) < unit then some under else some (under + 1)
  | true, false => some under
  | false, true => some (under + 1)
  | false, false => none

def shortest (i : Interval) : Nat × Int :=
  let magnitude := i.magnitude
  ((List.range 17).findSome? fun (n : Nat) =>
    let exponent := magnitude - (n + 1 : Nat)
    (i.onGrid exponent).map (·, exponent)).getD (0, 0)

end Interval

def trimZeros (digits : Nat) (exponent : Int) : Nat × Int :=
  if digits ≠ 0 ∧ digits % 10 = 0 then trimZeros (digits / 10) (exponent + 1)
  else (digits, exponent)
termination_by digits

def positional (digits : Nat) (exponent : Int) : List Char :=
  let figures := Text.decimal digits
  match exponent with
  | .ofNat e => figures ++ List.replicate e '0'
  | .negSucc e =>
    let places := e + 1
    let figures := List.replicate (places + 1 - figures.length) '0' ++ figures
    let whole := figures.length - places
    figures.take whole ++ '.' :: figures.drop whole

def text : Binary64 → String
  | .notANumber => "NaN"
  | .infinite negative => if negative then "-inf" else "inf"
  | .finite negative mantissa exponent =>
    let figures :=
      if mantissa = 0 then ['0']
      else
        let (digits, exponent) := (interval mantissa exponent).shortest
        let (digits, exponent) := trimZeros digits exponent
        positional digits exponent
    String.ofList (if negative then '-' :: figures else figures)

end Binary64

end JobWatch
