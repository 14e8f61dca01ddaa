import JobWatch.Number.Binary64
import JobWatch.Text.Parser

/-!
# Numbers written in a text by itself

A text may be an integer with a sign, or a decimal with a point, an exponent or both, besides
infinity and the value that is no number, by name in any case.
-/

set_option autoImplicit false

namespace JobWatch.Number

open JobWatch.Text JobWatch.Text.Parser

def inRange64 (n : Int) : Bool := -0x8000000000000000 ≤ n && n < 0x8000000000000000

def sign : Parser Bool := do
  let c ← charOf fun c => c = '+' || c = '-'
  pure (c = '-')

def sign? : Parser Bool := do
  let s ← maybe sign
  pure (s.getD false)

def signed (negative : Bool) (n : Nat) : Int := if negative then -(n : Int) else n

def integer? (s : String) : Option Int := do
  let n ← whole? (do
    let negative ← sign?
    let digits ← run1 isDigit
    pure (signed negative (ofDecimal digits))) s.toList
  if inRange64 n then some n else none

def ofParts (negative : Bool) (integral fraction : List Char) (exponent : Int) : Binary64 :=
  Binary64.ofDecimal negative (ofDecimal (integral ++ fraction)) (exponent - fraction.length)

def decimal (negative : Bool) : Parser Binary64 := do
  let integral ← run isDigit
  let fraction ← maybe (do char '.'; run isDigit)
  let fraction := fraction.getD []
  let exponent ← maybe do
    let _ ← charOf fun c => c = 'e' || c = 'E'
    let negative ← sign?
    let digits ← run1 isDigit
    pure (signed negative (ofDecimal digits))
  if integral.isEmpty ∧ fraction.isEmpty then failure
  else pure (ofParts negative integral fraction (exponent.getD 0))

def named (negative : Bool) : Parser Binary64 := do
  let letters ← run1 Char.isAlpha
  match String.ofList (letters.map Char.toLower) with
  | "inf" => pure (.infinite negative)
  | "infinity" => pure (.infinite negative)
  | "nan" => pure .notANumber
  | _ => failure

def real? (s : String) : Option Binary64 :=
  whole? (do
    let negative ← sign?
    decimal negative <|> named negative) s.toList

end JobWatch.Number
