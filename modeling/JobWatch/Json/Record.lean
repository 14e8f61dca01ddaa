import JobWatch.Json.Value
import JobWatch.Number.Literal

/-!
# Records in JSON

A record is an object with its fields as members, or an array with its fields in order. Members of
other names are skipped whatever they hold, a field given twice is refused.
-/

set_option autoImplicit false

namespace JobWatch.Json

/-- The value given for each of the named fields. An object may leave any of them out; an array
gives them in order, at least `fewest` of them and no more than there are. -/
def fields? (names : List String) (fewest : Nat) : Json → Option (List (Option Json))
  | .object members =>
    if names.all fun name => (members.filter (·.1 = name)).length ≤ 1 then
      some (names.map fun name => members.lookup name)
    else none
  | .array items =>
    if fewest ≤ items.length ∧ items.length ≤ names.length then
      some (items.map some ++ List.replicate (names.length - items.length) none)
    else none
  | _ => none

def text? : Json → Option String
  | .text s => some s
  | _ => none

def bool? : Json → Option Bool
  | .bool b => some b
  | _ => none

def int64? : Json → Option Int64
  | .int n => if Number.inRange64 n then some (Int64.ofInt n) else none
  | _ => none

def items? : Json → Option (List Json)
  | .array items => some items
  | _ => none

def required {α : Type} (read : Json → Option α) (field : Option Json) : Option α :=
  field.bind read

def optional {α : Type} (read : Json → Option α) : Option Json → Option (Option α)
  | none => some none
  | some .null => some none
  | some j => (read j).map some

def withDefault {α : Type} (value : α) (read : Json → Option α) : Option Json → Option α
  | none => some value
  | some j => read j

def ofInt64 (n : Int64) : Json := .int n.toInt

end JobWatch.Json
