import JobWatch.Number.Binary64
import JobWatch.Text.Digits

/-!
# Values that settings are made from

A value is read before it is known what is wanted of it. A number or a truth value may serve as a
text, and a number or a text as a truth value; lists and tables serve as neither.
-/

set_option autoImplicit false

namespace JobWatch

inductive SettingValue where
  | text (s : String)
  | bool (b : Bool)
  | integer (n : Int)
  | real (x : Binary64)
  | moment (s : String)
  | list (items : List SettingValue)
  | table (entries : List (String × SettingValue))
  | missing
  deriving Repr

namespace SettingValue

def text? : SettingValue → Option String
  | text s => some s
  | bool b => some (if b then "true" else "false")
  | integer n => some (String.ofList (Text.integer n))
  | real x => some x.text
  | moment s => some s
  | _ => none

def truthWords : List (String × Bool) :=
  [("1", true), ("true", true), ("on", true), ("yes", true),
    ("0", false), ("false", false), ("off", false), ("no", false)]

def bool? : SettingValue → Option Bool
  | bool b => some b
  | integer n => some (n ≠ 0)
  | real x => some (¬ x.isZero)
  | text s => truthWords.lookup (String.ofList (s.toList.map Char.toLower))
  | _ => none

def fields? (names : List String) : SettingValue → Option (List (Option SettingValue))
  | table entries => some (names.map fun name => entries.lookup name)
  | list items => some ((List.range names.length).map fun n => items[n]?)
  | _ => none

end SettingValue

end JobWatch
