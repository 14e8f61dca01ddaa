import JobWatch.Settings.Layers

/-!
# Settings in environment variables

A variable counts if its name begins with `APP__`, in any case; what follows is a path with `__`
between its parts. A value is a truth value, an integer or a real number if it reads as one, and
otherwise a text.
-/

set_option autoImplicit false

namespace JobWatch.Environment

def canHold (key text : String) : Bool :=
  key ≠ "" && key.toList.all (fun c => c ≠ '=' && c ≠ '\x00') && text.toList.all (· ≠ '\x00')

def start : List Char := "app__".toList

def dotted : List Char → List Char
  | '_' :: '_' :: rest => '.' :: dotted rest
  | c :: rest => c :: dotted rest
  | [] => []

def setting? (key : String) : Option String :=
  let name := (lowerName key).toList
  if start.isPrefixOf name then some (String.ofList (dotted (name.drop start.length))) else none

def value (text : String) : SettingValue :=
  match lowerName text with
  | "true" => .bool true
  | "false" => .bool false
  | _ =>
    match Number.integer? text, Number.real? text with
    | some n, _ => .integer n
    | none, some x => .real x
    | none, none => .text text

/-- The layer of the environment. Variables are taken in the order of their names. -/
def layer (bindings : List (String × String)) : SettingValue.Entries :=
  (bindings.mergeSort fun a b => a.1 ≤ b.1).filterMap fun (key, text) =>
    (setting? key).map (·, value text)

end JobWatch.Environment
