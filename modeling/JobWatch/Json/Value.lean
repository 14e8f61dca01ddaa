import JobWatch.Text.Digits

/-!
# JSON values

The members of an object keep their order and may repeat a name, so that what a record says about
repeated, unknown or reordered members can be told from the value.
-/

set_option autoImplicit false

namespace JobWatch

/-- A JSON value. A plain integer is held as a number, any other finite number as it is written.
`broken` stands for a part that is well formed but has no value: a string whose escapes name no
character, a number beyond all bounds, an object with such a string as a name. It may be skipped
and not read. -/
inductive Json where
  | null
  | bool (b : Bool)
  | int (n : Int)
  | real (digits : String)
  | text (s : String)
  | array (items : List Json)
  | object (members : List (String × Json))
  | broken
  deriving Repr

namespace Json

/-- The member of an object with the given name; the last one if the name is repeated. -/
def member? (name : String) : Json → Option Json
  | .object members => (members.reverse.lookup name)
  | _ => none

def present? (name : String) (j : Json) : Option Json :=
  match j.member? name with
  | none => none
  | some .null => none
  | some value => some value

mutual

def readable : Nat → Json → Bool
  | _, .broken => false
  | 0, .array _ => false
  | 0, .object _ => false
  | depth + 1, .array items => readableItems depth items
  | depth + 1, .object members => readableMembers depth members
  | _, _ => true

def readableItems : Nat → List Json → Bool
  | _, [] => true
  | depth, j :: rest => readable depth j && readableItems depth rest

def readableMembers : Nat → List (String × Json) → Bool
  | _, [] => true
  | depth, (_, j) :: rest => readable depth j && readableMembers depth rest

end

def depthLimit : Nat := 127

def quoted (s : String) : String :=
  let escape (c : Char) : List Char :=
    if c = '"' then ['\\', '"']
    else if c = '\\' then ['\\', '\\']
    else if c = '\n' then ['\\', 'n']
    else if c = '\r' then ['\\', 'r']
    else if c = '\t' then ['\\', 't']
    else if c.toNat < 0x20 then ['\\', 'u', '0', '0'] ++ Text.hexPair c.toNat
    else [c]
  String.ofList ('"' :: s.toList.flatMap escape ++ ['"'])

mutual

def render : Json → String
  | .null => "null"
  | .bool b => if b then "true" else "false"
  | .int n => String.ofList (Text.integer n)
  | .real digits => digits
  | .text s => quoted s
  | .array items => "[" ++ renderItems items ++ "]"
  | .object members => "\x7b" ++ renderMembers members ++ "\x7d"
  | .broken => "null"

def renderItems : List Json → String
  | [] => ""
  | [j] => render j
  | j :: rest => render j ++ "," ++ renderItems rest

def renderMembers : List (String × Json) → String
  | [] => ""
  | [(name, j)] => quoted name ++ ":" ++ render j
  | (name, j) :: rest => quoted name ++ ":" ++ render j ++ "," ++ renderMembers rest

end

def ofOption {α : Type} (f : α → Json) : Option α → Json
  | some a => f a
  | none => .null

end Json

end JobWatch
