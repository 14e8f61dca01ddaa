import JobWatch.Number.Literal
import JobWatch.Outcome
import JobWatch.Settings.Value

/-!
# Layers of settings

A later layer is laid over an earlier one leaf by leaf: tables are merged, and anything else takes
the place of what was there. Names do not depend on case. A name at the top of a layer may be a path
into tables and lists.
-/

set_option autoImplicit false

namespace JobWatch

def kelvinSign : Char := '\u212a'

/-- The small letter of a name. All other letters outside of ASCII have small letters outside of it
too, which name no setting; they stay as they are. -/
def lowerLetter (c : Char) : Char := if c = kelvinSign then 'k' else c.toLower

def lowerName (name : String) : String := String.ofList (name.toList.map lowerLetter)

namespace SettingValue

abbrev Entries := List (String × SettingValue)

def entriesOf : Option SettingValue → Entries
  | some (table entries) => entries
  | _ => []

def itemsOf : Option SettingValue → List SettingValue
  | some (list items) => items
  | _ => []

def assign (name : String) (v : SettingValue) : Entries → Entries
  | [] => [(name, v)]
  | (known, old) :: rest =>
    if known = name then (name, v) :: rest else (known, old) :: assign name v rest

mutual

/-- A value laid over another. A table without entries leaves what is there. -/
def overlay (below : Option SettingValue) : SettingValue → SettingValue
  | table [] => below.getD (table [])
  | table (entry :: entries) => table (overlayEntries (entriesOf below) (entry :: entries))
  | v => v

def overlayEntries (below : Entries) : List (String × SettingValue) → Entries
  | [] => below
  | (name, v) :: rest =>
    overlayEntries (assign (lowerName name) (overlay (below.lookup (lowerName name)) v) below) rest

end

/-- A step of a path: to the entry of a table, or to the item of a list, from its end below zero. -/
inductive Step where
  | entry (name : String)
  | item (index : Int)
  deriving DecidableEq, Repr

/-- No list gets longer than this; a process has no room for longer ones. -/
def lengthLimit : Nat := 0x1000000

def place? (index : Int) (length : Nat) : Option Nat :=
  if 0 ≤ index then
    if index < lengthLimit then some index.toNat else none
  else if index.natAbs ≤ length then some (length - index.natAbs)
  else none

/-- A value laid over what stands at the end of a path. Tables and lists on the way take the place
of anything else; a list is filled up to the item, if it can have one there. -/
def overlayAt? (v : SettingValue) : List Step → Option SettingValue → Option SettingValue
  | [], below => some (overlay below v)
  | .entry name :: path, below => do
    let entries := entriesOf below
    let inner ← overlayAt? v path (entries.lookup (lowerName name))
    some (table (assign (lowerName name) inner entries))
  | .item index :: path, below => do
    let items := itemsOf below
    let n ← place? index items.length
    let items := items ++ List.replicate (n + 1 - items.length) missing
    let inner ← match path with
      | [] => some v
      | path => overlayAt? v path items[n]?
    some (list (items.set n inner))

section Paths

open JobWatch.Text JobWatch.Text.Parser

def isNameChar (c : Char) : Bool :=
  isDigit c || ('a'.toNat ≤ c.toNat && c.toNat ≤ 'z'.toNat) ||
    ('A'.toNat ≤ c.toNat && c.toNat ≤ 'Z'.toNat) || c = '_' || c = '-' || c = ' '

def pathName : Parser Step := do
  let cs ← run1 isNameChar
  pure (.entry (String.ofList cs))

def pathStep : Parser Step :=
  (do char '.'; pathName)
  <|> (do
    char '['
    skip fun c => c = ' ' || c = '\t'
    let negative ← maybe (char '-')
    let digits ← run1 isDigit
    skip fun c => c = ' ' || c = '\t'
    char ']'
    let index := Number.signed negative.isSome (ofDecimal digits)
    if Number.inRange64 index then pure (.item index) else failure)

def pathOf (name : String) : List Step :=
  let path : Parser (List Step) := do
    let first ← pathName
    let more ← many pathStep
    pure (first :: more)
  (whole? path name.toList).getD [.entry name]

end Paths

def overlayLayer {ε : Type} (below : Entries) : Entries → Outcome ε Entries
  | [] => .done below
  | (name, v) :: rest => do
    let merged ← Outcome.ofOption (overlayAt? v (pathOf name) (some (table below)))
    overlayLayer (entriesOf (some merged)) rest

end SettingValue

end JobWatch
