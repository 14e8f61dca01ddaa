/-!
# Patterns

Regular expressions as trees. What a pattern matches is not looked at here: the trees hold what
decides whether a pattern can be used at all, with its names and how deep it is nested.
-/

set_option autoImplicit false

namespace JobWatch.Text.Pattern

inductive Flag where
  | ignoreCase
  | multiLine
  | dotAll
  | swapGreed
  | unicode
  | carriageReturns
  | spaced
  deriving DecidableEq, Repr

abbrev Switches := List (Flag × Bool)

def Switches.apply (switches : Switches) (flag : Flag) (before : Bool) : Bool :=
  (switches.lookup flag).getD before

/-- A character by its number. It may be written as a byte, with a backslash, an `x` and two
digits. -/
structure Letter where
  code : Nat
  isByte : Bool := false
  deriving DecidableEq, Repr

inductive Joint where
  | intersection
  | difference
  | symmetricDifference
  deriving DecidableEq, Repr

mutual

inductive Member where
  | letter (l : Letter)
  | range (first last : Letter)
  | named (name : String) (negated : Bool)
  | shorthand (mark : Char)
  | nested (negated : Bool) (content : Content)

inductive Content where
  | members (ms : List Member)
  | joined (joint : Joint) (left right : Content)

end

inductive Tree where
  | letter (l : Letter)
  | any
  | edge
  | wordEdge
  | shorthand (mark : Char)
  | set (negated : Bool) (content : Content)
  | switch (switches : Switches)
  | repeated (t : Tree)
  | group (name : Option (List Char)) (switches : Switches) (body : Tree)
  | sequence (ts : List Tree)
  | alternatives (ts : List Tree)

/-! ### Depth -/

def depthOfList (count inner : Nat) : Nat := if count ≤ 1 then inner else inner + 1

mutual

def Member.depth : Member → Nat
  | .nested _ content => content.depth + 1
  | _ => 0

def Content.depth : Content → Nat
  | .members ms => depthOfList ms.length (depthOfMembers ms)
  | .joined _ left right => max left.depth right.depth + 1

def depthOfMembers : List Member → Nat
  | [] => 0
  | m :: ms => max m.depth (depthOfMembers ms)

end

mutual

def Tree.depth : Tree → Nat
  | .set _ content => content.depth + 1
  | .repeated t => t.depth + 1
  | .group _ _ body => body.depth + 1
  | .sequence ts => depthOfList ts.length (depthOfTrees ts)
  | .alternatives ts => depthOfList ts.length (depthOfTrees ts)
  | _ => 0

def depthOfTrees : List Tree → Nat
  | [] => 0
  | t :: ts => max t.depth (depthOfTrees ts)

end

/-! ### Names -/

mutual

def Tree.names : Tree → List (List Char)
  | .repeated t => t.names
  | .group name _ body => name.toList ++ body.names
  | .sequence ts => namesOfTrees ts
  | .alternatives ts => namesOfTrees ts
  | _ => []

def namesOfTrees : List Tree → List (List Char)
  | [] => []
  | t :: ts => t.names ++ namesOfTrees ts

end

end JobWatch.Text.Pattern
