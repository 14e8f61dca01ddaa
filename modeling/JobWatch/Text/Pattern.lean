import JobWatch.Text.Pattern.Parser

/-!
# Patterns that can be used

A pattern that can be read is of no use if it needs what is not there: the classes and the cases of
letters outside of ASCII, or matches of single bytes that are no characters. The ends of words are
those of Unicode as long as Unicode is on; such a pattern is well formed, but nothing can match it.
-/

set_option autoImplicit false

namespace JobWatch.Text.Pattern

structure Context where
  ignoreCase : Bool := false
  unicode : Bool := true
  deriving DecidableEq, Repr

namespace Context

def after (c : Context) (switches : Switches) : Context :=
  ⟨switches.apply .ignoreCase c.ignoreCase, switches.apply .unicode c.unicode⟩

def admits (c : Context) (l : Letter) : Bool :=
  if c.unicode then ¬ c.ignoreCase else ¬ l.isByte || l.code < 0x80

def admitsMember (c : Context) (l : Letter) : Bool :=
  if c.unicode then ¬ c.ignoreCase else l.code < 0x80

/-- May a class be written by a letter? Only those of ASCII are known, and what is outside of them
are bytes. -/
def admitsShorthand (c : Context) (mark : Char) : Bool := ¬ c.unicode && mark.isLower

def admitsNegation (c : Context) (negated : Bool) : Bool := c.unicode || ¬ negated

end Context

mutual

def Member.isAdmitted (c : Context) : Member → Bool
  | .letter l => c.admitsMember l
  | .range first last => c.admitsMember first && c.admitsMember last
  | .named _ negated => c.admitsNegation negated && ¬ (c.unicode && c.ignoreCase)
  | .shorthand mark => c.admitsShorthand mark
  | .nested negated content => c.admitsNegation negated && content.isAdmitted c

def Content.isAdmitted (c : Context) : Content → Bool
  | .members ms => areAdmitted c ms
  | .joined _ left right => left.isAdmitted c && right.isAdmitted c

def areAdmitted (c : Context) : List Member → Bool
  | [] => true
  | m :: ms => m.isAdmitted c && areAdmitted c ms

end

structure Admission where
  context : Context
  unicodeWords : Bool := false

def Context.admitIf (c : Context) (usable : Bool) : Option Admission :=
  if usable then some { context := c } else none

mutual

def Tree.admission? (c : Context) : Tree → Option Admission
  | .letter l => c.admitIf (c.admits l)
  | .any => c.admitIf c.unicode
  | .edge => c.admitIf true
  | .wordEdge => some ⟨c, c.unicode⟩
  | .shorthand mark => c.admitIf (c.admitsShorthand mark)
  | .set negated content => c.admitIf (c.admitsNegation negated && content.isAdmitted c)
  | .switch switches => (c.after switches).admitIf true
  | .repeated t => t.admission? c
  | .group _ switches body => (body.admission? (c.after switches)).map ({ · with context := c })
  | .sequence ts => admissionOfAll? c ts
  | .alternatives ts => admissionOfAll? c ts

def admissionOfAll? (c : Context) : List Tree → Option Admission
  | [] => c.admitIf true
  | t :: ts => do
    let first ← t.admission? c
    let rest ← admissionOfAll? first.context ts
    some { rest with unicodeWords := first.unicodeWords || rest.unicodeWords }

end

inductive Fault where
  | malformed
  | unicodeWords
  deriving DecidableEq, Repr

def Fault.message : Fault → String
  | malformed => "error building NFA"
  | unicodeWords =>
    "unsupported regex feature for DFAs: cannot build DFAs for regexes with Unicode word " ++
      "boundaries; switch to ASCII word boundaries, or heuristically enable Unicode word " ++
      "boundaries or use a different regex engine"

def fault? (s : List Char) : Option Fault :=
  match parse? s with
  | none => some .malformed
  | some t =>
    if depthLimit < t.depth ∨ t.names.eraseDups ≠ t.names then some .malformed
    else
      match t.admission? {} with
      | none => some .malformed
      | some a => if a.unicodeWords then some .unicodeWords else none

end JobWatch.Text.Pattern
