/-!
# Parts of a text by byte positions

A position counts the bytes of the UTF-8 form in front of it. Only a position between two characters
can be cut at.
-/

set_option autoImplicit false

namespace JobWatch.Text

def byteLength : List Char → Nat
  | [] => 0
  | c :: rest => c.utf8Size + byteLength rest

def splitAt? : Nat → List Char → Option (List Char × List Char)
  | 0, s => some ([], s)
  | _ + 1, [] => none
  | n + 1, c :: rest =>
    if c.utf8Size ≤ n + 1 then
      (splitAt? (n + 1 - c.utf8Size) rest).map fun (before, after) => (c :: before, after)
    else none

def cut? (first last : Nat) (s : List Char) : Option (List Char) := do
  let (_, rest) ← splitAt? first s
  let (part, _) ← splitAt? (last - first) rest
  some part

example : cut? 2 5 "é=info".toList = some ['=', 'i', 'n'] := by decide

example : cut? 0 1 "é=info".toList = none := by decide

end JobWatch.Text
