/-!
# White space

The Unicode standard lists 25 code points with the property White_Space. The zero-width characters
U+200B, U+2060 and U+FEFF are not among them.
-/

set_option autoImplicit false

namespace JobWatch.Text

def blankRanges : List (Nat × Nat) :=
  [(0x09, 0x0D), (0x20, 0x20), (0x85, 0x85), (0xA0, 0xA0), (0x1680, 0x1680), (0x2000, 0x200A),
    (0x2028, 0x2029), (0x202F, 0x202F), (0x205F, 0x205F), (0x3000, 0x3000)]

def isBlank (c : Char) : Bool :=
  blankRanges.any fun (first, last) => first ≤ c.toNat && c.toNat ≤ last

def allBlank (s : String) : Bool := s.toList.all isBlank

example : (blankRanges.map fun (first, last) => last + 1 - first).sum = 25 := by decide

end JobWatch.Text
