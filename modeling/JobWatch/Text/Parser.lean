/-!
# Reading text from the left

A parser takes the characters that are left and gives a value with the characters that remain, or
refuses. Repetition goes on only while the text gets shorter, so every parser ends.
-/

set_option autoImplicit false

namespace JobWatch.Text

def Parser (α : Type) : Type := List Char → Option (α × List Char)

namespace Parser

variable {α β : Type}

instance : Monad Parser where
  pure a := fun s => some (a, s)
  bind p f := fun s =>
    match p s with
    | some (a, rest) => f a rest
    | none => none

/-- The first alternative that reads something is kept; there is no way back into it. -/
instance : Alternative Parser where
  failure := fun _ => none
  orElse p q := fun s =>
    match p s with
    | some result => some result
    | none => q () s

def charOf (ok : Char → Bool) : Parser Char
  | [] => none
  | c :: rest => if ok c then some (c, rest) else none

def char (c : Char) : Parser Unit
  | [] => none
  | d :: rest => if d = c then some ((), rest) else none

def chars : List Char → Parser Unit
  | [] => pure ()
  | c :: cs => do char c; chars cs

def run (ok : Char → Bool) : Parser (List Char) :=
  fun s => some (s.takeWhile ok, s.dropWhile ok)

def run1 (ok : Char → Bool) : Parser (List Char) := do
  let cs ← run ok
  if cs.isEmpty then failure else pure cs

def exactly (ok : Char → Bool) : Nat → Parser (List Char)
  | 0 => pure []
  | n + 1 => do
    let c ← charOf ok
    let cs ← exactly ok n
    pure (c :: cs)

def skip (ok : Char → Bool) : Parser Unit := fun s => some ((), s.dropWhile ok)

def maybe (p : Parser α) : Parser (Option α) := fun s =>
  match p s with
  | some (a, rest) => some (some a, rest)
  | none => some (none, s)

def manyFrom (p : Parser α) (s : List Char) : List α × List Char :=
  match p s with
  | none => ([], s)
  | some (a, rest) =>
    if rest.length < s.length then
      let (more, remaining) := manyFrom p rest
      (a :: more, remaining)
    else ([], s)
termination_by s.length

def many (p : Parser α) : Parser (List α) := fun s => some (manyFrom p s)

def iterateFrom (p : α → Parser α) (a : α) (s : List Char) : α × List Char :=
  match p a s with
  | none => (a, s)
  | some (next, rest) => if rest.length < s.length then iterateFrom p next rest else (a, s)
termination_by s.length

def iterate (p : α → Parser α) (a : α) : Parser α := fun s => some (iterateFrom p a s)

/-- Values with separators between them, one at least; a separator after which no value stands is
left unread. -/
def sepBy1 (p : Parser α) (separator : Parser β) : Parser (List α) := do
  let a ← p
  let more ← many (do let _ ← separator; p)
  pure (a :: more)

def finish : Parser Unit
  | [] => some ((), [])
  | _ :: _ => none

def peek : Parser (Option Char) := fun s => some (s.head?, s)

def ofOption : Option α → Parser α
  | some a => pure a
  | none => failure

def whole? (p : Parser α) (s : List Char) : Option α :=
  match p s with
  | some (a, []) => some a
  | _ => none

end Parser

end JobWatch.Text
