import JobWatch.Toml.Value

/-!
# TOML documents

A document is a list of statements: a header opens a table, a key with a value puts the value into
the open table. A table may be opened by a header once, and dotted keys add only to tables that
dotted keys have made. What the finished tables stand for is asked at the end.
-/

set_option autoImplicit false

namespace JobWatch.Toml

open JobWatch.Text JobWatch.Text.Parser

/-! ### Tables in the making -/

inductive Origin where
  /-- On the way to the table of a longer header. -/
  | implied
  /-- On the way to the value of a dotted key. -/
  | dotted
  /-- By a header. -/
  | opened
  /-- As a value in braces, which nothing adds to. -/
  | braced
  deriving DecidableEq, Repr

inductive Node where
  | value (v : SettingValue)
  | array (items : List Node)
  | table (origin : Origin) (entries : List (String × Node))
  | tables (items : List (List (String × Node)))

abbrev Entries := List (String × Node)

def alter (name : String) (f : Option Node → Option Node) : Entries → Option Entries
  | [] => (f none).map fun node => [(name, node)]
  | (known, node) :: rest =>
    if known = name then (f (some node)).map fun node => (name, node) :: rest
    else (alter name f rest).map ((known, node) :: ·)

def fresh (node : Node) : Option Node → Option Node
  | none => some node
  | some _ => none

/-- Puts a node under a dotted key. All tables on the way have to be dotted ones; those that are
not there yet are made. -/
def put (new : Node) : List String → Entries → Option Entries
  | [], _ => none
  | [name], entries => alter name (fresh new) entries
  | name :: path, entries =>
    alter name (fun
      | none => (put new path []).map (.table .dotted)
      | some (.table .dotted inner) => (put new path inner).map (.table .dotted)
      | some (.table .implied inner) =>
        -- such a table may only be passed on the way to a dotted one
        match path with
        | [_] => none
        | _ => (put new path inner).map (.table .implied)
      | some (.tables (last :: earlier)) =>
        match path with
        | [_] => none
        | _ => (put new path last).map fun last => .tables (last :: earlier)
      | some _ => none) entries

def within (f : Entries → Option Entries) : List String → Entries → Option Entries
  | [], entries => f entries
  | name :: path, entries =>
    alter name (fun
      | none => (within f path []).map (.table .implied)
      | some (.table .braced _) => none
      | some (.table origin inner) => (within f path inner).map (.table origin)
      | some (.tables (last :: earlier)) =>
        (within f path last).map fun last => .tables (last :: earlier)
      | some _ => none) entries

/-- Opens a table by a header, at the end. It may be there already only on the way to another
one. -/
def openTable (name : String) (entries : Entries) : Option Entries :=
  match entries.lookup name with
  | none => some (entries ++ [(name, .table .opened [])])
  | some (.table .implied inner) =>
    some (entries.filter (·.1 ≠ name) ++ [(name, .table .opened inner)])
  | some _ => none

def openItem (name : String) : Entries → Option Entries :=
  alter name fun
    | none => some (.tables [[]])
    | some (.tables items) => some (.tables ([] :: items))
    | some _ => none

/-- A table with this name in front stands for the date or time that is written under it. -/
def momentName : String := "$__toml_private_datetime"

def momentValue? : SettingValue → Option SettingValue
  | .text s => (momentOf? s).map .moment
  | _ => none

mutual

def Node.toValue? : Node → Option SettingValue
  | .value v => some v
  | .array items => (nodesValue? items).map .list
  | .table _ entries => tableValue? entries
  | .tables items => (itemsValue? items).map fun values => .list values.reverse

def nodesValue? : List Node → Option (List SettingValue)
  | [] => some []
  | node :: rest => do
    let v ← node.toValue?
    let more ← nodesValue? rest
    some (v :: more)

def tableValue? : List (String × Node) → Option SettingValue
  | [] => some (.table [])
  | (name, node) :: rest => do
    let v ← node.toValue?
    if name = momentName then momentValue? v
    else
      let more ← entriesValue? rest
      some (.table ((name, v) :: more))

def entriesValue? : List (String × Node) → Option (List (String × SettingValue))
  | [] => some []
  | (name, node) :: rest => do
    let v ← node.toValue?
    let more ← entriesValue? rest
    some ((name, v) :: more)

def itemsValue? : List (List (String × Node)) → Option (List SettingValue)
  | [] => some []
  | entries :: rest => do
    let v ← tableValue? entries
    let more ← itemsValue? rest
    some (v :: more)

end

/-! ### Grammar -/

def depthLimit : Nat := 80

def isBare (c : Char) : Bool :=
  isDigit c || ('a'.toNat ≤ c.toNat && c.toNat ≤ 'z'.toNat) ||
    ('A'.toNat ≤ c.toNat && c.toNat ≤ 'Z'.toNat) || c = '-' || c = '_'

def keyPart : Parser String := do
  blanks
  let part ← basicString <|> literalString <|> (do
    let cs ← run1 isBare
    pure (String.ofList cs))
  blanks
  pure part

def key : Parser (List String) := do
  let parts ← sepBy1 keyPart (char '.')
  if parts.length < depthLimit then pure parts else failure

def bracedTable? (pairs : List (List String × Node)) : Option Node :=
  (pairs.foldlM (fun entries (path, node) => put node path entries) []).map (.table .braced)

def scalarNode : Parser Node := do
  let v ← scalar
  pure (.value v)

def arrayOf (item : Parser Node) : Parser Node := do
  char '['
  trivia
  let items ← maybe do
    let items ← sepBy1 (do let node ← item; trivia; pure node) (do char ','; trivia)
    let _ ← maybe (char ',')
    trivia
    pure items
  char ']'
  pure (.array (items.getD []))

def tableOf (item : Parser Node) : Parser Node := do
  char '\x7b'
  blanks
  let pairs ← maybe (sepBy1 (do
    let path ← key
    char '='
    blanks
    let node ← item
    blanks
    pure (path, node)) (char ','))
  char '\x7d'
  ofOption (bracedTable? (pairs.getD []))

def value : Nat → Parser Node
  | 0 => scalarNode
  | depth + 1 => scalarNode <|> arrayOf (value depth) <|> tableOf (value depth)

inductive Statement where
  | blank
  | assign (path : List String) (node : Node)
  | header (path : List String)
  | arrayHeader (path : List String)

def statement : Parser Statement := do
  blanks
  let s ← (do
      chars ['[', '[']
      let path ← key
      chars [']', ']']
      pure (.arrayHeader path))
    <|> (do
      char '['
      let path ← key
      char ']'
      pure (.header path))
    <|> (do
      let path ← key
      char '='
      blanks
      let node ← value (depthLimit - 1)
      pure (.assign path node))
    <|> pure .blank
  blanks
  let _ ← maybe comment
  pure s

def byteOrderMark : Char := '\ufeff'

def statements : Parser (List Statement) := do
  let _ ← maybe (char byteOrderMark)
  let first ← statement
  let more ← many (do newline; statement)
  pure (first :: more)

structure Reading where
  entries : Entries := []
  path : List String := []

def Reading.step? (r : Reading) : Statement → Option Reading
  | .blank => some r
  | .assign path node =>
    (within (put node path) r.path r.entries).map ({ r with entries := · })
  | .header path => do
    let name ← path.getLast?
    let entries ← within (openTable name) path.dropLast r.entries
    some ⟨entries, path⟩
  | .arrayHeader path => do
    let name ← path.getLast?
    let entries ← within (openItem name) path.dropLast r.entries
    some ⟨entries, path⟩

def parse? (text : String) : Option (List (String × SettingValue)) := do
  let lines ← whole? statements text.toList
  let r ← lines.foldlM Reading.step? {}
  match ← tableValue? r.entries with
  | .table entries => some entries
  | _ => none

end JobWatch.Toml
