import JobWatch.Number.Literal
import JobWatch.Outcome
import JobWatch.Telemetry.Event
import JobWatch.Text.Alphanumeric
import JobWatch.Text.Blank
import JobWatch.Text.Cut
import JobWatch.Text.Digits
import JobWatch.Text.Pattern

/-!
# Log filters

A filter is a list of directives with commas between them. A directive names a level, and in front
of it what the level is for: targets with some beginning, spans of some name, events with some
field. Of the directives that apply to an event the most specific one decides; where none applies
the event does not pass.
-/

set_option autoImplicit false

namespace JobWatch

def Level.rank : Level → Nat
  | error => 1
  | warn => 2
  | info => 3
  | debug => 4
  | trace => 5

/-- The lowest level that passes; none is the level `off`. -/
abbrev Threshold := Option Level

namespace Filter

inductive Fault where
  | directive
  | level
  | pattern (cause : Text.Pattern.Fault)
  deriving DecidableEq, Repr

def Fault.message : Fault → String
  | directive => "invalid filter directive"
  | level =>
    "error parsing level filter: expected one of \"off\", \"error\", \"warn\", \"info\", " ++
      "\"debug\", \"trace\", or a number 0-5"
  | pattern cause => "invalid field filter: " ++ cause.message

structure FieldFilter where
  name : String
  value : Option (List Char)
  deriving DecidableEq, Repr

structure Directive where
  target : Option (List Char) := none
  span : Option (List Char) := none
  field : Option FieldFilter := none
  threshold : Threshold := some .trace
  deriving DecidableEq, Repr

def thresholds : List (String × Threshold) :=
  [("off", none), ("error", some .error), ("warn", some .warn), ("info", some .info),
    ("debug", some .debug), ("trace", some .trace)]

def numbered : List Threshold :=
  [none, some .error, some .warn, some .info, some .debug, some .trace]

def number? (word : List Char) : Option Nat :=
  let digits := match word with
    | '+' :: rest => rest
    | _ => word
  if ¬ digits.isEmpty ∧ digits.all Text.isDigit then some (Text.ofDecimal digits) else none

def threshold? (word : List Char) : Option Threshold :=
  ((number? word).bind (numbered[·]?)).or
    (thresholds.lookup (String.ofList (word.map Char.toLower)))

def isPlainValue (value : List Char) : Bool :=
  value = "true".toList || value = "false".toList ||
    (Number.real? (String.ofList value)).isSome

def FieldFilter.parse (text : List Char) : Outcome Fault FieldFilter :=
  let name := String.ofList (text.takeWhile (· ≠ '='))
  match text.dropWhile (· ≠ '=') with
  | [] => .done ⟨name, none⟩
  | _ :: rest =>
    let value := rest.takeWhile (· ≠ '=')
    if isPlainValue value then .done ⟨name, some value⟩
    else
      match Text.Pattern.fault? value with
      | some cause => .failed (.pattern cause)
      | none => .done ⟨name, some value⟩

def trim (s : List Char) : List Char :=
  ((s.dropWhile Text.isBlank).reverse.dropWhile Text.isBlank).reverse

def isFirst (c : Char) : Bool := Text.isAlphanumeric c || c = '-' || c = ':' || c = '_'

/-- Where the reading of a directive stands. A number is the position at which a part begins. -/
inductive Mode where
  | start
  | word
  | span (first : Nat)
  | field (first : Nat)
  | fieldEnd
  | spanEnd
  | level (first : Nat)
  deriving DecidableEq, Repr

/-- The part of a text between two positions. A position inside a character breaks the reading
down. -/
def part (text : List Char) (first last : Nat) : Outcome Fault (List Char) :=
  .ofOption (Text.cut? first last text)

def Mode.next (text : List Char) (position : Nat) (d : Directive) :
    Mode → Char → Outcome Fault (Mode × Directive)
  | .start, '[' => .done (.span (position + 1), d)
  | .start, c => if isFirst c then .done (.word, d) else .failed .directive
  | .word, '=' => do
    .done (.level (position + 1), { d with target := some (← part text 0 position) })
  | .word, '[' => do
    .done (.span (position + 1), { d with target := some (← part text 0 position) })
  | .span first, ']' => do
    .done (.spanEnd, { d with span := some (← part text first position) })
  | .span first, '\x7b' => do
    let name ← part text first position
    .done (.field (position + 1), { d with span := if name.isEmpty then none else some name })
  | .field first, '\x7d' => do
    let written ← part text first position
    if written.isEmpty then .failed .directive
    else .done (.fieldEnd, { d with field := some (← FieldFilter.parse written) })
  | .fieldEnd, ']' => .done (.spanEnd, d)
  | .fieldEnd, _ => .failed .directive
  | .spanEnd, '=' => .done (.level (position + 1), d)
  | .spanEnd, _ => .failed .directive
  | mode, _ => .done (mode, d)

def Mode.finish (text : List Char) (d : Directive) : Mode → Outcome Fault Directive
  | .word =>
    match threshold? text with
    | some t => .done { d with threshold := t }
    | none => .done { d with target := some text }
  | .level first => do
    let word ← part text first (Text.byteLength text)
    if word.isEmpty then .done d
    else
      match threshold? word with
      | some t => .done { d with threshold := t }
      | none => .failed .level
  | .spanEnd => .done d
  | _ => .failed .directive

def scan (text : List Char) : Nat → Directive → Mode → List Char → Outcome Fault Directive
  | _, d, mode, [] => mode.finish text d
  | position, d, mode, c :: rest => do
    let (mode, d) ← mode.next text position d c
    scan text (position + c.utf8Size) d mode rest

/-- The directive of a text. The characters are those without the blanks around the text, the
positions count from its beginning all the same: a text that begins with blanks is cut too early. -/
def directive (text : List Char) : Outcome Fault Directive := scan text 0 {} .start (trim text)

def parts : List Char → List (List Char)
  | [] => [[]]
  | ',' :: rest => [] :: parts rest
  | c :: rest =>
    match parts rest with
    | [] => [[c]]
    | part :: more => (c :: part) :: more

end Filter

structure Filter where
  directives : List Filter.Directive
  deriving DecidableEq, Repr

namespace Filter

def directivesOf : List (List Char) → Outcome Fault (List Directive)
  | [] => .done []
  | text :: rest => do
    let first ← directive text
    let more ← directivesOf rest
    .done (first :: more)

def parse (text : String) : Outcome Fault Filter := do
  let directives ← directivesOf ((parts text.toList).filter (¬ ·.isEmpty))
  .done ⟨if directives.isEmpty then [{ threshold := some .error }] else directives⟩

/-- Does a directive say something of an event outside of all spans? The target of the event begins
with that of the directive, and the event has the field. Spans and values of fields are of no avail
to such an event. -/
def Directive.applies (d : Directive) (target : String) (fields : List String) : Bool :=
  d.span.isNone && d.target.all (·.isPrefixOf target.toList) &&
    d.field.all fun f => f.value.isNone && fields.contains f.name

/-- Is the first directive more specific than the second? A longer target counts for most, then a
field, then a name of the field that is later in the order of names. -/
def Directive.outranks (first second : Directive) : Bool :=
  let length (d : Directive) : Nat := (d.target.map (·.length + 1)).getD 0
  if length first = length second then
    match first.field, second.field with
    | some f, some g => g.name < f.name
    | some _, none => true
    | none, _ => false
  else length second < length first

def moreSpecific (first second : Directive) : Directive :=
  if first.outranks second then first else second

def deciding? (f : Filter) (target : String) (fields : List String) : Option Directive :=
  match f.directives.filter (·.applies target fields) with
  | [] => none
  | d :: rest => some (rest.foldl moreSpecific d)

def passes (f : Filter) (level : Level) (target : String) (fields : List String) : Bool :=
  match (f.deciding? target fields).bind (·.threshold) with
  | some lowest => level.rank ≤ lowest.rank
  | none => false

end Filter

end JobWatch
