import JobWatch.Json.Value
import JobWatch.Telemetry.Filter

/-!
# Setting up the log of a process

The log can be set up once. The filter comes from the environment if there is one that is well
formed, otherwise from the call; a call whose filter is malformed, or that comes after one that
succeeded, changes nothing.
-/

set_option autoImplicit false

namespace JobWatch

structure Logging where
  installed : Option Filter := none
  deriving DecidableEq, Repr

structure LogLine where
  level : Level
  message : String
  fields : List (String × String)
  target : String
  deriving DecidableEq, Repr

def LogLine.toJson (l : LogLine) : Json :=
  .object [("level", .text l.level.name),
    ("fields", .object (("message", .text l.message) ::
      l.fields.map fun (name, value) => (name, .text value))),
    ("target", .text l.target), ("threadName", .text "main"), ("threadId", .text "ThreadId(1)")]

namespace Logging

inductive Fault where
  | badFilter (cause : Filter.Fault)
  | alreadySet
  deriving DecidableEq, Repr

def Fault.message : Fault → String
  | badFilter cause => "Failed to create env filter: " ++ cause.message
  | alreadySet =>
    "Failed to initialize tracing subscriber: " ++
      "a global default trace dispatcher has already been set"

def target : String := "snapshot::telemetry"

/-- The filter that counts: that of the environment if it is well formed, otherwise that of the
call. -/
def effective (environment : Option String) (level : String) : Outcome Filter.Fault Filter :=
  match environment.map Filter.parse with
  | some (.done f) => .done f
  | some .crashed => .crashed
  | _ => Filter.parse level

def firstLine (level : String) : LogLine :=
  ⟨.info, "Structured logging initialized with JSON formatting", [("log_level", level)], target⟩

def fieldNames (l : LogLine) : List String := "message" :: l.fields.map (·.1)

def init (environment : Option String) (level : String) (log : Logging) :
    Logging × Outcome Fault Unit × List LogLine :=
  match effective environment level with
  | .failed cause => (log, .failed (.badFilter cause), [])
  | .crashed => (log, .crashed, [])
  | .done f =>
    match log.installed with
    | some _ => (log, .failed .alreadySet, [])
    | none =>
      let line := firstLine level
      (⟨some f⟩, .done (), if f.passes line.level line.target (fieldNames line) then [line] else [])

def run (environment : Option String) : List String → Logging →
    List (Outcome Fault Unit) × List LogLine
  | [], _ => ([], [])
  | level :: levels, log =>
    let (after, result, lines) := init environment level log
    let (results, more) := run environment levels after
    (result :: results, lines ++ more)

end Logging

end JobWatch
