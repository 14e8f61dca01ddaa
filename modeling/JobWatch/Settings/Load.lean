import JobWatch.Settings.Basic
import JobWatch.Settings.Environment
import JobWatch.Toml.Document

/-!
# Loading settings

The files `default.toml` and `local.toml` and the environment are read in this order, each laid over
the ones before. A file that is missing counts for nothing.
-/

set_option autoImplicit false

namespace JobWatch

open SettingValue (Entries)

inductive LoadFault where
  | malformedFile
  | unsuitable
  deriving DecidableEq, Repr

def chosen {α : Type} (fallback : α) (read : SettingValue → Option α) :
    Option SettingValue → Option α
  | none => some fallback
  | some v => read v

def chosenText (v : Option SettingValue) : Option (Option String) :=
  match v with
  | none => some none
  | some .missing => some none
  | some v => v.text?.map some

def AgentSettings.ofValue? (v : SettingValue) : Option AgentSettings :=
  match v.fields? ["process_id", "host_address"] with
  | some [processId, hostAddress] => do
    some ⟨← chosenText processId, ← chosenText hostAddress⟩
  | _ => none

def SchedulingSettings.ofValue? (v : SettingValue) : Option SchedulingSettings :=
  match v.fields? ["enabled"] with
  | some [enabled] => do some ⟨← chosen true SettingValue.bool? enabled⟩
  | _ => none

def ObservabilitySettings.ofValue? (v : SettingValue) : Option ObservabilitySettings :=
  match v.fields? ["log_level"] with
  | some [logLevel] => do some ⟨← chosen "info" SettingValue.text? logLevel⟩
  | _ => none

namespace Settings

def ofValue? (v : SettingValue) : Option Settings :=
  match v.fields? ["agent", "scheduling", "observability"] with
  | some [agent, scheduling, observability] => do
    some ⟨← chosen {} AgentSettings.ofValue? agent,
      ← chosen {} SchedulingSettings.ofValue? scheduling,
      ← chosen {} ObservabilitySettings.ofValue? observability⟩
  | _ => none

structure Sources where
  defaultFile : Option String
  localFile : Option String
  environment : List (String × String)

def fileLayer (text : Option String) : Outcome LoadFault Entries :=
  match text with
  | none => .done []
  | some text =>
    match Toml.parse? text with
    | some entries => .done entries
    | none => .failed .malformedFile

/-- What the sources come to. A file is read when all before it are laid over one another. -/
def merge (s : Sources) : Outcome LoadFault Entries := do
  let defaults ← SettingValue.overlayLayer [] (← fileLayer s.defaultFile)
  let files ← SettingValue.overlayLayer defaults (← fileLayer s.localFile)
  SettingValue.overlayLayer files (Environment.layer s.environment)

def load (s : Sources) : Outcome LoadFault Settings := do
  match ofValue? (.table (← merge s)) with
  | some settings => .done settings
  | none => .failed .unsuitable

end Settings

end JobWatch
