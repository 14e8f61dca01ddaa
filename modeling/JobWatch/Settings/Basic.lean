import JobWatch.Text.Blank

/-!
# The settings of the watch

Settings come in three sections, each with a value for what is left out. They are refused if an
override has no visible character or the log level is empty.
-/

set_option autoImplicit false

namespace JobWatch

structure AgentSettings where
  processId : Option String := none
  hostAddress : Option String := none
  deriving DecidableEq, Repr

structure SchedulingSettings where
  enabled : Bool := true
  deriving DecidableEq, Repr

structure ObservabilitySettings where
  logLevel : String := "info"
  deriving DecidableEq, Repr

structure Settings where
  agent : AgentSettings := {}
  scheduling : SchedulingSettings := {}
  observability : ObservabilitySettings := {}
  deriving DecidableEq, Repr

inductive SettingsFault where
  | blankProcessId
  | blankHostAddress
  | emptyLogLevel
  deriving DecidableEq, Repr

def SettingsFault.message : SettingsFault → String
  | blankProcessId => "Agent process_id override cannot be empty"
  | blankHostAddress => "Agent host_address override cannot be empty"
  | emptyLogLevel => "Observability log_level cannot be empty"

def Settings.fault? (s : Settings) : Option SettingsFault :=
  if s.agent.processId.any Text.allBlank then some .blankProcessId
  else if s.agent.hostAddress.any Text.allBlank then some .blankHostAddress
  else if s.observability.logLevel = "" then some .emptyLogLevel
  else none

end JobWatch
