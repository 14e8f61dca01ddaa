import JobWatch.Poll
import JobWatch.Settings.Basic

/-!
# Setting up the watch

Scheduling is watched if the settings have it and the process has a registry; the process is known
as it is or as the settings say.
-/

set_option autoImplicit false

namespace JobWatch

inductive Capability where
  | available
  | unavailable
  deriving DecidableEq, Repr

namespace Capability

def text : Capability → String
  | available => "Available"
  | unavailable => "Unavailable"

def resolve {ε : Type} (s : SchedulingSettings) (hasRegistry : Bool) : Traced ε Capability :=
  if hasRegistry && s.enabled then pure available
  else do
    Traced.tell .schedulingUnavailable
    pure unavailable

end Capability

structure Watch where
  identity : Identity
  capability : Capability
  deriving DecidableEq, Repr

namespace Watch

def identify {ε : Type} (own : Identity) (s : AgentSettings) : Traced ε Identity := do
  let identity := own.resolve s.processId s.hostAddress
  Traced.tell (.identityResolved identity)
  pure identity

def ofSettings {ε : Type} (own : Identity) (s : Settings) (hasRegistry : Bool) :
    Traced ε Watch := do
  Traced.tell .metricsDescribed
  let capability ← Capability.resolve s.scheduling hasRegistry
  let identity ← identify own s.agent
  pure ⟨identity, capability⟩

def source (w : Watch) (registry : Except PollFault (List Handle)) : Poll.Source :=
  match w.capability with
  | .available => some registry
  | .unavailable => none

def poll (w : Watch) (registry : Except PollFault (List Handle)) (now : Calendar.Instant) :
    Traced PollFault (List Snapshot) :=
  Poll.run w.identity (w.source registry) now

end Watch

end JobWatch
