import JobWatch.Calendar.Timestamp
import JobWatch.Json.Record
import JobWatch.Settings.Basic
import JobWatch.Snapshot

/-!
# JSON forms of the domain

Every value of the domain that is exchanged has a form in JSON, and every form can be read back.
Where a trigger has no time the member is left out; elsewhere an absent value is written as null.
-/

set_option autoImplicit false

namespace JobWatch

open Calendar (Instant)
open Json (fields? required optional withDefault text? bool? int64? ofInt64 ofOption)

def Calendar.Instant.toJson (i : Instant) : Json := .text i.text

def Calendar.Instant.ofJson? (j : Json) : Option Instant := do Instant.ofText? (← text? j)

namespace Key

def toJson (k : Key) : Json := .object [("group", .text k.group), ("name", .text k.name)]

def ofJson? (j : Json) : Option Key :=
  match fields? ["group", "name"] 2 j with
  | some [group, name] => do
    some ⟨← required text? group, ← required text? name⟩
  | _ => none

end Key

namespace Job

def toJson (job : Job) : Json :=
  .object [("key", job.key.toJson), ("description", ofOption .text job.description),
    ("job_class", .text job.className)]

def ofJson? (j : Json) : Option Job :=
  match fields? ["key", "description", "job_class"] 3 j with
  | some [key, description, className] => do
    some ⟨← required Key.ofJson? key, ← optional text? description, ← required text? className⟩
  | _ => none

end Job

namespace Execution

def toJson (e : Execution) : Json :=
  .object [("job", e.job.toJson), ("fire_time", e.started.toJson)]

def ofJson? (j : Json) : Option Execution :=
  match fields? ["job", "fire_time"] 2 j with
  | some [job, started] => do
    some ⟨← required Job.ofJson? job, ← required Instant.ofJson? started⟩
  | _ => none

end Execution

namespace Timing

def toJson : Timing → Json
  | cron expression => .object [("type", .text "cron"), ("expression", .text expression)]
  | every millis => .object [("type", .text "fixed_interval"), ("interval_ms", ofInt64 millis)]
  | other => .object [("type", .text "other")]

def ofContent? (type : String) (content : Json) : Option Timing :=
  match type with
  | "cron" =>
    match fields? ["expression"] 1 content with
    | some [expression] => do some (.cron (← required text? expression))
    | _ => none
  | "fixed_interval" =>
    match fields? ["interval_ms"] 1 content with
    | some [millis] => do some (.every (← required int64? millis))
    | _ => none
  | "other" =>
    match content with
    | .object _ => some .other
    | .array [] => some .other
    | _ => none
  | _ => none

def ofJson? (depth : Nat) (j : Json) : Option Timing :=
  -- all that stands beside the type is read as well
  if j.readable depth then
    match j with
    | .object members =>
      match members.filter (·.1 = "type") with
      | [(_, .text type)] => ofContent? type (.object (members.filter (·.1 ≠ "type")))
      | _ => none
    | .array (.text type :: rest) => ofContent? type (.array rest)
    | _ => none
  else none

end Timing

namespace Trigger

def toJson (t : Trigger) : Json :=
  .object ([("key", t.key.toJson), ("job_key", t.job.toJson), ("kind", t.timing.toJson)] ++
    (t.previous.map fun i => ("previous_fire_time", i.toJson)).toList ++
    (t.next.map fun i => ("next_fire_time", i.toJson)).toList)

def ofJson? (j : Json) : Option Trigger :=
  match fields? ["key", "job_key", "kind", "previous_fire_time", "next_fire_time"] 3 j with
  | some [key, job, timing, previous, next] => do
    some ⟨← required Key.ofJson? key, ← required Key.ofJson? job,
      ← required (Timing.ofJson? (Json.depthLimit - 1)) timing,
      ← optional Instant.ofJson? previous, ← optional Instant.ofJson? next⟩
  | _ => none

end Trigger

namespace Identity

def toJson (p : Identity) : Json :=
  .object [("pid", .text p.pid), ("host_address", .text p.host)]

def ofJson? (j : Json) : Option Identity :=
  match fields? ["pid", "host_address"] 2 j with
  | some [pid, host] => do some ⟨← required text? pid, ← required text? host⟩
  | _ => none

end Identity

namespace Snapshot

def toJson (s : Snapshot) : Json :=
  .object [("group", .text s.group), ("name", .text s.name),
    ("description", ofOption .text s.description), ("jobClassName", .text s.className),
    ("previousFireTime", ofOption Instant.toJson s.previous),
    ("nextFireTime", ofOption Instant.toJson s.next),
    ("elapsedTimeMs", ofInt64 s.elapsedMillis), ("repeatIntervalMs", ofInt64 s.intervalMillis),
    ("cronExpression", ofOption .text s.cron), ("paused", .bool s.paused),
    ("globalJobId", .text s.jobId)]

def ofJson? (j : Json) : Option Snapshot :=
  match fields? ["group", "name", "description", "jobClassName", "previousFireTime",
    "nextFireTime", "elapsedTimeMs", "repeatIntervalMs", "cronExpression", "paused",
    "globalJobId"] 11 j with
  | some [group, name, description, className, previous, next, elapsed, interval, cron, paused,
      jobId] => do
    some {
      group := ← required text? group
      name := ← required text? name
      description := ← optional text? description
      className := ← required text? className
      previous := ← optional Instant.ofJson? previous
      next := ← optional Instant.ofJson? next
      elapsedMillis := ← required int64? elapsed
      intervalMillis := ← required int64? interval
      cron := ← optional text? cron
      paused := ← required bool? paused
      jobId := ← required text? jobId }
  | _ => none

end Snapshot

namespace AgentSettings

def toJson (s : AgentSettings) : Json :=
  .object [("process_id", ofOption .text s.processId),
    ("host_address", ofOption .text s.hostAddress)]

def ofJson? (j : Json) : Option AgentSettings :=
  match fields? ["process_id", "host_address"] 0 j with
  | some [processId, hostAddress] => do
    some ⟨← optional text? processId, ← optional text? hostAddress⟩
  | _ => none

end AgentSettings

namespace SchedulingSettings

def toJson (s : SchedulingSettings) : Json := .object [("enabled", .bool s.enabled)]

def ofJson? (j : Json) : Option SchedulingSettings :=
  match fields? ["enabled"] 0 j with
  | some [enabled] => do some ⟨← withDefault true bool? enabled⟩
  | _ => none

end SchedulingSettings

namespace ObservabilitySettings

def toJson (s : ObservabilitySettings) : Json := .object [("log_level", .text s.logLevel)]

def ofJson? (j : Json) : Option ObservabilitySettings :=
  match fields? ["log_level"] 0 j with
  | some [logLevel] => do some ⟨← withDefault "info" text? logLevel⟩
  | _ => none

end ObservabilitySettings

namespace Settings

def toJson (s : Settings) : Json :=
  .object [("agent", s.agent.toJson), ("scheduling", s.scheduling.toJson),
    ("observability", s.observability.toJson)]

def ofJson? (j : Json) : Option Settings :=
  match fields? ["agent", "scheduling", "observability"] 0 j with
  | some [agent, scheduling, observability] => do
    some ⟨← withDefault {} AgentSettings.ofJson? agent,
      ← withDefault {} SchedulingSettings.ofJson? scheduling,
      ← withDefault {} ObservabilitySettings.ofJson? observability⟩
  | _ => none

end Settings

end JobWatch
