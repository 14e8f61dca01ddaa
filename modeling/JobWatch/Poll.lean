import JobWatch.Executions
import JobWatch.Scheduler.Handle
import JobWatch.Snapshot
import JobWatch.Telemetry.Traced

/-!
# Polls

A poll goes through the schedulers of the registry and makes a snapshot of every job. A scheduler
whose catalog cannot be had is skipped and counted; any other failure ends the poll with the name of
the scheduler. A process without scheduling has no snapshots.
-/

set_option autoImplicit false

namespace JobWatch

open Calendar (Instant)

namespace Handle

def marked {ε α : Type} (h : Handle) (listing : Traced ε α) : Traced ε α := do
  let _ ← Traced.silent (.ofOption h.name)
  listing

def listExecutions (h : Handle) : Traced SchedulerFault Executions :=
  h.marked do
    let running ← Traced.ofExcept h.executions
    let executions := Executions.ofList running
    Traced.tell (.executionsFound executions.size)
    pure executions

/-- The jobs of the catalog; none if it cannot be had, which is told under the scheduler's name. -/
def listJobs {ε : Type} (h : Handle) : Traced ε (List Job) :=
  h.marked (match h.jobs with
    | .ok jobs => do
      Traced.tell (.catalogLoaded jobs.length)
      pure jobs
    | .error cause => do
      let name ← Traced.silent (.ofOption h.name)
      Traced.tell (.catalogSkipped name cause)
      Traced.tell (.catalogFailureCounted name)
      pure [])

def names {ε : Type} : List Handle → Outcome ε (List String)
  | [] => .done []
  | h :: rest => do
    let name ← Outcome.ofOption h.name
    let more ← names rest
    .done (name :: more)

def snapshot (h : Handle) (identity : Identity) (job : Job) (execution : Option Execution)
    (now : Instant) : Except SchedulerFault Snapshot := do
  let triggers ← h.triggersOf job.key
  Snapshot.ofTriggers identity job execution triggers (fun _ t => h.isPaused t.key) now

end Handle

namespace Poll

/-- The registry as a poll finds it: none where there is no scheduling, or what it answers. -/
abbrev Source : Type := Option (Except PollFault (List Handle))

def listSchedulers : Source → Traced PollFault (List Handle)
  | none => pure []
  | some answer => do
    let handles ← Traced.ofExcept answer
    Traced.tell (.schedulersFound handles.length)
    pure handles

def jobs (identity : Identity) (now : Instant) (h : Handle) (name : String)
    (executions : Executions) : List Job → Traced PollFault (List Snapshot)
  | [] => pure []
  | job :: rest => do
    let first ← (Traced.ofExcept
        (h.snapshot identity job (executions.get? job.key.dotted) now)).orElse fun cause => do
      Traced.tell (.snapshotFailed name job.key cause)
      Traced.silent (.failed (.scheduler name cause))
    let more ← jobs identity now h name executions rest
    pure (first :: more)

def scheduler (identity : Identity) (now : Instant) (h : Handle) :
    Traced PollFault (List Snapshot) := do
  let name ← Traced.silent (.ofOption h.name)
  let executions ← h.listExecutions.orElse fun cause => do
    Traced.tell (.executionsUnknown name cause)
    Traced.silent (.failed (.scheduler name cause))
  let catalog ← h.listJobs
  jobs identity now h name executions catalog

def schedulers (identity : Identity) (now : Instant) :
    List Handle → Traced PollFault (List Snapshot)
  | [] => pure []
  | h :: rest => do
    let first ← scheduler identity now h
    let more ← schedulers identity now rest
    pure (first ++ more)

def run (identity : Identity) (source : Source) (now : Instant) :
    Traced PollFault (List Snapshot) :=
  match source with
  | none => pure []
  | some _ => do
    let handles ← listSchedulers source
    let snapshots ← schedulers identity now handles
    Traced.tell (.snapshotsBuilt snapshots.length)
    Traced.tell (.snapshotCountSet snapshots.length)
    pure snapshots

end Poll

end JobWatch
