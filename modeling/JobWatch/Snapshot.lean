import JobWatch.Fault
import JobWatch.Identity
import JobWatch.Trigger

/-!
# Snapshots of jobs

A snapshot says of one job what it is, whether it runs and since when, and what its triggers come
to: the latest time one fired, the earliest time one fires, the last cron expression and the last
interval among them, and whether all of them are paused.
-/

set_option autoImplicit false

namespace JobWatch

open Calendar (Instant)

structure Snapshot where
  group : String
  name : String
  description : Option String
  className : String
  previous : Option Instant
  next : Option Instant
  elapsedMillis : Int64
  intervalMillis : Int64
  cron : Option String
  paused : Bool
  jobId : String
  deriving DecidableEq, Repr

def notApplicable : Int64 := -1

def earliest? : List Instant → Option Instant
  | [] => none
  | i :: rest => some (rest.foldl Instant.earlier i)

def latest? : List Instant → Option Instant
  | [] => none
  | i :: rest => some (rest.foldl Instant.later i)

/-- Asks about each trigger in turn whether it is paused, up to the first that is not or for which
the question fails. `asked` counts the questions so far. The answer is given with the triggers that
were asked about. -/
def askPaused (ask : Nat → Trigger → Except SchedulerFault Bool) (asked : Nat) :
    List Trigger → List Trigger × Except SchedulerFault Bool
  | [] => ([], .ok true)
  | t :: rest =>
    match ask asked t with
    | .ok true =>
      let (more, answer) := askPaused ask (asked + 1) rest
      (t :: more, answer)
    | .ok false => ([t], .ok false)
    | .error fault => ([t], .error fault)

namespace Snapshot

def elapsed (execution : Option Execution) (now : Instant) : Int64 :=
  match execution with
  -- one that starts after the present has just started
  | some e => Int64.ofInt (max 0 (now.millisSince e.started))
  | none => notApplicable

def of (identity : Identity) (job : Job) (execution : Option Execution) (triggers : List Trigger)
    (paused : Bool) (now : Instant) : Snapshot where
  group := job.key.group
  name := job.key.name
  description := job.description
  className := job.className
  previous := latest? (triggers.filterMap (·.previous))
  next := earliest? (triggers.filterMap (·.next))
  elapsedMillis := elapsed execution now
  intervalMillis := (triggers.filterMap (·.timing.interval?)).getLast?.getD notApplicable
  cron := (triggers.filterMap (·.timing.cron?)).getLast?
  paused := paused
  jobId := identity.jobId job.key

def ofTriggers (identity : Identity) (job : Job) (execution : Option Execution)
    (triggers : List Trigger) (ask : Nat → Trigger → Except SchedulerFault Bool) (now : Instant) :
    Except SchedulerFault Snapshot :=
  match (askPaused ask 0 triggers).2 with
  | .ok paused => .ok (of identity job execution triggers paused now)
  | .error fault => .error fault

def isRunning (s : Snapshot) : Bool := 0 ≤ s.elapsedMillis

def title (s : Snapshot) : String := "JobSnapshot[name=" ++ s.name ++ ", group=" ++ s.group ++ "]"

end Snapshot

end JobWatch
