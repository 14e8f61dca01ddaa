import JobWatch.Fault
import JobWatch.Identity

/-!
# What the watch tells of its own doings

An event is written to the log at a level, or it updates or describes a metric.
-/

set_option autoImplicit false

namespace JobWatch

inductive Level where
  | error
  | warn
  | info
  | debug
  | trace
  deriving DecidableEq, Repr

inductive Event where
  | metricsDescribed
  | schedulingUnavailable
  | identityResolved (identity : Identity)
  | schedulerRegistered (scheduler : String)
  | executionStarted (scheduler : String) (job : Key)
  | executionFinished (scheduler : String) (job : Key)
  | schedulersFound (count : Nat)
  | executionsFound (count : Nat)
  | catalogLoaded (jobs : Nat)
  | catalogSkipped (scheduler : String) (cause : SchedulerFault)
  | catalogFailureCounted (scheduler : String)
  | executionsUnknown (scheduler : String) (cause : SchedulerFault)
  | snapshotFailed (scheduler : String) (job : Key) (cause : SchedulerFault)
  | snapshotsBuilt (count : Nat)
  | snapshotCountSet (count : Nat)
  deriving DecidableEq, Repr

inductive FieldValue where
  | text (s : String)
  | count (n : Nat)
  deriving DecidableEq, Repr

inductive Entry where
  | log (level : Level) (message : String) (fields : List (String × FieldValue))
  | counterAdded (name : String) (labels : List (String × String)) (amount : Nat)
  | gaugeSet (name : String) (value : Nat)
  | counterDescribed (name description : String)
  | gaugeDescribed (name description : String)
  deriving DecidableEq, Repr

def Level.name : Level → String
  | error => "ERROR"
  | warn => "WARN"
  | info => "INFO"
  | debug => "DEBUG"
  | trace => "TRACE"

namespace Event

def catalogFailures : String := "scheduler_catalog_failures_total"

def snapshotCount : String := "job_snapshots_total"

def entries : Event → List Entry
  | metricsDescribed =>
    [.counterDescribed catalogFailures "Job catalog queries that failed and were skipped",
      .gaugeDescribed snapshotCount "Job snapshots produced by the last poll"]
  | schedulingUnavailable =>
    [.log .info "Job scheduling not available, job snapshots disabled" []]
  | identityResolved p =>
    [.log .debug "Process identity resolved" [("pid", .text p.pid), ("host_address", .text p.host)]]
  | schedulerRegistered scheduler =>
    [.log .info "Scheduler registered" [("scheduler", .text scheduler)]]
  | executionStarted scheduler job =>
    [.log .debug "Execution started" [("scheduler", .text scheduler), ("job", .text job.dotted)]]
  | executionFinished scheduler job =>
    [.log .debug "Execution finished" [("scheduler", .text scheduler), ("job", .text job.dotted)]]
  | schedulersFound count =>
    [.log .debug "Schedulers found" [("scheduler_count", .count count)]]
  | executionsFound count =>
    [.log .debug "Running executions found" [("executing_count", .count count)]]
  | catalogLoaded jobs =>
    [.log .debug "Job catalog loaded" [("job_count", .count jobs)]]
  | catalogSkipped scheduler cause =>
    [.log .warn "Failed to list jobs, skipping scheduler"
      [("scheduler", .text scheduler), ("error", .text cause.message)]]
  | catalogFailureCounted scheduler =>
    [.counterAdded catalogFailures [("scheduler", scheduler)] 1]
  | executionsUnknown scheduler cause =>
    [.log .error "Failed to list running executions"
      [("scheduler", .text scheduler), ("error", .text cause.message)]]
  | snapshotFailed scheduler job cause =>
    [.log .error "Failed to build job snapshot"
      [("scheduler", .text scheduler), ("job", .text job.dotted), ("error", .text cause.message)]]
  | snapshotsBuilt count =>
    [.log .debug "Job snapshots built" [("snapshot_count", .count count)]]
  | snapshotCountSet count => [.gaugeSet snapshotCount count]

end Event

end JobWatch
