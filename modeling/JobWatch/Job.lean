import JobWatch.Calendar.Instant
import JobWatch.Key

/-!
# Jobs and their executions

A job is what a catalog holds of it. An execution is a run of a job that is under way; it carries
the job as it was when the run began.
-/

set_option autoImplicit false

namespace JobWatch

open Calendar (Instant)

structure Job where
  key : Key
  description : Option String
  className : String
  deriving DecidableEq, Repr

structure Execution where
  job : Job
  started : Instant
  deriving DecidableEq, Repr

end JobWatch
