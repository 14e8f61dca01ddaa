import JobWatch.Cron.Occurrence
import JobWatch.Fault
import JobWatch.Job

/-!
# Triggers

A trigger fires its job by a cron expression, at a fixed interval or by a rule of its own. A made
trigger knows when it fires next; a cron trigger is due strictly after it last fired, an interval
trigger one interval after that.
-/

set_option autoImplicit false

namespace JobWatch

open Calendar (Instant Zone)

inductive Timing where
  | cron (expression : String)
  | every (millis : Int64)
  | other
  deriving DecidableEq, Repr

structure Trigger where
  key : Key
  job : Key
  timing : Timing
  previous : Option Instant
  next : Option Instant
  deriving DecidableEq, Repr

namespace Timing

def cron? : Timing → Option String
  | cron expression => some expression
  | _ => none

def interval? : Timing → Option Int64
  | every millis => some millis
  | _ => none

def badExpressionReason : String := "Invalid expression: Invalid cron expression."

def schedule (expression : String) : Except TimingFault Cron.Schedule :=
  match Cron.Schedule.parse? expression with
  | some s => .ok s
  | none => .error (.badExpression expression badExpressionReason)

def nextDue (expression : String) (z : Zone) (after : Instant) :
    Outcome TimingFault (Option Instant) := do
  let s ← Outcome.ofExcept (schedule expression)
  s.next z after

end Timing

namespace Trigger

def ofCron (key job : Key) (expression : String) (z : Zone) (previous : Option Instant)
    (now : Instant) : Outcome TimingFault Trigger := do
  let next ← Timing.nextDue expression z (previous.getD now)
  .done ⟨key, job, .cron expression, previous, next⟩

def ofInterval (key job : Key) (millis : Int64) (start : Instant) (previous : Option Instant) :
    Except TimingFault Trigger :=
  if millis ≤ 0 then .error (.badInterval millis)
  else
    match previous with
    | none => .ok ⟨key, job, .every millis, none, some start⟩
    | some last =>
      match last.addMillis? millis.toInt.toNat with
      | some next => .ok ⟨key, job, .every millis, some last, some next⟩
      | none => .error (.badInterval millis)

def ofTimes (key job : Key) (previous next : Option Instant) : Trigger :=
  ⟨key, job, .other, previous, next⟩

end Trigger

end JobWatch
