import JobWatch.Key
import JobWatch.Text.Digits

/-!
# Causes of failure and their messages

Each call that can fail has a type of its causes, and each cause has one message.
-/

set_option autoImplicit false

namespace JobWatch

inductive TimingFault where
  | badExpression (expression reason : String)
  | badInterval (millis : Int64)
  deriving DecidableEq, Repr

inductive SchedulerFault where
  | storeUnavailable (detail : String)
  | queryFailed (detail : String)
  | malformedTrigger (trigger reason : String)
  | unknownTrigger (trigger : String)
  | alreadyRegistered (scheduler : String)
  | lockPoisoned
  deriving DecidableEq, Repr

inductive PollFault where
  | registry (detail : String)
  | scheduler (name : String) (cause : SchedulerFault)
  deriving DecidableEq, Repr

namespace TimingFault

def message : TimingFault → String
  | badExpression expression reason => "Invalid cron expression '" ++ expression ++ "': " ++ reason
  | badInterval millis =>
    "Invalid repeat interval: " ++ String.ofList (Text.integer millis.toInt) ++ " ms"

end TimingFault

namespace SchedulerFault

def message : SchedulerFault → String
  | storeUnavailable detail => "Job store unavailable: " ++ detail
  | queryFailed detail => "Scheduler query failed: " ++ detail
  | malformedTrigger trigger reason => "Malformed trigger '" ++ trigger ++ "': " ++ reason
  | unknownTrigger trigger => "Trigger not found: " ++ trigger
  | alreadyRegistered scheduler => "Scheduler already registered: " ++ scheduler
  | lockPoisoned => "Scheduler state lock poisoned"

end SchedulerFault

namespace PollFault

def message : PollFault → String
  | registry detail => "Scheduler registry lookup failed: " ++ detail
  | scheduler name cause => "Snapshot poll failed on scheduler '" ++ name ++ "': " ++ cause.message

def causeMessage? : PollFault → Option String
  | registry _ => none
  | scheduler _ cause => some cause.message

end PollFault

end JobWatch
