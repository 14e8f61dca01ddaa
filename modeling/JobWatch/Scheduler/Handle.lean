import JobWatch.Trigger

/-!
# A scheduler as the watch sees it

A scheduler is five questions and their answers. All but the name may fail; a name that cannot be
had breaks down whoever asks for it.
-/

set_option autoImplicit false

namespace JobWatch

structure Handle where
  name : Option String
  executions : Except SchedulerFault (List Execution)
  jobs : Except SchedulerFault (List Job)
  triggersOf : Key → Except SchedulerFault (List Trigger)
  isPaused : Key → Except SchedulerFault Bool

end JobWatch
