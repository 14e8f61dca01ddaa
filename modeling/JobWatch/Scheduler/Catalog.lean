import JobWatch.Scheduler.Handle

/-!
# The catalog of a scheduler

A catalog holds jobs, triggers, the keys of paused triggers and running executions, all in the order
in which they came. Jobs and triggers are replaced in place under their key. Only a trigger that is
held can be paused or resumed, and with a job go its triggers and their pauses.
-/

set_option autoImplicit false

namespace JobWatch

def replaceOrAppend {α κ : Type} [DecidableEq κ] (keyOf : α → κ) (a : α) : List α → List α
  | [] => [a]
  | b :: rest => if keyOf b = keyOf a then a :: rest else b :: replaceOrAppend keyOf a rest

structure Catalog where
  jobs : List Job := []
  triggers : List Trigger := []
  paused : List Key := []
  running : List Execution := []
  deriving DecidableEq, Repr

namespace Catalog

def holdsJob (c : Catalog) (key : Key) : Bool := c.jobs.any (·.key = key)

def holdsTrigger (c : Catalog) (key : Key) : Bool := c.triggers.any (·.key = key)

def addJob (job : Job) (c : Catalog) : Catalog :=
  { c with jobs := replaceOrAppend Job.key job c.jobs }

/-- Removes a job and the triggers that fire it, whether the job is held or not. Running executions
stay. -/
def removeJob (key : Key) (c : Catalog) : Catalog :=
  let gone := (c.triggers.filter (·.job = key)).map (·.key)
  { c with
    jobs := c.jobs.filter (·.key ≠ key)
    triggers := c.triggers.filter (·.job ≠ key)
    paused := c.paused.filter fun k => ¬ gone.contains k }

/-- A trigger that replaces another keeps its pause. -/
def schedule (t : Trigger) (c : Catalog) : Catalog :=
  { c with triggers := replaceOrAppend Trigger.key t c.triggers }

def pause (key : Key) (c : Catalog) : Except SchedulerFault Catalog :=
  if c.holdsTrigger key then .ok { c with paused := c.paused.insert key }
  else .error (.unknownTrigger key.dotted)

def resume (key : Key) (c : Catalog) : Except SchedulerFault Catalog :=
  if c.holdsTrigger key then .ok { c with paused := c.paused.filter (· ≠ key) }
  else .error (.unknownTrigger key.dotted)

def start (e : Execution) (c : Catalog) : Catalog := { c with running := c.running ++ [e] }

def finish (job : Key) (c : Catalog) : Catalog :=
  { c with running := c.running.filter (·.job.key ≠ job) }

def triggersOf (c : Catalog) (job : Key) : List Trigger := c.triggers.filter (·.job = job)

def isPaused (c : Catalog) (trigger : Key) : Except SchedulerFault Bool :=
  if c.holdsTrigger trigger then .ok (c.paused.contains trigger)
  else .error (.unknownTrigger trigger.dotted)

inductive Op where
  | addJob (job : Job)
  | removeJob (key : Key)
  | schedule (trigger : Trigger)
  | pause (trigger : Key)
  | resume (trigger : Key)
  | start (execution : Execution)
  | finish (job : Key)
  deriving DecidableEq, Repr

def step (c : Catalog) : Op → Catalog
  | .addJob job => c.addJob job
  | .removeJob key => c.removeJob key
  | .schedule t => c.schedule t
  | .pause key =>
    match c.pause key with
    | .ok after => after
    | .error _ => c
  | .resume key =>
    match c.resume key with
    | .ok after => after
    | .error _ => c
  | .start e => c.start e
  | .finish job => c.finish job

theorem step_pause (c : Catalog) (key : Key) :
    c.step (.pause key) =
      if c.holdsTrigger key then { c with paused := c.paused.insert key } else c := by
  by_cases h : c.holdsTrigger key <;> simp [step, pause, h]

theorem step_resume (c : Catalog) (key : Key) :
    c.step (.resume key) =
      if c.holdsTrigger key then { c with paused := c.paused.filter (· ≠ key) } else c := by
  by_cases h : c.holdsTrigger key <;> simp [step, resume, h]

theorem jobs_step (c : Catalog) (op : Op) :
    (c.step op).jobs =
      match op with
      | .addJob job => replaceOrAppend Job.key job c.jobs
      | .removeJob key => c.jobs.filter (·.key ≠ key)
      | _ => c.jobs := by
  cases op with
  | pause key =>
    rw [step_pause]
    split <;> rfl
  | resume key =>
    rw [step_resume]
    split <;> rfl
  | _ => rfl

theorem triggers_step (c : Catalog) (op : Op) :
    (c.step op).triggers =
      match op with
      | .schedule t => replaceOrAppend Trigger.key t c.triggers
      | .removeJob key => c.triggers.filter (·.job ≠ key)
      | _ => c.triggers := by
  cases op with
  | pause key =>
    rw [step_pause]
    split <;> rfl
  | resume key =>
    rw [step_resume]
    split <;> rfl
  | _ => rfl

theorem running_step (c : Catalog) (op : Op) :
    (c.step op).running =
      match op with
      | .start e => c.running ++ [e]
      | .finish job => c.running.filter (·.job.key ≠ job)
      | _ => c.running := by
  cases op with
  | pause key =>
    rw [step_pause]
    split <;> rfl
  | resume key =>
    rw [step_resume]
    split <;> rfl
  | _ => rfl

def reply (c : Catalog) : Op → Except SchedulerFault (Option Bool)
  | .removeJob key => .ok (some (c.holdsJob key))
  | .pause key => (c.pause key).map fun _ => none
  | .resume key => (c.resume key).map fun _ => none
  | _ => .ok none

def run : List Op → Catalog → Catalog
  | [], c => c
  | op :: ops, c => run ops (c.step op)

theorem run_append (ops rest : List Op) (c : Catalog) :
    run (ops ++ rest) c = run rest (run ops c) := by
  induction ops generalizing c with
  | nil => rfl
  | cons op ops ih => exact ih _

theorem run_concat (ops : List Op) (op : Op) (c : Catalog) :
    run (ops ++ [op]) c = (run ops c).step op := by
  rw [run_append]
  rfl

def handle (name : String) (c : Catalog) : Handle where
  name := some name
  executions := .ok c.running
  jobs := .ok c.jobs
  triggersOf key := .ok (c.triggersOf key)
  isPaused := c.isPaused

end Catalog

end JobWatch
