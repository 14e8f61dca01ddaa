import JobWatch.Proofs.Executions
import JobWatch.Proofs.Snapshot
import JobWatch.Watch

/-!
# What each scheduler gives to a poll

A poll keeps a log and looks executions up in a table. Its outcome depends on neither: it joins the
reports of the schedulers up to the first that fails or that does not give its name.
-/

set_option autoImplicit false

namespace JobWatch

open Calendar (Instant)

def Handle.report (h : Handle) (identity : Identity) (now : Instant) :
    Except SchedulerFault (List Snapshot) :=
  match h.executions, h.jobs with
  | .error cause, _ => .error cause
  | .ok _, .error _ => .ok []
  | .ok running, .ok jobs =>
    jobs.mapM fun job => h.snapshot identity job (lastUnder job.key.dotted running) now

namespace Poll
open Traced

theorem outcome_jobs (identity : Identity) (now : Instant) (h : Handle) (name : String)
    (executions : Executions) (catalog : List Job) :
    (jobs identity now h name executions catalog).outcome =
      (Outcome.ofExcept (catalog.mapM fun job =>
        h.snapshot identity job (executions.get? job.key.dotted) now)).mapFault
          (.scheduler name) := by
  induction catalog with
  | nil => rfl
  | cons job catalog ih =>
    rw [List.mapM_cons]
    simp only [jobs, outcome_bind, outcome_orElse, outcome_ofExcept, outcome_pure, ih]
    cases h.snapshot identity job (executions.get? job.key.dotted) now with
    | error cause => rfl
    | ok first =>
      cases catalog.mapM fun job =>
        h.snapshot identity job (executions.get? job.key.dotted) now with
      | error cause => rfl
      | ok more => rfl

theorem outcome_listExecutions (h : Handle) :
    h.listExecutions.outcome = Outcome.ofOption h.name >>= fun _ =>
      Outcome.ofExcept (h.executions.map Executions.ofList) := by
  simp only [Handle.listExecutions, Handle.marked, outcome_bind, outcome_silent, outcome_ofExcept]
  cases h.executions <;> rfl

theorem outcome_listJobs {ε : Type} (h : Handle) :
    (h.listJobs (ε := ε)).outcome = Outcome.ofOption h.name >>= fun _ =>
      .done (match h.jobs with | .ok jobs => jobs | .error _ => []) := by
  unfold Handle.listJobs Handle.marked
  cases h.name <;> cases h.jobs <;> simp

theorem outcome_scheduler (identity : Identity) (now : Instant) (h : Handle) :
    (scheduler identity now h).outcome = Outcome.ofOption h.name >>= fun name =>
      (Outcome.ofExcept (h.report identity now)).mapFault (.scheduler name) := by
  simp only [scheduler, outcome_bind, outcome_silent, outcome_orElse, outcome_listExecutions,
    outcome_listJobs, outcome_jobs]
  unfold Handle.report
  cases h.name with
  | none => rfl
  | some name =>
    cases h.executions with
    | error cause => rfl
    | ok running =>
      cases h.jobs with
      | error cause => rfl
      | ok catalog => simp [Except.map, Executions.get?_ofList]

theorem outcome_schedulers_cons (identity : Identity) (now : Instant) (h : Handle)
    (rest : List Handle) :
    (schedulers identity now (h :: rest)).outcome =
      (scheduler identity now h).outcome >>= fun first =>
        (schedulers identity now rest).outcome >>= fun more => .done (first ++ more) := by
  simp [schedulers]

theorem outcome_poll (identity : Identity) (registry : Except PollFault (List Handle))
    (now : Instant) :
    ((⟨identity, .available⟩ : Watch).poll registry now).outcome =
      Outcome.ofExcept registry >>= fun handles => (schedulers identity now handles).outcome := by
  simp [Watch.poll, Watch.source, run, listSchedulers]

end Poll

end JobWatch
