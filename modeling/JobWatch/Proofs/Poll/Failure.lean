import JobWatch.Proofs.Poll.Listing

/-!
# A poll fails at the first failure

The questions of a poll stand in an order: scheduler after scheduler, the running executions before
the catalog, job after job, the triggers of a job before their pauses, and trigger after trigger up
to the first that is not paused. The first of them that fails is the fault of the poll. Only a
catalog that cannot be had fails nothing: its scheduler might as well not be there.
-/

set_option autoImplicit false

namespace JobWatch

open Calendar (Instant)

namespace Handle

/-- The making of a snapshot of a job fails: its triggers cannot be had, or a trigger behind paused
ones cannot be asked about. -/
def FailsOn (h : Handle) (job : Job) (cause : SchedulerFault) : Prop :=
  h.triggersOf job.key = .error cause ∨
    ∃ triggers, h.triggersOf job.key = .ok triggers ∧
      EndsAt (fun t => h.isPaused t.key) triggers (.error cause)

def Fails (h : Handle) (cause : SchedulerFault) : Prop :=
  h.executions = .error cause ∨
    ∃ running jobs, h.executions = .ok running ∧ h.jobs = .ok jobs ∧
      LeadsTo (fun job => ∀ c, ¬ h.FailsOn job c) (fun job => h.FailsOn job cause) jobs

def Faulty (h : Handle) : Prop :=
  (∃ cause, h.executions = .error cause) ∨
    ∃ jobs, h.jobs = .ok jobs ∧ ∃ job ∈ jobs, ∃ cause, h.FailsOn job cause

theorem snapshot_eq_error_iff (identity : Identity) (now : Instant) (h : Handle) (job : Job)
    (execution : Option Execution) (cause : SchedulerFault) :
    h.snapshot identity job execution now = .error cause ↔ h.FailsOn job cause := by
  unfold Handle.snapshot FailsOn
  cases h.triggersOf job.key with
  | error fault => simp [bind, Except.bind]
  | ok triggers =>
    have hends : (askPaused (fun _ t => h.isPaused t.key) 0 triggers).2 = .error cause ↔
        EndsAt (fun t => h.isPaused t.key) triggers (.error cause) :=
      askPaused_eq_iff _ 0 triggers (by simp)
    simp only [bind, Except.bind, Snapshot.ofTriggers, reduceCtorEq, Except.ok.injEq,
      exists_eq_left', false_or, ← hends]
    cases (askPaused (fun _ t => h.isPaused t.key) 0 triggers).2 <;> simp

theorem report_eq_error_iff (identity : Identity) (now : Instant) (h : Handle)
    (cause : SchedulerFault) : h.report identity now = .error cause ↔ h.Fails cause := by
  unfold report Fails
  cases h.executions with
  | error fault => simp
  | ok running =>
    cases h.jobs with
    | error fault => simp
    | ok jobs => simp [mapM_eq_error_iff, snapshot_eq_error_iff]

theorem exists_fails_iff_faulty (h : Handle) : (∃ cause, h.Fails cause) ↔ h.Faulty := by
  unfold Fails Faulty
  constructor
  · rintro ⟨cause, hcause | ⟨running, jobs, -, hjobs, before, job, after, rfl, -, hjob⟩⟩
    · exact .inl ⟨cause, hcause⟩
    · exact .inr ⟨_, hjobs, job, by simp, cause, hjob⟩
  · rintro (⟨cause, hcause⟩ | ⟨jobs, hjobs, hfaulty⟩)
    · exact ⟨cause, .inl hcause⟩
    cases hexecutions : h.executions with
    | error cause => exact ⟨cause, .inl rfl⟩
    | ok running =>
      obtain ⟨before, job, after, heq, hbefore, cause, hjob⟩ :=
        (leadsTo_not_iff (fun job => ∃ cause, h.FailsOn job cause) jobs).mpr hfaulty
      exact ⟨cause, .inr ⟨running, jobs, rfl, hjobs, before, job, after, heq,
        fun j hj => not_exists.mp (hbefore j hj), hjob⟩⟩

end Handle

namespace Poll

def EndsWith (fault : PollFault) (h : Handle) : Prop :=
  ∃ name cause, h.name = some name ∧ h.Fails cause ∧ fault = .scheduler name cause

def Passes (h : Handle) : Prop := h.name ≠ none ∧ ¬ h.Faulty

theorem scheduler_failed_iff (identity : Identity) (now : Instant) (h : Handle)
    (fault : PollFault) :
    (scheduler identity now h).outcome = .failed fault ↔ EndsWith fault h := by
  rw [outcome_scheduler]
  simp only [EndsWith, ← Handle.report_eq_error_iff identity now]
  cases h.name with
  | none => simp
  | some name => cases h.report identity now <;> simp [eq_comm]

theorem scheduler_passes_iff (identity : Identity) (now : Instant) (h : Handle) :
    (∃ block, (scheduler identity now h).outcome = .done block) ↔ Passes h := by
  rw [outcome_scheduler, Passes, ← Handle.exists_fails_iff_faulty]
  simp only [← Handle.report_eq_error_iff identity now]
  cases h.name with
  | none => simp
  | some name => cases h.report identity now <;> simp

theorem schedulers_failed_iff (identity : Identity) (now : Instant) (handles : List Handle)
    (fault : PollFault) :
    (schedulers identity now handles).outcome = .failed fault ↔
      LeadsTo Passes (EndsWith fault) handles := by
  induction handles with
  | nil => simp [schedulers, not_leadsTo_nil]
  | cons h handles ih =>
    rw [outcome_schedulers_cons, leadsTo_cons_iff, ← ih, ← scheduler_failed_iff identity now,
      ← scheduler_passes_iff identity now]
    simp [Outcome.bind_eq_failed_iff]

theorem exists_endsWith_iff (h : Handle) :
    (∃ fault, EndsWith fault h) ↔ h.name ≠ none ∧ h.Faulty := by
  rw [← Handle.exists_fails_iff_faulty, Option.ne_none_iff_exists']
  constructor
  · rintro ⟨_, name, cause, hname, hcause, rfl⟩
    exact ⟨⟨name, hname⟩, cause, hcause⟩
  · rintro ⟨⟨name, hname⟩, cause, hcause⟩
    exact ⟨_, name, cause, hname, hcause, rfl⟩

/-- Where any scheduler behind readable names is faulty, one is the first. -/
theorem exists_leadsTo_endsWith_iff (handles : List Handle) :
    (∃ fault, LeadsTo Passes (EndsWith fault) handles) ↔
      LeadsTo (fun g => g.name ≠ none) (fun h => h.name ≠ none ∧ h.Faulty) handles := by
  induction handles with
  | nil => simp [not_leadsTo_nil]
  | cons h handles ih =>
    simp only [leadsTo_cons_iff, exists_or, exists_and_left, exists_endsWith_iff, ih, Passes]
    by_cases hfaulty : h.Faulty
    · simp only [hfaulty, not_true, and_false, false_and, and_true, or_false]
      exact ⟨.inl, fun hname => hname.elim id And.left⟩
    · simp [hfaulty]

/-- A scheduler with running executions and no readable catalog changes nothing. -/
theorem schedulers_skip (identity : Identity) (now : Instant) (before after : List Handle)
    (name : String) (running : List Execution) (cause : SchedulerFault)
    (triggersOf : Key → Except SchedulerFault (List Trigger))
    (isPaused : Key → Except SchedulerFault Bool) :
    (schedulers identity now
        (before ++ ⟨some name, .ok running, .error cause, triggersOf, isPaused⟩ :: after)).outcome =
      (schedulers identity now (before ++ after)).outcome := by
  induction before with
  | nil => simp [outcome_schedulers_cons, outcome_scheduler, Handle.report]
  | cons h before ih =>
    rw [List.cons_append, List.cons_append, outcome_schedulers_cons, outcome_schedulers_cons, ih]

/-- A poll fails with the fault of the registry or with the first failure of a scheduler. It fails
as soon as the registry does, or any scheduler that is faulty and can be named; a scheduler of which
no more than the catalog cannot be had is as good as not bound. -/
theorem poll_fails_first (identity : Identity) (now : Instant)
    (registry : Except PollFault (List Handle)) :
    (∀ fault, ((⟨identity, .available⟩ : Watch).poll registry now).outcome = .failed fault ↔
      registry = .error fault ∨
        ∃ handles, registry = .ok handles ∧ LeadsTo Passes (EndsWith fault) handles) ∧
    ((∃ fault, ((⟨identity, .available⟩ : Watch).poll registry now).outcome = .failed fault) ↔
      (∃ fault, registry = .error fault) ∨
        ∃ handles, registry = .ok handles ∧
          LeadsTo (fun g => g.name ≠ none) (fun h => h.name ≠ none ∧ h.Faulty) handles) ∧
    ∀ before after name running cause triggersOf isPaused,
      ((⟨identity, .available⟩ : Watch).poll
        (.ok (before ++ ⟨some name, .ok running, .error cause, triggersOf, isPaused⟩ :: after))
          now).outcome =
        ((⟨identity, .available⟩ : Watch).poll (.ok (before ++ after)) now).outcome := by
  have hfailed : ∀ fault,
      ((⟨identity, .available⟩ : Watch).poll registry now).outcome = .failed fault ↔
        registry = .error fault ∨
          ∃ handles, registry = .ok handles ∧ LeadsTo Passes (EndsWith fault) handles := by
    intro fault
    rw [outcome_poll]
    cases registry with
    | error cause => simp
    | ok handles => simp [schedulers_failed_iff]
  refine ⟨hfailed, ?_, ?_⟩
  · simp only [hfailed, exists_or]
    rw [exists_comm]
    simp only [exists_and_left, exists_leadsTo_endsWith_iff]
  · intro before after name running cause triggersOf isPaused
    simp only [outcome_poll, Outcome.ofExcept_ok, Outcome.done_bind]
    exact schedulers_skip identity now before after name running cause triggersOf isPaused

end Poll

end JobWatch
