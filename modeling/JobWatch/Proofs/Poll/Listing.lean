import JobWatch.Proofs.Poll.Report

/-!
# A poll lists every job once

A poll that comes to an end gives, scheduler after scheduler and job after job, one snapshot of each
job, made of what its own scheduler answers about it and of nothing else. A scheduler without a
readable catalog gives none.
-/

set_option autoImplicit false

namespace JobWatch

open Calendar (Instant)

namespace Snapshot

/-- What the triggers of a job come to: the latest time one fired, the earliest time one fires, the
last interval and the last cron expression among them, and whether the questions about them, in
order up to the first that is not paused, are all answered with "paused". -/
structure Sums (h : Handle) (triggers : List Trigger) (s : Snapshot) : Prop where
  previous : Extreme (· ≤ ·) (triggers.filterMap (·.previous)) s.previous
  next : Extreme (fun later earlier => earlier ≤ later) (triggers.filterMap (·.next)) s.next
  interval : ∃ millis, LastGiven (·.timing.interval?) triggers millis ∧
    s.intervalMillis = millis.getD (-1)
  cron : LastGiven (·.timing.cron?) triggers s.cron
  paused : if s.paused then ∀ t ∈ triggers, h.isPaused t.key = .ok true
    else EndsAt (fun t => h.isPaused t.key) triggers (.ok false)

structure Depicts (identity : Identity) (now : Instant) (h : Handle) (running : List Execution)
    (job : Job) (s : Snapshot) : Prop where
  group : s.group = job.key.group
  name : s.name = job.key.name
  description : s.description = job.description
  className : s.className = job.className
  jobId : s.jobId = identity.jobId job.key
  elapsed : ∃ execution, LastGiven (Execution.under job.key.dotted) running execution ∧
    Elapsed now execution s.elapsedMillis
  triggers : ∃ triggers, h.triggersOf job.key = .ok triggers ∧ Sums h triggers s

theorem ofTriggers_eq_ok_iff (identity : Identity) (job : Job) (execution : Option Execution)
    (triggers : List Trigger) (ask : Nat → Trigger → Except SchedulerFault Bool) (now : Instant)
    (s : Snapshot) :
    ofTriggers identity job execution triggers ask now = .ok s ↔
      (askPaused ask 0 triggers).2 = .ok s.paused ∧
        s = of identity job execution triggers s.paused now := by
  unfold ofTriggers
  cases (askPaused ask 0 triggers).2 with
  | error fault => simp
  | ok paused =>
    simp only [Except.ok.injEq]
    constructor
    · rintro rfl
      exact ⟨rfl, rfl⟩
    · rintro ⟨rfl, hs⟩
      exact hs.symm

theorem answered_iff (h : Handle) (triggers : List Trigger) (paused : Bool) :
    (askPaused (fun _ t => h.isPaused t.key) 0 triggers).2 = .ok paused ↔
      if paused then ∀ t ∈ triggers, h.isPaused t.key = .ok true
      else EndsAt (fun t => h.isPaused t.key) triggers (.ok false) := by
  cases paused with
  | true => exact askPaused_eq_true_iff (fun t => h.isPaused t.key) 0 triggers
  | false => exact askPaused_eq_iff (fun t => h.isPaused t.key) 0 triggers (by simp)

theorem sums_iff (h : Handle) (triggers : List Trigger) (s : Snapshot) :
    Sums h triggers s ↔
      s.previous = latest? (triggers.filterMap (·.previous)) ∧
      s.next = earliest? (triggers.filterMap (·.next)) ∧
      s.intervalMillis =
        (triggers.filterMap (·.timing.interval?)).getLast?.getD notApplicable ∧
      s.cron = (triggers.filterMap (·.timing.cron?)).getLast? ∧
      (askPaused (fun _ t => h.isPaused t.key) 0 triggers).2 = .ok s.paused := by
  rw [latest?_iff, earliest?_iff, answered_iff]
  constructor
  · rintro ⟨hprevious, hnext, ⟨millis, hlast, hmillis⟩, hcron, hpaused⟩
    rw [lastGiven_iff] at hlast hcron
    subst hlast
    exact ⟨hprevious, hnext, hmillis, hcron, hpaused⟩
  · rintro ⟨hprevious, hnext, hmillis, hcron, hpaused⟩
    exact ⟨hprevious, hnext, ⟨_, (lastGiven_iff _ _ _).mpr rfl, hmillis⟩,
      (lastGiven_iff _ _ _).mpr hcron, hpaused⟩

theorem depicts_iff (identity : Identity) (now : Instant) (h : Handle) (running : List Execution)
    (job : Job) (s : Snapshot) :
    Depicts identity now h running job s ↔ ∃ triggers, h.triggersOf job.key = .ok triggers ∧
      (askPaused (fun _ t => h.isPaused t.key) 0 triggers).2 = .ok s.paused ∧
      s = of identity job (lastUnder job.key.dotted running) triggers s.paused now := by
  constructor
  · intro hs
    obtain ⟨execution, hlast, helapsed⟩ := hs.elapsed
    obtain ⟨triggers, htriggers, hsums⟩ := hs.triggers
    obtain ⟨hprevious, hnext, hinterval, hcron, hpaused⟩ := (sums_iff h triggers s).mp hsums
    rw [lastGiven_iff] at hlast
    rw [← elapsed_iff, hlast] at helapsed
    refine ⟨triggers, htriggers, hpaused, ?_⟩
    obtain ⟨hgroup, hname, hdescription, hclassName, hjobId, -, -⟩ := hs
    cases s
    simp_all [of, lastUnder]
  · rintro ⟨triggers, htriggers, hpaused, hs⟩
    have hsums : Sums h triggers s := (sums_iff h triggers s).mpr
      ⟨congrArg previous hs, congrArg next hs, congrArg intervalMillis hs, congrArg cron hs,
        hpaused⟩
    have helapsed := (elapsed_iff now _ _).mp (congrArg elapsedMillis hs)
    exact {
      group := congrArg group hs
      name := congrArg name hs
      description := congrArg description hs
      className := congrArg className hs
      jobId := congrArg jobId hs
      elapsed := ⟨_, (lastGiven_iff _ _ _).mpr rfl, helapsed⟩
      triggers := ⟨triggers, htriggers, hsums⟩ }

/-- The snapshot of a job depicts it, and nothing else does. -/
theorem snapshot_eq_ok_iff (identity : Identity) (now : Instant) (h : Handle)
    (running : List Execution) (job : Job) (s : Snapshot) :
    h.snapshot identity job (lastUnder job.key.dotted running) now = .ok s ↔
      Depicts identity now h running job s := by
  rw [depicts_iff]
  unfold Handle.snapshot
  cases h.triggersOf job.key with
  | error cause => simp [bind, Except.bind]
  | ok triggers => simp [bind, Except.bind, ofTriggers_eq_ok_iff]

theorem Depicts.unique {identity : Identity} {now : Instant} {h : Handle} {running : List Execution}
    {job : Job} {s s' : Snapshot} (hs : Depicts identity now h running job s)
    (hs' : Depicts identity now h running job s') : s = s' := by
  rw [← snapshot_eq_ok_iff] at hs hs'
  exact Except.ok.inj (hs.symm.trans hs')

def key (s : Snapshot) : Key := ⟨s.group, s.name⟩

theorem Depicts.key_eq {identity : Identity} {now : Instant} {h : Handle} {running : List Execution}
    {job : Job} {s : Snapshot} (hs : Depicts identity now h running job s) : s.key = job.key := by
  rw [key, hs.group, hs.name]

theorem map_key_of_depicts {identity : Identity} {now : Instant} {h : Handle}
    {running : List Execution} {jobs : List Job} {block : List Snapshot}
    (hblock : List.Forall₂ (Depicts identity now h running) jobs block) :
    block.map key = jobs.map (·.key) := by
  induction hblock with
  | nil => rfl
  | cons hs _ ih => simp [key, hs.group, hs.name, ih]

end Snapshot

/-- A scheduler gives its name and its running executions, and a snapshot of each job of its catalog
in order; no snapshots if the catalog cannot be had. -/
def Handle.Yields (identity : Identity) (now : Instant) (h : Handle) (block : List Snapshot) :
    Prop :=
  (∃ name, h.name = some name) ∧ ∃ running, h.executions = .ok running ∧
    match h.jobs with
    | .ok jobs => List.Forall₂ (Snapshot.Depicts identity now h running) jobs block
    | .error _ => block = []

def Poll.Lists (identity : Identity) (now : Instant) (handles : List Handle)
    (snapshots : List Snapshot) : Prop :=
  ∃ blocks, List.Forall₂ (Handle.Yields identity now) handles blocks ∧ snapshots = blocks.flatten

namespace Poll

theorem report_eq_ok_iff (identity : Identity) (now : Instant) (h : Handle)
    (block : List Snapshot) :
    h.report identity now = .ok block ↔ ∃ running, h.executions = .ok running ∧
      match h.jobs with
      | .ok jobs => List.Forall₂ (Snapshot.Depicts identity now h running) jobs block
      | .error _ => block = [] := by
  unfold Handle.report
  cases h.executions with
  | error cause => simp
  | ok running =>
    cases h.jobs with
    | error cause => simp [eq_comm]
    | ok jobs => simp [mapM_eq_ok_iff, Snapshot.snapshot_eq_ok_iff]

theorem scheduler_done_iff (identity : Identity) (now : Instant) (h : Handle)
    (block : List Snapshot) :
    (scheduler identity now h).outcome = .done block ↔ h.Yields identity now block := by
  rw [outcome_scheduler, Handle.Yields, ← report_eq_ok_iff]
  cases h.name with
  | none => simp
  | some name => cases h.report identity now <;> simp

theorem schedulers_done_iff (identity : Identity) (now : Instant) (handles : List Handle)
    (snapshots : List Snapshot) :
    (schedulers identity now handles).outcome = .done snapshots ↔
      Lists identity now handles snapshots := by
  induction handles generalizing snapshots with
  | nil => simp [schedulers, Lists, eq_comm]
  | cons h handles ih =>
    rw [outcome_schedulers_cons]
    simp only [Outcome.bind_eq_done_iff, scheduler_done_iff, ih, Outcome.done.injEq]
    constructor
    · rintro ⟨first, hfirst, more, ⟨blocks, hblocks, rfl⟩, rfl⟩
      exact ⟨first :: blocks, .cons hfirst hblocks, by simp⟩
    · rintro ⟨_, hblocks, rfl⟩
      obtain ⟨first, blocks, hfirst, hmore, rfl⟩ := List.forall₂_cons_left_iff.mp hblocks
      exact ⟨first, hfirst, blocks.flatten, ⟨blocks, hmore, rfl⟩, by simp⟩

/-- A poll comes to an end with exactly the snapshots of the jobs of its schedulers in order. -/
theorem poll_done_iff_lists (identity : Identity) (registry : Except PollFault (List Handle))
    (now : Instant) (snapshots : List Snapshot) :
    ((⟨identity, .available⟩ : Watch).poll registry now).outcome = .done snapshots ↔
      ∃ handles, registry = .ok handles ∧ Lists identity now handles snapshots := by
  rw [outcome_poll]
  cases registry with
  | error fault => simp
  | ok handles => simp [schedulers_done_iff]

end Poll

end JobWatch
