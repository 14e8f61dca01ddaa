import JobWatch.Proofs.Poll.Failure
import Mathlib

/-!
# The log of a poll accounts for its result

A poll that comes to an end sets the gauge once, as the last thing it does, and counts each
scheduler and each job on the way; one that fails tells a single error, as the last thing it does,
and leaves the gauge alone. In both cases the catalogs that were skipped are counted in order, each
right after the warning about it.
-/

set_option autoImplicit false

namespace JobWatch

open Calendar (Instant)

def Traced.log {ε α : Type} (x : Traced ε α) : List Entry := x.events.flatMap Event.entries

/-- Blocks stand in a list in their order, each in one piece, and all around them is quiet. -/
def Blocks {α : Type} (Quiet : α → Prop) : List (List α) → List α → Prop
  | [], l => ∀ a ∈ l, Quiet a
  | block :: blocks, l =>
    ∃ before after, l = before ++ block ++ after ∧ (∀ a ∈ before, Quiet a) ∧
      Blocks Quiet blocks after

section Blocks

variable {α : Type} {Quiet : α → Prop} {blocks blocks' : List (List α)} {l l' : List α}

/-- What is quiet in front goes before the first block, or before the end. -/
theorem Blocks.after_quiet (h : Blocks Quiet blocks l') (hquiet : ∀ a ∈ l, Quiet a) :
    Blocks Quiet blocks (l ++ l') := by
  cases blocks with
  | nil => exact List.forall_mem_append.mpr ⟨hquiet, h⟩
  | cons block blocks =>
    obtain ⟨before, after, rfl, hbefore, hafter⟩ := h
    refine ⟨l ++ before, after, by simp, ?_, hafter⟩
    exact List.forall_mem_append.mpr ⟨hquiet, hbefore⟩

theorem Blocks.append (h : Blocks Quiet blocks l) (h' : Blocks Quiet blocks' l') :
    Blocks Quiet (blocks ++ blocks') (l ++ l') := by
  induction blocks generalizing l with
  | nil => exact h'.after_quiet h
  | cons block blocks ih =>
    obtain ⟨before, after, rfl, hbefore, hafter⟩ := h
    exact ⟨before, after ++ l', by simp, hbefore, ih hafter⟩

theorem Blocks.before_quiet (h : Blocks Quiet blocks l) (hquiet : ∀ a ∈ l', Quiet a) :
    Blocks Quiet blocks (l ++ l') := by
  have hall : Blocks Quiet (blocks ++ []) (l ++ l') := h.append hquiet
  rwa [List.append_nil] at hall

end Blocks

namespace Entry

@[simp] def level? : Entry → Option Level
  | log level _ _ => some level
  | _ => none

def count? (field : String) : Entry → Option Nat
  | log _ _ fields =>
    match fields.lookup field with
    | some (.count n) => some n
    | _ => none
  | _ => none

def tellsOfExecutions : Entry → Bool
  | log _ message _ => message = "Running executions found"
  | _ => false

@[simp] def setsGauge : Entry → Bool
  | gaugeSet _ _ => true
  | _ => false

@[simp] def addsToCounter : Entry → Bool
  | counterAdded _ _ _ => true
  | _ => false

def Quiet (e : Entry) : Prop := e.level? ≠ some .warn ∧ e.addsToCounter = false

@[simp] theorem quiet_log_iff (level : Level) (message : String)
    (fields : List (String × FieldValue)) : Quiet (.log level message fields) ↔ level ≠ .warn := by
  simp [Quiet]

@[simp] theorem quiet_gaugeSet (name : String) (value : Nat) : Quiet (.gaugeSet name value) := by
  simp [Quiet]

def Blames (fault : PollFault) (e : Entry) : Prop :=
  ∃ name cause message fields, fault = .scheduler name cause ∧ e = .log .error message fields ∧
    fields.lookup "scheduler" = some (.text name) ∧
    fields.lookup "error" = some (.text cause.message)

end Entry

def Handle.skipReport? (h : Handle) : Option (List Entry) :=
  match h.name, h.jobs with
  | some name, .error cause =>
    some [.log .warn "Failed to list jobs, skipping scheduler"
        [("scheduler", .text name), ("error", .text cause.message)],
      .counterAdded "scheduler_catalog_failures_total" [("scheduler", name)] 1]
  | _, _ => none

namespace Poll

structure Progress (handles : List Handle) (count : Nat) (log : List Entry) : Prop where
  noGauge : ∀ e ∈ log, e.setsGauge = false
  noError : ∀ e ∈ log, e.level? ≠ some .error
  jobCounts : (log.filterMap (Entry.count? "job_count")).sum = count
  schedulerCounts : log.filterMap (Entry.count? "scheduler_count") = []
  executions : (log.filter Entry.tellsOfExecutions).length = handles.length
  skips : Blocks Entry.Quiet (handles.filterMap Handle.skipReport?) log

structure Completed (handles : List Handle) (count : Nat) (log : List Entry) : Prop where
  gauge : ∃ before, log = before ++ [.gaugeSet "job_snapshots_total" count] ∧
    ∀ e ∈ before, e.setsGauge = false
  noError : ∀ e ∈ log, e.level? ≠ some .error
  jobCounts : (log.filterMap (Entry.count? "job_count")).sum = count
  schedulerCounts : log.filterMap (Entry.count? "scheduler_count") = [handles.length]
  executions : (log.filter Entry.tellsOfExecutions).length = handles.length
  skips : Blocks Entry.Quiet (handles.filterMap Handle.skipReport?) log

structure BrokenOff (passed : List Handle) (fault : PollFault) (log : List Entry) : Prop where
  noGauge : ∀ e ∈ log, e.setsGauge = false
  error : ∃ before last, log = before ++ [last] ∧ last.Blames fault ∧
    ∀ e ∈ before, e.level? ≠ some .error
  skips : Blocks Entry.Quiet (passed.filterMap Handle.skipReport?) log

theorem progress_nil : Progress [] 0 [] := by
  constructor <;> simp [Blocks]

theorem Progress.append {handles handles' : List Handle} {count count' : Nat}
    {log log' : List Entry} (h : Progress handles count log)
    (h' : Progress handles' count' log') :
    Progress (handles ++ handles') (count + count') (log ++ log') := by
  constructor
  · intro e he
    exact (List.mem_append.mp he).elim (h.noGauge e) (h'.noGauge e)
  · intro e he
    exact (List.mem_append.mp he).elim (h.noError e) (h'.noError e)
  · rw [List.filterMap_append, List.sum_append, h.jobCounts, h'.jobCounts]
  · rw [List.filterMap_append, h.schedulerCounts, h'.schedulerCounts, List.append_nil]
  · rw [List.filter_append, List.length_append, h.executions, h'.executions, List.length_append]
  · rw [List.filterMap_append]
    exact h.skips.append h'.skips

theorem BrokenOff.after {passed passed' : List Handle} {count : Nat} {fault : PollFault}
    {log log' : List Entry} (h : Progress passed count log) (h' : BrokenOff passed' fault log') :
    BrokenOff (passed ++ passed') fault (log ++ log') := by
  constructor
  · intro e he
    exact (List.mem_append.mp he).elim (h.noGauge e) (h'.noGauge e)
  · obtain ⟨before, last, rfl, hlast, hbefore⟩ := h'.error
    refine ⟨log ++ before, last, by simp, hlast, ?_⟩
    intro e he
    exact (List.mem_append.mp he).elim (h.noError e) (hbefore e)
  · rw [List.filterMap_append]
    exact h.skips.append h'.skips

end Poll

theorem Handle.skipReport?_of_error {h : Handle} {name : String} {cause : SchedulerFault}
    (hname : h.name = some name) (hjobs : h.jobs = .error cause) :
    h.skipReport? = some [.log .warn "Failed to list jobs, skipping scheduler"
        [("scheduler", .text name), ("error", .text cause.message)],
      .counterAdded "scheduler_catalog_failures_total" [("scheduler", name)] 1] := by
  rw [skipReport?, hname, hjobs]

theorem Handle.skipReport?_of_ok {h : Handle} {catalog : List Job} (hjobs : h.jobs = .ok catalog) :
    h.skipReport? = none := by
  rw [skipReport?, hjobs]
  cases h.name <;> rfl

namespace Poll

theorem jobs_eq (identity : Identity) (now : Instant) (h : Handle) (name : String)
    (executions : Executions) (catalog : List Job) :
    (∃ block : List Snapshot, block.length = catalog.length ∧
      jobs identity now h name executions catalog = ⟨[], .done block⟩) ∨
    ∃ key cause, jobs identity now h name executions catalog =
      ⟨[.snapshotFailed name key cause], .failed (.scheduler name cause)⟩ := by
  induction catalog with
  | nil => exact .inl ⟨[], rfl, rfl⟩
  | cons job catalog ih =>
    rw [jobs]
    cases h.snapshot identity job (executions.get? job.key.dotted) now with
    | error cause => exact .inr ⟨job.key, cause, rfl⟩
    | ok first =>
      rcases ih with ⟨more, hlength, hmore⟩ | ⟨key, cause, hmore⟩
      · rw [hmore]
        exact .inl ⟨first :: more, congrArg (· + 1) hlength, rfl⟩
      · rw [hmore]
        exact .inr ⟨key, cause, rfl⟩

inductive Visits (h : Handle) (name : String) : Traced PollFault (List Snapshot) → Prop where
  | unknown (cause : SchedulerFault) :
    Visits h name ⟨[.executionsUnknown name cause], .failed (.scheduler name cause)⟩
  | skipped (running : Nat) {cause : SchedulerFault} (hjobs : h.jobs = .error cause) :
    Visits h name ⟨[.executionsFound running, .catalogSkipped name cause,
      .catalogFailureCounted name], .done []⟩
  | listed (running : Nat) {catalog : List Job} (hjobs : h.jobs = .ok catalog)
      {block : List Snapshot} (hlength : block.length = catalog.length) :
    Visits h name ⟨[.executionsFound running, .catalogLoaded catalog.length], .done block⟩
  | stopped (running loaded : Nat) (key : Key) (cause : SchedulerFault) :
    Visits h name ⟨[.executionsFound running, .catalogLoaded loaded,
      .snapshotFailed name key cause], .failed (.scheduler name cause)⟩

theorem scheduler_visits (identity : Identity) (now : Instant) {h : Handle} {name : String}
    (hname : h.name = some name) : Visits h name (scheduler identity now h) := by
  obtain ⟨_, executions, catalog, triggersOf, isPaused⟩ := h
  obtain rfl : _ = some name := hname
  cases executions with
  | error cause => exact .unknown cause
  | ok running =>
    cases catalog with
    | error cause => exact .skipped _ rfl
    | ok catalog =>
      have hlisted : scheduler identity now
          ⟨some name, .ok running, .ok catalog, triggersOf, isPaused⟩ =
        let made := jobs identity now ⟨some name, .ok running, .ok catalog, triggersOf, isPaused⟩
          name (Executions.ofList running) catalog
        ⟨.executionsFound (Executions.ofList running).size :: .catalogLoaded catalog.length ::
          made.events, made.outcome⟩ := rfl
      rcases jobs_eq identity now ⟨some name, .ok running, .ok catalog, triggersOf, isPaused⟩
        name (Executions.ofList running) catalog with ⟨block, hlength, hmade⟩ | ⟨key, cause, hmade⟩
      · rw [hlisted, hmade]
        exact .listed _ rfl hlength
      · rw [hlisted, hmade]
        exact .stopped _ _ key cause

/-- What a scheduler tells accounts for its snapshots, or for the fault at which it stops. -/
theorem scheduler_account (identity : Identity) (now : Instant) (h : Handle) :
    match (scheduler identity now h).outcome with
    | .done block => Progress [h] block.length (scheduler identity now h).log
    | .failed fault => BrokenOff [] fault (scheduler identity now h).log
    | .crashed => h.name = none := by
  cases hname : h.name with
  | none => simp [outcome_scheduler, hname]
  | some name =>
    have hvisit := scheduler_visits identity now hname
    generalize scheduler identity now h = visit at hvisit
    cases hvisit with
    | unknown cause =>
      constructor
      · simp [Traced.log, Event.entries]
      · exact ⟨[], _, rfl, ⟨name, cause, _, _, rfl, rfl, rfl, rfl⟩, by simp⟩
      · simp [Traced.log, Event.entries, Blocks]
    | skipped running hjobs =>
      constructor
      · simp [Traced.log, Event.entries]
      · simp [Traced.log, Event.entries]
      · rfl
      · rfl
      · rfl
      · rw [List.filterMap_cons_some (Handle.skipReport?_of_error hname hjobs)]
        refine ⟨[_], [], rfl, ?_, by simp [Blocks]⟩
        simp
    | listed running hjobs hlength =>
      constructor
      · simp [Traced.log, Event.entries]
      · simp [Traced.log, Event.entries]
      · exact hlength.symm
      · rfl
      · rfl
      · rw [List.filterMap_cons_none (Handle.skipReport?_of_ok hjobs)]
        simp [Traced.log, Event.entries, Blocks]
    | stopped running loaded key cause =>
      constructor
      · simp [Traced.log, Event.entries]
      · refine ⟨[_, _], _, rfl, ⟨name, cause, _, _, rfl, rfl, rfl, rfl⟩, ?_⟩
        simp
      · simp [Traced.log, Event.entries, Blocks]

theorem log_schedulers_cons (identity : Identity) (now : Instant) (h : Handle)
    (rest : List Handle) :
    (schedulers identity now (h :: rest)).log =
      match (scheduler identity now h).outcome with
      | .done _ => (scheduler identity now h).log ++ (schedulers identity now rest).log
      | _ => (scheduler identity now h).log := by
  rw [Traced.log, schedulers, Traced.events_bind]
  cases (scheduler identity now h).outcome with
  | done first =>
    have hrest : ((schedulers identity now rest >>= fun more =>
        (pure (first ++ more) : Traced PollFault (List Snapshot)))).events =
          (schedulers identity now rest).events := by
      rw [Traced.events_bind]
      cases (schedulers identity now rest).outcome <;> simp
    simp only [hrest, List.flatMap_append, Traced.log]
  | failed fault => rfl
  | crashed => rfl

theorem schedulers_account (identity : Identity) (now : Instant) (handles : List Handle) :
    match (schedulers identity now handles).outcome with
    | .done snapshots => Progress handles snapshots.length (schedulers identity now handles).log
    | .failed fault => ∃ before h after, handles = before ++ h :: after ∧
      (∀ g ∈ before, Passes g) ∧ EndsWith fault h ∧
      BrokenOff before fault (schedulers identity now handles).log
    | .crashed => ∃ h ∈ handles, h.name = none := by
  induction handles with
  | nil => exact progress_nil
  | cons h handles ih =>
    have hfirst := scheduler_account identity now h
    rw [outcome_schedulers_cons, log_schedulers_cons]
    cases houtcome : (scheduler identity now h).outcome with
    | crashed =>
      rw [houtcome] at hfirst
      exact ⟨h, List.mem_cons_self, hfirst⟩
    | failed fault =>
      rw [houtcome] at hfirst
      have hends := (scheduler_failed_iff identity now h fault).mp houtcome
      exact ⟨[], h, handles, rfl, by simp, hends, hfirst⟩
    | done first =>
      rw [houtcome] at hfirst
      have hpasses := (scheduler_passes_iff identity now h).mp ⟨first, houtcome⟩
      cases hrest : (schedulers identity now handles).outcome with
      | crashed =>
        rw [hrest] at ih
        obtain ⟨g, hg, hnone⟩ := ih
        exact ⟨g, List.mem_cons_of_mem _ hg, hnone⟩
      | failed fault =>
        rw [hrest] at ih
        obtain ⟨before, g, after, rfl, hbefore, hends, hbroken⟩ := ih
        refine ⟨h :: before, g, after, rfl, ?_, hends, .after hfirst hbroken⟩
        exact List.forall_mem_cons.mpr ⟨hpasses, hbefore⟩
      | done more =>
        rw [hrest] at ih
        show Progress (h :: handles) (first ++ more).length _
        rw [List.length_append]
        exact hfirst.append ih

def Accounts (registry : Except PollFault (List Handle))
    (outcome : Outcome PollFault (List Snapshot)) (log : List Entry) : Prop :=
  match registry, outcome with
  | .error _, _ => log = []
  | .ok handles, .done snapshots => Completed handles snapshots.length log
  | .ok handles, .failed fault => ∃ before h after, handles = before ++ h :: after ∧
    (∀ g ∈ before, Passes g) ∧ EndsWith fault h ∧ BrokenOff before fault log
  | .ok handles, .crashed => ∃ h ∈ handles, h.name = none

theorem log_poll (identity : Identity) (handles : List Handle) (now : Instant) :
    ((⟨identity, .available⟩ : Watch).poll (.ok handles) now).log =
      .log .debug "Schedulers found" [("scheduler_count", .count handles.length)] ::
        ((schedulers identity now handles).log ++
          match (schedulers identity now handles).outcome with
          | .done snapshots =>
            [.log .debug "Job snapshots built" [("snapshot_count", .count snapshots.length)],
              .gaugeSet "job_snapshots_total" snapshots.length]
          | _ => []) := by
  show List.flatMap Event.entries (.schedulersFound handles.length ::
    (schedulers identity now handles >>= fun snapshots => do
      Traced.tell (.snapshotsBuilt snapshots.length)
      Traced.tell (.snapshotCountSet snapshots.length)
      pure snapshots).events) = _
  rw [List.flatMap_cons, Traced.events_bind]
  cases (schedulers identity now handles).outcome with
  | done snapshots =>
    rw [List.flatMap_append]
    rfl
  | failed fault => simp [Traced.log, Event.entries]
  | crashed => simp [Traced.log, Event.entries]

/-- Around the schedulers a poll only tells how many there are and, at the end, what it made. -/
theorem Progress.completed {handles : List Handle} {count : Nat} {log : List Entry}
    (h : Progress handles count log) :
    Completed handles count (.log .debug "Schedulers found"
      [("scheduler_count", .count handles.length)] :: (log ++
        [.log .debug "Job snapshots built" [("snapshot_count", .count count)],
          .gaugeSet "job_snapshots_total" count])) := by
  constructor
  · refine ⟨.log .debug "Schedulers found" [("scheduler_count", .count handles.length)] ::
      (log ++ [.log .debug "Job snapshots built" [("snapshot_count", .count count)]]), by simp, ?_⟩
    rw [List.forall_mem_cons, List.forall_mem_append, List.forall_mem_singleton]
    exact ⟨rfl, h.noGauge, rfl⟩
  · rw [List.forall_mem_cons, List.forall_mem_append]
    refine ⟨by simp, h.noError, ?_⟩
    simp
  · show ((log ++ [_, _]).filterMap (Entry.count? "job_count")).sum = count
    rw [List.filterMap_append, List.sum_append, h.jobCounts]
    rfl
  · show handles.length :: (log ++ [_, _]).filterMap (Entry.count? "scheduler_count") = _
    rw [List.filterMap_append, h.schedulerCounts]
    rfl
  · show ((log ++ [_, _]).filter Entry.tellsOfExecutions).length = handles.length
    rw [List.filter_append, List.length_append, h.executions]
    rfl
  · apply Blocks.after_quiet (l := [_])
    · apply h.skips.before_quiet
      simp
    · simp

theorem BrokenOff.completed {passed : List Handle} {fault : PollFault} {log : List Entry}
    (h : BrokenOff passed fault log) (n : Nat) :
    BrokenOff passed fault
      (.log .debug "Schedulers found" [("scheduler_count", .count n)] :: log) := by
  constructor
  · exact List.forall_mem_cons.mpr ⟨rfl, h.noGauge⟩
  · obtain ⟨before, last, rfl, hlast, hbefore⟩ := h.error
    refine ⟨_ :: before, last, rfl, hlast, ?_⟩
    exact List.forall_mem_cons.mpr ⟨by simp, hbefore⟩
  · apply Blocks.after_quiet (l := [_]) h.skips
    simp

/-- With scheduling, what a poll logs and measures accounts for its result: all of it if the poll
comes to an end, what came before the failure if it fails, and nothing if the registry does not
answer; it breaks down only for want of a name. Without scheduling a poll gives no snapshots and
tells nothing, whatever the registry would answer. -/
theorem poll_accounts (identity : Identity) (now : Instant)
    (registry : Except PollFault (List Handle)) :
    Accounts registry ((⟨identity, .available⟩ : Watch).poll registry now).outcome
      ((⟨identity, .available⟩ : Watch).poll registry now).log ∧
    (⟨identity, .unavailable⟩ : Watch).poll registry now = ⟨[], .done []⟩ := by
  refine ⟨?_, rfl⟩
  cases registry with
  | error fault => rfl
  | ok handles =>
    have hrest := schedulers_account identity now handles
    rw [log_poll, outcome_poll, Outcome.ofExcept_ok, Outcome.done_bind]
    cases houtcome : (schedulers identity now handles).outcome with
    | done snapshots =>
      rw [houtcome] at hrest
      exact hrest.completed
    | failed fault =>
      rw [houtcome] at hrest
      obtain ⟨before, h, after, hhandles, hbefore, hends, hbroken⟩ := hrest
      refine ⟨before, h, after, hhandles, hbefore, hends, ?_⟩
      rw [List.append_nil]
      exact hbroken.completed handles.length
    | crashed =>
      rw [houtcome] at hrest
      exact hrest

/-- A catalog is skipped, and then the executions of another scheduler cannot be had. -/
example (identity : Identity) (now : Instant) :
    ((⟨identity, .available⟩ : Watch).poll (.ok
      [⟨some "night", .ok [], .error (.queryFailed "timeout"), fun _ => .ok [], fun _ => .ok true⟩,
        ⟨some "main", .error .lockPoisoned, .ok [], fun _ => .ok [], fun _ => .ok true⟩]) now).log =
      [.log .debug "Schedulers found" [("scheduler_count", .count 2)],
        .log .debug "Running executions found" [("executing_count", .count 0)],
        .log .warn "Failed to list jobs, skipping scheduler"
          [("scheduler", .text "night"), ("error", .text "Scheduler query failed: timeout")],
        .counterAdded "scheduler_catalog_failures_total" [("scheduler", "night")] 1,
        .log .error "Failed to list running executions"
          [("scheduler", .text "main"), ("error", .text "Scheduler state lock poisoned")]] := rfl

end Poll

end JobWatch
