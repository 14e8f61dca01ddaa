import JobWatch.Proofs.Catalog.Untouched
import JobWatch.Proofs.Table

/-!
# What a catalog holds, and in which order

Jobs and triggers are two tables edited by one history. A job is taken out by removing it, a trigger
by removing the job that owns it. A value that replaces another keeps its place, also when it moves a
trigger to another job.
-/

set_option autoImplicit false

namespace JobWatch.Catalog

def Op.added? : Op → Option Job
  | .addJob job => some job
  | _ => none

def Op.scheduled? : Op → Option Trigger
  | .schedule t => some t
  | _ => none

def jobEdits : Edits Op Job Key where
  keyOf := Job.key
  put? := Op.added?
  Takes _ op key := op = .removeJob key
  not_takes := by
    rintro _ _ _ hput rfl
    cases hput

def triggerEdits : Edits Op Trigger Key where
  keyOf := Trigger.key
  put? := Op.scheduled?
  Takes past op key := ∃ job, op = .removeJob job ∧ owner? key past = some job
  not_takes := by
    rintro _ _ _ hput ⟨job, rfl, -⟩
    cases hput

theorem ownerUnder_eq (key : Key) (op : Op) :
    op.ownerUnder key = (triggerEdits.putUnder? key op).map (·.job) := by
  cases op with
  | schedule t =>
    rw [Edits.putUnder?_of_put (E := triggerEdits) rfl]
    show (if t.key = key then some t.job else none) = Option.map _ (if t.key = key then _ else _)
    split <;> rfl
  | _ => rfl

/-- The owner of a trigger is the job of the latest trigger under its key. -/
theorem owner?_eq (key : Key) (history : List Op) :
    owner? key history = (triggerEdits.latest? key history).map (·.job) := by
  have hunder : Op.ownerUnder key = fun op => (triggerEdits.putUnder? key op).map (·.job) :=
    funext (ownerUnder_eq key)
  rw [owner?, hunder, ← List.map_filterMap, List.getLast?_map]
  rfl

theorem lists_jobs (ops : List Op) : jobEdits.Lists ops (fun _ => True) (run ops {}).jobs := by
  induction ops using List.reverseRecOn with
  | nil => exact Edits.lists_nil _
  | append_singleton ops op ih =>
    rw [run_concat, jobs_step]
    cases op with
    | addJob job => exact ih.put rfl
    | removeJob key =>
      apply ih.take rfl
      intro job _
      show decide (job.key ≠ key) = true ↔ ¬ Op.removeJob key = .removeJob job.key
      rw [decide_eq_true_eq, Op.removeJob.injEq, ne_comm]
    | _ => exact ih.stay rfl nofun

theorem lists_triggers (ops : List Op) :
    triggerEdits.Lists ops (fun _ => True) (run ops {}).triggers := by
  induction ops using List.reverseRecOn with
  | nil => exact Edits.lists_nil _
  | append_singleton ops op ih =>
    rw [run_concat, triggers_step]
    cases op with
    | schedule t => exact ih.put rfl
    | removeJob key =>
      apply ih.take rfl
      intro t ht
      have hlatest : triggerEdits.latest? t.key ops = some t := ((ih.mem_iff t).mp ht).2.1
      have howner : owner? t.key ops = some t.job := by
        rw [owner?_eq, hlatest]
        rfl
      show decide (t.job ≠ key) = true ↔
        ¬ ∃ job, Op.removeJob key = .removeJob job ∧ owner? t.key ops = some job
      rw [howner, decide_eq_true_eq]
      apply not_congr
      constructor
      · rintro rfl
        exact ⟨t.job, rfl, rfl⟩
      · rintro ⟨job, hjob, howned⟩
        rw [Op.removeJob.inj hjob, Option.some.inj howned]
    | _ => exact ih.stay rfl nofun

theorem lists_triggersOf (ops : List Op) (job : Key) :
    triggerEdits.Lists ops (fun t => t.job = job) ((run ops {}).triggersOf job) := by
  have hlists := (lists_triggers ops).filter fun t => t.job = job
  simp only [true_and, decide_eq_true_eq] at hlists
  exact hlists

theorem filter_triggersOf {ops : List Op} {t : Trigger} (ht : t ∈ (run ops {}).triggers)
    (job : Key) :
    ((run ops {}).triggersOf job).filter (·.key = t.key) = if t.job = job then [t] else [] := by
  have hone : (run ops {}).triggers.filter (·.key = t.key) = [t] :=
    filter_key_of_mem (lists_triggers ops).distinct ht
  rw [triggersOf, List.filter_comm, hone]
  by_cases hjob : t.job = job <;> simp [hjob]

theorem triggersOf_removeJob (c : Catalog) (key job : Key) :
    (c.step (.removeJob key)).triggersOf job = if job = key then [] else c.triggersOf job := by
  by_cases hjob : job = key
  · rw [if_pos hjob, triggersOf, triggers_step, List.filter_filter]
    apply List.filter_eq_nil_iff.mpr
    intro t _
    simp [hjob]
  · rw [if_neg hjob]
    have huntouched : ¬ (Op.removeJob key).Touches c job := Ne.symm hjob
    exact triggersOf_of_untouched huntouched

/-- What is answered about jobs and triggers follows from what was done. The catalog lists each job
that was added and not removed since, and for a job the triggers that were scheduled for it last and
not removed with their owner since: each with its latest content and once, at the place at which its
key came. A trigger is listed for one job only. Removing a job is answered by whether it was there;
it takes out that job and its triggers, leaves the rest in order and lets executions run on. -/
theorem contents_by_history (ops : List Op) (name : String) :
    let h := (run ops {}).handle name
    (∃ jobs, h.jobs = .ok jobs ∧ jobEdits.Lists ops (fun _ => True) jobs) ∧
    (∀ job, ∃ triggers, h.triggersOf job = .ok triggers ∧
      triggerEdits.Lists ops (fun t => t.job = job) triggers) ∧
    (∀ key, jobEdits.Present key ops → ∃! place, jobEdits.CameAt key place ops) ∧
    (∀ key, triggerEdits.Present key ops →
      (∃! place, triggerEdits.CameAt key place ops) ∧
      ∃ t, triggerEdits.latest? key ops = some t ∧
        ∀ job, (h.triggersOf job).map (List.filter (·.key = key)) =
          .ok (if t.job = job then [t] else [])) ∧
    ∀ key,
      let after := ((run ops {}).step (.removeJob key)).handle name
      (∃ removed, (run ops {}).reply (.removeJob key) = .ok (some removed) ∧
        (removed = true ↔ jobEdits.Present key ops)) ∧
      after.jobs = h.jobs.map (List.filter (·.key ≠ key)) ∧
      (∀ job, after.triggersOf job = if job = key then .ok [] else h.triggersOf job) ∧
      after.executions = h.executions := by
  intro h
  have hjobs := lists_jobs ops
  have htriggers := lists_triggers ops
  refine ⟨⟨_, rfl, hjobs⟩, fun job => ⟨_, rfl, lists_triggersOf ops job⟩, ?_, ?_, ?_⟩
  · intro key hpresent
    exact Edits.existsUnique_cameAt hpresent
  · intro key hpresent
    obtain ⟨t, ht⟩ := hpresent.exists_latest?
    obtain rfl : t.key = key := Edits.keyOf_of_latest? ht
    have hheld := (htriggers.mem_iff t).mpr ⟨hpresent, ht, trivial⟩
    refine ⟨Edits.existsUnique_cameAt hpresent, t, ht, ?_⟩
    intro job
    exact congrArg Except.ok (filter_triggersOf hheld job)
  · intro key
    refine ⟨⟨(run ops {}).holdsJob key, rfl, ?_⟩, rfl, ?_, rfl⟩
    · exact (holdsJob_iff _ key).trans (hjobs.present_iff key)
    · intro job
      show Except.ok (((run ops {}).step (.removeJob key)).triggersOf job) = _
      rw [triggersOf_removeJob]
      split <;> rfl

def readdedAndMoved : List Op :=
  [.addJob ⟨⟨"sync", "pull"⟩, none, "app.Pull"⟩,
    .addJob ⟨⟨"sync", "push"⟩, none, "app.Push"⟩,
    .removeJob ⟨"sync", "pull"⟩,
    .addJob ⟨⟨"sync", "pull"⟩, none, "app.Pull"⟩,
    .addJob ⟨⟨"sync", "push"⟩, some "nightly", "app.Push"⟩,
    .schedule ⟨⟨"sync", "hourly"⟩, ⟨"sync", "pull"⟩, .other, none, none⟩,
    .schedule ⟨⟨"sync", "daily"⟩, ⟨"sync", "push"⟩, .other, none, none⟩,
    .schedule ⟨⟨"sync", "hourly"⟩, ⟨"sync", "push"⟩, .other, none, none⟩]

theorem readded_last_moved_first :
    jobEdits.CameBefore readdedAndMoved ⟨"sync", "push"⟩ ⟨"sync", "pull"⟩ ∧
    triggerEdits.CameBefore readdedAndMoved ⟨"sync", "hourly"⟩ ⟨"sync", "daily"⟩ ∧
    (∃! place, jobEdits.CameAt ⟨"sync", "pull"⟩ place readdedAndMoved) ∧
    ∃! place, triggerEdits.CameAt ⟨"sync", "hourly"⟩ place readdedAndMoved := by
  obtain ⟨⟨jobs, hjobs, hlisted⟩, htriggers, hjobPlace, htriggerPlace, -⟩ :=
    contents_by_history readdedAndMoved "main"
  obtain ⟨triggers, htriggersOf, hfired⟩ := htriggers ⟨"sync", "push"⟩
  cases hjobs
  cases htriggersOf
  have hjobOrder : [⟨"sync", "push"⟩, ⟨"sync", "pull"⟩].Pairwise
    (jobEdits.CameBefore readdedAndMoved) := hlisted.order
  have htriggerOrder : [⟨"sync", "hourly"⟩, ⟨"sync", "daily"⟩].Pairwise
    (triggerEdits.CameBefore readdedAndMoved) := hfired.order
  have hpull := ((hlisted.mem_iff ⟨⟨"sync", "pull"⟩, none, "app.Pull"⟩).mp (by decide)).1
  have hhourly := ((hfired.mem_iff
    ⟨⟨"sync", "hourly"⟩, ⟨"sync", "push"⟩, .other, none, none⟩).mp (by decide)).1
  refine ⟨?_, ?_, hjobPlace _ hpull, (htriggerPlace _ hhourly).1⟩
  · exact List.rel_of_pairwise_cons hjobOrder List.mem_cons_self
  · exact List.rel_of_pairwise_cons htriggerOrder List.mem_cons_self

end JobWatch.Catalog
