import JobWatch.Proofs.Catalog.Consistency
import JobWatch.Proofs.History
import JobWatch.Proofs.Key
import JobWatch.Proofs.Poll.Share

/-!
# Which jobs are shown running

By key, the running executions of a catalog are those that were started and whose job was not
finished since. A poll looks them up by the text of the key, so that a job is shown running for the
executions of every job whose key shares its text.
-/

set_option autoImplicit false

namespace JobWatch

open Calendar (Instant)

def lastOf (key : Key) (es : List Execution) : Option Execution :=
  (es.filter (·.job.key = key)).getLast?

theorem lastUnder_eq_lastOf {key : Key} {es : List Execution}
    (hes : ∀ e ∈ es, e.job.key.dotted = key.dotted → e.job.key = key) :
    lastUnder key.dotted es = lastOf key es := by
  have hunder : es.filterMap (Execution.under key.dotted) = es.filter (·.job.key = key) := by
    rw [← List.filterMap_eq_filter]
    apply List.filterMap_congr
    intro e he
    by_cases hkey : e.job.key = key
    · simp [Execution.under, Option.guard, hkey]
    · have hdotted : e.job.key.dotted ≠ key.dotted := fun h => hkey (hes e he h)
      simp [Execution.under, Option.guard, hkey, hdotted]
  rw [lastUnder, hunder, lastOf]

namespace Snapshot

theorem Elapsed.isRunning_iff {now : Instant} {execution : Option Execution} {s : Snapshot}
    (h : Elapsed now execution s.elapsedMillis) : s.isRunning = true ↔ execution.isSome = true := by
  rw [isRunning, decide_eq_true_eq, Int64.le_iff_toInt_le]
  cases execution with
  | none =>
    have hmillis : s.elapsedMillis = -1 := h
    rw [hmillis]
    decide
  | some e =>
    have hmillis : s.elapsedMillis.toInt = max 0 (now.millisSince e.started) := h
    have hshown : 0 ≤ s.elapsedMillis.toInt := hmillis ▸ Int.le_max_left _ _
    exact iff_of_true hshown rfl

/-- A job is shown running exactly if some execution bears the text of its key. -/
theorem Depicts.isRunning_iff {identity : Identity} {now : Instant} {h : Handle}
    {running : List Execution} {job : Job} {s : Snapshot}
    (hs : Depicts identity now h running job s) :
    s.isRunning = true ↔ ∃ e ∈ running, e.job.key.dotted = job.key.dotted := by
  obtain ⟨execution, hlast, helapsed⟩ := hs.elapsed
  rw [helapsed.isRunning_iff]
  cases execution with
  | none =>
    have hnone : ∀ e ∈ running, e.job.key.dotted ≠ job.key.dotted := by
      intro e he hdotted
      have habsent := hlast e he
      simp [Execution.under, hdotted] at habsent
    simpa using hnone
  | some e =>
    obtain ⟨before, last, after, rfl, hlast, -⟩ := hlast
    have hdotted : last.job.key.dotted = job.key.dotted := by
      by_contra hne
      simp [Execution.under, hne] at hlast
    exact ⟨fun _ => ⟨last, by simp, hdotted⟩, fun _ => rfl⟩

end Snapshot

namespace Catalog

def Op.jobKey? : Op → Option Key
  | .addJob job => some job.key
  | .start e => some e.job.key
  | _ => none

/-- An execution of a job was started and the job was not finished since. -/
def StartedSince (key : Key) : List Op → Prop :=
  Since (fun _ op => ∃ e, op = .start e ∧ e.job.key = key) (fun _ op => op = .finish key)

/-- An execution of a job was started, and since then the job was not finished and no other
execution of it was started. -/
def LastStarted (key : Key) (e : Execution) : List Op → Prop :=
  Since (fun _ op => op = .start e ∧ e.job.key = key)
    (fun _ op => op = .finish key ∨ ∃ later, op = .start later ∧ later.job.key = key)

theorem lastOf_step (c : Catalog) (op : Op) (key : Key) :
    lastOf key (c.step op).running =
      match op with
      | .start e => if e.job.key = key then some e else lastOf key c.running
      | .finish job => if job = key then none else lastOf key c.running
      | _ => lastOf key c.running := by
  rw [running_step]
  cases op with
  | start e => by_cases hkey : e.job.key = key <;> simp [lastOf, hkey]
  | finish job =>
    change lastOf key (c.running.filter (·.job.key ≠ job)) = if job = key then none else _
    rw [lastOf, List.filter_filter]
    by_cases hkey : job = key
    · simp [hkey]
    · rw [if_neg hkey, lastOf]
      congr 1
      apply List.filter_congr
      intro e _
      by_cases he : e.job.key = key <;> simp [he, Ne.symm hkey]
  | _ => rfl

theorem lastOf_run_eq_some_iff (ops : List Op) (key : Key) (e : Execution) :
    lastOf key (run ops {}).running = some e ↔ LastStarted key e ops := by
  induction ops using List.reverseRecOn with
  | nil => simp [run, lastOf, LastStarted, not_since_nil]
  | append_singleton ops op ih =>
    rw [run_concat, lastOf_step, LastStarted, since_concat_iff]
    change _ ↔ _ ∨ LastStarted key e ops ∧ _
    rw [← ih]
    cases op with
    | start later =>
      by_cases hkey : later.job.key = key
      · simp only [hkey, if_true, Option.some.injEq, Op.start.injEq, exists_eq_left', or_true,
          not_true, and_false, or_false]
        exact ⟨fun h => ⟨h, h ▸ hkey⟩, And.left⟩
      · simp only [hkey, if_false, Op.start.injEq, exists_eq_left', reduceCtorEq, or_self,
          not_false_eq_true, and_true]
        refine ⟨.inr, ?_⟩
        rintro (⟨rfl, he⟩ | hlast)
        · exact absurd he hkey
        · exact hlast
    | finish job => by_cases hkey : job = key <;> simp [hkey]
    | _ => simp

theorem lastOf_run_isSome_iff (ops : List Op) (key : Key) :
    (lastOf key (run ops {}).running).isSome = true ↔ StartedSince key ops := by
  induction ops using List.reverseRecOn with
  | nil => simp [run, lastOf, StartedSince, not_since_nil]
  | append_singleton ops op ih =>
    rw [run_concat, lastOf_step, StartedSince, since_concat_iff]
    change _ ↔ _ ∨ StartedSince key ops ∧ _
    rw [← ih]
    cases op with
    | start e => by_cases hkey : e.job.key = key <;> simp [hkey]
    | finish job => by_cases hkey : job = key <;> simp [hkey]
    | _ => simp

theorem mem_jobs_step {c : Catalog} (hc : c.Consistent) {op : Op} {job : Job}
    (hjob : job ∈ (c.step op).jobs) : job ∈ c.jobs ∨ op = .addJob job := by
  rw [jobs_step] at hjob
  cases op with
  | addJob added =>
    rcases (mem_replaceOrAppend Job.key added hc.jobs_nodup job).mp hjob with rfl | ⟨hold, -⟩
    · exact .inr rfl
    · exact .inl hold
  | removeJob key => exact .inl (List.mem_of_mem_filter hjob)
  | _ => exact .inl hjob

theorem mem_running_step {c : Catalog} {op : Op} {e : Execution}
    (he : e ∈ (c.step op).running) : e ∈ c.running ∨ op = .start e := by
  rw [running_step] at he
  cases op with
  | start started =>
    rcases List.mem_append.mp he with hold | hnew
    · exact .inl hold
    · obtain rfl := List.mem_singleton.mp hnew
      exact .inr rfl
  | finish job => exact .inl (List.mem_of_mem_filter he)
  | _ => exact .inl he

theorem jobKey_mem_of_run (ops : List Op) :
    (∀ job ∈ (run ops {}).jobs, job.key ∈ ops.filterMap Op.jobKey?) ∧
    ∀ e ∈ (run ops {}).running, e.job.key ∈ ops.filterMap Op.jobKey? := by
  induction ops using List.reverseRecOn with
  | nil => simp [run]
  | append_singleton ops op ih =>
    rw [run_concat, List.filterMap_append]
    constructor
    · intro job hjob
      rcases mem_jobs_step (run_consistent ops empty_consistent) hjob with hold | rfl
      · exact List.mem_append_left _ (ih.1 job hold)
      · simp [Op.jobKey?]
    · intro e he
      rcases mem_running_step he with hold | rfl
      · exact List.mem_append_left _ (ih.2 e hold)
      · simp [Op.jobKey?]

/-- Different keys of the jobs that are added or started have different texts. -/
def NamesApart (ops : List Op) : Prop :=
  ∀ k ∈ ops.filterMap Op.jobKey?, ∀ k' ∈ ops.filterMap Op.jobKey?, k.dotted = k'.dotted → k = k'

/-- Where no two keys share a text, a poll shows a job running exactly if an execution of it was
started and the job not finished since, for as long as the last such execution has been running. -/
theorem shown_running_by_history (ops : List Op) (hnames : NamesApart ops) (name : String)
    (identity : Identity) (now : Instant) :
    ∃ block, ((run ops {}).handle name).Shares identity now block ∧
      List.Forall₂ (fun job s => s.key = job.key ∧
        (s.isRunning = true ↔ StartedSince job.key ops) ∧
        (s.isRunning = true → ∃ e, LastStarted job.key e ops ∧
          Snapshot.Elapsed now (some e) s.elapsedMillis)) (run ops {}).jobs block := by
  obtain ⟨hjobs, hrunning⟩ := jobKey_mem_of_run ops
  obtain ⟨block, hshares, hblock⟩ := exists_shares identity now name (run ops {})
  refine ⟨block, hshares, ?_⟩
  refine ((List.forall₂_and_left _ _).mpr ⟨hjobs, hblock⟩).imp ?_
  rintro job s ⟨hjob, hs⟩
  have hlookup : lastUnder job.key.dotted (run ops {}).running =
      lastOf job.key (run ops {}).running :=
    lastUnder_eq_lastOf fun e he hdotted => hnames _ (hrunning e he) _ hjob hdotted
  obtain ⟨execution, hlast, helapsed⟩ := hs.elapsed
  rw [lastGiven_iff] at hlast
  obtain rfl := hlast.trans hlookup
  refine ⟨hs.key_eq, ?_, ?_⟩
  · rw [helapsed.isRunning_iff, lastOf_run_isSome_iff]
  · intro hshown
    obtain ⟨e, he⟩ := Option.isSome_iff_exists.mp (helapsed.isRunning_iff.mp hshown)
    exact ⟨e, (lastOf_run_eq_some_iff ops job.key e).mp he, he ▸ helapsed⟩

def overlapping : List Op :=
  [.addJob ⟨⟨"sync", "pull"⟩, none, "app.Pull"⟩,
    .start ⟨⟨⟨"sync", "pull"⟩, none, "app.Pull"⟩, afterEight 0⟩,
    .start ⟨⟨⟨"sync", "push"⟩, none, "app.Push"⟩, afterEight 1⟩,
    .removeJob ⟨"sync", "pull"⟩,
    .start ⟨⟨⟨"sync", "pull"⟩, none, "app.Pull"⟩, afterEight 2⟩,
    .addJob ⟨⟨"sync", "pull"⟩, none, "app.Pull"⟩,
    .finish ⟨"sync", "push"⟩]

theorem shown_running_after_readding :
    NamesApart overlapping ∧
    ∃ s, ((run overlapping {}).handle "main").Shares ⟨"99", "127.0.0.1"⟩ (afterEight 7) [s] ∧
      s.key = ⟨"sync", "pull"⟩ ∧ s.elapsedMillis.toInt = 5000 := by
  have hnames : NamesApart overlapping := by
    unfold NamesApart
    decide +kernel
  obtain ⟨block, hshares, hblock⟩ := shown_running_by_history overlapping hnames "main"
    ⟨"99", "127.0.0.1"⟩ (afterEight 7)
  have hjobs : (run overlapping {}).jobs = [⟨⟨"sync", "pull"⟩, none, "app.Pull"⟩] := rfl
  rw [hjobs] at hblock
  obtain ⟨s, rest, ⟨hkey, hshown, hlast⟩, hrest, rfl⟩ := List.forall₂_cons_left_iff.mp hblock
  obtain rfl := List.forall₂_nil_left_iff.mp hrest
  have hstarted := (lastOf_run_isSome_iff overlapping ⟨"sync", "pull"⟩).mp rfl
  obtain ⟨e, he, helapsed⟩ := hlast (hshown.mpr hstarted)
  refine ⟨hnames, s, hshares, hkey, ?_⟩
  -- of the two executions that overlap, the later one counts
  have hlater := (lastOf_run_eq_some_iff overlapping ⟨"sync", "pull"⟩ e).mpr he
  obtain rfl := Option.some.inj hlater
  exact helapsed

/-- A job is shown running for the executions of its own key and of every key that can be confused
with it. Where no group holds a point, these are its own. -/
theorem shown_running_by_text (ops : List Op) (name : String) (identity : Identity)
    (now : Instant) :
    ∃ block, ((run ops {}).handle name).Shares identity now block ∧
      List.Forall₂ (fun job s => s.key = job.key ∧
        (s.isRunning = true ↔ ∃ e ∈ (run ops {}).running,
          e.job.key = job.key ∨ e.job.key.Confusable job.key) ∧
        ('.' ∉ job.key.group.toList →
          (∀ e ∈ (run ops {}).running, '.' ∉ e.job.key.group.toList) →
          (s.isRunning = true ↔ ∃ e ∈ (run ops {}).running, e.job.key = job.key)))
        (run ops {}).jobs block := by
  obtain ⟨block, hshares, hblock⟩ := exists_shares identity now name (run ops {})
  refine ⟨block, hshares, hblock.imp ?_⟩
  intro job s hs
  have hshown : s.isRunning = true ↔ ∃ e ∈ (run ops {}).running,
      e.job.key = job.key ∨ e.job.key.Confusable job.key := by
    simp only [hs.isRunning_iff, Key.dotted_eq_iff]
  refine ⟨hs.key_eq, hshown, ?_⟩
  intro hjob hrunning
  rw [hshown]
  refine exists_congr fun e => and_congr_right fun he => or_iff_left ?_
  intro hconfusable
  exact hconfusable.point_mem_group.elim (hrunning e he) hjob

def otherStarted : List Op :=
  [.addJob ⟨⟨"a", "b.c"⟩, none, "app.Held"⟩,
    .start ⟨⟨⟨"a.b", "c"⟩, none, "app.Other"⟩, afterEight 0⟩]

/-- A job is shown running of which no execution is under way. -/
theorem shown_running_for_other_key :
    ∃ s, ((run otherStarted {}).handle "main").Shares ⟨"99", "127.0.0.1"⟩ (afterEight 5) [s] ∧
      s.key = ⟨"a", "b.c"⟩ ∧ s.isRunning = true ∧
      ∀ e ∈ (run otherStarted {}).running, e.job.key ≠ ⟨"a", "b.c"⟩ := by
  obtain ⟨block, hshares, hblock⟩ := exists_shares ⟨"99", "127.0.0.1"⟩ (afterEight 5) "main"
    (run otherStarted {})
  have hjobs : (run otherStarted {}).jobs = [⟨⟨"a", "b.c"⟩, none, "app.Held"⟩] := rfl
  rw [hjobs] at hblock
  obtain ⟨s, rest, hs, hrest, rfl⟩ := List.forall₂_cons_left_iff.mp hblock
  obtain rfl := List.forall₂_nil_left_iff.mp hrest
  refine ⟨s, hshares, hs.key_eq, hs.isRunning_iff.mpr ?_, by decide⟩
  exact ⟨_, List.mem_singleton_self _, by decide +kernel⟩

def partsStarted : List Op :=
  [.addJob ⟨⟨"sync", "pull.fast"⟩, none, "app.Pull"⟩,
    .start ⟨⟨⟨"sync", "pull"⟩, none, "app.Pull"⟩, afterEight 0⟩,
    .start ⟨⟨⟨"pull", "fast"⟩, none, "app.Pull"⟩, afterEight 1⟩]

theorem not_shown_running_for_parts :
    '.' ∉ "sync".toList ∧ (∀ e ∈ (run partsStarted {}).running, '.' ∉ e.job.key.group.toList) ∧
    ∃ s, ((run partsStarted {}).handle "main").Shares ⟨"99", "127.0.0.1"⟩ (afterEight 5) [s] ∧
      s.key = ⟨"sync", "pull.fast"⟩ ∧ s.isRunning = false := by
  have hgroup : '.' ∉ "sync".toList := by decide
  have hgroups : ∀ e ∈ (run partsStarted {}).running, '.' ∉ e.job.key.group.toList := by decide
  obtain ⟨block, hshares, hblock⟩ := shown_running_by_text partsStarted "main"
    ⟨"99", "127.0.0.1"⟩ (afterEight 5)
  have hjobs : (run partsStarted {}).jobs = [⟨⟨"sync", "pull.fast"⟩, none, "app.Pull"⟩] := rfl
  rw [hjobs] at hblock
  obtain ⟨s, rest, ⟨hkey, -, hplain⟩, hrest, rfl⟩ := List.forall₂_cons_left_iff.mp hblock
  obtain rfl := List.forall₂_nil_left_iff.mp hrest
  refine ⟨hgroup, hgroups, s, hshares, hkey, ?_⟩
  have hshown := hplain hgroup hgroups
  rw [← Bool.not_eq_true, hshown]
  decide

end Catalog

end JobWatch
