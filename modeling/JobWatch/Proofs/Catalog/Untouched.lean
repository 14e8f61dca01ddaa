import JobWatch.Proofs.Catalog.Pauses
import JobWatch.Proofs.Poll.Share

/-!
# What an operation does not touch

Jobs share one list of triggers and one set of pauses. Still an operation shows only in the
snapshots of the jobs it is about: the others stay in order and are depicted as before.
-/

set_option autoImplicit false

namespace JobWatch

open Calendar (Instant)

theorem filter_filter_of_imp {α : Type} {p q : α → Bool} {l : List α}
    (h : ∀ a ∈ l, p a = true → q a = true) : (l.filter q).filter p = l.filter p := by
  rw [List.filter_filter]
  apply List.filter_congr
  intro a ha
  cases hp : p a with
  | false => rfl
  | true => simp [h a ha hp]

theorem exists_of_forall₂ {α β : Type} {R : α → β → Prop} {l : List α} {r : List β}
    (h : List.Forall₂ R l r) {a : α} (ha : a ∈ l) : ∃ b, R a b := by
  induction h with
  | nil => cases ha
  | cons hab _ ih =>
    rcases List.mem_cons.mp ha with rfl | ha
    · exact ⟨_, hab⟩
    · exact ih ha

theorem forall₂_of_common {α β γ : Type} {R : α → β → Prop} {R' : α → γ → Prop} {S : β → γ → Prop}
    {l : List α} {r : List β} {r' : List γ} (h : List.Forall₂ R l r) (h' : List.Forall₂ R' l r')
    (hagree : ∀ a ∈ l, ∀ b b', R a b → R' a b' → S b b') : List.Forall₂ S r r' := by
  induction h generalizing r' with
  | nil =>
    cases h'
    exact .nil
  | cons hab _ ih =>
    obtain _ | ⟨hab', hrest'⟩ := h'
    have hrest := ih hrest' fun a ha => hagree a (List.mem_cons_of_mem _ ha)
    exact .cons (hagree _ List.mem_cons_self _ _ hab hab') hrest

theorem eq_of_forall₂ {α β : Type} {R R' : α → β → Prop} {l : List α} {r r' : List β}
    (h : List.Forall₂ R l r) (h' : List.Forall₂ R' l r')
    (hagree : ∀ a ∈ l, ∀ b b', R a b → R' a b' → b = b') : r = r' := by
  have hsame : List.Forall₂ (· = ·) r r' := forall₂_of_common h h' hagree
  rwa [List.forall₂_eq_eq_eq] at hsame

namespace Catalog

/-- The jobs an operation is about: the job of that key; of an execution, the jobs whose keys have
the text of its own; of a trigger, the job that owns it and the one it is scheduled for. -/
def Op.Touches (c : Catalog) (key : Key) : Op → Prop
  | .addJob job => job.key = key
  | .removeJob gone => gone = key
  | .schedule t => t.job = key ∨ c.Holds t.key key
  | .pause trigger => c.Holds trigger key
  | .resume trigger => c.Holds trigger key
  | .start e => e.job.key.dotted = key.dotted
  | .finish job => job.dotted = key.dotted

instance (c : Catalog) (key job : Key) : Decidable (c.Holds key job) :=
  inferInstanceAs (Decidable (∃ t ∈ c.triggers, t.key = key ∧ t.job = job))

instance (c : Catalog) (key : Key) : (op : Op) → Decidable (op.Touches c key)
  | .addJob job => inferInstanceAs (Decidable (job.key = key))
  | .removeJob gone => inferInstanceAs (Decidable (gone = key))
  | .schedule t => inferInstanceAs (Decidable (t.job = key ∨ c.Holds t.key key))
  | .pause trigger => inferInstanceAs (Decidable (c.Holds trigger key))
  | .resume trigger => inferInstanceAs (Decidable (c.Holds trigger key))
  | .start e => inferInstanceAs (Decidable (e.job.key.dotted = key.dotted))
  | .finish job => inferInstanceAs (Decidable (job.dotted = key.dotted))

theorem filter_jobs_step (c : Catalog) (op : Op) :
    (c.step op).jobs.filter (fun job => ¬ op.Touches c job.key) =
      c.jobs.filter fun job => ¬ op.Touches c job.key := by
  rw [jobs_step]
  cases op with
  | addJob added =>
    apply filter_replaceOrAppend
    · simp [Op.Touches]
    · intro job _ hkey
      simp [Op.Touches, hkey]
  | removeJob gone =>
    apply filter_filter_of_imp
    intro job _ huntouched
    have hgone : ¬ gone = job.key := of_decide_eq_true huntouched
    exact decide_eq_true (Ne.symm hgone)
  | schedule | pause | resume | start | finish => rfl

section Untouched

variable {c : Catalog} {op : Op} {key : Key} (huntouched : ¬ op.Touches c key)

include huntouched

theorem triggersOf_of_untouched : (c.step op).triggersOf key = c.triggersOf key := by
  rw [triggersOf, triggers_step]
  cases op with
  | schedule t =>
    obtain ⟨hjob, hholds⟩ := not_or.mp huntouched
    apply filter_replaceOrAppend
    · exact decide_eq_false hjob
    · intro u hu hkey
      apply decide_eq_false
      intro hukey
      exact hholds ⟨u, hu, hkey, hukey⟩
  | removeJob gone =>
    apply filter_filter_of_imp
    intro t _ hjob
    have hgone : ¬ t.job = gone := by
      rw [of_decide_eq_true hjob]
      exact Ne.symm huntouched
    exact decide_eq_true hgone
  | addJob | pause | resume | start | finish => rfl

theorem isPaused_of_untouched (hc : c.Consistent) {t : Trigger} (ht : t ∈ c.triggersOf key) :
    (c.step op).isPaused t.key = c.isPaused t.key := by
  have hafter : t ∈ (c.step op).triggersOf key := by
    rw [triggersOf_of_untouched huntouched]
    exact ht
  obtain ⟨hheld, hjob⟩ := List.mem_filter.mp ht
  have hholds : c.Holds t.key key := ⟨t, hheld, rfl, of_decide_eq_true hjob⟩
  apply isPaused_congr
  · rw [(holdsTrigger_iff c t.key).mpr (List.mem_map_of_mem hheld)]
    exact (holdsTrigger_iff _ t.key).mpr (List.mem_map_of_mem (List.mem_of_mem_filter hafter))
  · rw [mem_paused_step_iff]
    have hpause : op ≠ .pause t.key := by
      rintro rfl
      exact huntouched hholds
    have hresume : op ≠ .resume t.key := by
      rintro rfl
      exact huntouched hholds
    have hremoved : ¬ ∃ job, op = .removeJob job ∧ c.Holds t.key job := by
      rintro ⟨job, rfl, howner⟩
      exact huntouched (howner.unique hc hholds)
    simp [hpause, hresume, hremoved]

theorem lastUnder_of_untouched :
    lastUnder key.dotted (c.step op).running = lastUnder key.dotted c.running := by
  rw [running_step]
  cases op with
  | start e =>
    rw [lastUnder_concat]
    exact if_neg huntouched
  | finish job =>
    have hdotted : ¬ job.dotted = key.dotted := huntouched
    show lastUnder key.dotted (c.running.filter (·.job.key ≠ job)) = _
    rw [lastUnder, List.filterMap_filter, lastUnder]
    congr 1
    apply List.filterMap_congr
    intro e _
    by_cases hkey : e.job.key = job
    · simp [Execution.under, hkey, hdotted]
    · simp [hkey]
  | addJob | removeJob | schedule | pause | resume => rfl

/-- A job that is not touched has the snapshot that it had. -/
theorem snapshot_of_untouched (hc : c.Consistent) (name : String) (identity : Identity)
    (now : Instant) {job : Job} (hjob : job.key = key) :
    ((c.step op).handle name).snapshot identity job
        ((Executions.ofList (c.step op).running).get? job.key.dotted) now =
      (c.handle name).snapshot identity job
        ((Executions.ofList c.running).get? job.key.dotted) now := by
  subst hjob
  have hasked := askPaused_congr
    (fun t (ht : t ∈ c.triggersOf job.key) => isPaused_of_untouched huntouched hc ht) 0
  rw [Executions.get?_ofList, Executions.get?_ofList, lastUnder_of_untouched huntouched]
  show Snapshot.ofTriggers identity job _ ((c.step op).triggersOf job.key)
      (fun _ t => (c.step op).isPaused t.key) now =
    Snapshot.ofTriggers identity job _ (c.triggersOf job.key) (fun _ t => c.isPaused t.key) now
  rw [triggersOf_of_untouched huntouched, Snapshot.ofTriggers, Snapshot.ofTriggers, hasked]

theorem depicts_of_untouched (hc : c.Consistent) (name : String) (identity : Identity)
    (now : Instant) {job : Job} (hjob : job.key = key) (s : Snapshot) :
    Snapshot.Depicts identity now ((c.step op).handle name) (c.step op).running job s ↔
      Snapshot.Depicts identity now (c.handle name) c.running job s := by
  have hsnapshot := snapshot_of_untouched huntouched hc name identity now hjob
  rw [Executions.get?_ofList, Executions.get?_ofList] at hsnapshot
  rw [← Snapshot.snapshot_eq_ok_iff, ← Snapshot.snapshot_eq_ok_iff, hsnapshot]

end Untouched

/-- Of the snapshots of a catalog, those of some jobs. -/
theorem filter_depicts {identity : Identity} {now : Instant} {h : Handle}
    {running : List Execution} {jobs : List Job} {block : List Snapshot}
    (hblock : List.Forall₂ (Snapshot.Depicts identity now h running) jobs block)
    (keep : Key → Bool) :
    List.Forall₂ (Snapshot.Depicts identity now h running) (jobs.filter fun job => keep job.key)
      (block.filter fun s => keep s.key) := by
  apply List.rel_filter _ hblock
  intro job s hs
  simp only [hs.key_eq]

/-- The jobs an operation does not touch stay in order, and everything a poll asks about one of them
is answered as before: its triggers, their pauses and its last execution. So it has the snapshot
that it had, and the snapshots of these jobs stand in the same order in every poll. -/
theorem untouched_depicted_as_before (ops : List Op) (op : Op) (name : String)
    (identity : Identity) (now : Instant) :
    let c := run ops {}
    (c.step op).jobs.filter (fun job => ¬ op.Touches c job.key) =
      c.jobs.filter (fun job => ¬ op.Touches c job.key) ∧
    (∀ job ∈ c.jobs, ¬ op.Touches c job.key →
      job ∈ (c.step op).jobs ∧
      ((c.step op).handle name).triggersOf job.key = (c.handle name).triggersOf job.key ∧
      (∀ t ∈ c.triggersOf job.key,
        ((c.step op).handle name).isPaused t.key = (c.handle name).isPaused t.key) ∧
      (Executions.ofList (c.step op).running).get? job.key.dotted =
        (Executions.ofList c.running).get? job.key.dotted ∧
      ∃ s, (c.handle name).snapshot identity job
          ((Executions.ofList c.running).get? job.key.dotted) now = .ok s ∧
        ((c.step op).handle name).snapshot identity job
          ((Executions.ofList (c.step op).running).get? job.key.dotted) now = .ok s) ∧
    ∃ before after, (c.handle name).Shares identity now before ∧
      ((c.step op).handle name).Shares identity now after ∧
      after.filter (fun s => ¬ op.Touches c s.key) =
        before.filter fun s => ¬ op.Touches c s.key := by
  intro c
  have hc : c.Consistent := run_consistent ops empty_consistent
  obtain ⟨before, hbefore, hdepictsBefore⟩ := c.exists_shares identity now name
  obtain ⟨after, hafter, hdepictsAfter⟩ := (c.step op).exists_shares identity now name
  refine ⟨filter_jobs_step c op, ?_, before, after, hbefore, hafter, ?_⟩
  · intro job hjob huntouched
    have hkept : job ∈ (c.step op).jobs.filter fun job => ¬ op.Touches c job.key := by
      rw [filter_jobs_step]
      exact List.mem_filter.mpr ⟨hjob, decide_eq_true huntouched⟩
    have hexecution : (Executions.ofList (c.step op).running).get? job.key.dotted =
        (Executions.ofList c.running).get? job.key.dotted := by
      rw [Executions.get?_ofList, Executions.get?_ofList, lastUnder_of_untouched huntouched]
    obtain ⟨s, hs⟩ := exists_of_forall₂ hdepictsBefore hjob
    rw [← Snapshot.snapshot_eq_ok_iff, ← Executions.get?_ofList] at hs
    refine ⟨List.mem_of_mem_filter hkept, ?_, ?_, hexecution, s, hs, ?_⟩
    · exact congrArg Except.ok (triggersOf_of_untouched huntouched)
    · intro t ht
      exact isPaused_of_untouched huntouched hc ht
    · rw [snapshot_of_untouched huntouched hc name identity now rfl, hs]
  · have hsame := filter_depicts hdepictsAfter fun key => ¬ op.Touches c key
    rw [filter_jobs_step] at hsame
    apply eq_of_forall₂ hsame (filter_depicts hdepictsBefore fun key => ¬ op.Touches c key)
    intro job hjob s s' hs hs'
    have huntouched : ¬ op.Touches c job.key := of_decide_eq_true (List.mem_filter.mp hjob).2
    exact ((depicts_of_untouched huntouched hc name identity now rfl s).mp hs).unique hs'

def movedWhilePaused : List Op :=
  [.addJob ⟨⟨"sync", "pull"⟩, none, "app.Pull"⟩,
    .addJob ⟨⟨"sync", "push"⟩, none, "app.Push"⟩,
    .schedule ⟨⟨"sync", "hourly"⟩, ⟨"sync", "pull"⟩, .other, none, none⟩,
    .pause ⟨"sync", "hourly"⟩,
    .schedule ⟨⟨"sync", "hourly"⟩, ⟨"sync", "push"⟩, .other, none, none⟩]

/-- With the job that the trigger left, the pause does not go. -/
theorem paused_after_other_job_removed :
    ((run movedWhilePaused {}).step (.removeJob ⟨"sync", "pull"⟩)).jobs =
      [⟨⟨"sync", "push"⟩, none, "app.Push"⟩] ∧
    (((run movedWhilePaused {}).step (.removeJob ⟨"sync", "pull"⟩)).handle "main").isPaused
      ⟨"sync", "hourly"⟩ = .ok true := by
  obtain ⟨-, hjobs, -⟩ := untouched_depicted_as_before movedWhilePaused
    (.removeJob ⟨"sync", "pull"⟩) "main" ⟨"99", "127.0.0.1"⟩ (afterEight 0)
  obtain ⟨-, -, hpaused, -, -⟩ :=
    hjobs ⟨⟨"sync", "push"⟩, none, "app.Push"⟩ (by decide) (by decide)
  refine ⟨rfl, ?_⟩
  rw [hpaused ⟨⟨"sync", "hourly"⟩, ⟨"sync", "push"⟩, .other, none, none⟩ (by decide)]
  rfl

end Catalog

end JobWatch
