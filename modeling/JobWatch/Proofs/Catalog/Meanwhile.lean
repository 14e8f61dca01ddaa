import JobWatch.Proofs.Catalog.Pauses
import JobWatch.Proofs.Poll.Share

/-!
# Snapshots of a catalog that changes meanwhile

A snapshot takes several queries: one for the triggers of the job and one for each question about
them. What is done between two queries shows in the later one. The snapshot is made unless a trigger
that was listed is taken away before it is asked about: its owner was removed, and nothing was
scheduled under its key since.
-/

set_option autoImplicit false

namespace JobWatch

open Calendar (Instant)

/-- A snapshot for which one scheduler lists the triggers and others are asked about them. -/
def Handle.snapshotAmid (listing : Handle) (asked : Nat → Handle) (identity : Identity) (job : Job)
    (execution : Option Execution) (now : Instant) : Except SchedulerFault Snapshot := do
  let triggers ← listing.triggersOf job.key
  Snapshot.ofTriggers identity job execution triggers (fun n t => (asked n).isPaused t.key) now

-- A scheduler that does not change makes the snapshot of a poll.
example (h : Handle) (identity : Identity) (job : Job) (execution : Option Execution)
    (now : Instant) : h.snapshotAmid (fun _ => h) identity job execution now =
      h.snapshot identity job execution now := rfl

namespace Catalog

def doneBy (meanwhile : Nat → List Op) (n : Nat) : List Op :=
  (List.range (n + 1)).flatMap meanwhile

/-- A snapshot of a job that is made while operations go on: the triggers are listed after `past`,
and the operations `meanwhile n` come right before the question with number `n`. -/
def snapshotMeanwhile (name : String) (past : List Op) (meanwhile : Nat → List Op)
    (identity : Identity) (job : Job) (execution : Option Execution) (now : Instant) :
    Except SchedulerFault Snapshot :=
  ((run past {}).handle name).snapshotAmid
    (fun n => (run (past ++ doneBy meanwhile n) {}).handle name) identity job execution now

/-- The job that owned a trigger was removed, and nothing was scheduled under its key since. -/
def TakenAway (key : Key) (past : List Op) : List Op → Prop :=
  Since (fun before op => ∃ owner, op = .removeJob owner ∧ owner? key (past ++ before) = some owner)
    (fun _ op => (op.ownerUnder key).isSome)

def PausedAt (key : Key) (past later : List Op) : Prop :=
  ¬ TakenAway key past later ∧ PausedSince key (past ++ later)

theorem takenAway_iff {key : Key} {past : List Op} (hpast : Scheduled key past)
    (later : List Op) : TakenAway key past later ↔ ¬ Scheduled key (past ++ later) := by
  induction later using List.reverseRecOn with
  | nil => simpa [TakenAway, not_since_nil] using hpast
  | append_singleton later op ih =>
    rw [TakenAway, since_concat_iff, ← List.append_assoc, scheduled_concat_iff]
    change _ ∨ TakenAway key past later ∧ _ ↔ _
    rw [ih]
    cases hop : op.ownerUnder key with
    | none =>
      simp only [Option.isSome_none, Bool.false_eq_true, not_false_eq_true, and_true, false_or,
        not_and_or, not_not]
      exact or_comm
    | some owner =>
      -- what schedules a trigger removes no job
      have hkeeps : ∀ job, op ≠ .removeJob job := by
        rintro job rfl
        cases hop
      simp [hkeeps]

theorem scheduled_of_mem_triggersOf {past : List Op} {job : Key} {t : Trigger}
    (ht : t ∈ (run past {}).triggersOf job) : Scheduled t.key past := by
  rw [← holdsTrigger_iff_scheduled, holdsTrigger_iff]
  exact List.mem_map_of_mem (List.mem_of_mem_filter ht)

/-- A question about a trigger that was listed fails if the trigger was taken away since, and has
the answer of its history otherwise. -/
theorem isPaused_later {key : Key} {past : List Op} (hpast : Scheduled key past)
    (later : List Op) :
    TakenAway key past later ∧
      (run (past ++ later) {}).isPaused key = .error (.unknownTrigger key.dotted) ∨
    ¬ TakenAway key past later ∧ ∃ paused, (run (past ++ later) {}).isPaused key = .ok paused ∧
      (paused = true ↔ PausedSince key (past ++ later)) := by
  have htaken := takenAway_iff hpast later
  have hheld := holdsTrigger_iff_scheduled (past ++ later) key
  by_cases hthere : Scheduled key (past ++ later)
  · refine .inr ⟨fun h => htaken.mp h hthere, _, if_pos (hheld.mpr hthere), ?_⟩
    rw [List.contains_iff_mem, mem_paused_iff _ key hthere]
  · exact .inl ⟨htaken.mpr hthere, if_neg (mt hheld.mp hthere)⟩

section Answers

variable {key : Key} {past : List Op} (hpast : Scheduled key past) (later : List Op)
include hpast

theorem isPaused_eq_error_iff_takenAway (fault : SchedulerFault) :
    (run (past ++ later) {}).isPaused key = .error fault ↔
      TakenAway key past later ∧ fault = .unknownTrigger key.dotted := by
  rcases isPaused_later hpast later with ⟨htaken, hanswer⟩ | ⟨htaken, paused, hanswer, -⟩
  · simp [hanswer, htaken, eq_comm]
  · simp [hanswer, htaken]

theorem isPaused_eq_ok_iff_pausedSince (paused : Bool) :
    (run (past ++ later) {}).isPaused key = .ok paused ↔
      ¬ TakenAway key past later ∧ (paused = true ↔ PausedSince key (past ++ later)) := by
  rcases isPaused_later hpast later with ⟨htaken, hanswer⟩ | ⟨htaken, answer, hanswer, hsince⟩
  · simp [hanswer, htaken]
  · rw [hanswer, ← hsince]
    cases paused <;> cases answer <;> simp [htaken]

end Answers

def PausedBefore (past : List Op) (meanwhile : Nat → List Op) (job : Key) (n : Nat) : Prop :=
  ∀ m < n, ∀ t, ((run past {}).triggersOf job)[m]? = some t →
    PausedAt t.key past (doneBy meanwhile m)

def askMeanwhile (past : List Op) (meanwhile : Nat → List Op) (n : Nat) (t : Trigger) :
    Except SchedulerFault Bool :=
  (run (past ++ doneBy meanwhile n) {}).isPaused t.key

theorem pausedBefore_iff (past : List Op) (meanwhile : Nat → List Op) (job : Key) (n : Nat) :
    PausedBefore past meanwhile job n ↔
      ∀ m < n, ∀ t, ((run past {}).triggersOf job)[m]? = some t →
        askMeanwhile past meanwhile m t = .ok true := by
  refine forall₂_congr fun m _ => forall₂_congr fun t ht => ?_
  have hpast := scheduled_of_mem_triggersOf (List.mem_of_getElem? ht)
  rw [askMeanwhile, isPaused_eq_ok_iff_pausedSince hpast, PausedAt, eq_self, true_iff]

theorem endsAtNumber_iff (past : List Op) (meanwhile : Nat → List Op) (job : Key) (n : Nat)
    (answer : Except SchedulerFault Bool) :
    EndsAtNumber (askMeanwhile past meanwhile) 0 ((run past {}).triggersOf job) n answer ↔
      (∃ t, ((run past {}).triggersOf job)[n]? = some t ∧
        askMeanwhile past meanwhile n t = answer) ∧
      PausedBefore past meanwhile job n := by
  simp only [EndsAtNumber, pausedBefore_iff, Nat.zero_add]

theorem askMeanwhile_fails_iff (past : List Op) (meanwhile : Nat → List Op) (job : Key)
    (fault : SchedulerFault) :
    (askPaused (askMeanwhile past meanwhile) 0 ((run past {}).triggersOf job)).2 = .error fault ↔
      ∃ n, (∃ t, ((run past {}).triggersOf job)[n]? = some t ∧
        TakenAway t.key past (doneBy meanwhile n) ∧ fault = .unknownTrigger t.key.dotted) ∧
        PausedBefore past meanwhile job n := by
  rw [askPaused_numbered_eq_iff _ _ _ (by simp)]
  refine exists_congr fun n => ?_
  rw [endsAtNumber_iff]
  refine and_congr_left fun _ => exists_congr fun t => and_congr_right fun ht => ?_
  exact isPaused_eq_error_iff_takenAway
    (scheduled_of_mem_triggersOf (List.mem_of_getElem? ht)) _ fault

theorem askMeanwhile_answers_iff (past : List Op) (meanwhile : Nat → List Op) (job : Key)
    (paused : Bool) :
    (askPaused (askMeanwhile past meanwhile) 0 ((run past {}).triggersOf job)).2 = .ok paused ↔
      if paused then ∀ n, PausedBefore past meanwhile job n
      else ∃ n, (∃ t, ((run past {}).triggersOf job)[n]? = some t ∧
        ¬ TakenAway t.key past (doneBy meanwhile n) ∧
        ¬ PausedSince t.key (past ++ doneBy meanwhile n)) ∧
        PausedBefore past meanwhile job n := by
  cases paused with
  | true =>
    rw [askPaused_numbered_eq_true_iff, if_pos rfl]
    simp only [pausedBefore_iff, Nat.zero_add]
    exact ⟨fun h n m _ => h m, fun h n => h (n + 1) n (Nat.lt_succ_self n)⟩
  | false =>
    rw [askPaused_numbered_eq_iff _ _ _ (by simp), if_neg (by simp)]
    refine exists_congr fun n => ?_
    rw [endsAtNumber_iff]
    refine and_congr_left fun _ => exists_congr fun t => and_congr_right fun ht => ?_
    have hpast := scheduled_of_mem_triggersOf (List.mem_of_getElem? ht)
    rw [askMeanwhile, isPaused_eq_ok_iff_pausedSince hpast]
    simp

/-- While the owner of a catalog goes on, a snapshot of a job fails exactly if a listed trigger is
taken away before it is asked about and the questions come that far; the fault names the trigger.
Otherwise the job is shown with the listed triggers, and as paused if each of them is paused when it
is asked about. -/
theorem snapshot_meanwhile (name : String) (past : List Op) (meanwhile : Nat → List Op)
    (identity : Identity) (job : Job) (execution : Option Execution) (now : Instant) :
    (∀ fault, snapshotMeanwhile name past meanwhile identity job execution now = .error fault ↔
      ∃ n, (∃ t, ((run past {}).triggersOf job.key)[n]? = some t ∧
        TakenAway t.key past (doneBy meanwhile n) ∧ fault = .unknownTrigger t.key.dotted) ∧
        PausedBefore past meanwhile job.key n) ∧
    (∀ s : Snapshot, snapshotMeanwhile name past meanwhile identity job execution now = .ok s ↔
      (if s.paused then ∀ n, PausedBefore past meanwhile job.key n
      else ∃ n, (∃ t, ((run past {}).triggersOf job.key)[n]? = some t ∧
        ¬ TakenAway t.key past (doneBy meanwhile n) ∧
        ¬ PausedSince t.key (past ++ doneBy meanwhile n)) ∧
        PausedBefore past meanwhile job.key n) ∧
      s = Snapshot.of identity job execution ((run past {}).triggersOf job.key) s.paused now) ∧
    ((∀ n t, ((run past {}).triggersOf job.key)[n]? = some t →
        ¬ TakenAway t.key past (doneBy meanwhile n)) →
      ∃ s, snapshotMeanwhile name past meanwhile identity job execution now = .ok s) := by
  have hasked : snapshotMeanwhile name past meanwhile identity job execution now =
      Snapshot.ofTriggers identity job execution ((run past {}).triggersOf job.key)
        (askMeanwhile past meanwhile) now := rfl
  have hfails := askMeanwhile_fails_iff past meanwhile job.key
  refine ⟨?_, ?_, ?_⟩
  · intro fault
    rw [hasked, Snapshot.ofTriggers_eq_error_iff, hfails]
  · intro s
    rw [hasked, Snapshot.ofTriggers_eq_ok_iff, askMeanwhile_answers_iff]
  · intro hthere
    cases hresult : snapshotMeanwhile name past meanwhile identity job execution now with
    | ok s => exact ⟨s, rfl⟩
    | error fault =>
      rw [hasked, Snapshot.ofTriggers_eq_error_iff, hfails] at hresult
      obtain ⟨n, ⟨t, ht, htaken, -⟩, -⟩ := hresult
      exact absurd htaken (hthere n t ht)

def pulledHourly : List Op :=
  [.addJob ⟨⟨"sync", "pull"⟩, none, "app.Pull"⟩,
    .schedule ⟨⟨"sync", "hourly"⟩, ⟨"sync", "pull"⟩, .other, none, none⟩]

/-- A job of the catalog that is removed in the middle of its snapshot has none. -/
theorem no_snapshot_of_job_removed_meanwhile :
    ⟨⟨"sync", "pull"⟩, none, "app.Pull"⟩ ∈ (run pulledHourly {}).jobs ∧
    snapshotMeanwhile "main" pulledHourly (fun _ => [.removeJob ⟨"sync", "pull"⟩])
      ⟨"99", "127.0.0.1"⟩ ⟨⟨"sync", "pull"⟩, none, "app.Pull"⟩ none (afterEight 5) =
        .error (.unknownTrigger "sync.hourly") :=
  ⟨by decide, by decide +kernel⟩

def handedOverFirst (n : Nat) : List Op :=
  if n = 0 then
    [.pause ⟨"sync", "hourly"⟩,
      .schedule ⟨⟨"sync", "hourly"⟩, ⟨"sync", "push"⟩, .other, none, none⟩,
      .removeJob ⟨"sync", "pull"⟩]
  else []

theorem snapshot_with_trigger_handed_over :
    (∀ n t, ((run pulledHourly {}).triggersOf ⟨"sync", "pull"⟩)[n]? = some t →
      ¬ TakenAway t.key pulledHourly (doneBy handedOverFirst n)) ∧
    ∃ s, snapshotMeanwhile "main" pulledHourly handedOverFirst ⟨"99", "127.0.0.1"⟩
      ⟨⟨"sync", "pull"⟩, none, "app.Pull"⟩ none (afterEight 5) = .ok s := by
  have hthere : ∀ n t, ((run pulledHourly {}).triggersOf ⟨"sync", "pull"⟩)[n]? = some t →
      ¬ TakenAway t.key pulledHourly (doneBy handedOverFirst n) := by
    intro n t ht
    have hpast := scheduled_of_mem_triggersOf (List.mem_of_getElem? ht)
    rw [takenAway_iff hpast, not_not, ← holdsTrigger_iff_scheduled]
    match n, ht with
    | 0, ht =>
      obtain rfl := Option.some.inj ht
      decide
    | n + 1, ht => cases ht
  exact ⟨hthere, (snapshot_meanwhile "main" pulledHourly handedOverFirst ⟨"99", "127.0.0.1"⟩
    ⟨⟨"sync", "pull"⟩, none, "app.Pull"⟩ none (afterEight 5)).2.2 hthere⟩

end Catalog

end JobWatch
