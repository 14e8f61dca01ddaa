import JobWatch.Proofs.Selection
import JobWatch.Snapshot
import Mathlib.Data.Nat.Basic
import Mathlib.Tactic.SplitIfs

/-!
# What a snapshot is made of

The questions about the triggers of a job end at the first that is not answered with "paused". The
times of a snapshot are the extremes of those of all triggers, and its running time is that since
the execution started, which always fits into 64 bits.
-/

set_option autoImplicit false

namespace JobWatch

open Calendar (Instant)

/-- Questions about some triggers in order end at an answer: every trigger before is paused. -/
def EndsAt (ask : Trigger → Except SchedulerFault Bool) (triggers : List Trigger)
    (answer : Except SchedulerFault Bool) : Prop :=
  LeadsTo (fun t => ask t = .ok true) (fun t => ask t = answer) triggers

theorem askPaused_eq_true_iff (ask : Trigger → Except SchedulerFault Bool) (asked : Nat)
    (triggers : List Trigger) :
    (askPaused (fun _ => ask) asked triggers).2 = .ok true ↔ ∀ t ∈ triggers, ask t = .ok true := by
  induction triggers generalizing asked with
  | nil => simp [askPaused]
  | cons t triggers ih =>
    rw [askPaused, List.forall_mem_cons]
    cases ht : ask t with
    | error fault => simp
    | ok paused =>
      cases paused with
      | false => simp
      | true => simpa using ih (asked + 1)

theorem askPaused_eq_iff (ask : Trigger → Except SchedulerFault Bool) (asked : Nat)
    (triggers : List Trigger) {answer : Except SchedulerFault Bool} (hanswer : answer ≠ .ok true) :
    (askPaused (fun _ => ask) asked triggers).2 = answer ↔ EndsAt ask triggers answer := by
  unfold EndsAt
  induction triggers generalizing asked with
  | nil => simpa [askPaused, not_leadsTo_nil] using hanswer.symm
  | cons t triggers ih =>
    rw [askPaused, leadsTo_cons_iff]
    cases ht : ask t with
    | error fault => simp
    | ok paused =>
      cases paused with
      | false => simp
      | true => simpa [hanswer.symm] using ih (asked + 1)

def EndsAtNumber (ask : Nat → Trigger → Except SchedulerFault Bool) (asked : Nat)
    (triggers : List Trigger) (n : Nat) (answer : Except SchedulerFault Bool) : Prop :=
  (∃ t, triggers[n]? = some t ∧ ask (asked + n) t = answer) ∧
    ∀ m < n, ∀ t, triggers[m]? = some t → ask (asked + m) t = .ok true

theorem endsAtNumber_succ_iff (ask : Nat → Trigger → Except SchedulerFault Bool) (asked : Nat)
    (t : Trigger) (triggers : List Trigger) (n : Nat) (answer : Except SchedulerFault Bool) :
    EndsAtNumber ask asked (t :: triggers) (n + 1) answer ↔
      ask asked t = .ok true ∧ EndsAtNumber ask (asked + 1) triggers n answer := by
  simp only [EndsAtNumber, Nat.forall_lt_succ_left, List.getElem?_cons_zero,
    List.getElem?_cons_succ, Option.some.injEq, forall_eq', Nat.add_zero, Nat.add_assoc,
    Nat.add_comm 1]
  exact and_left_comm

theorem askPaused_numbered_eq_true_iff (ask : Nat → Trigger → Except SchedulerFault Bool)
    (asked : Nat) (triggers : List Trigger) :
    (askPaused ask asked triggers).2 = .ok true ↔
      ∀ n t, triggers[n]? = some t → ask (asked + n) t = .ok true := by
  induction triggers generalizing asked with
  | nil => simp [askPaused]
  | cons t triggers ih =>
    have hrest := ih (asked + 1)
    simp only [Nat.add_assoc, Nat.add_comm 1] at hrest
    rw [askPaused, ← Nat.and_forall_add_one]
    simp only [List.getElem?_cons_zero, List.getElem?_cons_succ, Option.some.injEq, forall_eq',
      Nat.add_zero, ← hrest]
    cases ht : ask asked t with
    | error fault => simp
    | ok paused => cases paused <;> simp

theorem askPaused_numbered_eq_iff (ask : Nat → Trigger → Except SchedulerFault Bool) (asked : Nat)
    (triggers : List Trigger) {answer : Except SchedulerFault Bool} (hanswer : answer ≠ .ok true) :
    (askPaused ask asked triggers).2 = answer ↔ ∃ n, EndsAtNumber ask asked triggers n answer := by
  induction triggers generalizing asked with
  | nil => simpa [askPaused, EndsAtNumber] using hanswer.symm
  | cons t triggers ih =>
    rw [askPaused, ← Nat.or_exists_add_one]
    simp only [endsAtNumber_succ_iff, exists_and_left, ← ih]
    cases ht : ask asked t with
    | error fault => simp [EndsAtNumber, ht]
    | ok paused => cases paused <;> simp [EndsAtNumber, ht, hanswer.symm]

theorem askPaused_congr {ask ask' : Trigger → Except SchedulerFault Bool} {triggers : List Trigger}
    (h : ∀ t ∈ triggers, ask t = ask' t) (asked : Nat) :
    askPaused (fun _ => ask) asked triggers = askPaused (fun _ => ask') asked triggers := by
  induction triggers generalizing asked with
  | nil => rfl
  | cons t triggers ih =>
    have hrest := ih fun u hu => h u (List.mem_cons_of_mem _ hu)
    rw [askPaused, askPaused, h t List.mem_cons_self, hrest]

theorem latest?_iff (is : List Instant) (o : Option Instant) :
    o = latest? is ↔ Extreme (· ≤ ·) is o := by
  have h : Extreme (· ≤ ·) is (latest? is) := by
    cases is with
    | nil => rfl
    | cons i is =>
      exact extreme_foldl Instant.le_refl Instant.le_trans Instant.later_eq Instant.le_later i is
  constructor
  · rintro rfl
    exact h
  · exact fun ho => ho.unique (fun _ _ => Instant.le_antisymm) h

theorem earliest?_iff (is : List Instant) (o : Option Instant) :
    o = earliest? is ↔ Extreme (fun later earlier => earlier ≤ later) is o := by
  have h : Extreme (fun later earlier => earlier ≤ later) is (earliest? is) := by
    cases is with
    | nil => rfl
    | cons i is =>
      exact extreme_foldl (R := fun later earlier => earlier ≤ later) Instant.le_refl
        (fun hab hbc => Instant.le_trans hbc hab) Instant.earlier_eq Instant.earlier_le i is
  constructor
  · rintro rfl
    exact h
  · exact fun ho => ho.unique (fun _ _ hab hba => Instant.le_antisymm hba hab) h

theorem Calendar.Instant.nanosSince_bounds (i start : Instant) :
    -(Int64.maxValue.toInt * 1000000) ≤ i.nanosSince start ∧
      i.nanosSince start ≤ Int64.maxValue.toInt * 1000000 := by
  have hi := i.second_lt
  have hs := start.second_lt
  have hni := i.nano_lt
  have hns := start.nano_lt
  have hdi := And.intro i.firstDay_le i.le_lastDay
  have hds := And.intro start.firstDay_le start.le_lastDay
  simp only [Int64.toInt_maxValue, Instant.nanosSince, Instant.nanosBetween, secondsPerDay,
    nanosPerSecond, firstDay, lastDay] at *
  split_ifs <;> omega

theorem Calendar.Instant.millisSince_bounds (i start : Instant) :
    Int64.minValue.toInt ≤ i.millisSince start ∧ i.millisSince start ≤ Int64.maxValue.toInt := by
  obtain ⟨hlower, hupper⟩ := i.nanosSince_bounds start
  constructor
  · calc Int64.minValue.toInt
      _ ≤ (-(Int64.maxValue.toInt * 1000000)).tdiv 1000000 := by decide
      _ ≤ i.millisSince start := Int.tdiv_le_tdiv (by decide) hlower
  · exact Int.tdiv_le_tdiv (c := 1000000) (by decide) hupper

namespace Snapshot

theorem ofTriggers_eq_error_iff (identity : Identity) (job : Job) (execution : Option Execution)
    (triggers : List Trigger) (ask : Nat → Trigger → Except SchedulerFault Bool) (now : Instant)
    (fault : SchedulerFault) :
    ofTriggers identity job execution triggers ask now = .error fault ↔
      (askPaused ask 0 triggers).2 = .error fault := by
  unfold ofTriggers
  cases (askPaused ask 0 triggers).2 <;> simp

def Elapsed (now : Instant) (execution : Option Execution) (millis : Int64) : Prop :=
  match execution with
  | some e => millis.toInt = max 0 (now.millisSince e.started)
  | none => millis = -1

theorem toInt_elapsed_some (e : Execution) (now : Instant) :
    (elapsed (some e) now).toInt = max 0 (now.millisSince e.started) := by
  have h := now.millisSince_bounds e.started
  rw [Int64.toInt_minValue, Int64.toInt_maxValue] at h
  exact Int64.toInt_ofInt_of_le (by omega) (by omega)

theorem elapsed_iff (now : Instant) (execution : Option Execution) (millis : Int64) :
    millis = elapsed execution now ↔ Elapsed now execution millis := by
  cases execution with
  | none => rfl
  | some e => rw [← Int64.toInt_inj, toInt_elapsed_some, Elapsed]

end Snapshot

end JobWatch
