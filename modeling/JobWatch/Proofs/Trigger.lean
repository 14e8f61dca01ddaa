import JobWatch.Proofs.Cron.Zoned

/-!
# What made triggers say

A trigger made from an expression or from an interval fires next after it last fired. Its expression
is one that can be read, and its interval is positive.
-/

set_option autoImplicit false

namespace JobWatch

open Calendar (Instant Zone)

theorem Timing.nextDue_eq_done_iff {expression : String} {z : Zone} {after : Instant}
    {next : Option Instant} :
    nextDue expression z after = .done next ↔
      ∃ s, Cron.Schedule.parse? expression = some s ∧
        s.next z after = (.done next : Outcome TimingFault (Option Instant)) := by
  rw [nextDue, schedule]
  cases Cron.Schedule.parse? expression <;> simp

namespace Trigger

theorem ofCron_eq_done_iff {key job : Key} {expression : String} {z : Zone}
    {previous : Option Instant} {now : Instant} {t : Trigger} :
    ofCron key job expression z previous now = .done t ↔
      ∃ next, Timing.nextDue expression z (previous.getD now) = .done next ∧
        t = ⟨key, job, .cron expression, previous, next⟩ := by
  rw [ofCron, Outcome.bind_eq_done_iff]
  simp only [Outcome.done.injEq, @eq_comm _ t]

/-- A cron trigger fires next at a whole second, after it last fired or after the present if it has
not fired yet, and then clocks show a time that its expression has. -/
theorem due_of_ofCron {key job : Key} {expression : String} {z : Zone} (hz : z.RunsOn)
    {previous : Option Instant} {now : Instant} {t : Trigger}
    (h : ofCron key job expression z previous now = .done t) {due : Instant}
    (hdue : t.next = some due) :
    previous.getD now < due ∧ due.nano = 0 ∧ ∃ s, Cron.Schedule.parse? expression = some s ∧
      s.DueAt (z.localTime due.epochSecond) := by
  obtain ⟨next, hnext, rfl⟩ := ofCron_eq_done_iff.mp h
  obtain ⟨s, hparse, hfound⟩ := Timing.nextDue_eq_done_iff.mp hnext
  obtain rfl : next = some due := hdue
  have hs := Cron.Schedule.orderly_of_parse? hparse
  obtain ⟨hafter, hnano, hoffered⟩ := Cron.Schedule.next_after hs hz hfound
  exact ⟨hafter, hnano, s, hparse, hoffered.due⟩

theorem ofInterval_eq_ok_iff {key job : Key} {millis : Int64} {start : Instant}
    {previous : Option Instant} {t : Trigger} :
    ofInterval key job millis start previous = .ok t ↔ 0 < millis ∧
      ∃ next, previous.elim (some start) (·.addMillis? millis.toInt.toNat) = some next ∧
        t = ⟨key, job, .every millis, previous, some next⟩ := by
  unfold ofInterval
  by_cases hmillis : millis ≤ 0
  · simp [hmillis, Int64.not_lt.mpr hmillis]
  · have hpositive : 0 < millis := Int64.not_le.mp hmillis
    rw [if_neg hmillis]
    simp only [hpositive, true_and]
    cases previous with
    | none => simp [eq_comm]
    | some last =>
      simp only [Option.elim_some]
      cases last.addMillis? millis.toInt.toNat <;> simp [eq_comm]

def OfCron (expression : String) (t : Trigger) : Prop :=
  ∃ z previous now, Zone.RunsOn z ∧ ofCron t.key t.job expression z previous now = .done t

def OfInterval (millis : Int64) (t : Trigger) : Prop :=
  ∃ start previous, ofInterval t.key t.job millis start previous = .ok t

def OfTimes (t : Trigger) : Prop := ∃ previous next, t = ofTimes t.key t.job previous next

inductive Made (t : Trigger) : Prop where
  | cron (expression : String) (h : t.OfCron expression)
  | interval (millis : Int64) (h : t.OfInterval millis)
  | times (h : t.OfTimes)

section Made

variable {t : Trigger} {expression : String} {millis : Int64}

theorem OfCron.timing_eq (h : t.OfCron expression) : t.timing = .cron expression := by
  obtain ⟨z, previous, now, -, hmade⟩ := h
  obtain ⟨next, -, ht⟩ := ofCron_eq_done_iff.mp hmade
  rw [ht]

theorem OfCron.parse?_isSome (h : t.OfCron expression) :
    (Cron.Schedule.parse? expression).isSome = true := by
  obtain ⟨z, previous, now, -, hmade⟩ := h
  obtain ⟨next, hnext, -⟩ := ofCron_eq_done_iff.mp hmade
  obtain ⟨s, hparse, -⟩ := Timing.nextDue_eq_done_iff.mp hnext
  rw [hparse]
  rfl

theorem OfCron.previous_lt_next (h : t.OfCron expression) {previous next : Instant}
    (hprevious : t.previous = some previous) (hnext : t.next = some next) : previous < next := by
  obtain ⟨z, last, now, hz, hmade⟩ := h
  have hafter := (due_of_ofCron hz hmade hnext).1
  obtain ⟨_, -, ht⟩ := ofCron_eq_done_iff.mp hmade
  obtain rfl : last = some previous := by rw [← hprevious, ht]
  exact hafter

theorem OfInterval.timing_eq (h : t.OfInterval millis) : t.timing = .every millis := by
  obtain ⟨start, previous, hmade⟩ := h
  obtain ⟨-, next, -, ht⟩ := ofInterval_eq_ok_iff.mp hmade
  rw [ht]

theorem OfInterval.positive (h : t.OfInterval millis) : 0 < millis := by
  obtain ⟨start, previous, hmade⟩ := h
  exact (ofInterval_eq_ok_iff.mp hmade).1

theorem OfInterval.exists_next (h : t.OfInterval millis) : ∃ next, t.next = some next := by
  obtain ⟨start, previous, hmade⟩ := h
  obtain ⟨-, next, -, ht⟩ := ofInterval_eq_ok_iff.mp hmade
  exact ⟨next, by rw [ht]⟩

theorem OfInterval.previous_lt_next (h : t.OfInterval millis) {previous next : Instant}
    (hprevious : t.previous = some previous) (hnext : t.next = some next) : previous < next := by
  have hpositive := Int64.lt_iff_toInt_lt.mp h.positive
  obtain ⟨start, last, hmade⟩ := h
  obtain ⟨-, due, hdue, ht⟩ := ofInterval_eq_ok_iff.mp hmade
  obtain rfl : last = some previous := by rw [← hprevious, ht]
  obtain rfl : due = next := by
    rw [ht] at hnext
    exact Option.some.inj hnext
  apply Instant.lt_of_addMillis? ?_ hdue
  rw [Int64.toInt_zero] at hpositive
  omega

theorem OfTimes.timing_eq (h : t.OfTimes) : t.timing = .other := by
  obtain ⟨previous, next, ht⟩ := h
  rw [ht]
  rfl

/-- What a made trigger fires by tells how it was made. -/
theorem Made.of_timing (h : t.Made) :
    match t.timing with
    | .cron expression => t.OfCron expression
    | .every millis => t.OfInterval millis
    | .other => t.OfTimes := by
  cases h with
  | cron expression hmade =>
    rw [hmade.timing_eq]
    exact hmade
  | interval millis hmade =>
    rw [hmade.timing_eq]
    exact hmade
  | times hmade =>
    rw [hmade.timing_eq]
    exact hmade

theorem Made.cron?_eq_some_iff (h : t.Made) :
    t.timing.cron? = some expression ↔ t.OfCron expression := by
  constructor
  · intro hcron
    have hmade := h.of_timing
    cases htiming : t.timing <;> rw [htiming] at hcron hmade <;> cases hcron
    exact hmade
  · intro hmade
    rw [hmade.timing_eq]
    rfl

theorem Made.interval?_eq_some_iff (h : t.Made) :
    t.timing.interval? = some millis ↔ t.OfInterval millis := by
  constructor
  · intro hinterval
    have hmade := h.of_timing
    cases htiming : t.timing <;> rw [htiming] at hinterval hmade <;> cases hinterval
    exact hmade
  · intro hmade
    rw [hmade.timing_eq]
    rfl

end Made

end Trigger

end JobWatch
