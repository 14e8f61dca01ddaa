import JobWatch.Calendar.Instant
import Mathlib.Tactic.SplitIfs

/-!
# Time between instants

Outside leap seconds an instant is a count of nanoseconds, and the time between two instants is the
difference of their counts. Time goes on when milliseconds are added to an instant, also inside a
leap second and past its end.
-/

set_option autoImplicit false

namespace JobWatch.Calendar.Instant

theorem zero_lt_nanos : 0 < 2 * nanosPerSecond := by decide

theorem of?_eq_some_iff {day : Int} {second nano : Nat} {i : Instant} :
    of? day second nano = some i ↔ i.day = day ∧ i.second = second ∧ i.nano = nano := by
  constructor
  · intro h
    obtain ⟨_, hi⟩ := Option.dite_none_right_eq_some.mp h
    cases hi
    exact ⟨rfl, rfl, rfl⟩
  · rintro ⟨rfl, rfl, rfl⟩
    exact dif_pos ⟨i.second_lt, i.nano_lt, i.firstDay_le, i.le_lastDay⟩

theorem isLeap_iff {i : Instant} : i.isLeap = true ↔ nanosPerSecond ≤ i.nano :=
  decide_eq_true_iff

theorem isLeap_eq_false_iff {i : Instant} : i.isLeap = false ↔ i.nano < nanosPerSecond := by
  rw [← Bool.not_eq_true, isLeap_iff, Nat.not_le]

theorem parts_of_ofEpochSecond? {second : Int} {i : Instant} (h : ofEpochSecond? second = some i) :
    i.nano = 0 ∧ i.epochSecond = second := by
  obtain ⟨hday, hsecond, hnano⟩ := of?_eq_some_iff.mp h
  refine ⟨hnano, ?_⟩
  simp only [epochSecond, hday, hsecond, secondsPerDay]
  omega

theorem exists_ofEpochSecond?_between {i j : Instant} {second : Int}
    (hi : i.epochSecond ≤ second) (hj : second ≤ j.epochSecond) :
    ∃ k, ofEpochSecond? second = some k := by
  have hfirst := i.firstDay_le
  have hlast := j.le_lastDay
  have hisecond := i.second_lt
  have hjsecond := j.second_lt
  simp only [epochSecond, secondsPerDay, firstDay, lastDay] at *
  refine ⟨_, dif_pos ⟨?_, by decide, ?_, ?_⟩⟩
  all_goals
    simp only [secondsPerDay, firstDay, lastDay]
    omega

theorem lt_iff_of_whole {i whole : Instant} (hwhole : whole.nano = 0) :
    i < whole ↔ i.epochSecond < whole.epochSecond := by
  have hnano := i.nano_lt
  show i.rank < whole.rank ↔ _
  simp only [rank, hwhole, nanosPerSecond] at *
  omega

theorem le_iff_of_whole {i whole : Instant} (hwhole : whole.nano = 0) :
    whole ≤ i ↔ whole.epochSecond ≤ i.epochSecond := by
  have hlt := lt_iff_of_whole (i := i) hwhole
  rw [← Int.not_lt, ← hlt]
  exact Int.not_lt.symm

def epochNano (i : Instant) : Int := i.epochSecond * nanosPerSecond + i.nano

theorem nanosSince_eq_sub {i start : Instant} (hi : i.isLeap = false)
    (hstart : start.isLeap = false) : i.nanosSince start = i.epochNano - start.epochNano := by
  have hinano := isLeap_eq_false_iff.mp hi
  have hsnano := isLeap_eq_false_iff.mp hstart
  simp only [nanosSince, nanosBetween, epochNano, epochSecond, secondsPerDay, nanosPerSecond] at *
  split_ifs <;> omega

theorem epochNano_le {i later : Instant} (hi : i.isLeap = false) (hle : i ≤ later) :
    i.epochNano ≤ later.epochNano := by
  have hnano := isLeap_eq_false_iff.mp hi
  change i.rank ≤ later.rank at hle
  simp only [rank, epochNano, epochSecond, secondsPerDay, nanosPerSecond] at *
  omega

/-- Rounding toward zero and rounding down differ below zero only, where nothing is counted. -/
theorem max_zero_millisSince (i start : Instant) :
    max 0 (i.millisSince start) = max 0 (i.nanosSince start) / 1000000 := by
  unfold millisSince
  by_cases h : 0 ≤ i.nanosSince start
  · rw [Int.tdiv_eq_ediv_of_nonneg h]
    omega
  · have hmillis : (i.nanosSince start).tdiv 1000000 ≤ (0 : Int).tdiv 1000000 :=
      Int.tdiv_le_tdiv (by decide) (by omega)
    rw [Int.zero_tdiv] at hmillis
    omega

/-- The time since a start does not go back, and it grows by no more than the time that passes and
the rest of a millisecond. -/
theorem max_zero_millisSince_later {start now later : Instant} (hstart : start.isLeap = false)
    (hnow : now.isLeap = false) (hlater : later.isLeap = false) (hle : now ≤ later) :
    max 0 (now.millisSince start) ≤ max 0 (later.millisSince start) ∧
    max 0 (later.millisSince start) - max 0 (now.millisSince start) ≤
      later.millisSince now + 1 := by
  have hpassed := epochNano_le hnow hle
  have hmillis := max_zero_millisSince later now
  rw [max_zero_millisSince, max_zero_millisSince, nanosSince_eq_sub hnow hstart,
    nanosSince_eq_sub hlater hstart]
  rw [nanosSince_eq_sub hlater hnow] at hmillis
  have hnonneg : 0 ≤ later.millisSince now := by
    unfold millisSince
    rw [nanosSince_eq_sub hlater hnow]
    exact Int.tdiv_nonneg (by omega) (by decide)
  omega

theorem epochNano_of_addMillis? {i later : Instant} {millis : Nat} (hi : i.isLeap = false)
    (h : i.addMillis? millis = some later) :
    later.isLeap = false ∧ later.epochNano = i.epochNano + millis * 1000000 := by
  have hnano := isLeap_eq_false_iff.mp hi
  simp only [addMillis?, hi, Bool.false_eq_true, false_and, if_false] at h
  obtain ⟨hday, hsecond, hlater⟩ := of?_eq_some_iff.mp h
  simp only [isLeap, epochNano, epochSecond, hday, hsecond, hlater, secondsPerDay, nanosPerSecond,
    decide_eq_false_iff_not] at *
  omega

theorem lt_of_addMillis? {i later : Instant} {millis : Nat} (hmillis : 0 < millis)
    (h : i.addMillis? millis = some later) : i < later := by
  show i.rank < later.rank
  cases hleap : i.isLeap with
  | false =>
    have hnano := isLeap_eq_false_iff.mp hleap
    obtain ⟨hlater, hcount⟩ := epochNano_of_addMillis? hleap h
    have hlaterNano := isLeap_eq_false_iff.mp hlater
    simp only [rank, epochNano, nanosPerSecond] at *
    omega
  | true =>
    have hnano := i.nano_lt
    have hleapNano : nanosPerSecond ≤ i.nano := isLeap_iff.mp hleap
    simp only [addMillis?, hleap, true_and, if_true] at h
    split at h
    -- past the end of the leap second at least its second is over
    all_goals
      obtain ⟨hday, hsecond, hlater⟩ := of?_eq_some_iff.mp h
      simp only [rank, epochSecond, hday, hsecond, hlater, secondsPerDay, nanosPerSecond] at *
      omega

end JobWatch.Calendar.Instant
