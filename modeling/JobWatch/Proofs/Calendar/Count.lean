import JobWatch.Proofs.Calendar.Instant

/-!
# Instants by their counts

Outside leap seconds the instants are the counts of nanoseconds between two bounds, each one instant.
To go on by milliseconds is to add to the count. What ends within the leap second that it begins in
lies in it too; past its end the leap second has taken no time.
-/

set_option autoImplicit false

namespace JobWatch.Calendar.Instant

def firstNano : Int := firstDay * secondsPerDay * nanosPerSecond

def endNano : Int := (lastDay + 1) * secondsPerDay * nanosPerSecond

def ofEpochNano? (count : Int) : Option Instant :=
  let second := count / nanosPerSecond
  of? (second / secondsPerDay) (second % secondsPerDay).toNat (count % nanosPerSecond).toNat

def LiesAfter (later i : Instant) (millis : Nat) : Prop :=
  if i.isLeap ∧ i.nano + millis * 1000000 < 2 * nanosPerSecond then
    later.isLeap ∧ later.epochNano = i.epochNano + millis * 1000000
  else
    later.isLeap = false ∧
      later.epochNano = i.epochNano - (if i.isLeap then nanosPerSecond else 0) + millis * 1000000

theorem ofEpochNano?_eq_some_iff {count : Int} {i : Instant} :
    ofEpochNano? count = some i ↔ i.isLeap = false ∧ i.epochNano = count := by
  have hsecond := i.second_lt
  rw [ofEpochNano?, of?_eq_some_iff, isLeap_eq_false_iff]
  simp only [epochNano, epochSecond, secondsPerDay, nanosPerSecond] at *
  omega

theorem range_of_epochNano {i : Instant} (hi : i.isLeap = false) :
    firstNano ≤ i.epochNano ∧ i.epochNano < endNano := by
  have hnano := isLeap_eq_false_iff.mp hi
  have hsecond := i.second_lt
  have hfirst := i.firstDay_le
  have hlast := i.le_lastDay
  simp only [firstNano, endNano, epochNano, epochSecond, firstDay, lastDay, secondsPerDay,
    nanosPerSecond] at *
  omega

theorem isSome_ofEpochNano? {count : Int} :
    (ofEpochNano? count).isSome ↔ firstNano ≤ count ∧ count < endNano := by
  constructor
  · intro h
    obtain ⟨i, hi⟩ := Option.isSome_iff_exists.mp h
    obtain ⟨hleap, rfl⟩ := ofEpochNano?_eq_some_iff.mp hi
    exact range_of_epochNano hleap
  · intro hrange
    apply Option.isSome_dite.mpr
    simp only [firstNano, endNano, firstDay, lastDay, secondsPerDay, nanosPerSecond] at *
    omega

/-- A count that is out of the range at the end stays so as time goes on. -/
theorem ofEpochNano?_eq_none_of_le {i : Instant} (hi : i.isLeap = false) {count later : Int}
    (hcount : i.epochNano ≤ count) (hout : ofEpochNano? count = none) (hle : count ≤ later) :
    ofEpochNano? later = none := by
  have hwithin := range_of_epochNano hi
  rw [← Option.not_isSome_iff_eq_none, isSome_ofEpochNano?] at *
  omega

theorem addMillis?_eq_some_iff {i later : Instant} {millis : Nat} :
    i.addMillis? millis = some later ↔ later.LiesAfter i millis := by
  have hsecond := i.second_lt
  have hlater := later.second_lt
  have hnano := i.nano_lt
  unfold addMillis? LiesAfter
  cases hi : i.isLeap with
  | false =>
    have hbefore := isLeap_eq_false_iff.mp hi
    simp only [Bool.false_eq_true, false_and, if_false, of?_eq_some_iff, isLeap_eq_false_iff]
    simp only [epochNano, epochSecond, secondsPerDay, nanosPerSecond] at *
    omega
  | true =>
    have hbefore := isLeap_iff.mp hi
    have hstays : millis / 1000 = 0 ∧ i.nano + millis % 1000 * 1000000 < 2 * nanosPerSecond ↔
        i.nano + millis * 1000000 < 2 * nanosPerSecond := by
      simp only [nanosPerSecond] at *
      omega
    simp only [true_and, if_true, hstays]
    split
    · have hlaterNano := later.nano_lt
      rw [of?_eq_some_iff, isLeap_iff]
      simp only [epochNano, epochSecond, secondsPerDay, nanosPerSecond] at *
      omega
    · rw [of?_eq_some_iff, isLeap_eq_false_iff]
      simp only [epochNano, epochSecond, secondsPerDay, nanosPerSecond] at *
      omega

theorem addMillis?_of_not_leap {i : Instant} (hi : i.isLeap = false) (millis : Nat) :
    i.addMillis? millis = ofEpochNano? (i.epochNano + millis * 1000000) := by
  apply Option.ext
  intro later
  rw [addMillis?_eq_some_iff, ofEpochNano?_eq_some_iff]
  simp [LiesAfter, hi]

end JobWatch.Calendar.Instant
