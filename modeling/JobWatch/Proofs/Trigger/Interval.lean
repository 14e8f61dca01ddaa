import JobWatch.Proofs.Calendar.Count
import JobWatch.Proofs.Trigger.Refired

/-!
# Triggers at a fixed interval

A trigger at a fixed interval is made if the interval is positive and does not lead past the latest
instant. Made again whenever it fires, it is due at the multiples of its interval from the start on,
up to the first that is out of the range.
-/

set_option autoImplicit false

namespace JobWatch

open Calendar (Instant lastDay)

namespace Trigger

theorem stop_of_refired {make : Option Instant → Option Trigger} {rounds : Nat}
    {previous : Option Instant} (h : (refired make rounds previous).length < rounds) :
    (make ((refired make rounds previous).getLast?.or previous)).bind (·.next) = none := by
  induction rounds generalizing previous with
  | zero => cases h
  | succ rounds ih =>
    rw [refired] at h ⊢
    cases hmade : (make previous).bind (·.next) with
    | none => exact hmade
    | some due =>
      rw [hmade] at h
      have hrest := ih (Nat.lt_of_succ_lt_succ h)
      rw [Option.or_some] at hrest
      simpa [List.getLast?_cons] using hrest

section Interval

variable {key job : Key} {millis : Int64} {start : Instant} {previous : Option Instant}

theorem ofInterval_eq_error_iff {fault : TimingFault} :
    ofInterval key job millis start previous = .error fault ↔
      (∀ t, ofInterval key job millis start previous ≠ .ok t) ∧ fault = .badInterval millis := by
  unfold ofInterval
  by_cases hmillis : millis ≤ 0
  · simp [hmillis, eq_comm]
  · rw [if_neg hmillis]
    cases previous with
    | none => simp
    | some last =>
      dsimp only
      cases last.addMillis? millis.toInt.toNat <;> simp [eq_comm]

theorem exists_ofInterval_iff :
    (∃ t, ofInterval key job millis start previous = .ok t) ↔
      0 < millis ∧ ∀ last ∈ previous, ∃ next : Instant, next.LiesAfter last millis.toInt.toNat := by
  simp only [ofInterval_eq_ok_iff, ← Instant.addMillis?_eq_some_iff]
  cases previous <;> simp

theorem next_ofInterval (hmillis : 0 < millis) :
    (ofInterval key job millis start previous).toOption.bind (·.next) =
      previous.elim (some start) (·.addMillis? millis.toInt.toNat) := by
  unfold ofInterval
  rw [if_neg (Int64.not_le.mpr hmillis)]
  cases previous with
  | none => rfl
  | some last =>
    dsimp only [Option.elim_some]
    cases last.addMillis? millis.toInt.toNat <;> rfl

theorem toInt_of_pos (hmillis : 0 < millis) :
    0 < millis.toInt.toNat ∧ (millis.toInt.toNat : Int) = millis.toInt := by
  have hpos := Int64.lt_iff_toInt_lt.mp hmillis
  rw [Int64.toInt_zero] at hpos
  omega

/-- Outside leap seconds a trigger is due the multiples of its interval after it last fired. -/
theorem getElem?_refired_ofInterval (hmillis : 0 < millis) {last : Instant}
    (hlast : last.isLeap = false) {rounds k : Nat} (hk : k < rounds) :
    (refired (fun previous => (ofInterval key job millis start previous).toOption) rounds
        (some last))[k]? =
      Instant.ofEpochNano? (last.epochNano + (k + 1 : Nat) * (millis.toInt * 1000000)) := by
  obtain ⟨-, hlength⟩ := toInt_of_pos hmillis
  induction rounds generalizing last k with
  | zero => cases hk
  | succ rounds ih =>
    have hnext : (ofInterval key job millis start (some last)).toOption.bind (·.next) =
        last.addMillis? millis.toInt.toNat := next_ofInterval hmillis
    rw [Instant.addMillis?_of_not_leap hlast, hlength] at hnext
    rw [refired, hnext]
    cases hdue : Instant.ofEpochNano? (last.epochNano + millis.toInt * 1000000) with
    | none =>
      symm
      have hfirst : 1 * (millis.toInt * 1000000) ≤ (k + 1 : Nat) * (millis.toInt * 1000000) :=
        Int.mul_le_mul_of_nonneg_right (by omega) (by omega)
      exact Instant.ofEpochNano?_eq_none_of_le hlast (by omega) hdue (by omega)
    | some due =>
      obtain ⟨hleap, hcount⟩ := Instant.ofEpochNano?_eq_some_iff.mp hdue
      cases k with
      | zero =>
        rw [Nat.zero_add, Int.natCast_one, Int.one_mul, hdue]
        rfl
      | succ k =>
        have hsum : ((k + 1 + 1 : Nat) : Int) * (millis.toInt * 1000000) =
            (k + 1 : Nat) * (millis.toInt * 1000000) + millis.toInt * 1000000 := by
          rw [Int.natCast_succ, Int.add_mul, Int.one_mul]
        rw [List.getElem?_cons_succ, ih hleap (Nat.lt_of_succ_lt_succ hk), hcount, hsum]
        congr 1
        omega

theorem getElem?_refired_from_start (hmillis : 0 < millis) (hstart : start.isLeap = false)
    {rounds k : Nat} (hk : k < rounds) :
    (refired (fun previous => (ofInterval key job millis start previous).toOption) rounds none)[k]? =
      Instant.ofEpochNano? (start.epochNano + k * (millis.toInt * 1000000)) := by
  cases rounds with
  | zero => cases hk
  | succ rounds =>
    rw [refired, next_ofInterval hmillis, Option.elim_none]
    cases k with
    | zero =>
      rw [Int.natCast_zero, Int.zero_mul, Int.add_zero]
      exact (Instant.ofEpochNano?_eq_some_iff.mpr ⟨hstart, rfl⟩).symm
    | succ k => exact getElem?_refired_ofInterval hmillis hstart (Nat.lt_of_succ_lt_succ hk)

/-- A trigger that is made at an interval is due. -/
theorem refused_of_not_due
    (h : (ofInterval key job millis start previous).toOption.bind (·.next) = none) :
    ofInterval key job millis start previous = .error (.badInterval millis) := by
  apply ofInterval_eq_error_iff.mpr
  refine ⟨?_, rfl⟩
  intro t ht
  obtain ⟨-, next, -, rfl⟩ := ofInterval_eq_ok_iff.mp ht
  rw [ht] at h
  cases h

/-- A trigger is made at an interval exactly if the interval is positive and leads from the last fire
to an instant, and otherwise refused with the interval. It is due at the start if it has not fired,
and else after it last fired, by the interval if that was not in a leap second. Made again whenever
it fires, from a start outside leap seconds it is due at the multiples of the interval, up to the
first that is out of the range, where it is refused. -/
theorem ofInterval_multiples (key job : Key) (millis : Int64) (start : Instant) :
    (∀ previous,
      ((∃ t, ofInterval key job millis start previous = .ok t) ↔
        0 < millis ∧ ∀ last ∈ previous, ∃ next : Instant,
          next.LiesAfter last millis.toInt.toNat) ∧
      (∀ fault, ofInterval key job millis start previous = .error fault →
        fault = .badInterval millis) ∧
      ∀ t, ofInterval key job millis start previous = .ok t →
        ∃ next, t = ⟨key, job, .every millis, previous, some next⟩ ∧
          (previous = none → next = start) ∧
          ∀ last ∈ previous, last < next ∧
            (last.isLeap = false → next.isLeap = false ∧
              next.nanosSince last = millis.toInt * 1000000)) ∧
    (0 < millis → start.isLeap = false → ∀ rounds,
      let make := fun previous => (ofInterval key job millis start previous).toOption
      let dues := refired make rounds none
      (∀ k < rounds,
        dues[k]? = Instant.ofEpochNano? (start.epochNano + k * (millis.toInt * 1000000))) ∧
      (dues.length < rounds →
        ofInterval key job millis start dues.getLast? = .error (.badInterval millis))) := by
  constructor
  · intro previous
    refine ⟨exists_ofInterval_iff, fun fault h => (ofInterval_eq_error_iff.mp h).2, ?_⟩
    intro t h
    obtain ⟨hmillis, next, hnext, rfl⟩ := ofInterval_eq_ok_iff.mp h
    obtain ⟨hpos, hlength⟩ := toInt_of_pos hmillis
    refine ⟨next, rfl, ?_, ?_⟩
    · rintro rfl
      exact (Option.some.inj hnext).symm
    · intro last hlast
      obtain rfl := Option.mem_def.mp hlast
      refine ⟨Instant.lt_of_addMillis? hpos hnext, ?_⟩
      intro hleap
      obtain ⟨hnextLeap, hcount⟩ := Instant.epochNano_of_addMillis? hleap hnext
      refine ⟨hnextLeap, ?_⟩
      rw [Instant.nanosSince_eq_sub hnextLeap hleap, hcount, hlength]
      omega
  · intro hmillis hstart rounds make dues
    constructor
    · intro k hk
      exact getElem?_refired_from_start hmillis hstart hk
    · intro hshort
      have hstop := stop_of_refired hshort
      rw [Option.or_none] at hstop
      exact refused_of_not_due hstop

end Interval

theorem lastSecond_lt : 86399 < Calendar.secondsPerDay := by decide

def inLastSecond (nano : Fin 1000000000) : Instant where
  day := lastDay
  second := 86399
  nano := nano
  second_lt := lastSecond_lt
  nano_lt := Nat.lt_trans nano.isLt (by decide)
  firstDay_le := by decide
  le_lastDay := Int.le_refl lastDay

theorem due_up_to_the_end :
    let make := fun previous =>
      (ofInterval ⟨"sync", "often"⟩ ⟨"sync", "pull"⟩ 1 (inLastSecond 998000000) previous).toOption
    0 < (1 : Int64) ∧ (inLastSecond 998000000).isLeap = false ∧
    refired make 3 none = [inLastSecond 998000000, inLastSecond 999000000] ∧
    Instant.ofEpochNano? ((inLastSecond 998000000).epochNano + 2 * 1000000) = none ∧
    ofInterval ⟨"sync", "often"⟩ ⟨"sync", "pull"⟩ 1 (inLastSecond 998000000)
      (some (inLastSecond 999000000)) = .error (.badInterval 1) := by
  intro make
  have hmillis : 0 < (1 : Int64) := by decide
  have hstart : (inLastSecond 998000000).isLeap = false := by decide
  have hdues : refired make 3 none = [inLastSecond 998000000, inLastSecond 999000000] := by
    decide +kernel
  obtain ⟨-, hruns⟩ := ofInterval_multiples ⟨"sync", "often"⟩ ⟨"sync", "pull"⟩ 1
    (inLastSecond 998000000)
  obtain ⟨hmultiples, hrefused⟩ := hruns hmillis hstart 3
  have hthird := hmultiples 2 (by decide)
  rw [hdues] at hthird hrefused
  exact ⟨hmillis, hstart, hdues, hthird.symm, hrefused (by decide)⟩

end Trigger

end JobWatch
