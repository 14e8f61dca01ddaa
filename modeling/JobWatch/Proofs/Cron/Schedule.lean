import JobWatch.Cron.Schedule
import Mathlib.Data.List.Basic

/-!
# Numbers of a schedule

An expression that is read has numbers of each field only, and in ascending order.
-/

set_option autoImplicit false

namespace JobWatch.Cron

structure Schedule.Orderly (s : Schedule) : Prop where
  seconds : s.seconds.Sublist Field.seconds.numbers
  minutes : s.minutes.Sublist Field.minutes.numbers
  hours : s.hours.Sublist Field.hours.numbers
  daysOfMonth : s.daysOfMonth.Sublist Field.daysOfMonth.numbers
  months : s.months.Sublist Field.months.numbers
  daysOfWeek : s.daysOfWeek.Sublist Field.daysOfWeek.numbers
  years : s.years.Sublist Field.years.numbers

theorem Field.ascending {f : Field} {numbers : List Nat} (h : numbers.Sublist f.numbers) :
    numbers.Pairwise (· < ·) := by
  have hall : f.numbers.Pairwise (· < ·) := List.pairwise_lt_range'
  exact hall.sublist h

theorem Field.bounds {f : Field} {numbers : List Nat} (h : numbers.Sublist f.numbers) {n : Nat}
    (hn : n ∈ numbers) : f.least ≤ n ∧ n ≤ f.greatest := by
  have hmem := List.mem_range'_1.mp (h.subset hn)
  omega

theorem Field.resolve?_sublist {f : Field} {items : List Item} {numbers : List Nat}
    (h : f.resolve? items = some numbers) : numbers.Sublist f.numbers := by
  obtain ⟨strides, -, hnumbers⟩ := Option.bind_eq_some_iff.mp h
  cases hnumbers
  exact List.filter_sublist

theorem Schedule.orderly_of_parse? {source : String} {s : Schedule}
    (h : Schedule.parse? source = some s) : s.Orderly := by
  simp only [Schedule.parse?, bind, Option.bind_eq_some_iff, Option.some.injEq] at h
  obtain ⟨l, -, _, hseconds, _, hminutes, _, hhours, _, hdays, _, hmonths, _, hweekdays, _, hyears,
    rfl⟩ := h
  exact ⟨Field.resolve?_sublist hseconds, Field.resolve?_sublist hminutes,
    Field.resolve?_sublist hhours, Field.resolve?_sublist hdays, Field.resolve?_sublist hmonths,
    Field.resolve?_sublist hweekdays, Field.resolve?_sublist hyears⟩

end JobWatch.Cron
