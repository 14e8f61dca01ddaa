import JobWatch.Calendar.Date

/-!
# Days and dates

A day falls into one year and into one month of that year, and the date made of them leads back to
the day. Days and the dates of the calendar are in the same order.
-/

set_option autoImplicit false

namespace JobWatch.Calendar

def yearLength (leap : Bool) : Nat := (monthLengths leap).foldl (· + ·) 0

theorem foldl_add_cons (length : Nat) (lengths : List Nat) :
    (length :: lengths).foldl (· + ·) 0 = length + lengths.foldl (· + ·) 0 := by
  rw [List.foldl_cons, Nat.zero_add]
  exact @List.foldl_assoc Nat (· + ·) _ lengths length 0

theorem yearStart_succ (year : Int) :
    yearStart (year + 1) = yearStart year + yearLength (isLeapYear year) := by
  by_cases hleap : isLeapYear year = true
  · have hlength : yearLength (isLeapYear year) = 366 := by
      rw [hleap]
      rfl
    simp only [isLeapYear, Bool.and_eq_true, Bool.or_eq_true, decide_eq_true_eq] at hleap
    rw [hlength]
    unfold yearStart
    omega
  · have hlength : yearLength (isLeapYear year) = 365 := by
      rw [Bool.not_eq_true] at hleap
      rw [hleap]
      rfl
    simp only [isLeapYear, Bool.and_eq_true, Bool.or_eq_true, decide_eq_true_eq] at hleap
    rw [hlength]
    unfold yearStart
    omega

theorem monthDay_eq (month : Nat) (lengths : List Nat) (dayOfYear : Nat)
    (hday : dayOfYear < lengths.foldl (· + ·) 0) :
    ∃ place length before, lengths[place]? = some length ∧
      before = (lengths.take place).foldl (· + ·) 0 ∧
      before ≤ dayOfYear ∧ dayOfYear < before + length ∧
      monthDay month lengths dayOfYear = (month + place, dayOfYear - before + 1) := by
  induction lengths generalizing month dayOfYear with
  | nil => simp at hday
  | cons length rest ih =>
    rw [foldl_add_cons] at hday
    by_cases hhere : dayOfYear < length
    · refine ⟨0, length, 0, rfl, rfl, Nat.zero_le _, by omega, ?_⟩
      cases rest with
      | nil => rfl
      | cons next rest => simp [monthDay, hhere]
    · have hrest : dayOfYear - length < rest.foldl (· + ·) 0 := by omega
      obtain ⟨place, found, before, hfound, hbefore, hle, hlt, heq⟩ :=
        ih (month + 1) (dayOfYear - length) hrest
      refine ⟨place + 1, found, length + before, hfound, ?_, by omega, by omega, ?_⟩
      · rw [List.take_succ_cons, foldl_add_cons, hbefore]
      · cases rest with
        | nil => simp at hrest
        | cons next rest =>
          rw [monthDay, if_neg hhere, heq]
          · apply Prod.ext
            · show month + 1 + place = month + (place + 1)
              omega
            · show dayOfYear - length - before + 1 = dayOfYear - (length + before) + 1
              omega
          · simp

/-- The date of a day is one of the calendar, and the day is so many days from the first. -/
theorem Date.toDays_ofDays (day : Int) :
    (Date.ofDays day).isValid = true ∧ (Date.ofDays day).toDays = day := by
  have hyear := yearStart_yearOf day
  have hsucc := yearStart_succ (yearOf day)
  have hwithin : (day - yearStart (yearOf day)).toNat < yearLength (isLeapYear (yearOf day)) := by
    omega
  obtain ⟨place, length, before, hfound, hbefore, hle, hlt, heq⟩ :=
    monthDay_eq 1 (monthLengths (isLeapYear (yearOf day))) _ hwithin
  have hplace : place < 12 := by
    have hlength := (List.getElem?_eq_some_iff.mp hfound).1
    simpa [monthLengths] using hlength
  have hdate : Date.ofDays day =
      ⟨yearOf day, 1 + place, (day - yearStart (yearOf day)).toNat - before + 1⟩ := by
    unfold Date.ofDays
    simp only [heq]
  have hmonth : 1 + place - 1 = place := by omega
  constructor
  · rw [hdate]
    simp only [Date.isValid, daysInMonth, hmonth, hfound, Option.getD_some, Bool.and_eq_true,
      decide_eq_true_eq]
    omega
  · rw [hdate]
    simp only [Date.toDays, monthStart, hmonth, ← hbefore]
    omega

theorem yearStart_le_of_lt {y z : Int} (h : y < z) : yearStart (y + 1) ≤ yearStart z := by
  unfold yearStart
  omega

theorem monthStart_add_le (leap : Bool) {m : Nat} (hm : 1 ≤ m ∧ m ≤ 12) :
    (∀ n, m < n → n ≤ 12 →
      monthStart leap m + (monthLengths leap)[m - 1]?.getD 0 ≤ monthStart leap n) ∧
    monthStart leap m + (monthLengths leap)[m - 1]?.getD 0 ≤ yearLength leap := by
  have all : ∀ leap, ∀ m ∈ List.range' 1 12, (∀ n ∈ List.range' 1 12, m < n →
        monthStart leap m + (monthLengths leap)[m - 1]?.getD 0 ≤ monthStart leap n) ∧
      monthStart leap m + (monthLengths leap)[m - 1]?.getD 0 ≤ yearLength leap := by decide
  obtain ⟨hmonths, hyear⟩ := all leap m (List.mem_range'_1.mpr (by omega))
  refine ⟨?_, hyear⟩
  intro n hmn hn
  exact hmonths n (List.mem_range'_1.mpr (by omega)) hmn

namespace Date

def Before (d e : Date) : Prop :=
  d.year < e.year ∨ d.year = e.year ∧ (d.month < e.month ∨ d.month = e.month ∧ d.day < e.day)

theorem isValid_iff (d : Date) :
    d.isValid = true ↔
      (1 ≤ d.month ∧ d.month ≤ 12) ∧ 1 ≤ d.day ∧ d.day ≤ daysInMonth d.year d.month := by
  simp [isValid, and_assoc]

theorem toDays_lt_of_before {d e : Date} (hd : d.isValid = true) (he : e.isValid = true)
    (h : d.Before e) : d.toDays < e.toDays := by
  rw [isValid_iff] at hd he
  obtain ⟨hdmonth, hdday⟩ := hd
  obtain ⟨hemonth, heday⟩ := he
  obtain ⟨hmonths, hwithin⟩ := monthStart_add_le (isLeapYear d.year) hdmonth
  rw [← daysInMonth] at hmonths hwithin
  unfold toDays
  rcases h with hyear | ⟨hyear, hmonth | ⟨hmonth, hday⟩⟩
  · have hnext := yearStart_le_of_lt hyear
    rw [yearStart_succ] at hnext
    omega
  · have hlater := hmonths e.month hmonth hemonth.2
    rw [← hyear]
    omega
  · rw [← hyear, ← hmonth]
    omega

end Date

end JobWatch.Calendar
