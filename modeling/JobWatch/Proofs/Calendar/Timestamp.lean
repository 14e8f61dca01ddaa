import JobWatch.Calendar.Timestamp
import JobWatch.Proofs.Calendar.Date
import JobWatch.Proofs.Calendar.Instant
import JobWatch.Proofs.Text.Digits
import JobWatch.Proofs.Text.Parser

/-!
# Instants are read back from their text

Each part of the text of an instant is read up to its end and gives the part back: years of any
number of digits and of either sign, fractions of every length, and seconds numbered 60. Only a leap
second inside a minute has no text of its own; it is written, and read back, as the second after it.
-/

set_option autoImplicit false

namespace JobWatch.Calendar

open JobWatch.Text JobWatch.Text.Parser

def Separates (c : Char) : Prop := isDigit c = false ∧ isBlank c = false

instance (c : Char) : Decidable (Separates c) :=
  inferInstanceAs (Decidable (isDigit c = false ∧ isBlank c = false))

theorem ne_of_isDigit {c d : Char} (hc : isDigit c = true) (hd : isDigit d = false) : c ≠ d := by
  intro h
  rw [h, hd] at hc
  cases hc

theorem isBlank_of_isDigit {c : Char} (h : isDigit c = true) : isBlank c = false := by
  simp only [isDigit, Bool.and_eq_true, decide_eq_true_eq] at h
  have hzero : '0'.toNat = 48 := rfl
  have hnine : '9'.toNat = 57 := rfl
  simp only [isBlank, blankRanges, List.any_cons, List.any_nil, Bool.or_false, Bool.or_eq_false_iff,
    Bool.and_eq_false_iff, decide_eq_false_iff_not]
  omega

theorem stopsAt_digits {ok : Char → Bool} {digits : List Char}
    (hdigits : ∀ c ∈ digits, isDigit c = true) (hne : digits ≠ [])
    (hok : ∀ c, isDigit c = true → ok c = false) (s : List Char) : StopsAt ok (digits ++ s) := by
  cases digits with
  | nil => exact absurd rfl hne
  | cons c digits => exact stopsAt_cons (hok c (hdigits c (by simp))) (digits ++ s)

theorem Date.length_decimal_le_of_isValid {d : Date} (hd : d.isValid = true) :
    (decimal d.month).length ≤ 2 ∧ (decimal d.day).length ≤ 2 := by
  have hlengths : ∀ length ∈ monthLengths (isLeapYear d.year), length ≤ 31 := by
    cases isLeapYear d.year <;> decide
  have hlast : daysInMonth d.year d.month ≤ 31 := by
    unfold daysInMonth
    cases h : (monthLengths (isLeapYear d.year))[d.month - 1]? with
    | none => exact Nat.zero_le 31
    | some length => exact hlengths length (List.mem_of_getElem? h)
  simp only [Date.isValid, Bool.and_eq_true, decide_eq_true_eq] at hd
  constructor
  · apply length_decimal_le 1
    show d.month < 100
    omega
  · apply length_decimal_le 1
    show d.day < 100
    omega

namespace Timestamp

theorem blanks_cons {c : Char} (h : isBlank c = false) (s : List Char) :
    blanks (c :: s) = some ((), c :: s) :=
  skip_of_stopsAt (stopsAt_cons h s)

theorem blanks_digits {digits : List Char} (hdigits : ∀ c ∈ digits, isDigit c = true)
    (hne : digits ≠ []) (s : List Char) : blanks (digits ++ s) = some ((), digits ++ s) := by
  apply skip_of_stopsAt
  exact stopsAt_digits hdigits hne (fun c hc => isBlank_of_isDigit hc) s

theorem separator_cons {c : Char} (h : Separates c) (s : List Char) :
    separator c (c :: s) = some ((), s) := by
  rw [separator, bind_of_eq (blanks_cons h.2 s)]
  exact char_cons c s

theorem digitsUpTo_append {digits : List Char} (hdigits : ∀ c ∈ digits, isDigit c = true)
    (s : List Char) : digitsUpTo digits.length (digits ++ s) = some (digits, s) := by
  induction digits with
  | nil => rfl
  | cons c digits ih =>
    have hfirst : maybe (charOf isDigit) (c :: (digits ++ s)) = some (some c, digits ++ s) :=
      maybe_of_eq (charOf_cons (hdigits c (by simp)) (digits ++ s))
    have hmore := ih fun d hd => hdigits d (by simp [hd])
    rw [List.length_cons, List.cons_append, digitsUpTo, bind_of_eq hfirst]
    show (digitsUpTo digits.length >>= fun more => pure (c :: more)) (digits ++ s) = _
    rw [bind_of_eq hmore]
    rfl

theorem number_padded {width n : Nat} (h : (decimal n).length ≤ width) (s : List Char) :
    number width (padded width n ++ s) = some (n, s) := by
  have hdigits := isDigit_of_mem_padded width n
  have hne := padded_ne_nil width n
  have hread := digitsUpTo_append hdigits s
  rw [length_padded h] at hread
  rw [number, bind_of_eq (blanks_digits hdigits hne s), bind_of_eq hread,
    if_neg (by simpa using hne), ofDecimal_padded]
  rfl

/-- A year of four digits ends by itself. -/
theorem year_padded {n : Nat} (hn : n < 10000) (s : List Char) :
    year (padded 4 n ++ s) = some ((n : Int), s) := by
  have hlength : (decimal n).length ≤ 4 := length_decimal_le 3 n hn
  have hdigits := isDigit_of_mem_padded 4 n
  have hne := padded_ne_nil 4 n
  have hunsigned : maybe (charOf fun c => c = '+' || c = '-') (padded 4 n ++ s) =
      some (none, padded 4 n ++ s) := by
    apply maybe_of_eq_none
    apply charOf_of_stopsAt
    apply stopsAt_digits hdigits hne
    intro d hd
    have hplus := ne_of_isDigit hd (by decide : isDigit '+' = false)
    have hminus := ne_of_isDigit hd (by decide : isDigit '-' = false)
    simp [hplus, hminus]
  rw [year, bind_of_eq (blanks_digits hdigits hne _), bind_of_eq hunsigned]
  show (number 4 >>= fun y => pure (y : Int)) _ = _
  rw [bind_of_eq (number_padded hlength _)]
  rfl

theorem year_signed (n : Nat) {sign c : Char} (hsign : sign = '+' ∨ sign = '-')
    (hc : isDigit c = false) (s : List Char) :
    year (sign :: padded 4 n ++ c :: s) =
      some (if sign = '-' then -(n : Int) else n, c :: s) := by
  have hread := run1_append (isDigit_of_mem_padded 4 n) (padded_ne_nil 4 n) (stopsAt_cons hc s)
  have hkinds : isBlank sign = false ∧ (sign = '+' || sign = '-') = true := by
    rcases hsign with rfl | rfl <;> decide
  rw [year, List.cons_append, bind_of_eq (blanks_cons hkinds.1 _),
    bind_of_eq (maybe_of_eq (charOf_cons hkinds.2 _))]
  show (run1 isDigit >>= _) _ = _
  rw [bind_of_eq hread, ofDecimal_padded]
  rfl

theorem year_text (y : Int) {c : Char} (hc : isDigit c = false) (s : List Char) :
    year (yearText y ++ c :: s) = some (y, c :: s) := by
  unfold yearText
  by_cases hplain : 0 ≤ y ∧ y ≤ 9999
  · rw [if_pos hplain, year_padded (by omega), Int.toNat_of_nonneg hplain.1]
  · rw [if_neg hplain]
    by_cases hneg : y < 0
    · have habs : -(y.natAbs : Int) = y := by omega
      rw [if_pos hneg, year_signed y.natAbs (.inr rfl) hc, if_pos rfl, habs]
    · have habs : (y.natAbs : Int) = y := by omega
      rw [if_neg hneg, year_signed y.natAbs (.inl rfl) hc, if_neg (by decide), habs]

theorem date_text {d : Date} (hd : d.isValid = true) (s : List Char) :
    date (d.text ++ s) = some (d, s) := by
  obtain ⟨hmonth, hday⟩ := d.length_decimal_le_of_isValid hd
  have htext : d.text ++ s =
      yearText d.year ++ '-' :: (padded 2 d.month ++ '-' :: (padded 2 d.day ++ s)) := by
    simp [Date.text]
  rw [htext, date, bind_of_eq (year_text d.year (by decide) _),
    bind_of_eq (separator_cons (by decide) _), bind_of_eq (number_padded hmonth _),
    bind_of_eq (separator_cons (by decide) _), bind_of_eq (number_padded hday _)]
  rfl

theorem fraction_padded {width n nano : Nat} (hn : (decimal n).length ≤ width) (hwidth : width ≤ 9)
    (hvalue : n * Nat.pow 10 (9 - width) = nano) {c : Char} (hdigit : isDigit c = false)
    (s : List Char) : fraction ('.' :: padded width n ++ c :: s) = some (nano, c :: s) := by
  have hlength := length_padded hn
  have hkept : (padded width n).take 9 = padded width n := by
    rw [List.take_of_length_le]
    omega
  have hdigits := run1_append (isDigit_of_mem_padded width n) (padded_ne_nil width n)
    (stopsAt_cons hdigit s)
  have hpoint := maybe_of_eq (char_cons '.' (padded width n ++ c :: s))
  rw [fraction, List.cons_append, bind_of_eq hpoint]
  show (run1 isDigit >>= _) _ = _
  rw [bind_of_eq hdigits]
  simp only [hkept, hlength]
  rw [ofDecimal_append_zeros, ofDecimal_padded, hvalue]
  rfl

theorem fraction_text {nano : Nat} (hnano : nano < nanosPerSecond) {c : Char}
    (hdigit : isDigit c = false) (hpoint : c ≠ '.') (s : List Char) :
    fraction (fractionText nano ++ c :: s) = some (nano, c :: s) := by
  unfold nanosPerSecond at hnano
  unfold fractionText
  by_cases hnone : nano = 0
  · have habsent : maybe (char '.') (c :: s) = some (none, c :: s) := by
      apply maybe_of_eq_none
      rw [char, if_neg hpoint]
    rw [if_pos hnone, List.nil_append, fraction, bind_of_eq habsent, hnone]
    rfl
  rw [if_neg hnone]
  by_cases hmillis : nano % 1000000 = 0
  · rw [if_pos hmillis]
    apply fraction_padded (length_decimal_le 2 (nano / 1000000) _) (by omega) _ hdigit
    · show nano / 1000000 < 1000
      omega
    · show nano / 1000000 * 1000000 = nano
      omega
  rw [if_neg hmillis]
  by_cases hmicros : nano % 1000 = 0
  · rw [if_pos hmicros]
    apply fraction_padded (length_decimal_le 5 (nano / 1000) _) (by omega) _ hdigit
    · show nano / 1000 < 1000000
      omega
    · show nano / 1000 * 1000 = nano
      omega
  · rw [if_neg hmicros]
    apply fraction_padded (length_decimal_le 8 nano hnano) (by omega) _ hdigit
    show nano * 1 = nano
    omega

/-- The time of day that a text names. A leap second inside a minute has the number of the second
after it. -/
def asWritten (second nano : Nat) : Nat × Nat :=
  if nanosPerSecond ≤ nano ∧ second % 60 ≠ 59 then (second + 1, nano - nanosPerSecond)
  else (second, nano)

theorem time_text {second nano : Nat} (hsecond : second < secondsPerDay)
    (hnano : nano < 2 * nanosPerSecond) {c : Char} (hdigit : isDigit c = false) (hpoint : c ≠ '.')
    (s : List Char) :
    time (timeText second nano ++ c :: s) = some (asWritten second nano, c :: s) := by
  unfold secondsPerDay at hsecond
  have htwo : ∀ n, n < 100 → (decimal n).length ≤ 2 := length_decimal_le 1
  have hsixty : second % 60 + nano / nanosPerSecond ≤ 60 := by
    unfold nanosPerSecond at *
    omega
  have hrest : nano % nanosPerSecond < nanosPerSecond := Nat.mod_lt _ (by decide)
  have htext : timeText second nano ++ c :: s =
      padded 2 (second / 3600) ++ ':' :: (padded 2 (second / 60 % 60) ++
        ':' :: (padded 2 (second % 60 + nano / nanosPerSecond) ++
          (fractionText (nano % nanosPerSecond) ++ c :: s))) := by
    simp [timeText]
  rw [htext, time, bind_of_eq (number_padded (htwo _ (by omega)) _),
    bind_of_eq (separator_cons (by decide) _), bind_of_eq (number_padded (htwo _ (by omega)) _),
    bind_of_eq (separator_cons (by decide) _), bind_of_eq (number_padded (htwo _ (by omega)) _),
    bind_of_eq (fraction_text hrest hdigit hpoint s)]
  unfold asWritten
  by_cases hplain : nano < nanosPerSecond
  · have hparts : second % 60 + nano / nanosPerSecond < 60 ∧
        second / 3600 * 3600 + second / 60 % 60 * 60 +
          (second % 60 + nano / nanosPerSecond) = second ∧
        nano % nanosPerSecond = nano := by
      unfold nanosPerSecond at *
      omega
    rw [if_pos ⟨by omega, by omega, hparts.1⟩, hparts.2.1, hparts.2.2, if_neg (by omega)]
    rfl
  by_cases hlast : second % 60 = 59
  · have hparts : second % 60 + nano / nanosPerSecond = 60 ∧
        second / 3600 * 3600 + second / 60 % 60 * 60 + 59 = second ∧
        nanosPerSecond + nano % nanosPerSecond = nano := by
      unfold nanosPerSecond at *
      omega
    rw [if_neg (by omega), if_pos ⟨by omega, by omega, hparts.1⟩, hparts.2.1, hparts.2.2,
      if_neg (by omega)]
    rfl
  · have hparts : second % 60 + nano / nanosPerSecond < 60 ∧
        second / 3600 * 3600 + second / 60 % 60 * 60 +
          (second % 60 + nano / nanosPerSecond) = second + 1 ∧
        nano % nanosPerSecond = nano - nanosPerSecond := by
      unfold nanosPerSecond at *
      omega
    rw [if_pos ⟨by omega, by omega, hparts.1⟩, hparts.2.1, hparts.2.2, if_pos (by omega)]
    rfl

theorem offset_zulu (s : List Char) : offset ('Z' :: s) = some (0, s) := by
  rw [offset, bind_of_eq (blanks_cons (by decide) s)]
  rfl

end Timestamp

namespace Instant

/-- Where an instant has a leap second, it is at the end of a minute. -/
def EndsMinute (i : Instant) : Prop := i.isLeap = true → i.second % 60 = 59

def asWritten (i : Instant) : Instant where
  day := i.day
  second := (Timestamp.asWritten i.second i.nano).1
  nano := (Timestamp.asWritten i.second i.nano).2
  second_lt := by
    have hlt := i.second_lt
    unfold Timestamp.asWritten
    unfold secondsPerDay at *
    split
    · show i.second + 1 < 86400
      omega
    · exact hlt
  nano_lt := by
    have hlt := i.nano_lt
    unfold Timestamp.asWritten
    split
    · exact Nat.lt_of_le_of_lt (Nat.sub_le _ _) hlt
    · exact hlt
  firstDay_le := i.firstDay_le
  le_lastDay := i.le_lastDay

/-- An instant has a text of its own unless it has a leap second inside a minute. -/
theorem asWritten_eq_self_iff (i : Instant) : i.asWritten = i ↔ i.EndsMinute := by
  have hparts : i.asWritten = i ↔ Timestamp.asWritten i.second i.nano = (i.second, i.nano) := by
    constructor
    · intro h
      exact Prod.ext (congrArg second h) (congrArg nano h)
    · intro h
      simp only [asWritten, h]
  rw [hparts, Timestamp.asWritten, EndsMinute, isLeap_iff]
  split
  next h =>
    simp only [Prod.mk.injEq, Nat.succ_ne_self, false_and, false_iff]
    exact fun hends => h.2 (hends h.1)
  next h =>
    simp only [true_iff]
    intro hleap
    exact Decidable.not_not.mp fun hlast => h ⟨hleap, hlast⟩

/-- Of every instant the one that its text names is read back. -/
theorem ofText?_text (i : Instant) : ofText? i.text = some i.asWritten := by
  obtain ⟨hvalid, hdays⟩ := Date.toDays_ofDays i.day
  have htext : i.text.toList =
      (Date.ofDays i.day).text ++ 'T' :: (timeText i.second i.nano ++ ['Z']) := by
    simp [text]
  have hzulu : isDigit 'Z' = false := by decide
  have htime : Timestamp.time (timeText i.second i.nano ++ ['Z']) =
      some ((i.asWritten.second, i.asWritten.nano), ['Z']) :=
    Timestamp.time_text i.second_lt i.nano_lt hzulu (by decide) []
  have hlt := i.asWritten.second_lt
  have hday : ((i.asWritten.second : Int) - 0) / secondsPerDay = 0 := by
    unfold secondsPerDay at *
    omega
  have hsecond : (((i.asWritten.second : Int) - 0) % secondsPerDay).toNat = i.asWritten.second := by
    unfold secondsPerDay at *
    omega
  have hof : of? i.day i.asWritten.second i.asWritten.nano = some i.asWritten :=
    of?_eq_some_iff.mpr ⟨rfl, rfl, rfl⟩
  rw [ofText?, htext, whole?, bind_of_eq (Timestamp.date_text hvalid _),
    bind_of_eq (charOf_cons (by decide) _), bind_of_eq htime]
  simp only
  rw [bind_of_eq (Timestamp.offset_zulu [])]
  show (if (Date.ofDays i.day).isValid = true then
      of? (Date.ofDays i.day).toDays i.asWritten.second i.asWritten.nano >>= fun _ =>
        of? ((Date.ofDays i.day).toDays + ((i.asWritten.second : Int) - 0) / secondsPerDay)
          (((i.asWritten.second : Int) - 0) % secondsPerDay).toNat i.asWritten.nano
    else none) = some i.asWritten
  rw [if_pos hvalid, hdays, hday, hsecond, Int.add_zero, hof]
  rfl

end Instant

end JobWatch.Calendar
