import JobWatch.Proofs.Cron.Start
import JobWatch.Trigger

/-!
# When an expression is due next

By universal time every local time is one instant, so the search comes to the first second from its
start on at which the schedule is due. This is the first one after the reference unless the schedule
is due before the start, which takes a set of years without that of the reference.
-/

set_option autoImplicit false

namespace JobWatch.Cron

open Calendar

theorem instantsAt_utc (time : Int) : Zone.utc.instantsAt time = [time] := by
  have hoffsets : Zone.utc.offsets = [0] := by decide
  have hlocal : ∀ instant, Zone.utc.localTime instant = instant := Int.add_zero
  simp [Zone.instantsAt, hoffsets, hlocal]

theorem hasDate_utc (day : Int) : Zone.utc.hasDate day = true := by
  simp [Zone.hasDate, instantsAt_utc]

theorem Clock.year_ofLocal_ge_iff {t : Int} : 1970 ≤ (Clock.ofLocal t).year ↔ 0 ≤ t := by
  have hreal := Clock.isReal_ofLocal t
  have hfirst : (⟨1970, 1, 1, 0, 0, 0⟩ : Clock).IsReal := ⟨by decide, by decide, by decide, by decide⟩
  have htime : (⟨1970, 1, 1, 0, 0, 0⟩ : Clock).toLocal = 0 := by decide
  have horder := Clock.toLocal_lt_iff hreal hfirst
  obtain ⟨⟨hmonth, -⟩, hday, -⟩ := (Date.isValid_iff _).mp hreal.date
  rw [Clock.toLocal_ofLocal, htime] at horder
  simp only [Clock.Before] at horder hmonth hday
  omega

namespace Schedule

variable {s : Schedule} {q : Clock}

theorem answer_utc (c : Clock) :
    s.answer Zone.utc c =
      if s.daysOfWeek.contains (weekday c.localDay) then .found c.toLocal else .nothing := by
  rw [answer, tryTime, hasDate_utc, instantsAt_utc]
  simp only [if_true]
  split <;> split <;> simp_all

def DueAt (s : Schedule) (second : Int) : Prop := s.admits (Clock.ofLocal second) = true

/-- The first second from a given one on at which a schedule is due, or none if there is none. -/
def FirstDue (s : Schedule) (start : Int) : Option Instant → Prop
  | none => ∀ t, start ≤ t → ¬ s.DueAt t
  | some due => due.nano = 0 ∧ start ≤ due.epochSecond ∧ s.DueAt due.epochSecond ∧
      ∀ t, start ≤ t → t < due.epochSecond → ¬ s.DueAt t

theorem dueAt_iff {t : Int} :
    s.DueAt t ↔ s.Tries (Clock.ofLocal t) ∧
      s.daysOfWeek.contains (weekday (Clock.ofLocal t).localDay) = true := by
  simp only [DueAt, admits, Bool.and_eq_true, List.contains_eq_mem, decide_eq_true_eq]
  constructor
  · rintro ⟨⟨⟨⟨⟨⟨⟨hsecond, hminute⟩, hhour⟩, hday⟩, hmonth⟩, hweekday⟩, hpositive⟩, hyear⟩
    exact ⟨⟨(Clock.isReal_ofLocal t).date, hpositive, hyear, hmonth, hday, hhour, hminute, hsecond⟩,
      hweekday⟩
  · rintro ⟨⟨-, hpositive, hyear, hmonth, hday, hhour, hminute, hsecond⟩, hweekday⟩
    exact ⟨⟨⟨⟨⟨⟨⟨hsecond, hminute⟩, hhour⟩, hday⟩, hmonth⟩, hweekday⟩, hpositive⟩, hyear⟩

theorem DueAt.range (hs : s.Orderly) {t : Int} (h : s.DueAt t) : 0 ≤ t ∧ t < 4133980800 := by
  obtain ⟨htries, -⟩ := dueAt_iff.mp h
  have hpositive := htries.positive
  have hyears : 1970 ≤ (Clock.ofLocal t).year.toNat ∧ (Clock.ofLocal t).year.toNat ≤ 2100 :=
    Field.bounds hs.years htries.year
  have hend : (⟨2101, 1, 1, 0, 0, 0⟩ : Clock).IsReal := ⟨by decide, by decide, by decide, by decide⟩
  have hendTime : (⟨2101, 1, 1, 0, 0, 0⟩ : Clock).toLocal = 4133980800 := by decide
  have hlt := Clock.toLocal_lt_of_before (Clock.isReal_ofLocal t) hend (.inl (by simp only; omega))
  rw [Clock.toLocal_ofLocal, hendTime] at hlt
  exact ⟨Clock.year_ofLocal_ge_iff.mp (by omega), hlt⟩

theorem search_utc (hs : s.Orderly) (hq : q.IsReal) (hyear : 0 ≤ q.year) :
    (search s Zone.utc q = .nothing ∧ ∀ t, (s.start q).toLocal ≤ t → ¬ s.DueAt t) ∨
      ∃ t, search s Zone.utc q = .found t ∧ (s.start q).toLocal ≤ t ∧ s.DueAt t ∧
        ∀ u, (s.start q).toLocal ≤ u → u < t → ¬ s.DueAt u := by
  have hsettles := settles_search Zone.utc hs hq hyear
  have hstart := isReal_start (s := s) hq
  have hcandidate : ∀ u, (s.start q).toLocal ≤ u → s.DueAt u →
      s.Tries (Clock.ofLocal u) ∧ ¬ (Clock.ofLocal u).Before (s.start q) := by
    intro u hle hdue
    refine ⟨(dueAt_iff.mp hdue).1, ?_⟩
    rw [← Clock.toLocal_lt_iff (Clock.isReal_ofLocal u) hstart, Clock.toLocal_ofLocal]
    omega
  have hanswer : ∀ u, s.DueAt u → s.answer Zone.utc (Clock.ofLocal u) ≠ .nothing := by
    intro u hdue
    rw [answer_utc, if_pos (dueAt_iff.mp hdue).2]
    simp
  by_cases hnothing : search s Zone.utc q = .nothing
  · refine .inl ⟨hnothing, fun u hle hdue => ?_⟩
    exact hanswer u hdue (hsettles.of_nothing hnothing _ (hcandidate u hle hdue))
  · obtain ⟨c, ⟨htries, hnot⟩, hhit, hbefore⟩ := hsettles.of_hit hnothing
    have hreal := htries.isReal hs
    have hlocal := Clock.ofLocal_toLocal hreal
    rw [answer_utc] at hhit
    split at hhit
    next hweekday =>
      refine .inr ⟨c.toLocal, hhit.symm, ?_, ?_, ?_⟩
      · rw [← Clock.toLocal_lt_iff hreal hstart] at hnot
        omega
      · exact dueAt_iff.mpr (hlocal.symm ▸ ⟨htries, hweekday⟩)
      · intro u hle hlt hdue
        refine hanswer u hdue (hbefore _ (hcandidate u hle hdue) ?_)
        rwa [← Clock.toLocal_lt_iff (Clock.isReal_ofLocal u) hreal, Clock.toLocal_ofLocal]
    next => exact absurd hhit.symm hnothing

end Schedule

theorem ofEpochSecond?_of_range {t : Int} (h : 0 ≤ t ∧ t < 4133980800) :
    ∃ i, Instant.ofEpochSecond? t = some i ∧ i.nano = 0 ∧ i.epochSecond = t := by
  have hparts : (t % secondsPerDay).toNat < secondsPerDay ∧ 0 < 2 * nanosPerSecond ∧
      firstDay ≤ t / secondsPerDay ∧ t / secondsPerDay ≤ lastDay := by
    simp only [secondsPerDay, nanosPerSecond, firstDay, lastDay]
    omega
  refine ⟨_, dif_pos hparts, rfl, ?_⟩
  simp only [Instant.epochSecond, secondsPerDay]
  omega

def Schedule.searchFrom (s : Schedule) (after : Instant) : Int :=
  (s.start (Clock.ofLocal (after.epochSecond + 1))).toLocal

section Next

variable {s : Schedule} (hs : s.Orderly) {after : Instant} (hsince : 0 ≤ after.epochSecond)

include hsince

theorem Schedule.year_of_following : 1970 ≤ (Clock.ofLocal (after.epochSecond + 1)).year :=
  Clock.year_ofLocal_ge_iff.mpr (by omega)

theorem Schedule.lt_searchFrom : after.epochSecond < s.searchFrom after := by
  have hyear := Schedule.year_of_following hsince
  have hle := Schedule.toLocal_le_start (s := s)
    (Clock.isReal_ofLocal (after.epochSecond + 1)) (by omega)
  rw [Clock.toLocal_ofLocal] at hle
  exact hle

include hs

theorem Schedule.searchFrom_eq
    (hown : ∀ year ∈ s.years, (Clock.ofLocal (after.epochSecond + 1)).year.toNat ≤ year →
      (Clock.ofLocal (after.epochSecond + 1)).year.toNat ∈ s.years) :
    s.searchFrom after = after.epochSecond + 1 := by
  have hyear := Schedule.year_of_following hsince
  rw [Schedule.searchFrom, Schedule.start_eq_self hs (Clock.isReal_ofLocal _) (by omega) hown,
    Clock.toLocal_ofLocal]

/-- The next instant by universal time is the first second from the start of the search on at which
the schedule is due. -/
theorem Schedule.next_utc {ε : Type}
    (hlast : after.epochSecond + 1 < (lastDay + 1) * secondsPerDay) :
    ∃ next, s.next Zone.utc after = (.done next : Outcome ε (Option Instant)) ∧
      s.FirstDue (s.searchFrom after) next := by
  have hlocal : Zone.utc.localTime (after.epochSecond + 1) = after.epochSecond + 1 := Int.add_zero _
  have hyear := Schedule.year_of_following hsince
  simp only [Schedule.next, hlocal]
  rw [if_neg (by omega)]
  rcases Schedule.search_utc hs (Clock.isReal_ofLocal (after.epochSecond + 1)) (by omega) with
    ⟨hsearch, hnone⟩ | ⟨t, hsearch, hle, hdue, hfirst⟩
  · rw [hsearch]
    exact ⟨none, rfl, hnone⟩
  · obtain ⟨i, hi, hnano, hsecond⟩ := ofEpochSecond?_of_range (hdue.range hs)
    rw [hsearch]
    exact ⟨some i, congrArg Outcome.done hi, hnano, hsecond ▸ hle, hsecond ▸ hdue, hsecond ▸ hfirst⟩

end Next

/-- What is found from a later second on is the first from an earlier one on if nothing lies
between the two. -/
theorem Schedule.FirstDue.from_earlier_iff {s : Schedule} {start later : Int}
    {next : Option Instant} (h : s.FirstDue later next) (hle : start ≤ later) :
    s.FirstDue start next ↔ ∀ t, start ≤ t → t < later → ¬ s.DueAt t := by
  cases next with
  | none =>
    refine ⟨fun hnone t ht _ => hnone t ht, fun hgap t ht => ?_⟩
    by_cases hlt : t < later
    · exact hgap t ht hlt
    · exact h t (by omega)
  | some due =>
    obtain ⟨hnano, hstart, hdue, hfirst⟩ := h
    refine ⟨fun hearlier t ht hlt => hearlier.2.2.2 t ht (by omega), fun hgap => ?_⟩
    refine ⟨hnano, by omega, hdue, fun t ht hlt => ?_⟩
    by_cases hbefore : t < later
    · exact hgap t ht hbefore
    · exact hfirst t (by omega) hlt

/-- An expression is due next at the first second from the start of the search on. No second after
the reference is left out if and only if none before the start is due, as when the expression has
the year of the reference or no later one. -/
theorem nextDue_utc {expression : String} {s : Schedule}
    (hparse : Schedule.parse? expression = some s) {after : Instant}
    (hsince : 0 ≤ after.epochSecond)
    (hlast : after.epochSecond + 1 < (lastDay + 1) * secondsPerDay) :
    ∃ next, Timing.nextDue expression Zone.utc after = .done next ∧
      s.FirstDue (s.searchFrom after) next ∧
      (s.FirstDue (after.epochSecond + 1) next ↔
        ∀ t, after.epochSecond < t → t < s.searchFrom after → ¬ s.DueAt t) ∧
      ((∀ year ∈ s.years, (Clock.ofLocal (after.epochSecond + 1)).year.toNat ≤ year →
          (Clock.ofLocal (after.epochSecond + 1)).year.toNat ∈ s.years) →
        s.FirstDue (after.epochSecond + 1) next) := by
  have hs := Schedule.orderly_of_parse? hparse
  obtain ⟨next, hnext, hfirst⟩ :
      ∃ next, s.next Zone.utc after = (.done next : Outcome TimingFault (Option Instant)) ∧
        s.FirstDue (s.searchFrom after) next := Schedule.next_utc hs hsince hlast
  refine ⟨next, ?_, hfirst, hfirst.from_earlier_iff (Schedule.lt_searchFrom hsince), ?_⟩
  · rw [Timing.nextDue, Timing.schedule, hparse]
    exact hnext
  · intro hown
    rwa [Schedule.searchFrom_eq hs hsince hown] at hfirst

theorem nextDue_in_2030 :
    ∃ s after, Schedule.parse? "0 0 0 1 1 ? 2024,2030" = some s ∧
      Instant.ofEpochSecond? 1718409600 = some after ∧
      ∃ next, Timing.nextDue "0 0 0 1 1 ? 2024,2030" Zone.utc after = .done next ∧
        s.FirstDue (after.epochSecond + 1) next := by
  have hparse : Schedule.parse? "0 0 0 1 1 ? 2024,2030" =
      some ⟨"0 0 0 1 1 ? 2024,2030", [0], [0], [0], [1], [1], [1, 2, 3, 4, 5, 6, 7], [2024, 2030]⟩ := by
    decide +kernel
  let after : Instant := ⟨19889, 0, 0, by decide, by decide, by decide, by decide⟩
  have hsince : 0 ≤ after.epochSecond := by decide
  refine ⟨_, after, hparse, rfl, ?_⟩
  obtain ⟨next, hnext, -, -, hexact⟩ := nextDue_utc hparse hsince (by decide)
  exact ⟨next, hnext, hexact (by decide)⟩

/-- From the middle of 2024 on the first day of 2030 is not found, as it comes before the middle of
its year. -/
theorem new_year_not_due_next :
    ∃ s after, Schedule.parse? "0 0 0 1 1 ? 2030" = some s ∧
      Instant.ofEpochSecond? 1718409600 = some after ∧
      Timing.nextDue "0 0 0 1 1 ? 2030" Zone.utc after = .done none ∧
      after.epochSecond < 1893456000 ∧ s.DueAt 1893456000 := by
  refine ⟨⟨"0 0 0 1 1 ? 2030", [0], [0], [0], [1], [1], [1, 2, 3, 4, 5, 6, 7], [2030]⟩,
    ⟨19889, 0, 0, by decide, by decide, by decide, by decide⟩, by decide +kernel, rfl,
    by decide +kernel, by decide, ?_⟩
  show Schedule.admits _ _ = true
  decide

end JobWatch.Cron
