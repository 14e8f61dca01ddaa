import JobWatch.Proofs.Calendar.Instant
import JobWatch.Proofs.Calendar.Zone
import JobWatch.Proofs.Cron.Occurrence

/-!
# When a schedule is due by the clocks of a zone

The search looks at local times and passes over those that clocks show twice or not at all. What it
comes to is due by local time and lies after the reference, also where clocks have been set back in
between.
-/

set_option autoImplicit false

namespace JobWatch

open Calendar

theorem Timing.nextDue_of_parse? {expression : String} {s : Cron.Schedule}
    (hparse : Cron.Schedule.parse? expression = some s) (z : Zone) (after : Instant) :
    nextDue expression z after = s.next z after := by
  rw [nextDue, schedule, hparse]
  rfl

namespace Cron

variable {s : Schedule} {z : Zone} {q : Clock}

theorem tryTime_eq_found_iff {c : Clock} {instant : Int} :
    tryTime s z c = .found instant ↔ z.hasDate c.localDay = true ∧
      z.instantsAt c.toLocal = [instant] ∧
      s.daysOfWeek.contains (weekday c.localDay) = true := by
  unfold tryTime
  by_cases hdate : z.hasDate c.localDay = true
  · rw [if_pos hdate]
    simp only [hdate, true_and]
    split
    next found hfound => split <;> simp_all
    next hnone =>
      simp only [reduceCtorEq, false_iff]
      rintro ⟨hfound, -⟩
      exact hnone instant hfound
  · simp [hdate]

theorem tryTime_eq_skippedDate_iff {c : Clock} :
    tryTime s z c = .skippedDate ↔ z.hasDate c.localDay = false := by
  unfold tryTime
  by_cases hdate : z.hasDate c.localDay = true
  · rw [if_pos hdate]
    simp only [hdate, Bool.true_eq_false, iff_false]
    split
    · split <;> simp
    · simp
  · simp [hdate]

theorem Schedule.answer_eq_iff {c : Clock} {hit : Hit} (hhit : hit ≠ .nothing) :
    s.answer z c = hit ↔ tryTime s z c = hit ∧ hit ≠ .wrongWeekday := by
  unfold answer
  split
  next hwrong =>
    rw [hwrong]
    constructor
    · exact fun h => absurd h.symm hhit
    · rintro ⟨rfl, hright⟩
      exact absurd rfl hright
  next hright => exact ⟨fun h => ⟨h, h ▸ hright⟩, And.left⟩

abbrev following (z : Zone) (after : Instant) : Clock :=
  Clock.ofLocal (z.localTime (after.epochSecond + 1))

section Zoned

variable {after : Instant} {instant time : Int}

/-- The search after an instant comes to a local time, unless it ends before. It does not set out
from a year before the year 0. -/
def Schedule.Reaches (s : Schedule) (z : Zone) (after : Instant) (time : Int) : Prop :=
  0 ≤ (following z after).year ∧ (s.start (following z after)).toLocal ≤ time

theorem Schedule.Reaches.ahead (h : s.Reaches z after time) :
    z.localTime (after.epochSecond + 1) ≤ time := by
  obtain ⟨hyear, hstart⟩ := h
  have hbound := toLocal_le_start (s := s) (Clock.isReal_ofLocal _) hyear
  rw [Clock.toLocal_ofLocal] at hbound
  exact Int.le_trans hbound hstart

theorem Schedule.reaches_iff_not_before {c : Clock} (hc : c.IsReal)
    (hyear : 0 ≤ (following z after).year) :
    s.Reaches z after c.toLocal ↔ ¬ c.Before (s.start (following z after)) := by
  have hstart := isReal_start (s := s) (Clock.isReal_ofLocal (z.localTime (after.epochSecond + 1)))
  rw [← Clock.toLocal_lt_iff hc hstart, Int.not_lt]
  exact and_iff_right hyear

/-- An instant that the search after another comes to: its local time is due and is shown at no
other. -/
structure Schedule.Offers (s : Schedule) (z : Zone) (after : Instant) (instant : Int) : Prop where
  reached : s.Reaches z after (z.localTime instant)
  due : s.DueAt (z.localTime instant)
  once : z.ShowsOnce instant

theorem Schedule.Offers.later (hz : z.RunsOn) (h : s.Offers z after instant) :
    after.epochSecond < instant :=
  h.once.showsLast.le hz h.reached.ahead

/-- It is one of the local times that are tried, and it is not passed over. -/
theorem Schedule.Offers.tried (h : s.Offers z after instant) :
    (s.Tries (Clock.ofLocal (z.localTime instant)) ∧
      ¬ (Clock.ofLocal (z.localTime instant)).Before (s.start (following z after))) ∧
    s.answer z (Clock.ofLocal (z.localTime instant)) ≠ .nothing := by
  obtain ⟨htries, hweekday⟩ := dueAt_iff.mp h.due
  have hreached := h.reached
  rw [← Clock.toLocal_ofLocal (z.localTime instant),
    reaches_iff_not_before (Clock.isReal_ofLocal _) h.reached.1] at hreached
  refine ⟨⟨htries, hreached⟩, ?_⟩
  have hinstants := Zone.instantsAt_eq_singleton_iff.mpr ⟨rfl, h.once⟩
  by_cases hdate : z.hasDate (Clock.ofLocal (z.localTime instant)).localDay = true
  · have hfound : tryTime s z (Clock.ofLocal (z.localTime instant)) = .found instant :=
      tryTime_eq_found_iff.mpr ⟨hdate, by rwa [Clock.toLocal_ofLocal], hweekday⟩
    rw [answer, hfound]
    simp
  · have hskipped : tryTime s z (Clock.ofLocal (z.localTime instant)) = .skippedDate :=
      tryTime_eq_skippedDate_iff.mpr (Bool.eq_false_iff.mpr hdate)
    rw [answer, hskipped]
    simp

/-- The search comes to the first local time on offer, to nothing if there is none, or it breaks
down at a listed time of a date that clocks skip. -/
theorem Schedule.search_zoned (hs : s.Orderly) (z : Zone) (after : Instant) :
    match search s z (following z after) with
    | .nothing => ∀ instant, ¬ s.Offers z after instant
    | .wrongWeekday => False
    | .skippedDate => ∃ time, s.Reaches z after time ∧ s.Tries (Clock.ofLocal time) ∧
        z.hasDate (Clock.ofLocal time).localDay = false
    | .found instant => s.Offers z after instant ∧
        ∀ other, s.Offers z after other → z.localTime instant ≤ z.localTime other := by
  by_cases hyear : 0 ≤ (following z after).year
  · have hsettles := settles_search z hs (Clock.isReal_ofLocal _) hyear
    cases hsearch : search s z (following z after) with
    | nothing =>
      intro instant h
      obtain ⟨hcandidate, hanswer⟩ := h.tried
      exact hanswer (hsettles.of_nothing hsearch _ hcandidate)
    | wrongWeekday =>
      obtain ⟨c, -, hanswer, -⟩ := hsettles.of_hit (by simp [hsearch])
      rw [hsearch, answer_eq_iff (by simp)] at hanswer
      exact hanswer.2 rfl
    | skippedDate =>
      obtain ⟨c, ⟨htries, hnot⟩, hanswer, -⟩ := hsettles.of_hit (by simp [hsearch])
      rw [hsearch, answer_eq_iff (by simp), tryTime_eq_skippedDate_iff] at hanswer
      have hreal := htries.isReal hs
      refine ⟨c.toLocal, (reaches_iff_not_before hreal hyear).mpr hnot, ?_⟩
      rw [Clock.ofLocal_toLocal hreal]
      exact ⟨htries, hanswer.1⟩
    | found instant =>
      obtain ⟨c, ⟨htries, hnot⟩, hanswer, hbefore⟩ := hsettles.of_hit (by simp [hsearch])
      rw [hsearch, answer_eq_iff (by simp), tryTime_eq_found_iff,
        Zone.instantsAt_eq_singleton_iff] at hanswer
      obtain ⟨⟨-, ⟨hclock, honce⟩, hweekday⟩, -⟩ := hanswer
      have hreal := htries.isReal hs
      have hreached := (reaches_iff_not_before hreal hyear).mpr hnot
      refine ⟨⟨hclock ▸ hreached, dueAt_iff.mpr ?_, honce⟩, ?_⟩
      · rw [hclock, Clock.ofLocal_toLocal hreal]
        exact ⟨htries, hweekday⟩
      · intro other h
        obtain ⟨hcandidate, hother⟩ := h.tried
        by_contra hearlier
        refine hother (hbefore _ hcandidate ?_)
        rw [← Clock.toLocal_lt_iff (Clock.isReal_ofLocal _) hreal, Clock.toLocal_ofLocal]
        omega
  · -- nothing is reached from before the year 0, and nothing is searched
    rw [search, if_neg hyear]
    exact fun instant h => hyear h.reached.1

/-- Where an instant follows the second of the reference, the answer is what the search comes to. -/
theorem Schedule.next_of_later {ε : Type} {later : Instant}
    (hlater : after.epochSecond < later.epochSecond) :
    s.next z after = match search s z (following z after) with
      | .found instant => (.done (Instant.ofEpochSecond? instant) : Outcome ε (Option Instant))
      | .skippedDate => .crashed
      | _ => .done none := by
  have hsecond := later.second_lt
  have hday := later.le_lastDay
  have hinside : ¬ (lastDay + 1) * secondsPerDay ≤ after.epochSecond + 1 := by
    simp only [Instant.epochSecond, lastDay, secondsPerDay] at *
    omega
  rw [next]
  exact if_neg hinside

/-- The next instant at which a schedule is due is a whole second after the reference, and it is on
offer. -/
theorem Schedule.next_after {ε : Type} (hs : s.Orderly) (hz : z.RunsOn) {due : Instant}
    (h : s.next z after = (.done (some due) : Outcome ε (Option Instant))) :
    after < due ∧ due.nano = 0 ∧ s.Offers z after due.epochSecond := by
  have hsearch := search_zoned hs z after
  unfold next at h
  simp only at h
  split at h
  · cases h
  · split at h
    next instant hfound =>
      rw [hfound] at hsearch
      obtain ⟨hnano, rfl⟩ := Instant.parts_of_ofEpochSecond? (Outcome.done.inj h)
      exact ⟨(Instant.lt_iff_of_whole hnano).mpr (hsearch.1.later hz), hnano, hsearch.1⟩
    next => cases h
    next => cases h

/-- Clocks that were set back for half an hour only would lead into the past. -/
example :
    (Instant.ofEpochSecond? 7500).map
        (Timing.nextDue "0 45 1 * * ?" ⟨0, [⟨7200, -3600⟩, ⟨9000, 0⟩]⟩) =
      some (.done (Instant.ofEpochSecond? 6300)) := by
  decide +kernel

end Zoned

end Cron

end JobWatch
