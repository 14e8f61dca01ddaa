import JobWatch.Cron.Occurrence
import JobWatch.Proofs.Calendar.Date

/-!
# Local times and what clocks show

Every local time has one reading of clocks, and readings are in the order of their parts from the
year down to the second.
-/

set_option autoImplicit false

namespace JobWatch.Cron.Clock

open Calendar

structure IsReal (c : Clock) : Prop where
  date : (Date.mk c.year c.month c.day).isValid = true
  hour : c.hour ≤ 23
  minute : c.minute ≤ 59
  second : c.second ≤ 59

def Before (c d : Clock) : Prop :=
  c.year < d.year ∨ c.year = d.year ∧ (c.month < d.month ∨ c.month = d.month ∧
    (c.day < d.day ∨ c.day = d.day ∧ (c.hour < d.hour ∨ c.hour = d.hour ∧
      (c.minute < d.minute ∨ c.minute = d.minute ∧ c.second < d.second))))

theorem Before.asymm {c d : Clock} (h : c.Before d) : ¬ d.Before c := by
  unfold Before at *
  omega

theorem before_irrefl (c : Clock) : ¬ c.Before c := fun h => h.asymm h

theorem before_or (c d : Clock) : c.Before d ∨ c = d ∨ d.Before c := by
  by_cases hsame : c.year = d.year ∧ c.month = d.month ∧ c.day = d.day ∧ c.hour = d.hour ∧
      c.minute = d.minute ∧ c.second = d.second
  · obtain ⟨hyear, hmonth, hday, hhour, hminute, hsecond⟩ := hsame
    cases c
    cases d
    simp_all
  · have hordered : c.Before d ∨ d.Before c := by
      unfold Before
      omega
    exact hordered.imp_right .inr

theorem toLocal_lt_of_before {c d : Clock} (hc : c.IsReal) (hd : d.IsReal) (h : c.Before d) :
    c.toLocal < d.toLocal := by
  obtain ⟨hcdate, hchour, hcminute, hcsecond⟩ := hc
  obtain ⟨hddate, hdhour, hdminute, hdsecond⟩ := hd
  unfold toLocal secondsPerDay
  by_cases hdate : Date.mk c.year c.month c.day = Date.mk d.year d.month d.day
  · have hday : c.localDay = d.localDay := congrArg Date.toDays hdate
    simp only [Date.mk.injEq] at hdate
    unfold Before at h
    omega
  · have hbefore : Date.Before ⟨c.year, c.month, c.day⟩ ⟨d.year, d.month, d.day⟩ := by
      simp only [Date.mk.injEq] at hdate
      unfold Before at h
      dsimp only [Date.Before]
      omega
    have hday : c.localDay < d.localDay := Date.toDays_lt_of_before hcdate hddate hbefore
    omega

theorem toLocal_lt_iff {c d : Clock} (hc : c.IsReal) (hd : d.IsReal) :
    c.toLocal < d.toLocal ↔ c.Before d := by
  refine ⟨?_, toLocal_lt_of_before hc hd⟩
  intro hlt
  rcases before_or c d with h | rfl | h
  · exact h
  · omega
  · have hgt := toLocal_lt_of_before hd hc h
    omega

theorem isReal_ofLocal (time : Int) : (ofLocal time).IsReal := by
  have hdate := (Date.toDays_ofDays (time / secondsPerDay)).1
  refine ⟨hdate, ?_, ?_, ?_⟩
  · simp only [ofLocal, secondsPerDay]
    omega
  · simp only [ofLocal]
    omega
  · simp only [ofLocal]
    omega

@[simp] theorem toLocal_ofLocal (time : Int) : (ofLocal time).toLocal = time := by
  have hdate := (Date.toDays_ofDays (time / secondsPerDay)).2
  have hday : (ofLocal time).localDay = time / secondsPerDay := hdate
  rw [toLocal, hday]
  simp only [ofLocal, secondsPerDay]
  omega

theorem ofLocal_toLocal {c : Clock} (hc : c.IsReal) : ofLocal c.toLocal = c := by
  have hreal := isReal_ofLocal c.toLocal
  have htime := toLocal_ofLocal c.toLocal
  rcases before_or (ofLocal c.toLocal) c with h | h | h
  · have hlt := toLocal_lt_of_before hreal hc h
    omega
  · exact h
  · have hlt := toLocal_lt_of_before hc hreal h
    omega

end JobWatch.Cron.Clock
