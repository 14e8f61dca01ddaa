import JobWatch.Proofs.Cron.Zoned

/-!
# Local times that clocks show twice

The search passes over a local time that clocks show at two instants, due or not. What is due then
is not lost only if a local time that is shown once comes up before it.
-/

set_option autoImplicit false

namespace JobWatch

open Calendar

namespace Cron

/-- Where clocks show a local time twice, neither of the two instants is the next one at which an
expression is due. If both are still to come, the next one is no later than the second exactly if
the search comes to an instant up to then whose local time is due and shown once. Otherwise the
search may also break down at a date that clocks skip. -/
theorem nextDue_past_repeated {expression : String} {s : Schedule}
    (hparse : Schedule.parse? expression = some s) {z : Zone} (hz : z.RunsOn)
    {after first second : Instant} (hrepeats : z.Repeats first second) (hafter : after < first) :
    (Timing.nextDue expression z after = .crashed ∧ ∃ time, s.Reaches z after time ∧
      s.Tries (Clock.ofLocal time) ∧ z.hasDate (Clock.ofLocal time).localDay = false) ∨
    ∃ next, Timing.nextDue expression z after = .done next ∧
      (∀ due ∈ next, due ≠ first ∧ due ≠ second) ∧
      ((∃ due ∈ next, due ≤ second) ↔
        ∃ instant, s.Offers z after instant ∧ instant ≤ second.epochSecond) := by
  have hs := Schedule.orderly_of_parse? hparse
  have hlater : after.epochSecond < second.epochSecond :=
    Int.lt_trans ((Instant.lt_iff_of_whole hrepeats.whole.1).mp hafter) hrepeats.lt
  have hsearch := Schedule.search_zoned hs z after
  rw [Timing.nextDue_of_parse? hparse, Schedule.next_of_later hlater]
  split at hsearch
  next hnothing =>
    rw [hnothing]
    refine .inr ⟨none, rfl, by simp, iff_of_false (by simp) ?_⟩
    rintro ⟨instant, h, -⟩
    exact hsearch instant h
  next => exact hsearch.elim
  next hskipped =>
    rw [hskipped]
    exact .inl ⟨rfl, hsearch⟩
  next instant hfound =>
    rw [hfound]
    obtain ⟨hoffered, hleast⟩ := hsearch
    refine .inr ⟨_, rfl, fun due hdue => ?_, ?_, ?_⟩
    · obtain ⟨-, rfl⟩ := Instant.parts_of_ofEpochSecond? hdue
      obtain ⟨hfirst, hsecond⟩ := hrepeats.not_showsOnce
      exact ⟨fun h => hfirst (h ▸ hoffered.once), fun h => hsecond (h ▸ hoffered.once)⟩
    · rintro ⟨due, hdue, hle⟩
      obtain ⟨hnano, rfl⟩ := Instant.parts_of_ofEpochSecond? hdue
      exact ⟨_, hoffered, (Instant.le_iff_of_whole hnano).mp hle⟩
    · rintro ⟨other, hother, hle⟩
      -- what is found has the earlier local time, and both times are shown once
      have hbefore := (hrepeats.le_iff_of_once hz hother.once).mp hle
      have hinstant : instant ≤ second.epochSecond :=
        (hrepeats.le_iff_of_once hz hoffered.once).mpr
          (Int.lt_of_le_of_lt (hleast other hother) hbefore)
      obtain ⟨due, hdue⟩ :=
        Instant.exists_ofEpochSecond?_between (Int.le_of_lt (hoffered.later hz)) hinstant
      obtain ⟨hnano, rfl⟩ := Instant.parts_of_ofEpochSecond? hdue
      exact ⟨due, hdue, (Instant.le_iff_of_whole hnano).mpr hinstant⟩

theorem nextDue_before_repeated :
    ∃ s z, Schedule.parse? "0 30 * 3 11 ? 2024" = some s ∧ z.RunsOn ∧
      z.Repeats (.onSetback 19800) (.onSetback 23400) ∧
      Instant.onSetback 14400 < .onSetback 19800 ∧
      ∃ due, Timing.nextDue "0 30 * 3 11 ? 2024" z (.onSetback 14400) = .done (some due) ∧
        due ≤ .onSetback 23400 := by
  let z := Zone.northAmerican (-Zone.hours 5)
  let s : Schedule := ⟨"0 30 * 3 11 ? 2024", [0], [30], List.range 24, [3], [11],
    [1, 2, 3, 4, 5, 6, 7], [2024]⟩
  have hnamed : Zone.named? "America/New_York" = some z := rfl
  have hz := Zone.runsOn_of_named? hnamed
  have hparse : Schedule.parse? "0 30 * 3 11 ? 2024" = some s := by decide +kernel
  have honce : z.instantsAt (z.localTime (Instant.onSetback 16200).epochSecond) =
      [(Instant.onSetback 16200).epochSecond] := by
    decide +kernel
  have hoffered : s.Offers z (.onSetback 14400) (Instant.onSetback 16200).epochSecond := by
    refine ⟨⟨by decide +kernel, by decide +kernel⟩, ?_, ?_⟩
    · show s.admits _ = true
      decide +kernel
    · exact (Zone.instantsAt_eq_singleton_iff.mp honce).2
  have hafter : Instant.onSetback 14400 < .onSetback 19800 := by decide
  refine ⟨s, z, hparse, hz, Zone.repeats_on_setback, hafter, ?_⟩
  rcases nextDue_past_repeated hparse hz Zone.repeats_on_setback hafter with
    ⟨hcrashed, -⟩ | ⟨next, hnext, -, hiff⟩
  · have hdone : Timing.nextDue "0 30 * 3 11 ? 2024" z (.onSetback 14400) ≠ .crashed := by
      decide +kernel
    exact absurd hcrashed hdone
  · obtain ⟨due, hdue, hle⟩ := hiff.mpr ⟨_, hoffered, by decide⟩
    exact ⟨due, hdue ▸ hnext, hle⟩

/-- From the midnight before on, half past one of that night is left out altogether: what is due
next is half past one of the night after. -/
theorem night_of_setback_left_out :
    ∃ s z due, Schedule.parse? "0 30 1 * * ?" = some s ∧
      Zone.named? "America/New_York" = some z ∧
      z.Repeats (.onSetback 19800) (.onSetback 23400) ∧
      s.DueAt (z.localTime (Instant.onSetback 23400).epochSecond) ∧
      Instant.onSetback 0 < .onSetback 19800 ∧
      Timing.nextDue "0 30 1 * * ?" z (.onSetback 0) = .done (some due) ∧
      Instant.onSetback 23400 < due := by
  let z := Zone.northAmerican (-Zone.hours 5)
  let s : Schedule := ⟨"0 30 1 * * ?", [0], [30], [1], List.range' 1 31, List.range' 1 12,
    [1, 2, 3, 4, 5, 6, 7], List.range' 1970 131⟩
  let due : Instant := ⟨20031, 23400, 0, by decide, by decide, by decide, by decide⟩
  have hparse : Schedule.parse? "0 30 1 * * ?" = some s := by decide +kernel
  have hdue : s.admits (Clock.ofLocal (z.localTime (Instant.onSetback 23400).epochSecond)) = true :=
    by decide +kernel
  have hnext : Timing.nextDue "0 30 1 * * ?" z (.onSetback 0) = .done (some due) := by
    decide +kernel
  exact ⟨s, z, due, hparse, rfl, Zone.repeats_on_setback, hdue, by decide, hnext, by decide⟩

end Cron

end JobWatch
