import JobWatch.Calendar.Zone.Table
import JobWatch.Proofs.Calendar.Instant
import Mathlib.Data.List.Nodup
import Mathlib.Tactic.ByContra

/-!
# Local times that are shown again

Clocks that are set back show a stretch of local times once more. In a zone whose clocks are not
changed again before the stretch is through, a local time that lies ahead is still to come, also if
clocks have shown it before.
-/

set_option autoImplicit false

namespace JobWatch.Calendar

namespace Zone

/-- At each of some changes clocks are past the local time at which the one before it was made. -/
def RunsOnAfter (offset : Int) : List OffsetChange → Prop
  | [] => True
  | [_] => True
  | change :: next :: later =>
    change.start + offset < next.start + change.offset ∧ RunsOnAfter change.offset (next :: later)

/-- Clocks that were set back run on past the point at which they were, before they are changed
again. -/
def RunsOn (z : Zone) : Prop := RunsOnAfter z.initial z.changes

instance decidableRunsOnAfter (offset : Int) :
    (changes : List OffsetChange) → Decidable (RunsOnAfter offset changes)
  | [] => .isTrue trivial
  | [_] => .isTrue trivial
  | change :: next :: later =>
    have := decidableRunsOnAfter change.offset (next :: later)
    inferInstanceAs (Decidable (_ ∧ _))

instance (z : Zone) : Decidable z.RunsOn := decidableRunsOnAfter z.initial z.changes

theorem runsOn_of_named? {name : String} {z : Zone} (h : named? name = some z) : z.RunsOn := by
  unfold named? at h
  split at h <;> cases h <;> decide +kernel

theorem offsetAfter_mem (offset : Int) (changes : List OffsetChange) (instant : Int) :
    offsetAfter offset changes instant ∈ offset :: changes.map (·.offset) := by
  induction changes generalizing offset with
  | nil => exact List.mem_cons_self
  | cons change later ih =>
    rw [offsetAfter]
    split
    · exact List.mem_cons_self
    · exact List.mem_cons_of_mem _ (ih change.offset)

theorem mem_instantsAt_iff {z : Zone} {clock instant : Int} :
    instant ∈ z.instantsAt clock ↔ z.localTime instant = clock := by
  simp only [instantsAt, List.mem_filter, decide_eq_true_eq, and_iff_right_iff_imp]
  intro hclock
  have hoffset : z.offsetAt instant ∈ z.offsets :=
    List.mem_eraseDups.mpr (offsetAfter_mem z.initial z.changes instant)
  refine List.mem_map.mpr ⟨_, hoffset, ?_⟩
  rw [localTime] at hclock
  omega

section Changes

variable {offset : Int} {change : OffsetChange} {later : List OffsetChange} {instant : Int}

theorem offsetAfter_of_lt (h : instant < change.start) :
    offsetAfter offset (change :: later) instant = offset := if_pos h

theorem offsetAfter_of_le (h : change.start ≤ instant) :
    offsetAfter offset (change :: later) instant = offsetAfter change.offset later instant :=
  if_neg (Int.not_lt.mpr h)

theorem RunsOnAfter.tail (h : RunsOnAfter offset (change :: later)) :
    RunsOnAfter change.offset later := by
  cases later with
  | nil => trivial
  | cons next later => exact h.2

def ShownFrom (offset : Int) (changes : List OffsetChange) (instant clock : Int) : Prop :=
  ∃ again, instant ≤ again ∧ again + offsetAfter offset changes again = clock

theorem ShownFrom.cons {clock : Int} (h : ShownFrom change.offset later instant clock)
    (hstart : change.start ≤ instant) : ShownFrom offset (change :: later) instant clock := by
  obtain ⟨again, hinstant, hclock⟩ := h
  exact ⟨again, hinstant, by rwa [offsetAfter_of_le (Int.le_trans hstart hinstant)]⟩

/-- After a change, what lies ahead but before the point of the change is still shown. -/
theorem shownFrom_of_ahead (h : RunsOnAfter offset (change :: later)) {clock : Int}
    (hle : instant + offsetAfter change.offset later instant ≤ clock)
    (hlt : clock < change.start + offset) : ShownFrom change.offset later instant clock := by
  -- on the changes to come: clocks show it before the next one, or else from there on
  induction later generalizing offset change with
  | nil =>
    rw [offsetAfter] at hle
    exact ⟨clock - change.offset, by omega, by rw [offsetAfter]; omega⟩
  | cons next later ih =>
    obtain ⟨hpast, hlater⟩ := h
    rcases Int.lt_or_le instant next.start with hnext | hnext
    · rw [offsetAfter_of_lt hnext] at hle
      have hagain : clock - change.offset < next.start := by omega
      exact ⟨clock - change.offset, by omega, by rw [offsetAfter_of_lt hagain]; omega⟩
    · rw [offsetAfter_of_le hnext] at hle
      exact (ih hlater hle (by omega)).cons hnext

/-- A local time that clocks had shown before they were set back is shown again. -/
theorem shownFrom_of_set_back {changes : List OffsetChange} (h : RunsOnAfter offset changes)
    {before : Int} (hbefore : before < instant)
    (hback : instant + offsetAfter offset changes instant <
      before + offsetAfter offset changes before) :
    ShownFrom offset changes instant (before + offsetAfter offset changes before) := by
  induction changes generalizing offset with
  | nil =>
    simp only [offsetAfter] at hback
    omega
  | cons change later ih =>
    rcases Int.lt_or_le instant change.start with hinstant | hinstant
    · have hearlier : before < change.start := by omega
      rw [offsetAfter_of_lt hinstant, offsetAfter_of_lt hearlier] at hback
      omega
    · rw [offsetAfter_of_le hinstant] at hback
      rcases Int.lt_or_le before change.start with hearlier | hearlier
      · rw [offsetAfter_of_lt hearlier] at hback ⊢
        exact (shownFrom_of_ahead h (Int.le_of_lt hback) (by omega)).cons hinstant
      · rw [offsetAfter_of_le hearlier] at hback ⊢
        exact (ih h.tail hback).cons hinstant

end Changes

/-- Clocks never show the local time of an instant again. -/
def ShowsLast (z : Zone) (instant : Int) : Prop :=
  ∀ other, z.localTime other = z.localTime instant → other ≤ instant

def ShowsOnce (z : Zone) (instant : Int) : Prop :=
  ∀ other, z.localTime other = z.localTime instant → other = instant

theorem ShowsOnce.showsLast {z : Zone} {instant : Int} (h : z.ShowsOnce instant) :
    z.ShowsLast instant := fun other hother => Int.le_of_eq (h other hother)

/-- If clocks have yet to show the local time of an instant and do so for the last time then, the
instant is yet to come. -/
theorem ShowsLast.le {z : Zone} (hz : z.RunsOn) {instant now : Int} (hlast : z.ShowsLast instant)
    (hahead : z.localTime now ≤ z.localTime instant) : now ≤ instant := by
  by_contra hbehind
  have hlater : instant < now := Int.not_le.mp hbehind
  rcases Int.lt_or_eq_of_le hahead with hback | hsame
  · obtain ⟨again, hle, hclock⟩ := shownFrom_of_set_back hz hlater hback
    have hagain := hlast again hclock
    omega
  · have hnow := hlast now hsame
    omega

theorem nodup_eraseDups {α : Type} [DecidableEq α] : (l : List α) → l.eraseDups.Nodup
  | [] => List.nodup_nil
  | a :: l => by
    rw [List.eraseDups_cons]
    refine List.nodup_cons.mpr ⟨?_, nodup_eraseDups _⟩
    simp
termination_by l => l.length
decreasing_by exact Nat.lt_succ_of_le (List.length_filter_le _ l)

theorem nodup_instantsAt (z : Zone) (clock : Int) : (z.instantsAt clock).Nodup := by
  have hinjective : Function.Injective (clock - ·) := fun _ _ h => by
    simp only at h
    omega
  exact ((nodup_eraseDups _).map hinjective).filter _

theorem instantsAt_eq_singleton_iff {z : Zone} {clock instant : Int} :
    z.instantsAt clock = [instant] ↔ z.localTime instant = clock ∧ z.ShowsOnce instant := by
  constructor
  · intro h
    have hclock : z.localTime instant = clock := by
      rw [← mem_instantsAt_iff, h]
      exact List.mem_singleton_self instant
    refine ⟨hclock, fun other hother => ?_⟩
    rw [hclock, ← mem_instantsAt_iff, h] at hother
    exact List.mem_singleton.mp hother
  · rintro ⟨rfl, honce⟩
    apply List.perm_singleton.mp
    apply (List.perm_ext_iff_of_nodup (nodup_instantsAt z _) (List.nodup_singleton _)).mpr
    intro other
    rw [mem_instantsAt_iff, List.mem_singleton]
    exact ⟨honce other, fun h => h ▸ rfl⟩

/-- Clocks show the local time of two whole seconds at both of them and at no other instant. -/
structure Repeats (z : Zone) (first second : Instant) : Prop where
  order : first < second
  whole : first.nano = 0 ∧ second.nano = 0
  same : z.localTime first.epochSecond = z.localTime second.epochSecond
  only : ∀ other, z.localTime other = z.localTime second.epochSecond →
    other = first.epochSecond ∨ other = second.epochSecond

namespace Repeats

variable {z : Zone} {first second : Instant} (h : z.Repeats first second)

include h

theorem lt : first.epochSecond < second.epochSecond :=
  (Instant.lt_iff_of_whole h.whole.2).mp h.order

theorem showsLast : z.ShowsLast second.epochSecond := by
  intro other hother
  have hlt := h.lt
  rcases h.only other hother with rfl | rfl <;> omega

theorem not_showsOnce : ¬ z.ShowsOnce first.epochSecond ∧ ¬ z.ShowsOnce second.epochSecond := by
  have hlt := h.lt
  refine ⟨fun honce => ?_, fun honce => ?_⟩
  · have hsame := honce _ h.same.symm
    omega
  · have hsame := honce _ h.same
    omega

/-- An instant whose local time is shown once is before the repeated one if its local time is. -/
theorem le_iff_of_once (hz : z.RunsOn) {instant : Int} (honce : z.ShowsOnce instant) :
    instant ≤ second.epochSecond ↔ z.localTime instant < z.localTime second.epochSecond := by
  constructor
  · intro hle
    by_contra hnot
    have hge := honce.showsLast.le hz (Int.not_lt.mp hnot)
    have hsame : instant = second.epochSecond := Int.le_antisymm hle hge
    exact h.not_showsOnce.2 (hsame ▸ honce)
  · exact fun hlt => h.showsLast.le hz (Int.le_of_lt hlt)

end Repeats

end Zone

/-- So many seconds after midnight of 3 November 2024, when clocks are set back in New York. -/
def Instant.onSetback (second : Fin 86400) : Instant where
  day := 20030
  second := second
  nano := 0
  second_lt := second.isLt
  nano_lt := zero_lt_nanos
  firstDay_le := by decide
  le_lastDay := by decide

theorem Zone.repeats_on_setback :
    (northAmerican (-hours 5)).Repeats (.onSetback 19800) (.onSetback 23400) where
  order := by decide
  whole := ⟨rfl, rfl⟩
  same := by decide +kernel
  only := by
    intro other hother
    have hinstants : (northAmerican (-hours 5)).instantsAt
        ((northAmerican (-hours 5)).localTime (Instant.onSetback 23400).epochSecond) =
          [(Instant.onSetback 23400).epochSecond, (Instant.onSetback 19800).epochSecond] := by
      decide +kernel
    rw [← mem_instantsAt_iff, hinstants] at hother
    simpa [or_comm] using hother

end JobWatch.Calendar
