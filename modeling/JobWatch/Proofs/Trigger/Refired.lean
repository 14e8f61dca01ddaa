import JobWatch.Proofs.Trigger

/-!
# Triggers made again when they fire

A trigger can be made again as often as it fires, with the time of that as the time at which it last
fired. A cron trigger goes on in time then: clocks that are set forward or back do not hold it up and
do not let it fire twice at an instant.
-/

set_option autoImplicit false

namespace JobWatch

open Calendar (Instant Zone)
open Calendar.Instant (onSetback)

def Outcome.value? {ε α : Type} : Outcome ε α → Option α
  | done a => some a
  | _ => none

theorem Outcome.value?_eq_some_iff {ε α : Type} {x : Outcome ε α} {a : α} :
    x.value? = some a ↔ x = done a := by
  cases x <;> simp [value?]

namespace Trigger

/-- The times at which a trigger is due that is made again with each of them as the time at which it
last fired: so many, or those up to a trigger that is not made or not due again. -/
def refired (make : Option Instant → Option Trigger) : Nat → Option Instant → List Instant
  | 0, _ => []
  | rounds + 1, previous =>
    match (make previous).bind (·.next) with
    | some due => due :: refired make rounds (some due)
    | none => []

section Refired

variable {make : Option Instant → Option Trigger}

theorem refired_succ (rounds : Nat) (previous : Option Instant) :
    refired make (rounds + 1) previous = [] ∨
      ∃ t due, make previous = some t ∧ t.next = some due ∧
        refired make (rounds + 1) previous = due :: refired make rounds (some due) := by
  rw [refired]
  cases hmade : (make previous).bind (·.next) with
  | none => exact .inl rfl
  | some due =>
    obtain ⟨t, ht, hdue⟩ := Option.bind_eq_some_iff.mp hmade
    exact .inr ⟨t, due, ht, hdue, rfl⟩

theorem forall_refired {P : Instant → Prop}
    (hmake : ∀ previous t due, make previous = some t → t.next = some due → P due) (rounds : Nat)
    (previous : Option Instant) : ∀ due ∈ refired make rounds previous, P due := by
  induction rounds generalizing previous with
  | zero => exact List.forall_mem_nil P
  | succ rounds ih =>
    rcases refired_succ rounds previous with hend | ⟨t, due, ht, hdue, hgo⟩
    · rw [hend]
      exact List.forall_mem_nil P
    · rw [hgo]
      exact List.forall_mem_cons.mpr ⟨hmake previous t due ht hdue, ih (some due)⟩

/-- If a trigger is always due after it last fired, it is due later each time. -/
theorem refired_ascending {now : Instant}
    (hmake : ∀ previous t due, make previous = some t → t.next = some due →
      previous.getD now < due) (rounds : Nat) (previous : Option Instant) :
    (previous.getD now :: refired make rounds previous).Pairwise (· < ·) := by
  induction rounds generalizing previous with
  | zero => exact List.pairwise_singleton _ _
  | succ rounds ih =>
    rcases refired_succ rounds previous with hend | ⟨t, due, ht, hdue, hgo⟩
    · rw [hend]
      exact List.pairwise_singleton _ _
    · have hrest := ih (some due)
      have hafter := hmake previous t due ht hdue
      have hlater := (List.pairwise_cons.mp hrest).1
      rw [hgo]
      refine List.pairwise_cons.mpr ⟨List.forall_mem_cons.mpr ⟨hafter, ?_⟩, hrest⟩
      intro later hmem
      exact Int.lt_trans hafter (hlater later hmem)

end Refired

/-- Each time at which a cron trigger is due that is made again whenever it fires is after the one
before it, a whole second, and one at which clocks show a time that the expression has. -/
theorem ofCron_refired {expression : String} {s : Cron.Schedule}
    (hparse : Cron.Schedule.parse? expression = some s) {z : Zone} (hz : z.RunsOn) (key job : Key)
    (now : Instant) (rounds : Nat) (previous : Option Instant) :
    let make := fun last => (ofCron key job expression z last now).value?
    let dues := refired make rounds previous
    (previous.getD now :: dues).Pairwise (· < ·) ∧
    ∀ due ∈ dues, due.nano = 0 ∧ s.DueAt (z.localTime due.epochSecond) := by
  intro make dues
  constructor
  · apply refired_ascending
    intro last t due ht hdue
    exact (due_of_ofCron hz (Outcome.value?_eq_some_iff.mp ht) hdue).1
  · apply forall_refired
    intro last t due ht hdue
    obtain ⟨-, hnano, s', hparse', hadmits⟩ :=
      due_of_ofCron hz (Outcome.value?_eq_some_iff.mp ht) hdue
    obtain rfl := Option.some.inj (hparse.symm.trans hparse')
    exact ⟨hnano, hadmits⟩

/-- Half past the hour, from 00:40 local time on: the hour that clocks show twice is left out. -/
theorem refired_past_setback :
    ∃ s z, Cron.Schedule.parse? "0 30 * * * ?" = some s ∧ z.RunsOn ∧
      let make := fun last =>
        (ofCron ⟨"sync", "hourly"⟩ ⟨"sync", "pull"⟩ "0 30 * * * ?" z last (onSetback 0)).value?
      refired make 2 (some (onSetback 16800)) = [onSetback 27000, onSetback 30600] ∧
      onSetback 16800 < onSetback 27000 ∧ onSetback 27000 < onSetback 30600 ∧
      s.DueAt (z.localTime (onSetback 27000).epochSecond) := by
  let z := Zone.northAmerican (-Zone.hours 5)
  have hnamed : Zone.named? "America/New_York" = some z := rfl
  have hz := Zone.runsOn_of_named? hnamed
  obtain ⟨s, hparse⟩ : ∃ s, Cron.Schedule.parse? "0 30 * * * ?" = some s :=
    Option.isSome_iff_exists.mp (by decide +kernel)
  have hrefired : refired (fun last =>
      (ofCron ⟨"sync", "hourly"⟩ ⟨"sync", "pull"⟩ "0 30 * * * ?" z last (onSetback 0)).value?) 2
        (some (onSetback 16800)) = [onSetback 27000, onSetback 30600] := by
    decide +kernel
  obtain ⟨hascending, hdue⟩ := ofCron_refired hparse hz ⟨"sync", "hourly"⟩ ⟨"sync", "pull"⟩
    (onSetback 0) 2 (some (onSetback 16800))
  rw [hrefired] at hascending hdue
  obtain ⟨hfirst, hrest⟩ := List.pairwise_cons.mp hascending
  exact ⟨s, z, hparse, hz, hrefired, hfirst _ (by simp), (List.pairwise_cons.mp hrest).1 _ (by simp),
    (hdue _ (by simp)).2⟩

end Trigger

end JobWatch
