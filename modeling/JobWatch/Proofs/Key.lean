import JobWatch.Key
import Mathlib.Data.List.Basic

/-!
# Which keys share a text

The text of a key does not say at which of its points the group ends. Two different keys share a
text exactly if the group of one of them runs on over a point into what is the name of the other.
-/

set_option autoImplicit false

namespace JobWatch

theorem parted_eq_iff {α : Type} (point : α) (g n g' n' : List α) :
    g ++ point :: n = g' ++ point :: n' ↔
      g = g' ∧ n = n' ∨
      (∃ m, g = g' ++ point :: m ∧ n' = m ++ point :: n) ∨
      ∃ m, g' = g ++ point :: m ∧ n = m ++ point :: n' := by
  constructor
  · intro h
    rcases List.append_eq_append_iff.mp h with ⟨m, hg, hn⟩ | ⟨m, hg, hn⟩
    · cases m with
      | nil => exact .inl ⟨by simpa using hg.symm, (List.cons.inj hn).2⟩
      | cons c m =>
        obtain ⟨rfl, hrest⟩ := List.cons.inj hn
        exact .inr (.inr ⟨m, hg, hrest⟩)
    · cases m with
      | nil => exact .inl ⟨by simpa using hg, (List.cons.inj hn).2.symm⟩
      | cons c m =>
        obtain ⟨rfl, hrest⟩ := List.cons.inj hn
        exact .inr (.inl ⟨m, hg, hrest⟩)
  · rintro (⟨rfl, rfl⟩ | ⟨m, rfl, rfl⟩ | ⟨m, rfl, rfl⟩) <;> simp

namespace Key

/-- The group of a key runs on over a point into the name of another, with which it shares a
text. -/
def RunsInto (k k' : Key) : Prop :=
  ∃ middle, k.group = k'.group ++ "." ++ middle ∧ k'.name = middle ++ "." ++ k.name

def Confusable (k k' : Key) : Prop := k.RunsInto k' ∨ k'.RunsInto k

theorem runsInto_iff (k k' : Key) :
    k.RunsInto k' ↔ ∃ m, k.group.toList = k'.group.toList ++ '.' :: m ∧
      k'.name.toList = m ++ '.' :: k.name.toList := by
  constructor
  · rintro ⟨middle, hgroup, hname⟩
    exact ⟨middle.toList, by simp [hgroup], by simp [hname]⟩
  · rintro ⟨m, hgroup, hname⟩
    refine ⟨String.ofList m, ?_, ?_⟩
    · rw [← String.toList_inj]
      simp [hgroup]
    · rw [← String.toList_inj]
      simp [hname]

theorem dotted_eq_iff (k k' : Key) : k.dotted = k'.dotted ↔ k = k' ∨ k.Confusable k' := by
  have hlists : k.dotted = k'.dotted ↔
      k.group.toList ++ '.' :: k.name.toList = k'.group.toList ++ '.' :: k'.name.toList := by
    rw [← String.toList_inj]
    simp [dotted]
  rw [hlists, parted_eq_iff, Confusable, runsInto_iff, runsInto_iff]
  refine or_congr_left ?_
  rw [String.toList_inj, String.toList_inj]
  cases k
  cases k'
  simp

/-- Keys cannot be confused where no group holds a point. -/
theorem Confusable.point_mem_group {k k' : Key} (h : k.Confusable k') :
    '.' ∈ k.group.toList ∨ '.' ∈ k'.group.toList := by
  rcases h with ⟨middle, hgroup, -⟩ | ⟨middle, hgroup, -⟩
  · simp [hgroup]
  · simp [hgroup]

end Key

end JobWatch
