import Mathlib.Data.List.Basic

/-!
# What was begun and not ended since

A history lists what was done, the earliest first. What begins a state of affairs, and what ends it,
may hang on what was done before.
-/

set_option autoImplicit false

namespace JobWatch

variable {α : Type}

/-- Something was begun in a history and not ended later on. -/
def Since (begins ends : List α → α → Prop) (history : List α) : Prop :=
  ∃ before a after, history = before ++ a :: after ∧ begins before a ∧
    ∀ between b rest, after = between ++ b :: rest → ¬ ends (before ++ a :: between) b

theorem not_since_nil (begins ends : List α → α → Prop) : ¬ Since begins ends [] := by
  simp [Since]

theorem since_concat_iff (begins ends : List α → α → Prop) (history : List α) (a : α) :
    Since begins ends (history ++ [a]) ↔
      begins history a ∨ Since begins ends history ∧ ¬ ends history a := by
  constructor
  · rintro ⟨before, b, after, heq, hbegins, hends⟩
    rcases List.eq_nil_or_concat' after with rfl | ⟨after, last, rfl⟩
    · obtain ⟨rfl, hab⟩ := List.append_inj' heq rfl
      obtain rfl := List.singleton_inj.mp hab
      exact .inl hbegins
    · rw [← List.cons_append, ← List.append_assoc] at heq
      obtain ⟨rfl, hlast⟩ := List.append_inj' heq rfl
      obtain rfl := List.singleton_inj.mp hlast
      refine .inr ⟨⟨before, b, after, rfl, hbegins, ?_⟩, hends after a [] rfl⟩
      intro between c rest hafter
      exact hends between c (rest ++ [a]) (by simp [hafter])
  · rintro (hbegins | ⟨⟨before, b, after, rfl, hbegins, hends⟩, hlast⟩)
    · exact ⟨history, a, [], rfl, hbegins, by simp⟩
    · refine ⟨before, b, after ++ [a], by simp, hbegins, ?_⟩
      intro between c rest hafter
      -- what ends it is either the last thing done or stands in the history before
      rcases List.eq_nil_or_concat' rest with rfl | ⟨rest, last, rfl⟩
      · obtain ⟨rfl, hac⟩ := List.append_inj' hafter rfl
        obtain rfl := List.singleton_inj.mp hac
        exact hlast
      · rw [← List.cons_append, ← List.append_assoc] at hafter
        obtain ⟨rfl, -⟩ := List.append_inj' hafter rfl
        exact hends between c rest rfl

end JobWatch
