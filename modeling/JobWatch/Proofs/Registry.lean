import JobWatch.Registry

/-!
# Registries of schedulers that give their names

As long as every bound scheduler gives its name, no operation poisons the registry: a scheduler is
bound at the end or refused, and unbinding takes out those of the name.
-/

set_option autoImplicit false

namespace JobWatch.Registry

variable {ρ : Type}

theorem isNamed_of_readable (nameOf : ρ → Option String) (name : String) {bound : List ρ}
    (hbound : ∀ r ∈ bound, nameOf r ≠ none) :
    isNamed nameOf name bound = .done (bound.any fun r => nameOf r = some name) := by
  induction bound with
  | nil => rfl
  | cons r bound ih =>
    obtain ⟨other, hother⟩ := Option.ne_none_iff_exists'.mp (hbound r (by simp))
    have hrest := ih fun s hs => hbound s (by simp [hs])
    by_cases hname : other = name <;> simp [isNamed, hother, hname, hrest]

theorem bind_of_readable (nameOf : ρ → Option String) (r : ρ) {name : String} {reg : Registry ρ}
    (hname : nameOf r = some name) (hfree : reg.poisoned = false)
    (hbound : ∀ s ∈ reg.bound, nameOf s ≠ none) :
    reg.bind nameOf r =
      if reg.bound.any fun s => nameOf s = some name then
        (reg, .silent (.failed (.alreadyRegistered name)))
      else ({ reg with bound := reg.bound ++ [r] }, .tell (.schedulerRegistered name)) := by
  have hnamed := isNamed_of_readable nameOf name hbound
  unfold bind
  cases htaken : reg.bound.any fun s => nameOf s = some name <;>
    simp only [hname, hfree, hnamed, htaken, Bool.false_eq_true, if_false, if_true]

theorem unbind_of_readable (nameOf : ρ → Option String) (name : String) {reg : Registry ρ}
    (hfree : reg.poisoned = false) (hbound : ∀ s ∈ reg.bound, nameOf s ≠ none) :
    reg.unbind nameOf name =
      ({ reg with bound := reg.bound.filter fun s => nameOf s ≠ some name },
        .silent (.done (reg.bound.any fun s => nameOf s = some name))) := by
  have hreadable : (reg.bound.any fun s => (nameOf s).isNone) = false := by
    simpa [Option.isNone_iff_eq_none] using hbound
  have hanswer : decide ((reg.bound.filter fun s => nameOf s ≠ some name).length ≠
      reg.bound.length) = reg.bound.any fun s => nameOf s = some name := by
    rw [Bool.eq_iff_iff]
    simp [List.length_filter_eq_length_iff]
  simp only [unbind, hfree, hreadable, Bool.false_eq_true, if_false, hanswer]

end JobWatch.Registry
