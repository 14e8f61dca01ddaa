/-!
# Looking up named values

A name is looked up at its first place in a list. A value that is the only one under its name is
the one that is found.
-/

set_option autoImplicit false

namespace JobWatch

variable {α : Type} {entries : List (String × α)} {name : String}

theorem lookup_entry (name : String) (a : α) (rest : List (String × α)) (n : String) :
    List.lookup n ((name, a) :: rest) = if n = name then some a else rest.lookup n := by
  rw [List.lookup_cons]
  by_cases h : n = name
  · simp [h]
  · rw [if_neg h, beq_eq_false_iff_ne.mpr h]

theorem lookup_eq_none_iff_names : entries.lookup name = none ↔ name ∉ entries.map Prod.fst := by
  rw [List.lookup_eq_none_iff]
  constructor
  · intro h hmem
    obtain ⟨entry, hentry, hname⟩ := List.mem_map.mp hmem
    simpa [hname] using h entry hentry
  · intro h entry hentry
    have hne : name ≠ entry.1 := fun hsame => h (List.mem_map.mpr ⟨entry, hentry, hsame.symm⟩)
    simpa using hne

theorem mem_of_lookup {a : α} (h : entries.lookup name = some a) : (name, a) ∈ entries := by
  obtain ⟨before, after, hentries, -⟩ := List.lookup_eq_some_iff.mp h
  simp [hentries]

theorem lookup_eq_some_of_unique {a : α} (hmem : (name, a) ∈ entries)
    (hunique : ∀ b, (name, b) ∈ entries → b = a) : entries.lookup name = some a := by
  cases hlookup : entries.lookup name with
  | none => exact absurd (List.mem_map_of_mem hmem) (lookup_eq_none_iff_names.mp hlookup)
  | some b => rw [hunique b (mem_of_lookup hlookup)]

end JobWatch
