import JobWatch.Proofs.Settings.Environment

/-!
# Settings from all sources

The files and the environment are laid over one another, and each setting is read off its leaf.
-/

set_option autoImplicit false

namespace JobWatch

theorem Leaf.or_bind_read? {l : Leaf} {u v : Option SettingValue}
    (hu : ∀ w ∈ u, (l.read? w).isSome) :
    (u.or v).bind l.read? = (u.bind l.read?).or (v.bind l.read?) := by
  cases u with
  | none => rfl
  | some w =>
    obtain ⟨x, hx⟩ := Option.isSome_iff_exists.mp (hu w rfl)
    simp [hx]

namespace Settings

open SettingValue

theorem fileLayer_distinct {text : Option String} {entries : Entries}
    (h : fileLayer text = .done entries) : (table entries).Distinct := by
  cases text with
  | none =>
    cases h
    exact table_distinct_iff.mpr ⟨List.nodup_nil, by simp⟩
  | some text =>
    rw [fileLayer] at h
    split at h
    next hparse =>
      cases h
      exact Toml.parse?_distinct hparse
    next => cases h

theorem read?_of_wellTyped {entries : Entries} (h : WellTyped entries) (l : Leaf) :
    (leafOf entries l).bind l.read? = leafOf entries l := by
  cases hleaf : leafOf entries l with
  | none => rfl
  | some v => exact Leaf.read?_of_takes (h.leaves l v hleaf)

/-- Files with values of the right types laid over one another, below any environment. -/
theorem merge_files {s : Sources} {defaults locals : Entries}
    (hdefault : fileLayer s.defaultFile = .done defaults)
    (hlocal : fileLayer s.localFile = .done locals) (hdefaults : WellTyped defaults)
    (hlocals : WellTyped locals) :
    ∃ files, Sound files ∧ (∀ l, leafOf files l = (leafOf locals l).or (leafOf defaults l)) ∧
      ∀ bindings, merge { s with environment := bindings } =
        overlayLayer files (Environment.layer bindings) := by
  obtain ⟨first, hfirst, hsound, hleaf⟩ :=
    overlay_file (ε := LoadFault) hdefaults (fileLayer_distinct hdefault) sound_nil
  obtain ⟨files, hfiles, hsound, hleaf'⟩ :=
    overlay_file (ε := LoadFault) hlocals (fileLayer_distinct hlocal) hsound
  refine ⟨files, hsound, fun l => ?_, fun bindings => ?_⟩
  · have hnone : leafOf [] l = none := rfl
    rw [hleaf', hleaf, hnone, Option.or_none]
  · rw [merge, hdefault, Outcome.done_bind, hfirst, Outcome.done_bind, hlocal, Outcome.done_bind,
      hfiles, Outcome.done_bind]

/-- From files with values of the right types and an orderly environment settings are made, each by
itself from the highest source that has a value for it. -/
theorem load_by_leaf {s : Sources} {defaults locals : Entries}
    (hdefault : fileLayer s.defaultFile = .done defaults)
    (hlocal : fileLayer s.localFile = .done locals) (hdefaults : WellTyped defaults)
    (hlocals : WellTyped locals) (henvironment : Environment.Orderly s.environment) :
    ∃ settings, load s = .done settings ∧ ∀ l : Leaf, settings.leaf l =
      ((Environment.leafOf s.environment l).bind l.read?).or
        ((leafOf locals l).or ((leafOf defaults l).or l.builtIn)) := by
  obtain ⟨files, hsound, hleaf, hmerge⟩ := merge_files hdefault hlocal hdefaults hlocals
  obtain ⟨merged, hmerged, hsound, hlast⟩ :=
    overlay_environment (ε := LoadFault) hsound henvironment.serves
  obtain ⟨settings, hsettings, hread⟩ := hsound.settings
  have hload : load s = .done settings := by
    rw [load, hmerge s.environment, hmerged, Outcome.done_bind, hsettings]
  refine ⟨settings, hload, fun l => ?_⟩
  rw [hread, hlast, henvironment.lookup_layer, hleaf]
  have hlocalValues : ∀ v ∈ leafOf locals l, (l.read? v).isSome := fun v hv => by
    simp [Leaf.read?_of_takes (hlocals.leaves l v hv)]
  rw [Leaf.or_bind_read? (henvironment.readable l), Leaf.or_bind_read? hlocalValues,
    read?_of_wellTyped hlocals, read?_of_wellTyped hdefaults, Option.or_assoc, Option.or_assoc]

end Settings

end JobWatch
