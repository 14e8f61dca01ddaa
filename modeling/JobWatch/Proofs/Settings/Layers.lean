import JobWatch.Proofs.Settings.Leaf
import JobWatch.Proofs.Text.Parser
import JobWatch.Proofs.Toml.Names

/-!
# Laying layers over one another

A file sets the leaves that it has values for and leaves the others as the layers below it have
them, and so does a variable of the environment for its one leaf.
-/

set_option autoImplicit false

namespace JobWatch

namespace SettingValue

open JobWatch.Text JobWatch.Text.Parser

theorem lookup_assign (name : String) (v : SettingValue) (entries : Entries) (n : String) :
    (assign name v entries).lookup n = if n = name then some v else entries.lookup n := by
  induction entries with
  | nil => exact lookup_entry name v [] n
  | cons entry rest ih =>
    obtain ⟨known, old⟩ := entry
    rw [assign, lookup_entry]
    by_cases hknown : known = name
    · rw [if_pos hknown, lookup_entry, hknown]
      split <;> rfl
    · rw [if_neg hknown, lookup_entry, ih]
      by_cases h : n = known
      · simp [h, hknown]
      · simp [h]

theorem lookup_overlayEntries {below layer : Entries} (hnames : (layer.map Prod.fst).Nodup)
    (hlower : ∀ entry ∈ layer, lowerName entry.1 = entry.1) (n : String) :
    (overlayEntries below layer).lookup n =
      match layer.lookup n with
      | some v => some (overlay (below.lookup n) v)
      | none => below.lookup n := by
  induction layer generalizing below with
  | nil => rfl
  | cons entry rest ih =>
    obtain ⟨name, v⟩ := entry
    obtain ⟨hnew, hnames⟩ := List.nodup_cons.mp hnames
    obtain ⟨hname, hlower⟩ := List.forall_mem_cons.mp hlower
    have hfirst : lowerName name = name := hname
    rw [overlayEntries, ih hnames hlower, hfirst, lookup_assign, lookup_entry]
    by_cases h : n = name
    · have hrest : rest.lookup n = none := lookup_eq_none_iff_names.mpr (h ▸ hnew)
      rw [hrest, if_pos h, if_pos h, h]
    · rw [if_neg h, if_neg h]

theorem entriesOf_overlay_table (below : Option SettingValue) (entries : Entries) :
    entriesOf (some (overlay below (table entries))) = overlayEntries (entriesOf below) entries := by
  cases entries with
  | nil =>
    rw [overlay, overlayEntries]
    cases below <;> rfl
  | cons entry entries => rw [overlay, entriesOf]

theorem overlay_table_isTable {below : Option SettingValue}
    (hbelow : ∀ v ∈ below, ∃ inner, v = table inner) (entries : Entries) :
    ∃ inner, overlay below (table entries) = table inner := by
  cases entries with
  | nil =>
    cases below with
    | none => exact ⟨[], rfl⟩
    | some v => exact hbelow v rfl
  | cons entry entries => exact ⟨_, rfl⟩

theorem overlay_of_readable {l : Leaf} {v : SettingValue} (h : (l.read? v).isSome)
    (below : Option SettingValue) : overlay below v = v := by
  cases v with
  | table entries => cases l <;> cases h
  | _ => rfl

/-! ### Files -/

def LowerBare (name : String) : Prop :=
  ∀ c ∈ name.toList, Toml.isBare c = true ∧ lowerLetter c = c

instance (name : String) : Decidable (LowerBare name) :=
  decidable_of_iff (name.toList.all fun c => Toml.isBare c && lowerLetter c = c)
    (by simp [LowerBare])

theorem lowerName_of_lowerBare {name : String} (h : LowerBare name) : lowerName name = name := by
  have hletters : name.toList.map lowerLetter = name.toList := by
    rw [List.map_congr_left (g := id) fun c hc => (h c hc).2, List.map_id]
  rw [lowerName, hletters, String.ofList_toList]

theorem isNameChar_of_isBare {c : Char} (h : Toml.isBare c = true) : isNameChar c = true := by
  simp only [Toml.isBare, Bool.or_eq_true] at h
  simp only [isNameChar, Bool.or_eq_true]
  tauto

theorem pathOf_of_lowerBare {name : String} (h : LowerBare name) : pathOf name = [.entry name] := by
  unfold pathOf
  by_cases hempty : name.toList = []
  · rw [hempty]
    rfl
  · have hname : pathName name.toList = some (.entry name, []) := by
      have hrun := run1_append (fun c hc => isNameChar_of_isBare (h c hc).1) hempty
        (stopsAt_nil isNameChar)
      rw [List.append_nil] at hrun
      rw [pathName, bind_of_eq hrun, String.ofList_toList]
      rfl
    have hmore : many pathStep [] = some ([], []) := by
      rw [many, manyFrom]
      rfl
    simp only [whole?]
    rw [bind_of_eq hname, bind_of_eq hmore]
    rfl

/-- The entries of a file that have values of the right types for some of the settings. All other
entries may be there as they please. -/
structure WellTyped (entries : Entries) : Prop where
  names : ∀ entry ∈ entries, LowerBare entry.1
  sections : ∀ l : Leaf, ∀ v ∈ entries.lookup l.sectionName,
    ∃ inner, v = table inner ∧ ∀ entry ∈ inner, LowerBare entry.1
  leaves : ∀ l : Leaf, ∀ v ∈ leafOf entries l, l.Takes v

theorem overlayLayer_of_bare {ε : Type} {below layer : Entries}
    (hnames : ∀ entry ∈ layer, LowerBare entry.1) :
    overlayLayer below layer = (.done (overlayEntries below layer) : Outcome ε Entries) := by
  induction layer generalizing below with
  | nil => rfl
  | cons entry rest ih =>
    obtain ⟨name, v⟩ := entry
    obtain ⟨hname, hrest⟩ := List.forall_mem_cons.mp hnames
    have hplace : overlayAt? v (pathOf name) (some (table below)) =
        some (table (assign (lowerName name) (overlay (below.lookup (lowerName name)) v) below)) := by
      rw [pathOf_of_lowerBare hname]
      rfl
    rw [overlayLayer, hplace, overlayEntries]
    exact ih hrest

theorem leafOf_overlayEntries {below layer : Entries} (hlayer : WellTyped layer)
    (hdistinct : (table layer).Distinct) (l : Leaf) :
    leafOf (overlayEntries below layer) l = (leafOf layer l).or (leafOf below l) := by
  obtain ⟨hnames, hvalues⟩ := table_distinct_iff.mp hdistinct
  have hlower := fun entry hentry => lowerName_of_lowerBare (hlayer.names entry hentry)
  have hsection : (overlayEntries below layer).lookup l.sectionName = _ :=
    lookup_overlayEntries hnames hlower l.sectionName
  cases hfound : layer.lookup l.sectionName with
  | none =>
    rw [hfound] at hsection
    simp only [leafOf, hsection, hfound]
    rfl
  | some v =>
    obtain ⟨inner, rfl, hinner⟩ := hlayer.sections l v hfound
    obtain ⟨hfields, -⟩ := table_distinct_iff.mp (hvalues _ (mem_of_lookup hfound))
    rw [hfound] at hsection
    have hfield : (overlayEntries (entriesOf (below.lookup l.sectionName)) inner).lookup
        l.fieldName = _ := lookup_overlayEntries hfields
      (fun entry hentry => lowerName_of_lowerBare (hinner entry hentry)) l.fieldName
    have hleaf : leafOf layer l = inner.lookup l.fieldName := by
      rw [leafOf, hfound, entriesOf]
    rw [leafOf, hsection, entriesOf_overlay_table, hfield, hleaf]
    cases hvalue : inner.lookup l.fieldName with
    | none => rfl
    | some w =>
      have htakes := hlayer.leaves l w (hleaf.trans hvalue)
      have hreadable : (l.read? w).isSome := by simp [Leaf.read?_of_takes htakes]
      simp [overlay_of_readable hreadable]

/-- A file laid over sound layers. -/
theorem overlay_file {ε : Type} {below layer : Entries} (hlayer : WellTyped layer)
    (hdistinct : (table layer).Distinct) (hbelow : Sound below) :
    ∃ merged, overlayLayer below layer = (.done merged : Outcome ε Entries) ∧ Sound merged ∧
      ∀ l, leafOf merged l = (leafOf layer l).or (leafOf below l) := by
  have hleaf : ∀ l, leafOf (overlayEntries below layer) l = _ :=
    leafOf_overlayEntries hlayer hdistinct
  refine ⟨overlayEntries below layer, overlayLayer_of_bare hlayer.names, ⟨?_, ?_⟩, hleaf⟩
  · intro l v hv
    rw [Option.mem_def, lookup_overlayEntries (table_distinct_iff.mp hdistinct).1
      fun entry hentry => lowerName_of_lowerBare (hlayer.names entry hentry)] at hv
    cases hfound : layer.lookup l.sectionName with
    | none =>
      rw [hfound] at hv
      exact hbelow.tables l v hv
    | some w =>
      obtain ⟨inner, rfl, -⟩ := hlayer.sections l w hfound
      rw [hfound] at hv
      cases hv
      exact overlay_table_isTable (hbelow.tables l) inner
  · intro l v hv
    rw [hleaf, Option.mem_def, Option.or_eq_some_iff] at hv
    rcases hv with hlayerValue | ⟨-, hbelowValue⟩
    · simp [Leaf.read?_of_takes (hlayer.leaves l v hlayerValue)]
    · exact hbelow.leaves l v hbelowValue

end SettingValue

end JobWatch
