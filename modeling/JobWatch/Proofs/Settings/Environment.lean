import JobWatch.Proofs.Settings.Layers

/-!
# Variables laid over the files

A variable of the environment that leads to one of the settings sets its leaf alone when it is laid
over sound layers.
-/

set_option autoImplicit false

namespace JobWatch

def Leaf.settingName : Leaf → String
  | processId => "agent.process_id"
  | hostAddress => "agent.host_address"
  | enabled => "scheduling.enabled"
  | logLevel => "observability.log_level"

theorem Leaf.settingName_injective {l m : Leaf} (h : l.settingName = m.settingName) : l = m := by
  revert h
  cases l <;> cases m <;> decide

theorem Leaf.variableName_injective {l m : Leaf} (h : l.variableName = m.variableName) :
    l = m := by
  revert h
  cases l <;> cases m <;> decide

theorem Leaf.setting?_variableName (l : Leaf) :
    Environment.setting? l.variableName = some l.settingName := by
  cases l <;> decide +kernel

theorem Leaf.pathOf_settingName (l : Leaf) :
    SettingValue.pathOf l.settingName = [.entry l.sectionName, .entry l.fieldName] := by
  cases l <;> decide +kernel

theorem Leaf.lowerName_names (l : Leaf) :
    lowerName l.sectionName = l.sectionName ∧ lowerName l.fieldName = l.fieldName := by
  cases l <;> decide +kernel

namespace SettingValue

def Serves (entry : String × SettingValue) : Prop :=
  ∃ l : Leaf, entry.1 = l.settingName ∧ (l.read? entry.2).isSome

def putField (tableName fieldName : String) (v : SettingValue) (below : Entries) : Entries :=
  assign tableName (table (assign fieldName v (entriesOf (below.lookup tableName)))) below

theorem leafOf_putField (tableName fieldName : String) (v : SettingValue) (below : Entries)
    (l : Leaf) :
    leafOf (putField tableName fieldName v below) l =
      if l.sectionName = tableName ∧ l.fieldName = fieldName then some v else leafOf below l := by
  rw [leafOf, putField, lookup_assign]
  by_cases hsection : l.sectionName = tableName
  · rw [if_pos hsection, entriesOf, lookup_assign]
    by_cases hfield : l.fieldName = fieldName
    · rw [if_pos hfield, if_pos ⟨hsection, hfield⟩]
    · rw [if_neg hfield, if_neg fun h => hfield h.2, leafOf, hsection]
  · rw [if_neg hsection, if_neg fun h => hsection h.1, leafOf]

theorem HasTable.putField {below : Entries} {l : Leaf} (h : HasTable below l)
    (tableName fieldName : String) (v : SettingValue) :
    HasTable (putField tableName fieldName v below) l := by
  intro w hw
  rw [Option.mem_def, SettingValue.putField, lookup_assign] at hw
  split at hw
  · cases hw
    exact ⟨_, rfl⟩
  · exact h w hw

theorem overlayAt?_settingName {l : Leaf} {v : SettingValue} (hv : (l.read? v).isSome)
    (below : Entries) :
    overlayAt? v (pathOf l.settingName) (some (table below)) =
      some (table (putField l.sectionName l.fieldName v below)) := by
  obtain ⟨hsection, hfield⟩ := l.lowerName_names
  rw [l.pathOf_settingName]
  simp [overlayAt?, putField, hsection, hfield, overlay_of_readable hv]

/-- One entry of the environment laid over sound layers. -/
theorem overlay_serving {below : Entries} (hbelow : Sound below) {entry : String × SettingValue}
    (hserves : Serves entry) :
    ∃ merged, overlayAt? entry.2 (pathOf entry.1) (some (table below)) = some (table merged) ∧
      Sound merged ∧
      ∀ m, leafOf merged m = if m.settingName = entry.1 then some entry.2 else leafOf below m := by
  obtain ⟨l, hname, hv⟩ := hserves
  have hleaf : ∀ m, leafOf (putField l.sectionName l.fieldName entry.2 below) m =
      if m.settingName = entry.1 then some entry.2 else leafOf below m := by
    intro m
    rw [leafOf_putField, hname]
    by_cases hsame : m = l
    · rw [if_pos (by simp [hsame]), if_pos (congrArg _ hsame)]
    · rw [if_neg fun h => hsame (Leaf.eq_of_names h.1 h.2),
        if_neg fun h => hsame (Leaf.settingName_injective h)]
  refine ⟨_, hname ▸ overlayAt?_settingName hv below, ⟨fun m => (hbelow.tables m).putField _ _ _, ?_⟩, hleaf⟩
  intro m w hw
  rw [Option.mem_def, hleaf] at hw
  split at hw
  next hsame =>
    cases hw
    exact Leaf.settingName_injective (hsame.trans hname) ▸ hv
  next => exact hbelow.leaves m w hw

/-- The environment laid over sound layers: the last entry for a leaf holds. -/
theorem overlay_environment {ε : Type} {below layer : Entries} (hbelow : Sound below)
    (hserves : ∀ entry ∈ layer, Serves entry) :
    ∃ merged, overlayLayer below layer = (.done merged : Outcome ε Entries) ∧ Sound merged ∧
      ∀ l : Leaf, leafOf merged l = (layer.reverse.lookup l.settingName).or (leafOf below l) := by
  induction layer generalizing below with
  | nil => exact ⟨below, rfl, hbelow, fun _ => rfl⟩
  | cons entry rest ih =>
    -- What later entries leave of the first one is what `reverse` puts behind them.
    obtain ⟨hfirst, hrest⟩ := List.forall_mem_cons.mp hserves
    obtain ⟨next, hnext, hsound, hleaf⟩ := overlay_serving hbelow hfirst
    obtain ⟨merged, hmerged, hsound, hlast⟩ := ih hsound hrest
    refine ⟨merged, ?_, hsound, fun l => ?_⟩
    · rw [overlayLayer, hnext]
      exact hmerged
    · rw [hlast, hleaf, List.reverse_cons, List.lookup_append, lookup_entry]
      cases rest.reverse.lookup l.settingName <;> split <;> rfl

end SettingValue

namespace Environment

def IsPlain (text : String) : Prop :=
  lowerName text ≠ "true" ∧ lowerName text ≠ "false" ∧ Number.integer? text = none ∧
    Number.real? text = none

theorem value_of_isPlain {text : String} (h : IsPlain text) : value text = .text text := by
  obtain ⟨htrue, hfalse, hinteger, hreal⟩ := h
  unfold value
  split
  next hword => exact absurd hword htrue
  next hword => exact absurd hword hfalse
  next => rw [hinteger, hreal]

/-- An environment with values of use for some of the settings, next to variables that are there for
something else. -/
structure Orderly (bindings : List (String × String)) : Prop where
  names : (bindings.map Prod.fst).Nodup
  uses : ∀ binding ∈ bindings, setting? binding.1 = none ∨
    ∃ l : Leaf, binding.1 = l.variableName ∧ (l.read? (value binding.2)).isSome

def leafOf (bindings : List (String × String)) (l : Leaf) : Option SettingValue :=
  (bindings.lookup l.variableName).map value

variable {bindings : List (String × String)}

theorem mem_layer_iff {name : String} {v : SettingValue} :
    (name, v) ∈ layer bindings ↔
      ∃ key text, (key, text) ∈ bindings ∧ setting? key = some name ∧ value text = v := by
  simp only [layer, List.mem_filterMap, List.mem_mergeSort, Prod.exists, Option.map_eq_some_iff,
    Prod.mk.injEq]
  constructor
  · rintro ⟨key, text, hmem, _, hname, rfl, hv⟩
    exact ⟨key, text, hmem, hname, hv⟩
  · rintro ⟨key, text, hmem, hname, hv⟩
    exact ⟨key, text, hmem, name, hname, rfl, hv⟩

theorem Orderly.serves (h : Orderly bindings) :
    ∀ entry ∈ layer bindings, SettingValue.Serves entry := by
  rintro ⟨name, v⟩ hentry
  obtain ⟨key, text, hmem, hname, rfl⟩ := mem_layer_iff.mp hentry
  rcases h.uses _ hmem with hnone | ⟨l, hkey, hvalue⟩
  · cases hnone.symm.trans hname
  · have hkey : key = l.variableName := hkey
    rw [hkey, l.setting?_variableName] at hname
    cases hname
    exact ⟨l, rfl, hvalue⟩

/-- Only the variable of a setting leads to it. -/
theorem Orderly.key_of_leaf (h : Orderly bindings) {l : Leaf} {key text : String}
    (hmem : (key, text) ∈ bindings) (hkey : setting? key = some l.settingName) :
    key = l.variableName := by
  rcases h.uses _ hmem with hnone | ⟨m, hname, -⟩
  · cases hnone.symm.trans hkey
  · have hname : key = m.variableName := hname
    rw [hname, m.setting?_variableName] at hkey
    rw [hname, Leaf.settingName_injective (Option.some.inj hkey)]

theorem Orderly.lookup_layer (h : Orderly bindings) (l : Leaf) :
    (layer bindings).reverse.lookup l.settingName = leafOf bindings l := by
  rw [leafOf]
  cases hlookup : bindings.lookup l.variableName with
  | none =>
    rw [Option.map_none, lookup_eq_none_iff_names]
    intro hentry
    obtain ⟨⟨_, v⟩, hentry, rfl⟩ := List.mem_map.mp hentry
    obtain ⟨key, text, hmem, hname, -⟩ := mem_layer_iff.mp (List.mem_reverse.mp hentry)
    refine lookup_eq_none_iff_names.mp hlookup ?_
    exact h.key_of_leaf hmem hname ▸ List.mem_map_of_mem hmem
  | some text =>
    have hmem := mem_of_lookup hlookup
    refine lookup_eq_some_of_unique (List.mem_reverse.mpr (mem_layer_iff.mpr
      ⟨_, text, hmem, l.setting?_variableName, rfl⟩)) fun w hw => ?_
    obtain ⟨key, other, hother, hname, rfl⟩ := mem_layer_iff.mp (List.mem_reverse.mp hw)
    have hsame := List.inj_on_of_nodup_map h.names hother hmem (h.key_of_leaf hother hname)
    rw [(Prod.mk.inj hsame).2]

theorem Orderly.readable (h : Orderly bindings) (l : Leaf) :
    ∀ v ∈ leafOf bindings l, (l.read? v).isSome := by
  intro v hv
  rw [Option.mem_def, ← h.lookup_layer] at hv
  have hmem : (l.settingName, v) ∈ layer bindings :=
    List.mem_reverse.mp (mem_of_lookup hv)
  obtain ⟨m, hname, hreadable⟩ := h.serves _ hmem
  rwa [Leaf.settingName_injective hname]

end Environment

end JobWatch
