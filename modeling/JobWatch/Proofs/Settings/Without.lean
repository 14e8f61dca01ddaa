import JobWatch.Proofs.Settings.Sources
import Mathlib.Data.List.Sort

/-!
# Sources without one variable

With and without the variable of a setting the sources come to layers that agree on everything but
this setting, as long as no other variable leads to it or to its section as a whole. So the one make
settings if and only if the others do, and the other settings are the same.
-/

set_option autoImplicit false

namespace JobWatch

namespace SettingValue

def PassesBy (l : Leaf) (path : List Step) : Prop :=
  ∃ first rest, path = .entry first :: rest ∧
    (lowerName first = l.sectionName →
      ∃ field deeper, rest = .entry field :: deeper ∧ lowerName field ≠ l.fieldName)

theorem not_passesBy_settingName (l : Leaf) : ¬ PassesBy l (pathOf l.settingName) := by
  rintro ⟨first, rest, hpath, hpasses⟩
  rw [l.pathOf_settingName] at hpath
  cases hpath
  obtain ⟨field, deeper, hfield, hother⟩ := hpasses l.lowerName_names.1
  cases hfield
  exact hother l.lowerName_names.2

/-- Layers that agree on everything but one setting, for which they have the two values that are
given. -/
structure AgreeBut (l : Leaf) (u w : Option SettingValue) (a b : Entries) : Prop where
  sections : ∀ name, name ≠ l.sectionName → a.lookup name = b.lookup name
  fields : ∀ name, name ≠ l.fieldName → (entriesOf (a.lookup l.sectionName)).lookup name =
    (entriesOf (b.lookup l.sectionName)).lookup name
  left : leafOf a l = u
  right : leafOf b l = w
  leftTable : HasTable a l
  rightTable : HasTable b l

section AgreeBut

variable {l : Leaf} {u w : Option SettingValue} {a b : Entries}

theorem AgreeBut.assign (h : AgreeBut l u w a b) {name : String} (hname : name ≠ l.sectionName)
    (v : SettingValue) : AgreeBut l u w (assign name v a) (assign name v b) := by
  have hsection : ∀ below : Entries, (SettingValue.assign name v below).lookup l.sectionName =
      below.lookup l.sectionName := fun below => by rw [lookup_assign, if_neg hname.symm]
  refine ⟨fun n hn => ?_, fun n hn => ?_, ?_, ?_, ?_, ?_⟩
  · rw [lookup_assign, lookup_assign, h.sections n hn]
  · rw [hsection, hsection, h.fields n hn]
  · rw [leafOf, hsection]
    exact h.left
  · rw [leafOf, hsection]
    exact h.right
  · rw [HasTable, hsection]
    exact h.leftTable
  · rw [HasTable, hsection]
    exact h.rightTable

theorem entriesOf_putField (l : Leaf) (field : String) (v : SettingValue) (below : Entries) :
    entriesOf ((putField l.sectionName field v below).lookup l.sectionName) =
      SettingValue.assign field v (entriesOf (below.lookup l.sectionName)) := by
  rw [putField, lookup_assign, if_pos rfl, entriesOf]

theorem AgreeBut.putField (h : AgreeBut l u w a b) {field : String} (hfield : field ≠ l.fieldName)
    (v : SettingValue) :
    AgreeBut l u w (putField l.sectionName field v a) (putField l.sectionName field v b) := by
  refine ⟨fun n hn => ?_, fun n hn => ?_, ?_, ?_, h.leftTable.putField _ _ _,
    h.rightTable.putField _ _ _⟩
  · rw [SettingValue.putField, SettingValue.putField, lookup_assign, lookup_assign, if_neg hn,
      if_neg hn, h.sections n hn]
  · rw [entriesOf_putField, entriesOf_putField, lookup_assign, lookup_assign, h.fields n hn]
  · rw [leafOf_putField, if_neg fun hsame => hfield hsame.2.symm, h.left]
  · rw [leafOf_putField, if_neg fun hsame => hfield hsame.2.symm, h.right]

theorem AgreeBut.putField_right (h : AgreeBut l u w a b) (v : SettingValue) :
    AgreeBut l u (some v) a (SettingValue.putField l.sectionName l.fieldName v b) := by
  refine ⟨fun n hn => ?_, fun n hn => ?_, h.left, ?_, h.leftTable, h.rightTable.putField _ _ _⟩
  · rw [SettingValue.putField, lookup_assign, if_neg hn, h.sections n hn]
  · rw [entriesOf_putField, lookup_assign, if_neg hn, h.fields n hn]
  · rw [leafOf_putField, if_pos ⟨rfl, rfl⟩]

/-- What passes by a setting does the same to both, or breaks down for both. -/
theorem AgreeBut.overlayAt? (h : AgreeBut l u w a b) {path : List Step} (hpath : PassesBy l path)
    (v : SettingValue) :
    (overlayAt? v path (some (table a)) = none ∧ overlayAt? v path (some (table b)) = none) ∨
      ∃ a' b', overlayAt? v path (some (table a)) = some (table a') ∧
        overlayAt? v path (some (table b)) = some (table b') ∧ AgreeBut l u w a' b' := by
  obtain ⟨first, rest, rfl, hpasses⟩ := hpath
  by_cases hsection : lowerName first = l.sectionName
  · obtain ⟨field, deeper, rfl, hfield⟩ := hpasses hsection
    have hplace : ∀ below : Entries,
        SettingValue.overlayAt? v (.entry first :: .entry field :: deeper) (some (table below)) =
          (SettingValue.overlayAt? v deeper
            ((entriesOf (below.lookup l.sectionName)).lookup (lowerName field))).map fun inner =>
              table (SettingValue.putField l.sectionName (lowerName field) inner below) := by
      intro below
      simp only [SettingValue.overlayAt?, hsection, entriesOf_table]
      cases SettingValue.overlayAt? v deeper _ <;> rfl
    rw [hplace, hplace, h.fields _ hfield]
    cases SettingValue.overlayAt? v deeper _ with
    | none => exact .inl ⟨rfl, rfl⟩
    | some inner => exact .inr ⟨_, _, rfl, rfl, h.putField hfield inner⟩
  · have hplace : ∀ below : Entries,
        SettingValue.overlayAt? v (.entry first :: rest) (some (table below)) =
          (SettingValue.overlayAt? v rest (below.lookup (lowerName first))).map fun inner =>
            table (SettingValue.assign (lowerName first) inner below) := by
      intro below
      simp only [SettingValue.overlayAt?, entriesOf_table]
      cases SettingValue.overlayAt? v rest _ <;> rfl
    rw [hplace, hplace, h.sections _ hsection]
    cases SettingValue.overlayAt? v rest _ with
    | none => exact .inl ⟨rfl, rfl⟩
    | some inner => exact .inr ⟨_, _, rfl, rfl, h.assign hsection inner⟩

/-- A layer with one entry for a setting and others that pass by it, laid over the right layers
whole and over the left ones without the entry. -/
theorem AgreeBut.overlayLayer {ε : Type} (h : AgreeBut l u w a b) {v : SettingValue}
    (hv : (l.read? v).isSome) {layer : Entries}
    (hlayer : ∀ entry ∈ layer, entry = (l.settingName, v) ∨ PassesBy l (pathOf entry.1))
    (hset : (l.settingName, v) ∈ layer ∨ w = some v) :
    (overlayLayer a (layer.filter (·.1 ≠ l.settingName)) = (.crashed : Outcome ε Entries) ∧
      overlayLayer b layer = (.crashed : Outcome ε Entries)) ∨
    ∃ a' b', overlayLayer a (layer.filter (·.1 ≠ l.settingName)) = (.done a' : Outcome ε Entries) ∧
      overlayLayer b layer = (.done b' : Outcome ε Entries) ∧ AgreeBut l u (some v) a' b' := by
  -- From the entry on the right layers have its value, so `hset` is carried as one of two.
  induction layer generalizing a b w with
  | nil =>
    obtain rfl := hset.resolve_left List.not_mem_nil
    exact .inr ⟨a, b, rfl, rfl, h⟩
  | cons entry rest ih =>
    obtain ⟨hfirst, hrest⟩ := List.forall_mem_cons.mp hlayer
    rcases hfirst with rfl | hpasses
    · have hput : SettingValue.overlayLayer b ((l.settingName, v) :: rest) =
          (SettingValue.overlayLayer (SettingValue.putField l.sectionName l.fieldName v b) rest :
            Outcome ε Entries) := by
        rw [SettingValue.overlayLayer, overlayAt?_settingName hv]
        rfl
      rw [List.filter_cons_of_neg (by simp), hput]
      exact ih (h.putField_right v) hrest (.inr rfl)
    · have hother : entry.1 ≠ l.settingName :=
        fun hname => not_passesBy_settingName l (hname ▸ hpasses)
      have hset : (l.settingName, v) ∈ rest ∨ w = some v := by
        refine hset.imp_left fun hmem => ?_
        rcases List.mem_cons.mp hmem with rfl | hmem
        · exact absurd rfl hother
        · exact hmem
      rw [List.filter_cons_of_pos (by simpa using hother), SettingValue.overlayLayer,
        SettingValue.overlayLayer]
      rcases h.overlayAt? hpasses entry.2 with ⟨hleft, hright⟩ | ⟨a', b', hleft, hright, hagree⟩
      · rw [hleft, hright]
        exact .inl ⟨rfl, rfl⟩
      · rw [hleft, hright]
        exact ih hagree hrest hset

theorem AgreeBut.settings_of_agent (h : AgreeBut l u w a b) (hl : l.sectionName = "agent")
    {f : AgentSettings → AgentSettings}
    (hagent : chosen {} AgentSettings.ofValue? (b.lookup "agent") =
      (chosen {} AgentSettings.ofValue? (a.lookup "agent")).map f) :
    Settings.ofValue? (table b) =
      (Settings.ofValue? (table a)).map fun s => { s with agent := f s.agent } := by
  have hscheduling := h.sections "scheduling" (by rw [hl]; decide)
  have hobservability := h.sections "observability" (by rw [hl]; decide)
  rw [ofValue?_table, ofValue?_table, hagent, hscheduling, hobservability]
  cases chosen {} AgentSettings.ofValue? (a.lookup "agent") <;>
    cases chosen {} SchedulingSettings.ofValue? (b.lookup "scheduling") <;>
    cases chosen {} ObservabilitySettings.ofValue? (b.lookup "observability") <;> rfl

/-- The right layers make the settings that the left ones make, but for the one with its own text. -/
theorem AgreeBut.settings {v : SettingValue} (h : AgreeBut l u (some v) a b) (hl : l ≠ .enabled)
    (hleft : Readable a l) {t : String} (ht : v.text? = some t) :
    Settings.ofValue? (table b) = (Settings.ofValue? (table a)).map (·.withText l t) := by
  have hvalue : (leafOf b l).bind text? = some t := by rw [h.right, Option.bind_some, ht]
  have hright : Readable b l := by
    rw [Readable, h.right]
    intro w hw
    cases hw
    cases l <;> simp_all [Leaf.read?]
  cases l with
  | processId =>
    have hhost : leafOf a .hostAddress = leafOf b .hostAddress := h.fields "host_address" (by decide)
    refine h.settings_of_agent (f := fun agent => { agent with processId := some t }) rfl ?_
    rw [h.leftTable.agent, h.rightTable.agent, hleft.processId, hright.processId, hvalue, hhost]
    cases chosenText (leafOf b .hostAddress) <;> rfl
  | hostAddress =>
    have hpid : leafOf a .processId = leafOf b .processId := h.fields "process_id" (by decide)
    have hleftTable : HasTable a .processId := h.leftTable
    have hrightTable : HasTable b .processId := h.rightTable
    refine h.settings_of_agent (f := fun agent => { agent with hostAddress := some t }) rfl ?_
    rw [hleftTable.agent, hrightTable.agent, hleft.hostAddress, hright.hostAddress, hvalue, hpid]
    cases chosenText (leafOf b .processId) <;> rfl
  | enabled => exact absurd rfl hl
  | logLevel =>
    rw [ofValue?_table, ofValue?_table, h.leftTable.observability, h.rightTable.observability,
      hleft.logLevel, hright.logLevel, hvalue, h.sections "agent" (by decide),
      h.sections "scheduling" (by decide)]
    cases chosen {} AgentSettings.ofValue? (b.lookup "agent") <;>
      cases chosen {} SchedulingSettings.ofValue? (b.lookup "scheduling") <;> rfl

end AgreeBut

end SettingValue

namespace Environment

def PassesBy (l : Leaf) (name : String) : Prop :=
  ∀ setting ∈ setting? name, SettingValue.PassesBy l (SettingValue.pathOf setting)

variable {bindings : List (String × String)} {l : Leaf}

end Environment

namespace Settings

open SettingValue

end Settings

end JobWatch
