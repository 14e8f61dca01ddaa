import JobWatch.Settings.Load
import Mathlib.Data.List.Basic
import Mathlib.Data.Option.Basic

/-!
# The four settings in merged layers

A setting is a leaf of two tables, the one inside the other. Merged layers make settings if the
sections are tables and each leaf that is there has a value that may serve for it.
-/

set_option autoImplicit false

namespace JobWatch

open SettingValue (Entries entriesOf)

inductive Leaf where
  | processId
  | hostAddress
  | enabled
  | logLevel
  deriving DecidableEq, Repr

namespace Leaf

def sectionName : Leaf → String
  | processId => "agent"
  | hostAddress => "agent"
  | enabled => "scheduling"
  | logLevel => "observability"

def fieldName : Leaf → String
  | processId => "process_id"
  | hostAddress => "host_address"
  | enabled => "enabled"
  | logLevel => "log_level"

def variableName : Leaf → String
  | processId => "APP__AGENT__PROCESS_ID"
  | hostAddress => "APP__AGENT__HOST_ADDRESS"
  | enabled => "APP__SCHEDULING__ENABLED"
  | logLevel => "APP__OBSERVABILITY__LOG_LEVEL"

def read? : Leaf → SettingValue → Option SettingValue
  | enabled, v => v.bool?.map .bool
  | _, v => v.text?.map .text

def Takes : Leaf → SettingValue → Prop
  | enabled, v => ∃ b, v = .bool b
  | _, v => ∃ t, v = .text t

def builtIn : Leaf → Option SettingValue
  | processId => none
  | hostAddress => none
  | enabled => some (.bool true)
  | logLevel => some (.text "info")

theorem eq_of_names {l m : Leaf} (hsection : l.sectionName = m.sectionName)
    (hfield : l.fieldName = m.fieldName) : l = m := by
  revert hsection hfield
  cases l <;> cases m <;> decide

theorem read?_of_takes {l : Leaf} {v : SettingValue} (h : l.Takes v) : l.read? v = some v := by
  cases l <;> obtain ⟨x, rfl⟩ := h <;> rfl

end Leaf

def Settings.leaf (s : Settings) : Leaf → Option SettingValue
  | .processId => s.agent.processId.map .text
  | .hostAddress => s.agent.hostAddress.map .text
  | .enabled => some (.bool s.scheduling.enabled)
  | .logLevel => some (.text s.observability.logLevel)

theorem Settings.eq_of_leaves {s t : Settings} (h : ∀ l, s.leaf l = t.leaf l) : s = t := by
  have htext : ∀ {u v : Option String}, u.map SettingValue.text = v.map SettingValue.text → u = v :=
    fun h => Option.map_injective (fun _ _ => SettingValue.text.inj) h
  obtain ⟨⟨pid, host⟩, ⟨enabled⟩, ⟨level⟩⟩ := s
  obtain ⟨⟨pid', host'⟩, ⟨enabled'⟩, ⟨level'⟩⟩ := t
  have hpid : pid = pid' := htext (h .processId)
  have hhost : host = host' := htext (h .hostAddress)
  have henabled : enabled = enabled' := SettingValue.bool.inj (Option.some.inj (h .enabled))
  have hlevel : level = level' := SettingValue.text.inj (Option.some.inj (h .logLevel))
  rw [hpid, hhost, henabled, hlevel]

def Settings.withText (l : Leaf) (t : String) (s : Settings) : Settings :=
  match l with
  | .processId => { s with agent.processId := some t }
  | .hostAddress => { s with agent.hostAddress := some t }
  | .enabled => s
  | .logLevel => { s with observability.logLevel := t }

namespace SettingValue

@[simp] theorem entriesOf_table (entries : Entries) : entriesOf (some (table entries)) = entries :=
  rfl

def leafOf (entries : Entries) (l : Leaf) : Option SettingValue :=
  (entriesOf (entries.lookup l.sectionName)).lookup l.fieldName

def HasTable (entries : Entries) (l : Leaf) : Prop :=
  ∀ v ∈ entries.lookup l.sectionName, ∃ inner, v = table inner

def Readable (entries : Entries) (l : Leaf) : Prop :=
  ∀ v ∈ leafOf entries l, (l.read? v).isSome

structure Sound (entries : Entries) : Prop where
  tables : ∀ l : Leaf, HasTable entries l
  leaves : ∀ l : Leaf, Readable entries l

theorem sound_nil : Sound [] := ⟨by simp [HasTable], by simp [Readable, leafOf, entriesOf]⟩

theorem HasTable.chosen_section {α : Type} {entries : Entries} {l : Leaf} (h : HasTable entries l)
    {fallback : α} {read : SettingValue → Option α} (hempty : read (table []) = some fallback) :
    chosen fallback read (entries.lookup l.sectionName) =
      read (table (entriesOf (entries.lookup l.sectionName))) := by
  cases hsection : entries.lookup l.sectionName with
  | none => exact hempty.symm
  | some v =>
    obtain ⟨inner, rfl⟩ := h v hsection
    rfl

theorem HasTable.agent {entries : Entries} (h : HasTable entries .processId) :
    chosen {} AgentSettings.ofValue? (entries.lookup "agent") = (do
      some ⟨← chosenText (leafOf entries .processId), ← chosenText (leafOf entries .hostAddress)⟩) :=
  h.chosen_section rfl

theorem HasTable.scheduling {entries : Entries} (h : HasTable entries .enabled) :
    chosen {} SchedulingSettings.ofValue? (entries.lookup "scheduling") = (do
      some ⟨← chosen true bool? (leafOf entries .enabled)⟩) :=
  h.chosen_section rfl

theorem HasTable.observability {entries : Entries} (h : HasTable entries .logLevel) :
    chosen {} ObservabilitySettings.ofValue? (entries.lookup "observability") = (do
      some ⟨← chosen "info" text? (leafOf entries .logLevel)⟩) :=
  h.chosen_section rfl

theorem chosenText_of_readable {v : Option SettingValue} (h : ∀ w ∈ v, (w.text?).isSome) :
    chosenText v = some (v.bind text?) := by
  cases v with
  | none => rfl
  | some w =>
    obtain ⟨t, ht⟩ := Option.isSome_iff_exists.mp (h w rfl)
    rw [Option.bind_some, ht]
    cases w <;> cases ht <;> rfl

theorem chosen_of_readable {α : Type} {fallback : α} {read : SettingValue → Option α}
    {v : Option SettingValue} (h : ∀ w ∈ v, (read w).isSome) :
    chosen fallback read v = some ((v.bind read).getD fallback) := by
  cases v with
  | none => rfl
  | some w =>
    obtain ⟨a, ha⟩ := Option.isSome_iff_exists.mp (h w rfl)
    simp [chosen, ha]

section Readable

variable {entries : Entries}

theorem Readable.processId (h : Readable entries .processId) :
    chosenText (leafOf entries .processId) = some ((leafOf entries .processId).bind text?) :=
  chosenText_of_readable fun w hw => by simpa [Leaf.read?] using h w hw

theorem Readable.hostAddress (h : Readable entries .hostAddress) :
    chosenText (leafOf entries .hostAddress) = some ((leafOf entries .hostAddress).bind text?) :=
  chosenText_of_readable fun w hw => by simpa [Leaf.read?] using h w hw

theorem Readable.enabled (h : Readable entries .enabled) :
    chosen true bool? (leafOf entries .enabled) =
      some (((leafOf entries .enabled).bind bool?).getD true) :=
  chosen_of_readable fun w hw => by simpa [Leaf.read?] using h w hw

theorem Readable.logLevel (h : Readable entries .logLevel) :
    chosen "info" text? (leafOf entries .logLevel) =
      some (((leafOf entries .logLevel).bind text?).getD "info") :=
  chosen_of_readable fun w hw => by simpa [Leaf.read?] using h w hw

end Readable

theorem ofValue?_table (entries : Entries) :
    Settings.ofValue? (table entries) = (do
      some ⟨← chosen {} AgentSettings.ofValue? (entries.lookup "agent"),
        ← chosen {} SchedulingSettings.ofValue? (entries.lookup "scheduling"),
        ← chosen {} ObservabilitySettings.ofValue? (entries.lookup "observability")⟩) := rfl

/-- Sound layers make settings. Each is what the value of its leaf serves as, or else built in. -/
theorem Sound.settings {entries : Entries} (h : Sound entries) :
    ∃ settings, Settings.ofValue? (table entries) = some settings ∧
      ∀ l, settings.leaf l = ((leafOf entries l).bind l.read?).or l.builtIn := by
  refine ⟨⟨⟨(leafOf entries .processId).bind text?, (leafOf entries .hostAddress).bind text?⟩,
    ⟨((leafOf entries .enabled).bind bool?).getD true⟩,
    ⟨((leafOf entries .logLevel).bind text?).getD "info"⟩⟩, ?_, ?_⟩
  · rw [ofValue?_table, (h.tables .processId).agent, (h.tables .enabled).scheduling,
      (h.tables .logLevel).observability, (h.leaves .processId).processId,
      (h.leaves .hostAddress).hostAddress, (h.leaves .enabled).enabled, (h.leaves .logLevel).logLevel]
    rfl
  · have hread : ∀ {α : Type} (v : Option SettingValue) (read : SettingValue → Option α)
        (f : α → SettingValue), (v.bind fun w => (read w).map f) = (v.bind read).map f :=
      fun v read f => by cases v <;> rfl
    have hgetD : ∀ {α : Type} (v : Option α) (f : α → SettingValue) (fallback : α),
        some (f (v.getD fallback)) = (v.map f).or (some (f fallback)) :=
      fun v f fallback => by cases v <;> rfl
    intro l
    cases l with
    | processId => exact ((Option.or_none).trans (hread _ text? text)).symm
    | hostAddress => exact ((Option.or_none).trans (hread _ text? text)).symm
    | enabled => exact (hgetD _ bool true).trans (by rw [← hread]; rfl)
    | logLevel => exact (hgetD _ text "info").trans (by rw [← hread]; rfl)

end SettingValue

end JobWatch
