import JobWatch.Proofs.Settings.Sources
import Mathlib

/-!
# The order of the sources

Each setting has the value of the highest source that sets it: the environment, then the local file,
then the default file, and at last what is built in.
-/

set_option autoImplicit false

namespace JobWatch

namespace Environment

def Suits (text : String) : Leaf → Prop
  | .enabled => lowerName text = "true" ∨ lowerName text = "false"
  | _ => IsPlain text

theorem takes_of_suits {text : String} {l : Leaf} (h : Suits text l) : l.Takes (value text) := by
  have hplain : IsPlain text → ∃ t, value text = .text t := fun h => ⟨text, value_of_isPlain h⟩
  cases l with
  | processId => exact hplain h
  | hostAddress => exact hplain h
  | logLevel => exact hplain h
  | enabled =>
    rcases h with h | h
    · exact ⟨true, by simp [value, h]⟩
    · exact ⟨false, by simp [value, h]⟩

/-- An environment with texts of the right types for some of the settings, next to variables that
are there for something else. -/
structure WellTyped (bindings : List (String × String)) : Prop where
  names : (bindings.map Prod.fst).Nodup
  texts : ∀ binding ∈ bindings, setting? binding.1 = none ∨
    ∃ l : Leaf, binding.1 = l.variableName ∧ Suits binding.2 l

variable {bindings : List (String × String)}

theorem WellTyped.orderly (h : WellTyped bindings) : Orderly bindings := by
  refine ⟨h.names, fun binding hmem => ?_⟩
  rcases h.texts binding hmem with hother | ⟨l, hname, hsuits⟩
  · exact .inl hother
  · exact .inr ⟨l, hname, by simp [Leaf.read?_of_takes (takes_of_suits hsuits)]⟩

theorem WellTyped.read? (h : WellTyped bindings) (l : Leaf) :
    (leafOf bindings l).bind l.read? = leafOf bindings l := by
  unfold leafOf
  cases hlookup : bindings.lookup l.variableName with
  | none => rfl
  | some text =>
    rcases h.texts _ (mem_of_lookup hlookup) with hother | ⟨m, hname, hsuits⟩
    · cases hother.symm.trans l.setting?_variableName
    · have hsame : l = m := Leaf.variableName_injective hname
      rw [hsame] at *
      exact Leaf.read?_of_takes (takes_of_suits hsuits)

end Environment

namespace Settings

open SettingValue

/-- Each setting has the value of the highest source that sets it, whatever the sources have for the
others: a variable, the local file, the default file, and what is built in, in this order. -/
theorem leaf_of_highest_source {s : Sources} {defaults locals : Entries}
    (hdefault : fileLayer s.defaultFile = .done defaults)
    (hlocal : fileLayer s.localFile = .done locals) (hdefaults : WellTyped defaults)
    (hlocals : WellTyped locals) (henvironment : Environment.WellTyped s.environment) :
    ∃ settings, load s = .done settings ∧ ∀ l : Leaf, settings.leaf l =
      (Environment.leafOf s.environment l).or
        ((leafOf locals l).or ((leafOf defaults l).or l.builtIn)) := by
  obtain ⟨settings, hload, hleaf⟩ :=
    load_by_leaf hdefault hlocal hdefaults hlocals henvironment.orderly
  refine ⟨settings, hload, fun l => ?_⟩
  rw [hleaf, henvironment.read?]

def layered : Sources where
  defaultFile := some "[agent]\nprocess_id = \"7a\"\nhost_address = \"10.0.0.1\"\n"
  localFile := some "note = 1\n[agent]\nprocess_id = \"web\"\n[scheduling]\nenabled = false\n"
  environment := [("APP__OBSERVABILITY__LOG_LEVEL", "debug"), ("LANG", "C")]

theorem layered_settings :
    load layered = .done ⟨⟨some "web", some "10.0.0.1"⟩, ⟨false⟩, ⟨"debug"⟩⟩ := by
  have hdefault : fileLayer layered.defaultFile = .done
      [("agent", table [("process_id", text "7a"), ("host_address", text "10.0.0.1")])] := by cbv
  have hlocal : fileLayer layered.localFile = .done [("note", integer 1),
      ("agent", table [("process_id", text "web")]),
      ("scheduling", table [("enabled", bool false)])] := by cbv
  have hdefaults : WellTyped
      [("agent", table [("process_id", text "7a"), ("host_address", text "10.0.0.1")])] := by
    refine ⟨by decide, fun l v hv => ?_, fun l v hv => ?_⟩
    · cases l <;> cases hv <;> exact ⟨_, rfl, by decide⟩
    · cases l <;> cases hv <;> exact ⟨_, rfl⟩
  have hlocals : WellTyped [("note", integer 1), ("agent", table [("process_id", text "web")]),
      ("scheduling", table [("enabled", bool false)])] := by
    refine ⟨by decide, fun l v hv => ?_, fun l v hv => ?_⟩
    · cases l <;> cases hv <;> exact ⟨_, rfl, by decide⟩
    · cases l <;> cases hv <;> exact ⟨_, rfl⟩
  have henvironment : Environment.WellTyped layered.environment := by
    refine ⟨by decide, ?_⟩
    have hplain : Environment.IsPlain "debug" := ⟨by decide, by decide, by decide, by decide⟩
    rw [layered, List.forall_mem_cons, List.forall_mem_singleton]
    exact ⟨.inr ⟨.logLevel, rfl, hplain⟩, .inl (by decide)⟩
  obtain ⟨settings, hload, hleaf⟩ :=
    leaf_of_highest_source hdefault hlocal hdefaults hlocals henvironment
  rw [hload]
  refine congrArg Outcome.done (eq_of_leaves fun l => (hleaf l).trans ?_)
  cases l <;> cbv

end Settings

end JobWatch
