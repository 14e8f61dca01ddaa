import JobWatch.Proofs.Selection
import JobWatch.Proofs.Telemetry.Filter
import JobWatch.Telemetry.Logging

/-!
# The log is set up once

Of some calls that set up the log, the first that has a filter sets it up. The filter is that of the
environment if the text of the environment is one, otherwise that of the call. A call without a
filter changes nothing, and a later one with a filter still sets the log up; after that every call
with a filter is refused.

Not every text without a filter is told so. The reading of some breaks down, and if that is the text
of the environment, no call gets as far as its own text.
-/

set_option autoImplicit false

namespace JobWatch.Logging

def meant (environment : Option String) (level : String) : Outcome Filter.Fault Filter :=
  match environment.map Filter.parse with
  | some (.done f) => .done f
  | _ => Filter.parse level

def HasFilter (environment : Option String) (level : String) : Prop :=
  ∃ f, meant environment level = .done f

def BreaksDown (environment : Option String) : Prop := environment.map Filter.parse = some .crashed

def written (f : Filter) (level : String) : List LogLine :=
  if f.passes .info target (fieldNames (firstLine level)) then [firstLine level] else []

def upTo (lowest : Level) : Filter :=
  ⟨[{ threshold := some lowest }]⟩

def reached (environment : Option String) (levels : List String) (log : Logging) : Logging :=
  levels.foldl (fun log level => (init environment level log).1) log

/-- What comes of a call that others stand before: the log that it finds and the one that it leaves,
how it ends, and the lines that it writes. -/
structure Follows (environment : Option String) (before : List String) (level : String)
    (log next : Logging) (answer : Outcome Fault Unit) (lines : List LogLine) : Prop where
  found : ∀ f, log.installed = some f ↔
    LeadsTo (¬ HasFilter environment ·) (meant environment · = .done f) before
  done_iff : answer = .done () ↔
    HasFilter environment level ∧ ∀ earlier ∈ before, ¬ HasFilter environment earlier
  alreadySet_iff : answer = .failed .alreadySet ↔
    HasFilter environment level ∧ ∃ earlier ∈ before, HasFilter environment earlier
  badFilter_iff : ∀ cause, answer = .failed (.badFilter cause) ↔
    meant environment level = .failed cause
  crashed_iff : answer = .crashed ↔ meant environment level = .crashed
  begun : ∀ f, answer = .done () → meant environment level = .done f →
    next = ⟨some f⟩ ∧ lines = written f level
  unchanged : answer ≠ .done () → next = log ∧ lines = []

variable {environment : Option String} {level : String} {log : Logging}

theorem effective_of_breaksDown (h : BreaksDown environment) (level : String) :
    effective environment level = .crashed := by
  unfold effective
  rw [h]

theorem effective_of_not_breaksDown (h : ¬ BreaksDown environment) (level : String) :
    effective environment level = meant environment level := by
  unfold effective meant
  split
  next f hf => rw [hf]
  next hcrashed => exact absurd hcrashed h
  next hdone hcrashed =>
    split
    next f hf => exact absurd hf (hdone f)
    next => rfl

theorem init_cases (environment : Option String) (level : String) (log : Logging) :
    (∃ cause, effective environment level = .failed cause ∧
      init environment level log = (log, .failed (.badFilter cause), [])) ∨
    (effective environment level = .crashed ∧ init environment level log = (log, .crashed, [])) ∨
    (∃ f, effective environment level = .done f ∧ log.installed.isSome = true ∧
      init environment level log = (log, .failed .alreadySet, [])) ∨
    (∃ f, effective environment level = .done f ∧ log.installed = none ∧
      init environment level log = (⟨some f⟩, .done (), written f level)) := by
  unfold init
  cases effective environment level with
  | failed cause => exact .inl ⟨cause, rfl, rfl⟩
  | crashed => exact .inr (.inl ⟨rfl, rfl⟩)
  | done f =>
    cases log.installed with
    | some g => exact .inr (.inr (.inl ⟨f, rfl, rfl, rfl⟩))
    | none => exact .inr (.inr (.inr ⟨f, rfl, rfl, rfl⟩))

theorem init_of_breaksDown (h : BreaksDown environment) (level : String) (log : Logging) :
    init environment level log = (log, .crashed, []) := by
  unfold init
  rw [effective_of_breaksDown h]

/-- The log is set up by a call that succeeds, and only by such a call. -/
theorem toNat_isSome_init (environment : Option String) (level : String) (log : Logging) :
    (init environment level log).1.installed.isSome.toNat =
      [(init environment level log).2.1].count (.done ()) + log.installed.isSome.toNat := by
  obtain ⟨cause, -, h⟩ | ⟨-, h⟩ | ⟨f, -, -, h⟩ | ⟨f, -, hnone, h⟩ :=
    init_cases environment level log
  · simp [h]
  · simp [h]
  · simp [h]
  · simp [h, hnone]

theorem reached_of_unchanged (h : ∀ level, (init environment level log).1 = log)
    (levels : List String) : reached environment levels log = log := by
  induction levels with
  | nil => rfl
  | cons level levels ih =>
    rw [reached, List.foldl_cons, h level]
    exact ih

theorem reached_of_breaksDown (h : BreaksDown environment) (levels : List String) (log : Logging) :
    reached environment levels log = log := by
  apply reached_of_unchanged
  intro level
  rw [init_of_breaksDown h]

theorem reached_of_isSome (hlog : log.installed.isSome = true) (environment : Option String)
    (levels : List String) : reached environment levels log = log := by
  apply reached_of_unchanged
  intro level
  obtain ⟨cause, -, h⟩ | ⟨-, h⟩ | ⟨f, -, -, h⟩ | ⟨f, -, hnone, -⟩ :=
    init_cases environment level log
  · rw [h]
  · rw [h]
  · rw [h]
  · rw [hnone] at hlog
    cases hlog

theorem installed_reached_iff (h : ¬ BreaksDown environment) (levels : List String) (f : Filter) :
    (reached environment levels {}).installed = some f ↔
      LeadsTo (¬ HasFilter environment ·) (meant environment · = .done f) levels := by
  induction levels with
  | nil => simp [reached, not_leadsTo_nil]
  | cons level levels ih =>
    rw [leadsTo_cons_iff, ← ih, reached, List.foldl_cons, ← reached, HasFilter]
    rw [← effective_of_not_breaksDown h]
    obtain ⟨cause, heff, hinit⟩ | ⟨heff, hinit⟩ | ⟨g, heff, hsome, -⟩ | ⟨g, heff, -, hinit⟩ :=
      init_cases environment level {}
    · simp [hinit, heff]
    · simp [hinit, heff]
    · cases hsome
    · rw [hinit, reached_of_isSome rfl]
      simp [heff]

/-- The log is set up once a call has had a filter. -/
theorem isSome_installed_reached_iff (h : ¬ BreaksDown environment) (levels : List String) :
    (reached environment levels {}).installed.isSome = true ↔
      ∃ level ∈ levels, HasFilter environment level := by
  rw [Option.isSome_iff_exists]
  simp only [installed_reached_iff h]
  rw [← leadsTo_not_iff (HasFilter environment)]
  constructor
  · rintro ⟨f, before, level, after, hlevels, hbefore, hlevel⟩
    exact ⟨before, level, after, hlevels, hbefore, f, hlevel⟩
  · rintro ⟨before, level, after, hlevels, hbefore, f, hlevel⟩
    exact ⟨f, before, level, after, hlevels, hbefore, hlevel⟩

theorem run_cons (environment : Option String) (level : String) (levels : List String)
    (log : Logging) :
    run environment (level :: levels) log =
      let call := init environment level log
      let rest := run environment levels call.1
      (call.2.1 :: rest.1, call.2.2 ++ rest.2) :=
  rfl

theorem run_append (environment : Option String) (levels more : List String) (log : Logging) :
    run environment (levels ++ more) log =
      ((run environment levels log).1 ++ (run environment more (reached environment levels log)).1,
        (run environment levels log).2 ++
          (run environment more (reached environment levels log)).2) := by
  induction levels generalizing log with
  | nil => rfl
  | cons level levels ih =>
    simp only [List.cons_append, run_cons, ih, reached, List.foldl_cons, List.append_assoc]

/-- As many calls succeed as it takes to set the log up. -/
theorem count_done_run (environment : Option String) (levels : List String) (log : Logging) :
    (run environment levels log).1.count (.done ()) + log.installed.isSome.toNat =
      (reached environment levels log).installed.isSome.toNat := by
  induction levels generalizing log with
  | nil => simp [run, reached]
  | cons level levels ih =>
    have hrest := ih (init environment level log).1
    rw [toNat_isSome_init] at hrest
    have hcount : (run environment (level :: levels) log).1.count (.done ()) =
        [(init environment level log).2.1].count (.done ()) +
          (run environment levels (init environment level log).1).1.count (.done ()) := by
      rw [run_cons, ← List.count_append, List.singleton_append]
    rw [hcount, reached, List.foldl_cons, ← reached, ← hrest]
    omega

theorem count_done_run_le (environment : Option String) (levels : List String) :
    (run environment levels {}).1.count (.done ()) ≤ 1 := by
  have hcount := count_done_run environment levels {}
  have hle := Bool.toNat_le (reached environment levels {}).installed.isSome
  omega

/-- Where the text of the environment can be read, a call ends as those before it and its own filter
have it. -/
theorem init_follows (h : ¬ BreaksDown environment) (before : List String) (level : String) :
    let log := reached environment before {}
    let call := init environment level log
    Follows environment before level log call.1 call.2.1 call.2.2 := by
  intro log call
  have hfound : ∀ f, log.installed = some f ↔ _ := installed_reached_iff h before
  have hset : log.installed.isSome = true ↔ _ := isSome_installed_reached_iff h before
  have hcases := init_cases environment level log
  rw [effective_of_not_breaksDown h level] at hcases
  obtain ⟨cause, hmeant, hcall⟩ | ⟨hmeant, hcall⟩ | ⟨f, hmeant, hsome, hcall⟩ |
    ⟨f, hmeant, hnone, hcall⟩ := hcases
  · have hlevel : ¬ HasFilter environment level := by simp [HasFilter, hmeant]
    simp only [call, hcall]
    exact ⟨hfound, by simp [hlevel], by simp [hlevel], by simp [hmeant], by simp [hmeant], by simp,
      by simp⟩
  · have hlevel : ¬ HasFilter environment level := by simp [HasFilter, hmeant]
    simp only [call, hcall]
    exact ⟨hfound, by simp [hlevel], by simp [hlevel], by simp [hmeant], by simp [hmeant], by simp,
      by simp⟩
  · have hlevel : HasFilter environment level := ⟨f, hmeant⟩
    have hearlier : ∃ earlier ∈ before, HasFilter environment earlier := hset.mp hsome
    simp only [call, hcall]
    exact ⟨hfound, by simpa [hlevel] using hearlier, by simpa [hlevel] using hearlier,
      by simp [hmeant], by simp [hmeant], by simp, by simp⟩
  · have hlevel : HasFilter environment level := ⟨f, hmeant⟩
    have hearlier : ∀ earlier ∈ before, ¬ HasFilter environment earlier := by
      intro earlier hmem hfilter
      have hsome := hset.mpr ⟨earlier, hmem, hfilter⟩
      simp [hnone] at hsome
    simp only [call, hcall]
    exact ⟨hfound, by simpa [hlevel] using hearlier, by simpa [hlevel] using hearlier,
      by simp [hmeant], by simp [hmeant], by simp [hmeant], by simp⟩

theorem crashed_of_meant (h : meant environment level = .crashed) :
    Filter.parse level = .crashed := by
  unfold meant at h
  split at h
  · cases h
  · exact h

theorem not_breaksDown_of_legible
    (h : ∀ text ∈ environment, ∀ part ∈ Filter.parts text.toList, Filter.Legible part) :
    ¬ BreaksDown environment := by
  intro hbreaks
  obtain ⟨text, htext, hparse⟩ := Option.map_eq_some_iff.mp hbreaks
  exact Filter.parse_ne_crashed (h text htext) hparse

/-- Of some calls at most one succeeds. Each ends as those before it have it, adds its lines to
theirs and leaves the log to the rest, which is set up once by the first call with a filter. If the
text of the environment cannot be read, every call breaks down, and nothing is set up; texts with
legible parts break nothing down. -/
theorem set_up_once (environment : Option String) (before after : List String) (level : String) :
    let log := reached environment before {}
    let call := init environment level log
    run environment (before ++ level :: after) {} =
      ((run environment before {}).1 ++ call.2.1 :: (run environment after call.1).1,
        (run environment before {}).2 ++ (call.2.2 ++ (run environment after call.1).2)) ∧
    (run environment (before ++ level :: after) {}).1.count (.done ()) ≤ 1 ∧
    (¬ BreaksDown environment → Follows environment before level log call.1 call.2.1 call.2.2) ∧
    (BreaksDown environment → call = ({}, .crashed, [])) ∧
    ((∀ text ∈ level :: environment.toList, ∀ part ∈ Filter.parts text.toList,
      Filter.Legible part) → ¬ BreaksDown environment ∧ call.2.1 ≠ .crashed) := by
  intro log call
  refine ⟨run_append environment before (level :: after) {}, count_done_run_le environment _,
    fun h => init_follows h before level, ?_, ?_⟩
  · intro h
    have hlog : log = {} := reached_of_breaksDown h before {}
    simp only [call, hlog, init_of_breaksDown h]
  · intro hlegible
    obtain ⟨hlevel, henvironment⟩ := List.forall_mem_cons.mp hlegible
    have h : ¬ BreaksDown environment :=
      not_breaksDown_of_legible fun text htext => henvironment text (by simpa using htext)
    refine ⟨h, ?_⟩
    rw [Ne, (init_follows h before level).crashed_iff]
    intro hmeant
    exact Filter.parse_ne_crashed hlevel (crashed_of_meant hmeant)

/-- A malformed text does not keep a later call from setting the log up. -/
theorem set_up_after_malformed :
    ¬ BreaksDown none ∧
    init none "info" (reached none ["not a level["] {}) =
      (⟨some (upTo .info)⟩, .done (), [firstLine "info"]) ∧
    (run none ["not a level[", "info", "debug"] {}).1.count (.done ()) ≤ 1 := by
  have hnone : ¬ BreaksDown none := by simp [BreaksDown]
  have hmalformed : meant none "not a level[" = .failed .directive := by decide +kernel
  have hinfo : meant none "info" = .done (upTo .info) := by decide +kernel
  have hwritten : written (upTo .info) "info" = [firstLine "info"] := by
    decide +kernel
  obtain ⟨-, hcount, hfollows, -⟩ := set_up_once none ["not a level["] ["debug"] "info"
  have hanswer := (hfollows hnone).done_iff.mpr ⟨⟨_, hinfo⟩, by simp [HasFilter, hmalformed]⟩
  obtain ⟨hnext, hlines⟩ := (hfollows hnone).begun _ hanswer hinfo
  exact ⟨hnone, Prod.ext hnext (Prod.ext hanswer (hlines.trans hwritten)), hcount⟩

/-- The text of the environment is no filter, with the blanks or without them, so the filter is that
of the call. The call breaks down all the same. -/
theorem broken_by_environment :
    Filter.parse "a€=nolevel" = .failed .level ∧
    meant (some "  a€=nolevel") "info" = .done (upTo .info) ∧
    init (some "  a€=nolevel") "info" {} = ({}, .crashed, []) := by
  have hparse : Filter.parse "  a€=nolevel" = .crashed := by decide +kernel
  have hbreaks : BreaksDown (some "  a€=nolevel") := by rw [BreaksDown, Option.map_some, hparse]
  exact ⟨by decide +kernel, by decide +kernel, init_of_breaksDown hbreaks "info" {}⟩

end JobWatch.Logging
