import JobWatch.Scheduler.Catalog
import Mathlib.Data.List.Nodup

/-!
# Catalogs stay consistent

Every operation keeps the keys of jobs and of triggers distinct and leaves no pause behind without
its trigger. Hence a trigger under a key that is not held starts out not paused, whatever was paused
under that key before.
-/

set_option autoImplicit false

namespace JobWatch

theorem map_replaceOrAppend {α κ : Type} [DecidableEq κ] (keyOf : α → κ) (a : α) (l : List α) :
    (replaceOrAppend keyOf a l).map keyOf =
      if keyOf a ∈ l.map keyOf then l.map keyOf else l.map keyOf ++ [keyOf a] := by
  induction l with
  | nil => rfl
  | cons b l ih =>
    by_cases hb : keyOf b = keyOf a
    · simp [replaceOrAppend, hb]
    · rw [replaceOrAppend, if_neg hb, List.map_cons, ih]
      by_cases ha : keyOf a ∈ l.map keyOf <;> simp [ha, Ne.symm hb]

theorem nodup_map_replaceOrAppend {α κ : Type} [DecidableEq κ] (keyOf : α → κ) (a : α)
    {l : List α} (hl : (l.map keyOf).Nodup) : ((replaceOrAppend keyOf a l).map keyOf).Nodup := by
  rw [map_replaceOrAppend]
  split
  next => exact hl
  next hnew => simpa using List.Nodup.concat hnew hl

theorem key_mem_replaceOrAppend {α κ : Type} [DecidableEq κ] (keyOf : α → κ) (a : α) (l : List α)
    (k : κ) : k ∈ (replaceOrAppend keyOf a l).map keyOf ↔ k ∈ l.map keyOf ∨ k = keyOf a := by
  rw [map_replaceOrAppend]
  split
  next hold =>
    constructor
    · exact .inl
    · rintro (hk | rfl)
      · exact hk
      · exact hold
  next => simp

theorem mem_replaceOrAppend {α κ : Type} [DecidableEq κ] (keyOf : α → κ) (a : α) {l : List α}
    (hl : (l.map keyOf).Nodup) (b : α) :
    b ∈ replaceOrAppend keyOf a l ↔ b = a ∨ b ∈ l ∧ keyOf b ≠ keyOf a := by
  induction l with
  | nil => simp [replaceOrAppend]
  | cons c l ih =>
    obtain ⟨hc, hl⟩ := List.nodup_cons.mp hl
    by_cases hkey : keyOf c = keyOf a
    · have hrest : ∀ d ∈ l, keyOf d ≠ keyOf a := by
        intro d hd hda
        exact hc (List.mem_map.mpr ⟨d, hd, hda.trans hkey.symm⟩)
      rw [replaceOrAppend, if_pos hkey, List.mem_cons, List.mem_cons]
      refine or_congr_right ⟨fun hb => ⟨.inr hb, hrest b hb⟩, ?_⟩
      rintro ⟨rfl | hb, hne⟩
      · exact absurd hkey hne
      · exact hb
    · rw [replaceOrAppend, if_neg hkey, List.mem_cons, ih hl, List.mem_cons]
      constructor
      · rintro (rfl | rfl | ⟨hb, hne⟩)
        · exact .inr ⟨.inl rfl, hkey⟩
        · exact .inl rfl
        · exact .inr ⟨.inr hb, hne⟩
      · rintro (rfl | ⟨rfl | hb, hne⟩)
        · exact .inr (.inl rfl)
        · exact .inl rfl
        · exact .inr (.inr ⟨hb, hne⟩)

theorem filter_replaceOrAppend {α κ : Type} [DecidableEq κ] (keyOf : α → κ) (a : α) {l : List α}
    {p : α → Bool} (ha : p a = false) (hl : ∀ b ∈ l, keyOf b = keyOf a → p b = false) :
    (replaceOrAppend keyOf a l).filter p = l.filter p := by
  induction l with
  | nil => simp [replaceOrAppend, ha]
  | cons b l ih =>
    have hrest := ih fun c hc => hl c (List.mem_cons_of_mem _ hc)
    by_cases hkey : keyOf b = keyOf a
    · have hb := hl b List.mem_cons_self hkey
      simp [replaceOrAppend, hkey, ha, hb]
    · simp [replaceOrAppend, hkey, List.filter_cons, hrest]

namespace Catalog

structure Consistent (c : Catalog) : Prop where
  jobs_nodup : (c.jobs.map (·.key)).Nodup
  triggers_nodup : (c.triggers.map (·.key)).Nodup
  paused_held : ∀ k ∈ c.paused, k ∈ c.triggers.map (·.key)

theorem holdsJob_iff (c : Catalog) (key : Key) :
    c.holdsJob key = true ↔ key ∈ c.jobs.map (·.key) := by
  simp [holdsJob]

theorem holdsTrigger_iff (c : Catalog) (key : Key) :
    c.holdsTrigger key = true ↔ key ∈ c.triggers.map (·.key) := by
  simp [holdsTrigger]

theorem addJob_consistent {c : Catalog} (hc : c.Consistent) (job : Job) :
    (c.addJob job).Consistent where
  jobs_nodup := nodup_map_replaceOrAppend Job.key job hc.jobs_nodup
  triggers_nodup := hc.triggers_nodup
  paused_held := hc.paused_held

theorem removeJob_consistent {c : Catalog} (hc : c.Consistent) (key : Key) :
    (c.removeJob key).Consistent where
  jobs_nodup := hc.jobs_nodup.sublist (List.filter_sublist.map _)
  triggers_nodup := hc.triggers_nodup.sublist (List.filter_sublist.map _)
  paused_held := by
    intro k hk
    obtain ⟨hpaused, hkept⟩ := List.mem_filter.mp hk
    obtain ⟨t, ht, rfl⟩ := List.mem_map.mp (hc.paused_held k hpaused)
    -- a trigger of the job would have taken its pause with it
    have hjob : t.job ≠ key := by
      intro hjob
      have hgone : t.key ∈ (c.triggers.filter (·.job = key)).map (·.key) :=
        List.mem_map_of_mem (List.mem_filter.mpr ⟨ht, by simpa using hjob⟩)
      simp [hgone] at hkept
    exact List.mem_map_of_mem (List.mem_filter.mpr ⟨ht, by simpa using hjob⟩)

theorem schedule_consistent {c : Catalog} (hc : c.Consistent) (t : Trigger) :
    (c.schedule t).Consistent where
  jobs_nodup := hc.jobs_nodup
  triggers_nodup := nodup_map_replaceOrAppend Trigger.key t hc.triggers_nodup
  paused_held := fun k hk =>
    (key_mem_replaceOrAppend Trigger.key t c.triggers k).mpr (.inl (hc.paused_held k hk))

theorem step_consistent {c : Catalog} (hc : c.Consistent) (op : Op) : (c.step op).Consistent := by
  cases op with
  | addJob job => exact addJob_consistent hc job
  | removeJob key => exact removeJob_consistent hc key
  | schedule t => exact schedule_consistent hc t
  | pause key =>
    rw [step_pause]
    split
    next hheld =>
      refine ⟨hc.jobs_nodup, hc.triggers_nodup, ?_⟩
      intro k hk
      rcases List.mem_insert_iff.mp hk with rfl | hk
      · exact (holdsTrigger_iff c k).mp hheld
      · exact hc.paused_held k hk
    next => exact hc
  | resume key =>
    rw [step_resume]
    split
    next =>
      refine ⟨hc.jobs_nodup, hc.triggers_nodup, ?_⟩
      intro k hk
      exact hc.paused_held k (List.mem_of_mem_filter hk)
    next => exact hc
  | start e => exact ⟨hc.jobs_nodup, hc.triggers_nodup, hc.paused_held⟩
  | finish job => exact ⟨hc.jobs_nodup, hc.triggers_nodup, hc.paused_held⟩

theorem run_consistent (ops : List Op) {c : Catalog} (hc : c.Consistent) :
    (run ops c).Consistent := by
  induction ops generalizing c with
  | nil => exact hc
  | cons op ops ih => exact ih (step_consistent hc op)

theorem empty_consistent : ({} : Catalog).Consistent := ⟨.nil, .nil, nofun⟩

/-- What is reached from the empty catalog is consistent, and a trigger that comes under a key not
held there is not paused. -/
theorem reached_consistent_fresh_unpaused (ops : List Op) (name : String) :
    (run ops {}).Consistent ∧
    ∀ t : Trigger, t.key ∉ (run ops {}).triggers.map (·.key) →
      (((run ops {}).step (.schedule t)).handle name).isPaused t.key = .ok false := by
  have hc := run_consistent ops empty_consistent
  refine ⟨hc, ?_⟩
  intro t hfresh
  have hheld : ((run ops {}).schedule t).holdsTrigger t.key = true :=
    (holdsTrigger_iff _ _).mpr ((key_mem_replaceOrAppend Trigger.key t _ _).mpr (.inr rfl))
  have hpaused : t.key ∉ (run ops {}).paused := fun h => hfresh (hc.paused_held _ h)
  change ((run ops {}).schedule t).isPaused t.key = .ok false
  rw [isPaused, if_pos hheld]
  simpa [schedule] using hpaused

def pausedMovedRemoved : List Op :=
  [.schedule ⟨⟨"sync", "hourly"⟩, ⟨"sync", "pull"⟩, .other, none, none⟩,
    .pause ⟨"sync", "hourly"⟩,
    .schedule ⟨⟨"sync", "hourly"⟩, ⟨"sync", "push"⟩, .other, none, none⟩,
    .removeJob ⟨"sync", "pull"⟩,
    .removeJob ⟨"sync", "push"⟩]

theorem fresh_unpaused_after_removal :
    ⟨"sync", "hourly"⟩ ∉ (run pausedMovedRemoved {}).triggers.map (·.key) ∧
    (((run pausedMovedRemoved {}).step
      (.schedule ⟨⟨"sync", "hourly"⟩, ⟨"sync", "pull"⟩, .other, none, none⟩)).handle
        "main").isPaused ⟨"sync", "hourly"⟩ = .ok false :=
  ⟨by decide, (reached_consistent_fresh_unpaused pausedMovedRemoved "main").2
    ⟨⟨"sync", "hourly"⟩, ⟨"sync", "pull"⟩, .other, none, none⟩ (by decide)⟩

end Catalog

end JobWatch
