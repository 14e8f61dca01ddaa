import JobWatch.Proofs.Catalog.Untouched

/-!
# The order in which triggers are scheduled

Triggers under distinct keys can be scheduled in any order: the catalogs reached differ in nothing
but the order of their triggers, and they go on to do so whatever is done to both. In a snapshot the
order shows only in what the last of several triggers decides, the cron expression and the interval.
-/

set_option autoImplicit false

namespace JobWatch

open Calendar (Instant)

theorem Extreme.perm {α : Type} {R : α → α → Prop} {l l' : List α} {o : Option α}
    (hperm : l.Perm l') (h : Extreme R l o) : Extreme R l' o := by
  cases o with
  | none =>
    obtain rfl : l = [] := h
    exact hperm.symm.eq_nil
  | some a => exact ⟨hperm.mem_iff.mp h.1, fun b hb => h.2 b (hperm.mem_iff.mpr hb)⟩

theorem latest?_perm {is is' : List Instant} (hperm : is.Perm is') : latest? is = latest? is' :=
  (latest?_iff is' _).mpr (((latest?_iff is _).mp rfl).perm hperm)

theorem earliest?_perm {is is' : List Instant} (hperm : is.Perm is') :
    earliest? is = earliest? is' :=
  (earliest?_iff is' _).mpr (((earliest?_iff is _).mp rfl).perm hperm)

theorem eq_of_perm_of_length_le_one {α : Type} {l l' : List α} (hperm : l.Perm l')
    (hlength : l.length ≤ 1) : l = l' := by
  match l, hlength with
  | [], _ => exact (List.nil_perm.mp hperm).symm
  | [a], _ => exact List.singleton_perm.mp hperm ▸ rfl

namespace Snapshot

/-- Two snapshots of a job with some triggers are the same but for the cron expression and the
interval, and these are the same too unless several triggers have one. -/
structure AgreesFor (triggers : List Trigger) (s s' : Snapshot) : Prop where
  others : s' = { s with cron := s'.cron, intervalMillis := s'.intervalMillis }
  cron : (triggers.countP fun t => t.timing.cron?.isSome) ≤ 1 → s'.cron = s.cron
  interval : (triggers.countP fun t => t.timing.interval?.isSome) ≤ 1 →
    s'.intervalMillis = s.intervalMillis

theorem AgreesFor.eq {triggers : List Trigger} {s s' : Snapshot} (h : AgreesFor triggers s s')
    (hcron : (triggers.countP fun t => t.timing.cron?.isSome) ≤ 1)
    (hinterval : (triggers.countP fun t => t.timing.interval?.isSome) ≤ 1) : s' = s := by
  rw [h.others, h.cron hcron, h.interval hinterval]

/-- The order of the triggers decides at most which of several cron expressions and which of several
intervals is the last. -/
theorem of_agreesFor (identity : Identity) (job : Job) (execution : Option Execution)
    {triggers triggers' : List Trigger} (hperm : triggers.Perm triggers') (paused : Bool)
    (now : Instant) :
    AgreesFor triggers (of identity job execution triggers paused now)
      (of identity job execution triggers' paused now) := by
  constructor
  · have hprevious := latest?_perm (hperm.filterMap (·.previous))
    have hnext := earliest?_perm (hperm.filterMap (·.next))
    simp only [of, hprevious, hnext]
  · intro hfew
    rw [← List.length_filterMap_eq_countP] at hfew
    have hsame := eq_of_perm_of_length_le_one (hperm.filterMap (·.timing.cron?)) hfew
    simp only [of, hsame]
  · intro hfew
    rw [← List.length_filterMap_eq_countP] at hfew
    have hsame := eq_of_perm_of_length_le_one (hperm.filterMap (·.timing.interval?)) hfew
    simp only [of, hsame]

end Snapshot

namespace Catalog

structure Rearranged (c d : Catalog) : Prop where
  jobs : c.jobs = d.jobs
  triggers : c.triggers.Perm d.triggers
  paused : c.paused = d.paused
  running : c.running = d.running

theorem Rearranged.refl (c : Catalog) : Rearranged c c := ⟨rfl, .refl _, rfl, rfl⟩

theorem Rearranged.trans {b c d : Catalog} (h : Rearranged b c) (h' : Rearranged c d) :
    Rearranged b d where
  jobs := h.jobs.trans h'.jobs
  triggers := h.triggers.trans h'.triggers
  paused := h.paused.trans h'.paused
  running := h.running.trans h'.running

theorem nodup_triggers {c : Catalog} (hc : c.Consistent) : c.triggers.Nodup :=
  hc.triggers_nodup.of_map _

/-- Consistent catalogs have the same triggers in some order if each trigger of one is one of the
other. -/
theorem perm_triggers {c d : Catalog} (hc : c.Consistent) (hd : d.Consistent)
    (h : ∀ t, t ∈ c.triggers ↔ t ∈ d.triggers) : c.triggers.Perm d.triggers :=
  (List.perm_ext_iff_of_nodup (nodup_triggers hc) (nodup_triggers hd)).mpr h

theorem mem_schedule_triggers {c : Catalog} (hc : c.Consistent) (t u : Trigger) :
    u ∈ (c.schedule t).triggers ↔ u = t ∨ u ∈ c.triggers ∧ u.key ≠ t.key :=
  mem_replaceOrAppend Trigger.key t hc.triggers_nodup u

section Rearranged

variable {c d : Catalog} (h : Rearranged c d)

include h

theorem Rearranged.holdsTrigger (key : Key) : c.holdsTrigger key = d.holdsTrigger key :=
  h.triggers.any_eq

theorem Rearranged.schedule (hc : c.Consistent) (hd : d.Consistent) (t : Trigger) :
    Rearranged (c.schedule t) (d.schedule t) where
  jobs := h.jobs
  triggers := by
    apply perm_triggers (schedule_consistent hc t) (schedule_consistent hd t)
    intro u
    rw [mem_schedule_triggers hc, mem_schedule_triggers hd, h.triggers.mem_iff]
  paused := h.paused
  running := h.running

theorem Rearranged.removeJob (key : Key) : Rearranged (c.removeJob key) (d.removeJob key) where
  jobs := by simp only [Catalog.removeJob, h.jobs]
  triggers := h.triggers.filter _
  paused := by
    have hgone : ∀ k, ((c.triggers.filter (·.job = key)).map (·.key)).contains k =
        ((d.triggers.filter (·.job = key)).map (·.key)).contains k :=
      fun k => ((h.triggers.filter _).map _).contains_eq
    simp only [Catalog.removeJob, h.paused, hgone]
  running := h.running

theorem Rearranged.step (hc : c.Consistent) (hd : d.Consistent) (op : Op) :
    Rearranged (c.step op) (d.step op) := by
  cases op with
  | addJob job => exact ⟨congrArg (replaceOrAppend Job.key job) h.jobs, h.triggers, h.paused, h.running⟩
  | removeJob key => exact h.removeJob key
  | schedule t => exact h.schedule hc hd t
  | pause key =>
    rw [step_pause, step_pause, h.holdsTrigger]
    split
    next => exact ⟨h.jobs, h.triggers, congrArg (List.insert key) h.paused, h.running⟩
    next => exact h
  | resume key =>
    rw [step_resume, step_resume, h.holdsTrigger]
    split
    next => exact ⟨h.jobs, h.triggers, congrArg (List.filter (· ≠ key)) h.paused, h.running⟩
    next => exact h
  | start e => exact ⟨h.jobs, h.triggers, h.paused, congrArg (· ++ [e]) h.running⟩
  | finish job =>
    have hrunning := congrArg (List.filter fun e => e.job.key ≠ job) h.running
    exact ⟨h.jobs, h.triggers, h.paused, hrunning⟩

theorem Rearranged.run (hc : c.Consistent) (hd : d.Consistent) (ops : List Op) :
    Rearranged (run ops c) (run ops d) := by
  induction ops generalizing c d with
  | nil => exact h
  | cons op ops ih => exact ih (h.step hc hd op) (step_consistent hc op) (step_consistent hd op)

theorem Rearranged.triggersOf (job : Key) : (c.triggersOf job).Perm (d.triggersOf job) :=
  h.triggers.filter _

theorem Rearranged.isPaused (key : Key) : c.isPaused key = d.isPaused key := by
  simp only [Catalog.isPaused, h.holdsTrigger, h.paused]

end Rearranged

/-- Two triggers under different keys do not get in each other's way. -/
theorem schedule_swap {c : Catalog} (hc : c.Consistent) {t u : Trigger} (hkey : t.key ≠ u.key) :
    Rearranged ((c.schedule t).schedule u) ((c.schedule u).schedule t) where
  jobs := rfl
  triggers := by
    have htc := schedule_consistent hc t
    have huc := schedule_consistent hc u
    apply perm_triggers (schedule_consistent htc u) (schedule_consistent huc t)
    intro v
    rw [mem_schedule_triggers htc, mem_schedule_triggers hc, mem_schedule_triggers huc,
      mem_schedule_triggers hc]
    constructor
    · rintro (rfl | ⟨rfl | ⟨hv, hvt⟩, hvu⟩)
      · exact .inr ⟨.inl rfl, hkey.symm⟩
      · exact .inl rfl
      · exact .inr ⟨.inr ⟨hv, hvu⟩, hvt⟩
    · rintro (rfl | ⟨rfl | ⟨hv, hvu⟩, hvt⟩)
      · exact .inr ⟨.inl rfl, hkey⟩
      · exact .inl rfl
      · exact .inr ⟨.inr ⟨hv, hvt⟩, hvu⟩
  paused := rfl
  running := rfl

theorem run_schedules_perm {ts ts' : List Trigger} (hperm : ts.Perm ts')
    (hkeys : (ts.map (·.key)).Nodup) {c : Catalog} (hc : c.Consistent) :
    Rearranged (run (ts.map .schedule) c) (run (ts'.map .schedule) c) := by
  induction hperm generalizing c with
  | nil => exact .refl c
  | cons t _ ih => exact ih (List.nodup_cons.mp hkeys).2 (schedule_consistent hc t)
  | swap t u rest =>
    have hne : u.key ≠ t.key := by
      intro hsame
      apply (List.nodup_cons.mp hkeys).1
      show u.key ∈ t.key :: rest.map (·.key)
      rw [hsame]
      exact List.mem_cons_self
    exact (schedule_swap hc hne).run (schedule_consistent (schedule_consistent hc u) t)
      (schedule_consistent (schedule_consistent hc t) u) (rest.map .schedule)
  | trans hfirst _ ihfirst ihsecond =>
    have hkeys' := (hfirst.map (·.key)).nodup_iff.mp hkeys
    exact (ihfirst hkeys hc).trans (ihsecond hkeys' hc)

/-- All triggers of a job are paused or not, whatever their order. -/
theorem Rearranged.paused_eq {c d : Catalog} (h : Rearranged c d) (job : Key) {p q : Bool}
    (hp : (askPaused (fun _ t => c.isPaused t.key) 0 (c.triggersOf job)).2 = .ok p)
    (hq : (askPaused (fun _ t => d.isPaused t.key) 0 (d.triggersOf job)).2 = .ok q) : p = q := by
  have hall : p = true ↔ q = true := by
    calc p = true
      _ ↔ ∀ t ∈ c.triggersOf job, c.isPaused t.key = .ok true := by
        rw [← askPaused_eq_true_iff (fun t => c.isPaused t.key) 0, hp, Except.ok.injEq]
      _ ↔ ∀ t ∈ d.triggersOf job, d.isPaused t.key = .ok true := by
        simp only [(h.triggersOf job).mem_iff, h.isPaused]
      _ ↔ q = true := by
        rw [← askPaused_eq_true_iff (fun t => d.isPaused t.key) 0, hq, Except.ok.injEq]
  exact Bool.eq_iff_iff.mpr hall

theorem Rearranged.depicts {c d : Catalog} (h : Rearranged c d) {name : String}
    {identity : Identity} {now : Instant} {job : Job} {s s' : Snapshot}
    (hs : Snapshot.Depicts identity now (c.handle name) c.running job s)
    (hs' : Snapshot.Depicts identity now (d.handle name) d.running job s') :
    s.AgreesFor (c.triggersOf s.key) s' := by
  rw [hs.key_eq]
  obtain ⟨triggers, htriggers, hpaused, hof⟩ := (Snapshot.depicts_iff ..).mp hs
  obtain ⟨triggers', htriggers', hpaused', hof'⟩ := (Snapshot.depicts_iff ..).mp hs'
  cases htriggers
  cases htriggers'
  rw [hof, hof', ← h.running, h.paused_eq job.key hpaused hpaused']
  exact Snapshot.of_agreesFor identity job _ (h.triggersOf job.key) _ now

/-- Triggers under distinct keys, scheduled in any order, give each job the snapshot that it has if
they are scheduled in any other order, except for the cron expression of a job with several cron
triggers and for the interval of one with several intervals. What is done later does not bring the
order to light either. -/
theorem schedule_order_immaterial (ops later : List Op) {ts ts' : List Trigger}
    (hperm : ts.Perm ts') (hkeys : (ts.map (·.key)).Nodup) (name : String) (identity : Identity)
    (now : Instant) :
    let c := run later (run (ts.map .schedule) (run ops {}))
    let d := run later (run (ts'.map .schedule) (run ops {}))
    c.jobs = d.jobs ∧
    ∃ block block', (c.handle name).Shares identity now block ∧
      (d.handle name).Shares identity now block' ∧
      block.map Snapshot.key = c.jobs.map (·.key) ∧
      List.Forall₂ (fun s s' => s.AgreesFor (c.triggersOf s.key) s') block block' := by
  intro c d
  have hops := run_consistent ops empty_consistent
  have hcd : Rearranged c d := (run_schedules_perm hperm hkeys hops).run
    (run_consistent _ hops) (run_consistent _ hops) later
  obtain ⟨block, hshares, hblock⟩ := c.exists_shares identity now name
  obtain ⟨block', hshares', hblock'⟩ := d.exists_shares identity now name
  refine ⟨hcd.jobs, block, block', hshares, hshares', Snapshot.map_key_of_depicts hblock, ?_⟩
  rw [← hcd.jobs] at hblock'
  apply forall₂_of_common hblock hblock'
  intro job _ s s' hs hs'
  exact hcd.depicts hs hs'

def hourlyAndOften (hour last : Instant) : List Trigger :=
  [⟨⟨"sync", "hourly"⟩, ⟨"sync", "pull"⟩, .cron "0 0 * * * *", some hour, none⟩,
    ⟨⟨"sync", "often"⟩, ⟨"sync", "pull"⟩, .every 500, some last, none⟩]

theorem same_share_in_either_order :
    let ts := hourlyAndOften (afterEight 0) (afterEight 7)
    let scheduled := fun ts => run [.pause ⟨"sync", "hourly"⟩] (run (ts.map .schedule)
      (run [.addJob ⟨⟨"sync", "pull"⟩, none, "app.Pull"⟩] {}))
    ∃ block,
      ((scheduled ts).handle "main").Shares ⟨"99", "127.0.0.1"⟩ (afterEight 7) block ∧
      ((scheduled ts.reverse).handle "main").Shares ⟨"99", "127.0.0.1"⟩ (afterEight 7) block := by
  intro ts scheduled
  obtain ⟨-, block, block', hshares, hshares', hkeys, hagree⟩ := schedule_order_immaterial
    [.addJob ⟨⟨"sync", "pull"⟩, none, "app.Pull"⟩] [.pause ⟨"sync", "hourly"⟩]
    ts.reverse_perm.symm (by decide) "main" ⟨"99", "127.0.0.1"⟩ (afterEight 7)
  obtain ⟨s, rfl, hkey⟩ := List.map_eq_singleton_iff.mp hkeys
  obtain ⟨s', rest, hs, hrest, rfl⟩ := List.forall₂_cons_left_iff.mp hagree
  obtain rfl := List.forall₂_nil_left_iff.mp hrest
  rw [hkey] at hs
  have hsame : s' = s := hs.eq (by decide) (by decide)
  subst hsame
  exact ⟨_, hshares, hshares'⟩

end Catalog

end JobWatch
