import JobWatch.Proofs.Catalog.Consistency
import JobWatch.Proofs.History
import Mathlib.Data.List.Induction

/-!
# Triggers and their pauses by history

A trigger belongs to the job for which it was scheduled last. It is held until that job is removed;
the removal of a job that owned it before does nothing to it. A pause lasts from the moment it
succeeds until it is resumed or the trigger comes afresh: a trigger that is replaced while it is
held stays paused, also under another job.
-/

set_option autoImplicit false

namespace JobWatch.Catalog

def Op.ownerUnder (key : Key) : Op → Option Key
  | .schedule t => if t.key = key then some t.job else none
  | _ => none

def owner? (key : Key) (history : List Op) : Option Key :=
  (history.filterMap (Op.ownerUnder key)).getLast?

/-- A trigger was scheduled, and the job that owned it at that moment was not removed since. -/
def Scheduled (key : Key) : List Op → Prop :=
  Since (fun _ op => (op.ownerUnder key).isSome)
    (fun past op => ∃ job, op = .removeJob job ∧ owner? key past = some job)

/-- A trigger comes under a key that is not held. -/
def ComesAfresh (key : Key) (past : List Op) (op : Op) : Prop :=
  (op.ownerUnder key).isSome ∧ ¬ Scheduled key past

/-- A pause of a trigger succeeded after the trigger last came afresh, and no resume of it succeeded
after that pause. -/
def PausedSince (key : Key) : List Op → Prop :=
  Since (fun past op => op = .pause key ∧ (run past {}).reply op = .ok none)
    (fun past op => op = .resume key ∧ (run past {}).reply op = .ok none ∨ ComesAfresh key past op)

def Holds (c : Catalog) (key job : Key) : Prop := ∃ t ∈ c.triggers, t.key = key ∧ t.job = job

theorem owner?_concat (key : Key) (history : List Op) (op : Op) :
    owner? key (history ++ [op]) = (op.ownerUnder key).or (owner? key history) := by
  unfold owner?
  cases h : op.ownerUnder key <;> simp [h]

theorem scheduled_concat_iff (key : Key) (history : List Op) (op : Op) :
    Scheduled key (history ++ [op]) ↔
      (op.ownerUnder key).isSome ∨
      Scheduled key history ∧ ¬ ∃ job, op = .removeJob job ∧ owner? key history = some job :=
  since_concat_iff _ _ _ _

theorem pausedSince_concat_iff (key : Key) (history : List Op) (op : Op) :
    PausedSince key (history ++ [op]) ↔
      op = .pause key ∧ (run history {}).reply op = .ok none ∨
      PausedSince key history ∧
        ¬ (op = .resume key ∧ (run history {}).reply op = .ok none ∨ ComesAfresh key history op) :=
  since_concat_iff _ _ _ _

theorem Scheduled.exists_owner {key : Key} {history : List Op} (h : Scheduled key history) :
    ∃ job, owner? key history = some job := by
  obtain ⟨before, op, after, rfl, hop, -⟩ := h
  obtain ⟨job, hjob⟩ := Option.isSome_iff_exists.mp hop
  have hmem : job ∈ (before ++ op :: after).filterMap (Op.ownerUnder key) :=
    List.mem_filterMap.mpr ⟨op, by simp, hjob⟩
  exact Option.isSome_iff_exists.mp (List.getLast?_isSome.mpr (List.ne_nil_of_mem hmem))

theorem holdsTrigger_iff_holds (c : Catalog) (key : Key) :
    c.holdsTrigger key = true ↔ ∃ job, c.Holds key job := by
  simp [holdsTrigger, Holds]

theorem Holds.unique {c : Catalog} (hc : c.Consistent) {trigger job job' : Key}
    (h : c.Holds trigger job) (h' : c.Holds trigger job') : job = job' := by
  obtain ⟨t, ht, htkey, rfl⟩ := h
  obtain ⟨u, hu, hukey, rfl⟩ := h'
  have heq := List.inj_on_of_nodup_map hc.triggers_nodup ht hu (htkey.trans hukey.symm)
  rw [heq]

/-- A trigger changes hands when it is scheduled and goes with the job that owns it. -/
theorem holds_step_iff {c : Catalog} (hc : c.Consistent) (op : Op) (key job : Key) :
    (c.step op).Holds key job ↔
      match op.ownerUnder key with
      | some owner => owner = job
      | none => c.Holds key job ∧ op ≠ .removeJob job := by
  rw [Holds, triggers_step]
  cases op with
  | schedule t =>
    simp only [mem_replaceOrAppend Trigger.key t hc.triggers_nodup]
    by_cases hkey : t.key = key
    · simp only [Op.ownerUnder, hkey, if_true]
      constructor
      · rintro ⟨u, rfl | ⟨-, hne⟩, hu, hjob⟩
        · exact hjob
        · exact absurd hu hne
      · intro hjob
        exact ⟨t, .inl rfl, hkey, hjob⟩
    · simp only [Op.ownerUnder, hkey, if_false, Holds, ne_eq, reduceCtorEq, not_false_eq_true,
        and_true]
      constructor
      · rintro ⟨u, rfl | ⟨hu, -⟩, hukey, hjob⟩
        · exact absurd hukey hkey
        · exact ⟨u, hu, hukey, hjob⟩
      · rintro ⟨u, hu, hukey, hjob⟩
        exact ⟨u, .inr ⟨hu, fun h => hkey (h.symm.trans hukey)⟩, hukey, hjob⟩
  | removeJob gone =>
    simp only [Op.ownerUnder, Holds, List.mem_filter, ne_eq, Op.removeJob.injEq]
    constructor
    · rintro ⟨u, ⟨hu, hgone⟩, hukey, hjob⟩
      exact ⟨⟨u, hu, hukey, hjob⟩, fun h => by simp [hjob, h] at hgone⟩
    · rintro ⟨⟨u, hu, hukey, hjob⟩, hgone⟩
      exact ⟨u, ⟨hu, by simpa [hjob] using Ne.symm hgone⟩, hukey, hjob⟩
  | _ => simp [Op.ownerUnder, Holds]

theorem holds_iff (ops : List Op) (key job : Key) :
    (run ops {}).Holds key job ↔ Scheduled key ops ∧ owner? key ops = some job := by
  induction ops using List.reverseRecOn with
  | nil => simp [run, Holds, Scheduled, not_since_nil]
  | append_singleton ops op ih =>
    have hc := run_consistent ops empty_consistent
    rw [run_concat, holds_step_iff hc, owner?_concat, scheduled_concat_iff]
    cases hop : op.ownerUnder key with
    | some owner => simp
    | none =>
      simp only [Option.isSome_none, Bool.false_eq_true, false_or, Option.none_or, ih]
      constructor
      · rintro ⟨⟨hscheduled, howner⟩, hne⟩
        refine ⟨⟨hscheduled, ?_⟩, howner⟩
        rintro ⟨gone, hgone, hgoneOwner⟩
        obtain rfl := Option.some.inj (howner.symm.trans hgoneOwner)
        exact hne hgone
      · rintro ⟨⟨hscheduled, hstays⟩, howner⟩
        exact ⟨⟨hscheduled, howner⟩, fun hgone => hstays ⟨job, hgone, howner⟩⟩

theorem holdsTrigger_iff_scheduled (ops : List Op) (key : Key) :
    (run ops {}).holdsTrigger key = true ↔ Scheduled key ops := by
  simp only [holdsTrigger_iff_holds, holds_iff, exists_and_left]
  exact ⟨And.left, fun h => ⟨h, h.exists_owner⟩⟩

theorem pauses_iff (c : Catalog) (op : Op) (key : Key) :
    op = .pause key ∧ c.reply op = .ok none ↔ op = .pause key ∧ c.holdsTrigger key = true := by
  refine and_congr_right ?_
  rintro rfl
  cases h : c.holdsTrigger key <;> simp [reply, pause, h, Except.map]

theorem resumes_iff (c : Catalog) (op : Op) (key : Key) :
    op = .resume key ∧ c.reply op = .ok none ↔ op = .resume key ∧ c.holdsTrigger key = true := by
  refine and_congr_right ?_
  rintro rfl
  cases h : c.holdsTrigger key <;> simp [reply, resume, h, Except.map]

theorem mem_removeJob_paused_iff (c : Catalog) (gone key : Key) :
    key ∈ (c.removeJob gone).paused ↔ key ∈ c.paused ∧ ¬ c.Holds key gone := by
  simp only [removeJob, Holds, List.mem_filter, decide_not, Bool.not_eq_true',
    decide_eq_false_iff_not, List.contains_iff_mem, List.mem_map, decide_eq_true_eq]
  refine and_congr_right fun _ => not_congr ⟨?_, ?_⟩
  · rintro ⟨t, ⟨ht, hjob⟩, hkey⟩
    exact ⟨t, ht, hkey, hjob⟩
  · rintro ⟨t, ht, hkey, hjob⟩
    exact ⟨t, ⟨ht, hjob⟩, hkey⟩

/-- A pause comes by pausing a trigger that is held, and goes by resuming it or with the job that
owns it. -/
theorem mem_paused_step_iff (c : Catalog) (op : Op) (key : Key) :
    key ∈ (c.step op).paused ↔
      op = .pause key ∧ c.holdsTrigger key = true ∨
      key ∈ c.paused ∧ ¬ (op = .resume key ∧ c.holdsTrigger key = true) ∧
        ¬ ∃ job, op = .removeJob job ∧ c.Holds key job := by
  cases op with
  | removeJob gone =>
    change key ∈ (c.removeJob gone).paused ↔ _
    simp [mem_removeJob_paused_iff]
  | pause k =>
    rw [step_pause]
    by_cases hk : k = key
    · subst hk
      cases h : c.holdsTrigger k <;> simp
    · cases h : c.holdsTrigger k <;> simp [hk, Ne.symm hk]
  | resume k =>
    rw [step_resume]
    by_cases hk : k = key
    · subst hk
      cases h : c.holdsTrigger k <;> simp
    · cases h : c.holdsTrigger k <;> simp [hk, Ne.symm hk]
  | addJob _ => simp [step, addJob]
  | schedule _ => simp [step, schedule]
  | start _ => simp [step, start]
  | finish _ => simp [step, finish]

/-- As long as a trigger is held, the pauses of the catalog are those of its history. -/
theorem mem_paused_iff (ops : List Op) (key : Key) (hscheduled : Scheduled key ops) :
    key ∈ (run ops {}).paused ↔ PausedSince key ops := by
  induction ops using List.reverseRecOn with
  | nil => exact absurd hscheduled (not_since_nil _ _)
  | append_singleton ops op ih =>
    have hheld := holdsTrigger_iff_scheduled ops key
    rw [run_concat, mem_paused_step_iff, pausedSince_concat_iff, pauses_iff, resumes_iff]
    rw [scheduled_concat_iff] at hscheduled
    by_cases hbefore : Scheduled key ops
    · have hkept : ¬ ∃ job, op = .removeJob job ∧ (run ops {}).Holds key job := by
        rintro ⟨job, rfl, hholds⟩
        rcases hscheduled with hcomes | ⟨-, hstays⟩
        · simp [Op.ownerUnder] at hcomes
        · exact hstays ⟨job, rfl, ((holds_iff ops key job).mp hholds).2⟩
      simp [ih hbefore, hkept, ComesAfresh, hbefore]
    · -- what comes afresh was not paused, and nothing counts from before
      have hcomes : (op.ownerUnder key).isSome := hscheduled.resolve_right fun h => hbefore h.1
      have hnotHeld : ¬ (run ops {}).holdsTrigger key = true := fun h => hbefore (hheld.mp h)
      have hnone : key ∉ (run ops {}).paused := by
        intro hpaused
        have hmem := (run_consistent ops empty_consistent).paused_held key hpaused
        exact hnotHeld ((holdsTrigger_iff _ key).mpr hmem)
      simp [hnone, hnotHeld, ComesAfresh, hcomes, hbefore]

theorem isPaused_congr {c d : Catalog} {key : Key} (hheld : c.holdsTrigger key = d.holdsTrigger key)
    (hpaused : key ∈ c.paused ↔ key ∈ d.paused) : c.isPaused key = d.isPaused key := by
  have hcontains : c.paused.contains key = d.paused.contains key := by
    rw [Bool.eq_iff_iff, List.contains_iff_mem, List.contains_iff_mem, hpaused]
  rw [isPaused, isPaused, hheld, hcontains]

theorem isPaused_schedule_in_place {c : Catalog} (t : Trigger)
    (hheld : c.holdsTrigger t.key = true) :
    (c.step (.schedule t)).isPaused t.key = c.isPaused t.key := by
  refine isPaused_congr ?_ Iff.rfl
  rw [hheld, holdsTrigger_iff]
  exact (key_mem_replaceOrAppend Trigger.key t c.triggers t.key).mpr (.inr rfl)

theorem isPaused_removeJob_of_not_holds {c : Catalog} (hc : c.Consistent) {key job : Key}
    (hholds : ¬ c.Holds key job) :
    (c.step (.removeJob job)).isPaused key = c.isPaused key := by
  refine isPaused_congr ?_ ?_
  · rw [Bool.eq_iff_iff, holdsTrigger_iff_holds, holdsTrigger_iff_holds]
    refine exists_congr fun owner => ?_
    rw [holds_step_iff hc]
    refine ⟨And.left, fun howner => ⟨howner, ?_⟩⟩
    rintro ⟨⟩
    exact hholds howner
  · change key ∈ (c.removeJob job).paused ↔ _
    rw [mem_removeJob_paused_iff]
    exact and_iff_left hholds

/-- What is answered about a trigger follows from what was done: it is unknown unless it was
scheduled and its owner not removed since, and otherwise paused as its history has it. To schedule
it again in place, or to remove a job other than its owner, changes no answer, and what is refused
changes nothing at all. -/
theorem isPaused_by_history (ops : List Op) (name : String) (key : Key) :
    (key ∈ (run ops {}).triggers.map (·.key) ↔ Scheduled key ops) ∧
    (((run ops {}).handle name).isPaused key = .error (.unknownTrigger key.dotted) ↔
      ¬ Scheduled key ops) ∧
    (Scheduled key ops → ∃ paused, ((run ops {}).handle name).isPaused key = .ok paused ∧
      (paused = true ↔ PausedSince key ops)) ∧
    (Scheduled key ops → ∀ t : Trigger, t.key = key →
      (((run ops {}).step (.schedule t)).handle name).isPaused key =
        ((run ops {}).handle name).isPaused key) ∧
    (∀ job, owner? key ops ≠ some job →
      (((run ops {}).step (.removeJob job)).handle name).isPaused key =
        ((run ops {}).handle name).isPaused key) ∧
    ∀ op fault, op = .pause key ∨ op = .resume key →
      (run ops {}).reply op = .error fault → (run ops {}).step op = run ops {} := by
  have hc := run_consistent ops empty_consistent
  have hheld := holdsTrigger_iff_scheduled ops key
  refine ⟨(holdsTrigger_iff _ key).symm.trans hheld, ?_, ?_, ?_, ?_, ?_⟩
  · change (run ops {}).isPaused key = _ ↔ _
    rw [← hheld, isPaused]
    split <;> simp_all
  · intro hscheduled
    refine ⟨(run ops {}).paused.contains key, if_pos (hheld.mpr hscheduled), ?_⟩
    rw [List.contains_iff_mem, mem_paused_iff ops key hscheduled]
  · rintro hscheduled t rfl
    exact isPaused_schedule_in_place t (hheld.mpr hscheduled)
  · intro job hjob
    refine isPaused_removeJob_of_not_holds hc ?_
    exact fun hholds => hjob ((holds_iff ops key job).mp hholds).2
  · rintro op fault (rfl | rfl) hrefused
    · cases hpause : (run ops {}).pause key with
      | ok after => simp [reply, hpause, Except.map] at hrefused
      | error fault => simp [step, hpause]
    · cases hresume : (run ops {}).resume key with
      | ok after => simp [reply, hresume, Except.map] at hrefused
      | error fault => simp [step, hresume]

def pausedAndMoved : List Op :=
  [.schedule ⟨⟨"sync", "hourly"⟩, ⟨"sync", "pull"⟩, .other, none, none⟩,
    .pause ⟨"sync", "hourly"⟩,
    .schedule ⟨⟨"sync", "hourly"⟩, ⟨"sync", "push"⟩, .other, none, none⟩,
    .removeJob ⟨"sync", "pull"⟩]

theorem paused_after_move :
    Scheduled ⟨"sync", "hourly"⟩ pausedAndMoved ∧ PausedSince ⟨"sync", "hourly"⟩ pausedAndMoved ∧
    (((run pausedAndMoved {}).step (.removeJob ⟨"sync", "pull"⟩)).handle "main").isPaused
      ⟨"sync", "hourly"⟩ = .ok true := by
  obtain ⟨hheld, -, hpaused, -, hothers, -⟩ :=
    isPaused_by_history pausedAndMoved "main" ⟨"sync", "hourly"⟩
  have hscheduled := hheld.mp (by decide)
  have hanswer : ((run pausedAndMoved {}).handle "main").isPaused ⟨"sync", "hourly"⟩ = .ok true :=
    rfl
  obtain ⟨paused, hok, hsince⟩ := hpaused hscheduled
  obtain rfl := Except.ok.inj (hok.symm.trans hanswer)
  refine ⟨hscheduled, hsince.mp rfl, ?_⟩
  rw [hothers ⟨"sync", "pull"⟩ (by decide), hanswer]

end JobWatch.Catalog
