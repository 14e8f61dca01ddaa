import JobWatch.Proofs.Calendar.Instant
import JobWatch.Proofs.Poll.Account
import JobWatch.Proofs.Poll.Share

/-!
# The same schedulers at a later time

Of what a poll answers, only the running times depend on when it is made. Polled again later, the
same schedulers give the same fault or the same snapshots, in which jobs have been running for
longer: by the time between the two polls, to the next millisecond.
-/

set_option autoImplicit false

namespace JobWatch

open Calendar (Instant)

namespace Outcome

inductive Alike {ε α : Type} (R : α → α → Prop) : Outcome ε α → Outcome ε α → Prop where
  | done {a b : α} (h : R a b) : Alike R (.done a) (.done b)
  | failed (fault : ε) : Alike R (.failed fault) (.failed fault)
  | crashed : Alike R .crashed .crashed

variable {ε δ α β : Type} {R : α → α → Prop} {S : β → β → Prop} {x y : Outcome ε α}

theorem Alike.bind {f g : α → Outcome ε β} (h : Alike R x y)
    (hfg : ∀ a b, R a b → Alike S (f a) (g b)) : Alike S (x >>= f) (y >>= g) := by
  cases h with
  | done hab => exact hfg _ _ hab
  | failed fault => exact .failed fault
  | crashed => exact .crashed

theorem Alike.mapFault (h : Alike R x y) (f : ε → δ) : Alike R (x.mapFault f) (y.mapFault f) := by
  cases h with
  | done hab => exact .done hab
  | failed fault => exact .failed (f fault)
  | crashed => exact .crashed

theorem ofExcept_bind (x : Except ε α) (f : α → Except ε β) :
    ofExcept (x >>= f) = ofExcept x >>= fun a => ofExcept (f a) := by
  cases x <;> rfl

/-- Passes over one list end alike if they do at each of its elements. -/
theorem alike_mapM {f g : β → Except ε α} {l : List β}
    (h : ∀ b ∈ l, Alike R (ofExcept (f b)) (ofExcept (g b))) :
    Alike (List.Forall₂ R) (ofExcept (l.mapM f)) (ofExcept (l.mapM g)) := by
  induction l with
  | nil => exact .done .nil
  | cons b l ih =>
    rw [List.mapM_cons, List.mapM_cons, ofExcept_bind, ofExcept_bind]
    apply (h b List.mem_cons_self).bind
    intro first first' hfirst
    rw [ofExcept_bind, ofExcept_bind]
    apply (ih fun c hc => h c (List.mem_cons_of_mem b hc)).bind
    intro more more' hmore
    exact .done (.cons hfirst hmore)

end Outcome

namespace Snapshot

/-- A snapshot was made again some milliseconds later: all is as it was but the time that a running
job has been running for, which has grown by no more than these milliseconds and one. -/
structure Ages (millis : Int) (s s' : Snapshot) : Prop where
  others : s' = { s with elapsedMillis := s'.elapsedMillis }
  idle : s.elapsedMillis = -1 ↔ s'.elapsedMillis = -1
  running : s.elapsedMillis ≠ -1 → 0 ≤ s.elapsedMillis.toInt ∧
    s.elapsedMillis.toInt ≤ s'.elapsedMillis.toInt ∧
    s'.elapsedMillis.toInt - s.elapsedMillis.toInt ≤ millis + 1

theorem elapsed_some_ne (e : Execution) (now : Instant) : elapsed (some e) now ≠ -1 := by
  intro h
  have hmillis := toInt_elapsed_some e now
  rw [h] at hmillis
  have hminus : (-1 : Int64).toInt = -1 := by decide
  omega

theorem ages_elapsed {now now' : Instant} (hle : now ≤ now') (hnow : now.isLeap = false)
    (hnow' : now'.isLeap = false) {execution : Option Execution}
    (hstart : ∀ e, execution = some e → e.started.isLeap = false) {s : Snapshot}
    (hs : s.elapsedMillis = elapsed execution now) :
    Ages (now'.millisSince now) s { s with elapsedMillis := elapsed execution now' } := by
  cases execution with
  | none =>
    have hidle : s.elapsedMillis = -1 := hs
    exact ⟨rfl, iff_of_true hidle rfl, fun hrunning => absurd hidle hrunning⟩
  | some e =>
    have hlater := Instant.max_zero_millisSince_later (hstart e rfl) hnow hnow' hle
    constructor
    · rfl
    · rw [hs]
      exact iff_of_false (elapsed_some_ne e now) (elapsed_some_ne e now')
    · intro _
      rw [hs, toInt_elapsed_some, toInt_elapsed_some]
      exact ⟨Int.le_max_left _ _, hlater⟩

end Snapshot

theorem Handle.snapshot_at (h : Handle) (identity : Identity) (job : Job)
    (execution : Option Execution) (now now' : Instant) :
    h.snapshot identity job execution now' =
      (h.snapshot identity job execution now).map fun s =>
        { s with elapsedMillis := Snapshot.elapsed execution now' } := by
  unfold Handle.snapshot
  cases h.triggersOf job.key with
  | error cause => rfl
  | ok triggers =>
    simp only [bind, Except.bind, Snapshot.ofTriggers]
    cases (askPaused (fun _ t => h.isPaused t.key) 0 triggers).2 <;> rfl

theorem Handle.elapsedMillis_of_snapshot {h : Handle} {identity : Identity} {job : Job}
    {execution : Option Execution} {now : Instant} {s : Snapshot}
    (hs : h.snapshot identity job execution now = .ok s) :
    s.elapsedMillis = Snapshot.elapsed execution now := by
  have hsame := h.snapshot_at identity job execution now now
  rw [hs] at hsame
  exact congrArg Snapshot.elapsedMillis (Except.ok.inj hsame)

def Handle.StartsOffLeaps (h : Handle) : Prop :=
  ∀ running, h.executions = .ok running → ∀ e ∈ running, e.started.isLeap = false

theorem mem_of_lastUnder {name : String} {es : List Execution} {e : Execution}
    (h : lastUnder name es = some e) : e ∈ es := by
  obtain ⟨e', he', hunder⟩ := List.mem_filterMap.mp (List.mem_of_getLast? h)
  rw [Execution.under] at hunder
  split at hunder
  · cases hunder
    exact he'
  · cases hunder

namespace Poll

open Outcome (Alike)

section Later

variable {now now' : Instant} (hle : now ≤ now') (hnow : now.isLeap = false)
  (hnow' : now'.isLeap = false)

include hle hnow hnow'

theorem report_later (identity : Identity) {h : Handle} (hstarts : h.StartsOffLeaps) :
    Alike (List.Forall₂ (Snapshot.Ages (now'.millisSince now)))
      (.ofExcept (h.report identity now)) (.ofExcept (h.report identity now')) := by
  unfold Handle.report
  cases hexecutions : h.executions with
  | error cause => exact .failed cause
  | ok running =>
    cases h.jobs with
    | error cause => exact .done .nil
    | ok catalog =>
      apply Outcome.alike_mapM
      intro job _
      rw [h.snapshot_at identity job _ now now']
      cases hs : h.snapshot identity job (lastUnder job.key.dotted running) now with
      | error cause => exact .failed cause
      | ok s =>
        apply Alike.done
        apply Snapshot.ages_elapsed hle hnow hnow' _ (Handle.elapsedMillis_of_snapshot hs)
        intro e he
        exact hstarts running hexecutions e (mem_of_lastUnder he)

theorem scheduler_later (identity : Identity) {h : Handle} (hstarts : h.StartsOffLeaps) :
    Alike (List.Forall₂ (Snapshot.Ages (now'.millisSince now)))
      (scheduler identity now h).outcome (scheduler identity now' h).outcome := by
  rw [outcome_scheduler, outcome_scheduler]
  cases h.name with
  | none => exact .crashed
  | some name =>
    exact (report_later hle hnow hnow' identity hstarts).mapFault (PollFault.scheduler name)

theorem schedulers_later (identity : Identity) {handles : List Handle}
    (hstarts : ∀ h ∈ handles, h.StartsOffLeaps) :
    Alike (List.Forall₂ (Snapshot.Ages (now'.millisSince now)))
      (schedulers identity now handles).outcome (schedulers identity now' handles).outcome := by
  induction handles with
  | nil => exact .done .nil
  | cons h handles ih =>
    rw [outcome_schedulers_cons, outcome_schedulers_cons]
    apply (scheduler_later hle hnow hnow' identity (hstarts h List.mem_cons_self)).bind
    intro first first' hfirst
    apply (ih fun g hg => hstarts g (List.mem_cons_of_mem h hg)).bind
    intro more more' hmore
    exact .done (List.rel_append hfirst hmore)

end Later

theorem exists_nameless_of_crashed {identity : Identity} {now : Instant} {handles : List Handle}
    (h : (schedulers identity now handles).outcome = .crashed) : ∃ g ∈ handles, g.name = none := by
  have haccount := schedulers_account identity now handles
  rwa [h] at haccount

/-- Polled at two instants, none of them within a leap second, the same registry gives the same
fault or the same snapshots but for the running times. A poll breaks down only over a scheduler that
cannot even give its name. The time between any two instants, leap seconds or not, is within the
range of a difference, so that no running time is ever cut to size. -/
theorem poll_later (w : Watch) (registry : Except PollFault (List Handle)) {now now' : Instant}
    (hle : now ≤ now') (hnow : now.isLeap = false) (hnow' : now'.isLeap = false)
    (hstarts : ∀ handles, registry = .ok handles → ∀ h ∈ handles, h.StartsOffLeaps) :
    Outcome.Alike (List.Forall₂ (Snapshot.Ages (now'.millisSince now)))
      (w.poll registry now).outcome (w.poll registry now').outcome ∧
    ((w.poll registry now).outcome = .crashed →
      ∃ handles, registry = .ok handles ∧ ∃ h ∈ handles, h.name = none) ∧
    ∀ i start : Instant,
      -(Int64.maxValue.toInt * 1000000) ≤ i.nanosSince start ∧
      i.nanosSince start ≤ Int64.maxValue.toInt * 1000000 ∧
      ∀ e : Execution, e.started = start →
        (Snapshot.elapsed (some e) i).toInt = max 0 (i.millisSince start) := by
  obtain ⟨identity, capability⟩ := w
  refine ⟨?_, ?_, ?_⟩
  · cases capability with
    | unavailable => exact .done .nil
    | available =>
      rw [outcome_poll, outcome_poll]
      cases registry with
      | error fault => exact .failed fault
      | ok handles => exact schedulers_later hle hnow hnow' identity (hstarts handles rfl)
  · intro hcrashed
    cases capability with
    | unavailable => cases hcrashed
    | available =>
      rw [outcome_poll] at hcrashed
      cases registry with
      | error fault => cases hcrashed
      | ok handles => exact ⟨handles, rfl, exists_nameless_of_crashed hcrashed⟩
  · intro i start
    obtain ⟨hlower, hupper⟩ := i.nanosSince_bounds start
    refine ⟨hlower, hupper, ?_⟩
    rintro e rfl
    exact Snapshot.toInt_elapsed_some e i

def pushingFrom (start : Instant) : Handle :=
  (Catalog.run [.addJob ⟨⟨"sync", "pull"⟩, none, "app.Pull"⟩,
    .addJob ⟨⟨"sync", "push"⟩, none, "app.Push"⟩,
    .start ⟨⟨⟨"sync", "push"⟩, none, "app.Push"⟩, start⟩] {}).handle "main"

theorem pushingFrom_startsOffLeaps {start : Instant} (h : start.isLeap = false) :
    (pushingFrom start).StartsOffLeaps := by
  intro running hrunning e he
  cases hrunning
  obtain rfl : e = ⟨⟨⟨"sync", "push"⟩, none, "app.Push"⟩, start⟩ := List.mem_singleton.mp he
  exact h

theorem outcome_poll_pushingFrom (identity : Identity) (now start : Instant) :
    ((⟨identity, .available⟩ : Watch).poll (.ok [pushingFrom start]) now).outcome =
      (Outcome.ofExcept ((pushingFrom start).report identity now)).mapFault
        (.scheduler "main") := by
  have hname : (pushingFrom start).name = some "main" := rfl
  rw [outcome_poll, Outcome.ofExcept_ok, Outcome.done_bind, outcome_schedulers_cons,
    outcome_scheduler, hname]
  cases (pushingFrom start).report identity now <;> simp [schedulers]

/-- Before its start a job has been running for no time, which does not count toward its time at
the later poll. -/
theorem polled_before_and_after_start :
    let w : Watch := ⟨⟨"99", "127.0.0.1"⟩, .available⟩
    let poll := fun now => (w.poll (.ok [pushingFrom (afterEight 6)]) now).outcome
    Outcome.Alike (List.Forall₂ (Snapshot.Ages 2000)) (poll (afterEight 5)) (poll (afterEight 7)) ∧
    (poll (afterEight 5)).map (List.map (·.elapsedMillis)) = .done [-1, 0] ∧
    (poll (afterEight 7)).map (List.map (·.elapsedMillis)) = .done [-1, 1000] := by
  have hle : afterEight 5 ≤ afterEight 7 := by decide
  have hstarts : ∀ handles,
      (.ok [pushingFrom (afterEight 6)] : Except PollFault (List Handle)) = .ok handles →
        ∀ h ∈ handles, h.StartsOffLeaps := by
    intro handles hhandles h hh
    cases hhandles
    obtain rfl : h = pushingFrom (afterEight 6) := List.mem_singleton.mp hh
    exact pushingFrom_startsOffLeaps rfl
  refine ⟨(poll_later ⟨⟨"99", "127.0.0.1"⟩, .available⟩ _ hle rfl rfl hstarts).1, ?_, ?_⟩
  · simp only [outcome_poll_pushingFrom]
    rfl
  · simp only [outcome_poll_pushingFrom]
    rfl

end Poll

end JobWatch
