import JobWatch.Proofs.Host.Kept

/-!
# What a scheduler contributes to a poll

The snapshots of a scheduler that lets a poll go on stand between those of the schedulers before it
and those of the schedulers after it, and do not depend on either.
-/

set_option autoImplicit false

namespace JobWatch

open Calendar (Instant)

def afterEight (seconds : Fin 60) : Instant where
  day := 19783
  second := 28800 + seconds
  nano := 0
  second_lt := by
    unfold Calendar.secondsPerDay
    omega
  nano_lt := by decide
  firstDay_le := by decide
  le_lastDay := by decide

/-- Some snapshots are a scheduler's share of every poll it takes part in. -/
def Handle.Shares (identity : Identity) (now : Instant) (h : Handle) (block : List Snapshot) :
    Prop :=
  ∀ before after,
    ((⟨identity, .available⟩ : Watch).poll (.ok (before ++ h :: after)) now).outcome =
      ((⟨identity, .available⟩ : Watch).poll (.ok before) now).outcome >>= fun front =>
        ((⟨identity, .available⟩ : Watch).poll (.ok after) now).outcome >>= fun back =>
          .done (front ++ block ++ back)

namespace Poll

theorem schedulers_append (identity : Identity) (now : Instant) (before after : List Handle) :
    (schedulers identity now (before ++ after)).outcome =
      (schedulers identity now before).outcome >>= fun front =>
        (schedulers identity now after).outcome >>= fun back => .done (front ++ back) := by
  induction before with
  | nil => simp [schedulers]
  | cons h before ih =>
    rw [List.cons_append, outcome_schedulers_cons, outcome_schedulers_cons, ih]
    cases (scheduler identity now h).outcome with
    | done first =>
      cases (schedulers identity now before).outcome <;>
        cases (schedulers identity now after).outcome <;> simp
    | failed fault => rfl
    | crashed => rfl

theorem shares_of_yields {identity : Identity} {now : Instant} {h : Handle} {block : List Snapshot}
    (hblock : h.Yields identity now block) : h.Shares identity now block := by
  intro before after
  have hdone := (scheduler_done_iff identity now h block).mpr hblock
  simp only [outcome_poll, Outcome.ofExcept_ok, Outcome.done_bind]
  rw [schedulers_append, outcome_schedulers_cons, hdone]
  cases (schedulers identity now before).outcome <;>
    cases (schedulers identity now after).outcome <;> simp

end Poll

/-- The share of a scheduler with a catalog depicts each of its jobs in order. -/
theorem Catalog.exists_shares (identity : Identity) (now : Instant) (name : String) (c : Catalog) :
    ∃ block, (c.handle name).Shares identity now block ∧
      List.Forall₂ (Snapshot.Depicts identity now (c.handle name) c.running) c.jobs block := by
  obtain ⟨block, hdone⟩ :=
    (Poll.scheduler_passes_iff identity now (c.handle name)).mpr (c.handle_passes name)
  have hyields := (Poll.scheduler_done_iff identity now (c.handle name) block).mp hdone
  refine ⟨block, Poll.shares_of_yields hyields, ?_⟩
  obtain ⟨-, running, hrunning, hblock⟩ := hyields
  cases hrunning
  exact hblock

end JobWatch
