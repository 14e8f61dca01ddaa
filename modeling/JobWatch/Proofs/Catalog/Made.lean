import JobWatch.Proofs.Catalog.Contents
import JobWatch.Proofs.Poll.Share
import JobWatch.Proofs.Trigger

/-!
# What a poll shows of made triggers

If every trigger that is scheduled was made from an expression, an interval or its times, then so
was every trigger of a catalog. What a poll shows of a job then tells how its triggers were made: an
interval that does not apply is told from one that does, as only positive ones can be made.
-/

set_option autoImplicit false

namespace JobWatch

open Calendar (Instant)

def LastMade {α : Type} (Of : α → Trigger → Prop) (triggers : List Trigger) : Option α → Prop
  | none => ∀ t ∈ triggers, ∀ a, ¬ Of a t
  | some a => ∃ before t after, triggers = before ++ t :: after ∧ Of a t ∧
      ∀ later ∈ after, ∀ b, ¬ Of b later

theorem LastGiven.lastMade {α : Type} {Of : α → Trigger → Prop} {f : Trigger → Option α}
    {triggers : List Trigger} {o : Option α} (h : LastGiven f triggers o)
    (hof : ∀ t ∈ triggers, ∀ a, f t = some a ↔ Of a t) : LastMade Of triggers o := by
  have hnone : ∀ t ∈ triggers, f t = none → ∀ a, ¬ Of a t := by
    intro t ht hgives a ha
    rw [← hof t ht a, hgives] at ha
    cases ha
  cases o with
  | none => exact fun t ht => hnone t ht (h t ht)
  | some a =>
    obtain ⟨before, t, after, rfl, hgives, hafter⟩ := h
    refine ⟨before, t, after, rfl, (hof t (by simp) a).mp hgives, ?_⟩
    exact fun later hlater => hnone later (by simp [hlater]) (hafter later hlater)

namespace Snapshot

structure Tells (triggers : List Trigger) (s : Snapshot) : Prop where
  interval : s.intervalMillis = -1 ∧ LastMade Trigger.OfInterval triggers none ∨
    0 < s.intervalMillis ∧ LastMade Trigger.OfInterval triggers (some s.intervalMillis)
  cron : LastMade Trigger.OfCron triggers s.cron
  readable : ∀ expression ∈ s.cron, (Cron.Schedule.parse? expression).isSome = true
  due : ∀ t ∈ triggers, ∀ millis, t.OfInterval millis → s.next.isSome = true
  ahead : ∀ t, triggers = [t] →
    (∃ expression, t.OfCron expression) ∨ (∃ millis, t.OfInterval millis) →
      ∀ previous ∈ s.previous, ∀ next ∈ s.next, previous < next
  bare : triggers = [] → s.paused = true ∧ s.previous = none ∧ s.next = none

theorem Sums.tells {h : Handle} {triggers : List Trigger} {s : Snapshot} (hs : Sums h triggers s)
    (hmade : ∀ t ∈ triggers, t.Made) : Tells triggers s where
  interval := by
    obtain ⟨millis, hlast, hshown⟩ := hs.interval
    have hlastMade : LastMade Trigger.OfInterval triggers millis :=
      hlast.lastMade fun t ht a => (hmade t ht).interval?_eq_some_iff
    cases millis with
    | none => exact .inl ⟨hshown, hlastMade⟩
    | some millis =>
      obtain rfl : s.intervalMillis = millis := hshown
      obtain ⟨-, t, -, -, hof, -⟩ := id hlastMade
      exact .inr ⟨hof.positive, hlastMade⟩
  cron := hs.cron.lastMade fun t ht a => (hmade t ht).cron?_eq_some_iff
  readable := by
    intro expression hexpression
    have hlast := hs.cron
    rw [hexpression] at hlast
    obtain ⟨before, t, after, rfl, hgives, -⟩ := hlast
    exact ((hmade t (by simp)).cron?_eq_some_iff.mp hgives).parse?_isSome
  due := by
    intro t ht millis hof
    obtain ⟨due, hdue⟩ := hof.exists_next
    have hextreme := hs.next
    cases hnext : s.next with
    | some next => rfl
    | none =>
      rw [hnext] at hextreme
      have hmem : due ∈ triggers.filterMap (·.next) := List.mem_filterMap.mpr ⟨t, ht, hdue⟩
      rw [hextreme] at hmem
      cases hmem
  ahead := by
    rintro t rfl hof previous hprevious next hnext
    have hfired := hs.previous
    have hdue := hs.next
    rw [hprevious] at hfired
    rw [hnext] at hdue
    rcases hof with ⟨expression, hcron⟩ | ⟨millis, hinterval⟩
    · exact hcron.previous_lt_next hfired.of_singleton hdue.of_singleton
    · exact hinterval.previous_lt_next hfired.of_singleton hdue.of_singleton
  bare := by
    rintro rfl
    refine ⟨?_, (extreme_nil_iff _ _).mp hs.previous, (extreme_nil_iff _ _).mp hs.next⟩
    have hpaused := hs.paused
    split at hpaused
    next hshown => exact hshown
    next => exact absurd hpaused (not_leadsTo_nil _ _)

end Snapshot

namespace Catalog

theorem schedule_mem_of_mem_triggers {ops : List Op} {t : Trigger}
    (ht : t ∈ (run ops {}).triggers) : .schedule t ∈ ops := by
  obtain ⟨-, hlatest, -⟩ := ((lists_triggers ops).mem_iff t).mp ht
  obtain ⟨op, hop, hput⟩ := List.mem_filterMap.mp (List.mem_of_getLast? hlatest)
  obtain ⟨hscheduled, -⟩ := Option.filter_eq_some_iff.mp hput
  cases op with
  | schedule u =>
    obtain rfl := Option.some.inj hscheduled
    exact hop
  | _ => cases hscheduled

/-- Whatever is done to a catalog, if the triggers that are scheduled were made, every snapshot of a
poll tells how those of its job were. -/
theorem shown_as_made (ops : List Op) (hmade : ∀ t, .schedule t ∈ ops → t.Made) (name : String)
    (identity : Identity) (now : Instant) :
    ∃ block, ((run ops {}).handle name).Shares identity now block ∧
      List.Forall₂ (fun job s => s.key = job.key ∧
        Snapshot.Tells ((run ops {}).triggersOf job.key) s) (run ops {}).jobs block := by
  obtain ⟨block, hshares, hblock⟩ := exists_shares identity now name (run ops {})
  refine ⟨block, hshares, hblock.imp ?_⟩
  intro job s hs
  obtain ⟨triggers, htriggers, hsums⟩ := hs.triggers
  obtain rfl := Except.ok.inj htriggers
  refine ⟨hs.key_eq, hsums.tells ?_⟩
  intro t ht
  exact hmade t (schedule_mem_of_mem_triggers (List.mem_of_mem_filter ht))

def givenAway (fired due later : Instant) : List Op :=
  [.addJob ⟨⟨"sync", "pull"⟩, none, "app.Pull"⟩,
    .schedule ⟨⟨"sync", "often"⟩, ⟨"sync", "pull"⟩, .cron "0/30 * * * * ?", some fired, some due⟩,
    .addJob ⟨⟨"sync", "push"⟩, none, "app.Push"⟩,
    .schedule ⟨⟨"sync", "often"⟩, ⟨"sync", "push"⟩, .every 5000, some due, some later⟩]

theorem shown_after_giving_away :
    let ops := givenAway (afterEight 0) (afterEight 30) (afterEight 35)
    (∀ t, .schedule t ∈ ops → t.Made) ∧
    ∃ s s', ((run ops {}).handle "main").Shares ⟨"99", "127.0.0.1"⟩ (afterEight 31) [s, s'] ∧
      s.key = ⟨"sync", "pull"⟩ ∧ s.paused = true ∧ s.next = none ∧
      s'.key = ⟨"sync", "push"⟩ ∧ 0 < s'.intervalMillis ∧
      ∀ previous ∈ s'.previous, ∀ next ∈ s'.next, previous < next := by
  intro ops
  have hinterval : Trigger.OfInterval 5000 ⟨⟨"sync", "often"⟩, ⟨"sync", "push"⟩, .every 5000,
      some (afterEight 30), some (afterEight 35)⟩ :=
    ⟨afterEight 0, some (afterEight 30), by decide +kernel⟩
  have hmade : ∀ t, .schedule t ∈ ops → t.Made := by
    intro t ht
    simp only [ops, givenAway, List.mem_cons, reduceCtorEq, Op.schedule.injEq, List.not_mem_nil,
      false_or, or_false] at ht
    rcases ht with rfl | rfl
    · refine .cron "0/30 * * * * ?" ⟨Calendar.Zone.utc, some (afterEight 0), afterEight 0, ?_, ?_⟩
      · exact trivial
      · decide +kernel
    · exact .interval 5000 hinterval
  obtain ⟨block, hshares, hblock⟩ := shown_as_made ops hmade "main" ⟨"99", "127.0.0.1"⟩
    (afterEight 31)
  have hjobs : (run ops {}).jobs =
      [⟨⟨"sync", "pull"⟩, none, "app.Pull"⟩, ⟨⟨"sync", "push"⟩, none, "app.Push"⟩] := rfl
  rw [hjobs] at hblock
  obtain ⟨s, _, ⟨hkey, htells⟩, hrest, rfl⟩ := List.forall₂_cons_left_iff.mp hblock
  obtain ⟨s', _, ⟨hkey', htells'⟩, hnil, rfl⟩ := List.forall₂_cons_left_iff.mp hrest
  obtain rfl := List.forall₂_nil_left_iff.mp hnil
  obtain ⟨hpaused, -, hnext⟩ := htells.bare (by decide +kernel)
  refine ⟨hmade, s, s', hshares, hkey, hpaused, hnext, hkey', ?_, ?_⟩
  · rcases htells'.interval with ⟨-, hnone⟩ | ⟨hpositive, -⟩
    · exact absurd hinterval (hnone _ (by decide +kernel) 5000)
    · exact hpositive
  · exact htells'.ahead _ (by decide +kernel) (.inr ⟨5000, hinterval⟩)

end Catalog

end JobWatch
