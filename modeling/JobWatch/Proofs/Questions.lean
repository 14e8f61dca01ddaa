import JobWatch.Proofs.Poll.Listing

/-!
# Questions about triggers

Triggers are asked about in order up to the first that is not paused, or about which the question
fails. What is asked does not depend on answers that are not given, and the rest of a snapshot is
made of all triggers, also of those that are not asked about.
-/

set_option autoImplicit false

namespace JobWatch

open Calendar (Instant)

section Asked

variable {ask : Nat → Trigger → Except SchedulerFault Bool} {triggers : List Trigger}

theorem askPaused_of_all {asked : Nat}
    (hall : ∀ n t, triggers[n]? = some t → ask (asked + n) t = .ok true) :
    askPaused ask asked triggers = (triggers, .ok true) := by
  induction triggers generalizing asked with
  | nil => rfl
  | cons t triggers ih =>
    have hfirst : ask asked t = .ok true := hall 0 t rfl
    have hrest : askPaused ask (asked + 1) triggers = (triggers, .ok true) := by
      apply ih
      intro n u hu
      rw [Nat.add_right_comm]
      exact hall (n + 1) u hu
    simp only [askPaused, hfirst, hrest]

theorem askPaused_of_endsAtNumber {asked n : Nat} {answer : Except SchedulerFault Bool}
    (hends : EndsAtNumber ask asked triggers n answer) (hanswer : answer ≠ .ok true) :
    askPaused ask asked triggers = (triggers.take (n + 1), answer) := by
  induction triggers generalizing asked n with
  | nil =>
    obtain ⟨⟨t, ht, -⟩, -⟩ := hends
    cases ht
  | cons t triggers ih =>
    cases n with
    | zero =>
      obtain ⟨⟨u, hu, hgiven⟩, -⟩ := hends
      obtain rfl := Option.some.inj hu
      rw [Nat.add_zero] at hgiven
      cases answer with
      | error fault => simp only [askPaused, hgiven, List.take_succ_cons, List.take_zero]
      | ok paused =>
        cases paused with
        | false => simp only [askPaused, hgiven, List.take_succ_cons, List.take_zero]
        | true => exact absurd rfl hanswer
    | succ n =>
      obtain ⟨hfirst, hlater⟩ := (endsAtNumber_succ_iff ask asked t triggers n answer).mp hends
      simp only [askPaused, hfirst, ih hlater, List.take_succ_cons]

/-- Of some triggers those were asked about, and the last answer was the given one: either all,
which are paused, or those up to the first that is not. Without a trigger the answer is "paused". -/
def AsksUpTo (ask : Nat → Trigger → Except SchedulerFault Bool) (triggers asked : List Trigger)
    (answer : Except SchedulerFault Bool) : Prop :=
  asked = triggers ∧ answer = .ok true ∧ (∀ n t, triggers[n]? = some t → ask n t = .ok true) ∨
    ∃ n, asked = triggers.take (n + 1) ∧ answer ≠ .ok true ∧ EndsAtNumber ask 0 triggers n answer

theorem askPaused_eq_iff_asksUpTo {asked : List Trigger} {answer : Except SchedulerFault Bool} :
    askPaused ask 0 triggers = (asked, answer) ↔ AsksUpTo ask triggers asked answer := by
  constructor
  · intro h
    have hanswer : (askPaused ask 0 triggers).2 = answer := by rw [h]
    by_cases hpaused : answer = .ok true
    · rw [hpaused, askPaused_numbered_eq_true_iff] at hanswer
      simp only [Nat.zero_add] at hanswer
      have hall : askPaused ask 0 triggers = (triggers, .ok true) :=
        askPaused_of_all (by simpa using hanswer)
      exact .inl ⟨(congrArg Prod.fst (h.symm.trans hall)), hpaused, hanswer⟩
    · obtain ⟨n, hends⟩ := (askPaused_numbered_eq_iff ask 0 triggers hpaused).mp hanswer
      have htake := askPaused_of_endsAtNumber hends hpaused
      exact .inr ⟨n, congrArg Prod.fst (h.symm.trans htake), hpaused, hends⟩
  · rintro (⟨rfl, rfl, hall⟩ | ⟨n, rfl, hpaused, hends⟩)
    · exact askPaused_of_all (by simpa using hall)
    · exact askPaused_of_endsAtNumber hends hpaused

/-- Answers that are not asked for do not matter. -/
theorem AsksUpTo.congr {ask' : Nat → Trigger → Except SchedulerFault Bool} {asked : List Trigger}
    {answer : Except SchedulerFault Bool} (h : AsksUpTo ask triggers asked answer)
    (hsame : ∀ n t, asked[n]? = some t → ask' n t = ask n t) :
    AsksUpTo ask' triggers asked answer := by
  rcases h with ⟨rfl, hanswer, hall⟩ | ⟨n, rfl, hpaused, ⟨t, ht, hgiven⟩, hbefore⟩
  · exact .inl ⟨rfl, hanswer, fun n t ht => (hsame n t ht).trans (hall n t ht)⟩
  · have hagree : ∀ m ≤ n, ∀ u, triggers[m]? = some u → ask' m u = ask m u := by
      intro m hm u hu
      apply hsame
      rwa [List.getElem?_take_of_lt (by omega)]
    simp only [Nat.zero_add] at hgiven hbefore
    refine .inr ⟨n, rfl, hpaused, ⟨t, ht, ?_⟩, ?_⟩
    · rw [Nat.zero_add, hagree n (Nat.le_refl n) t ht, hgiven]
    · intro m hm u hu
      rw [Nat.zero_add, hagree m (Nat.le_of_lt hm) u hu]
      exact hbefore m hm u hu

end Asked

namespace Snapshot

/-- A snapshot is made of some triggers by the questions about them: asked up to the first that is
not paused, whatever the others would answer. If the last question fails, so does the snapshot, with
the same fault. Otherwise it shows "paused" exactly if every trigger is, and it shows the last cron
expression, the last interval and the extreme times of all triggers. -/
theorem ofTriggers_by_questions (identity : Identity) (job : Job) (execution : Option Execution)
    (triggers : List Trigger) (ask : Nat → Trigger → Except SchedulerFault Bool) (now : Instant) :
    ∃ asked answer, askPaused ask 0 triggers = (asked, answer) ∧
      AsksUpTo ask triggers asked answer ∧
      (∀ ask' : Nat → Trigger → Except SchedulerFault Bool,
        (∀ n t, asked[n]? = some t → ask' n t = ask n t) →
        askPaused ask' 0 triggers = (asked, answer) ∧
        ofTriggers identity job execution triggers ask' now =
          ofTriggers identity job execution triggers ask now) ∧
      match answer with
      | .error fault => ofTriggers identity job execution triggers ask now = .error fault
      | .ok paused => ∃ s, ofTriggers identity job execution triggers ask now = .ok s ∧
          s.paused = paused ∧
          (s.paused = true ↔ ∀ n t, triggers[n]? = some t → ask n t = .ok true) ∧
          LastGiven (·.timing.cron?) triggers s.cron ∧
          (∃ millis, LastGiven (·.timing.interval?) triggers millis ∧
            s.intervalMillis = millis.getD (-1)) ∧
          Extreme (fun later earlier => earlier ≤ later) (triggers.filterMap (·.next)) s.next ∧
          Extreme (· ≤ ·) (triggers.filterMap (·.previous)) s.previous := by
  obtain ⟨asked, answer, hasked⟩ : ∃ asked answer, askPaused ask 0 triggers = (asked, answer) :=
    ⟨_, _, rfl⟩
  have hups := askPaused_eq_iff_asksUpTo.mp hasked
  refine ⟨asked, answer, hasked, hups, ?_, ?_⟩
  · intro ask' hsame
    have hasked' := askPaused_eq_iff_asksUpTo.mpr (hups.congr hsame)
    refine ⟨hasked', ?_⟩
    simp only [ofTriggers, hasked, hasked']
  · cases answer with
    | error fault => simp only [ofTriggers, hasked]
    | ok paused =>
      refine ⟨of identity job execution triggers paused now, ?_, rfl, ?_, ?_, ?_, ?_, ?_⟩
      · simp only [ofTriggers, hasked]
      · have hall := askPaused_numbered_eq_true_iff ask 0 triggers
        simp only [hasked, Except.ok.injEq, Nat.zero_add] at hall
        exact hall
      · exact (lastGiven_iff _ _ _).mpr rfl
      · exact ⟨_, (lastGiven_iff _ _ _).mpr rfl, rfl⟩
      · exact (earliest?_iff _ _).mp rfl
      · exact (latest?_iff _ _).mp rfl

end Snapshot

end JobWatch
