import JobWatch.Host
import JobWatch.Proofs.Selection
import Mathlib.Data.List.Induction

/-!
# When the registry of a process is poisoned

A scheduler may stop giving its name. Whoever asks it then breaks down, but only where the registry
is locked for a change is it of no use afterwards, and then for good.
-/

set_option autoImplicit false

namespace JobWatch

open Calendar (Instant)

namespace Registry

variable {ρ : Type}

theorem isNamed_crashed_iff (nameOf : ρ → Option String) (name : String) (bound : List ρ) :
    isNamed nameOf name bound = .crashed ↔
      LeadsTo (fun r => nameOf r ≠ some name) (fun r => nameOf r = none) bound := by
  induction bound with
  | nil => simp [isNamed, not_leadsTo_nil]
  | cons r bound ih =>
    rw [leadsTo_cons_iff, ← ih]
    cases hr : nameOf r with
    | none => simp [isNamed, hr]
    | some other =>
      by_cases hother : other = name
      · simp [isNamed, hr, hother]
      · simp [isNamed, hr, hother]

theorem isNamed_ne_failed (nameOf : ρ → Option String) (name : String) (bound : List ρ)
    (fault : SchedulerFault) : isNamed nameOf name bound ≠ .failed fault := by
  induction bound with
  | nil => simp [isNamed]
  | cons r bound ih =>
    cases hr : nameOf r with
    | none => simp [isNamed, hr]
    | some other =>
      by_cases hother : other = name
      · simp [isNamed, hr, hother]
      · simpa [isNamed, hr, hother] using ih

theorem bind_poisons_iff (nameOf : ρ → Option String) (r : ρ) {reg : Registry ρ}
    (hfree : reg.poisoned = false) :
    (reg.bind nameOf r).1.poisoned = true ↔
      ∃ name, nameOf r = some name ∧
        LeadsTo (fun s => nameOf s ≠ some name) (fun s => nameOf s = none) reg.bound := by
  cases hr : nameOf r with
  | none => simp [bind, hr, hfree]
  | some name =>
    simp only [Option.some.injEq, exists_eq_left', ← isNamed_crashed_iff]
    cases hnamed : isNamed nameOf name reg.bound with
    | done taken => cases taken <;> simp [bind, hr, hfree, hnamed]
    | failed fault => exact absurd hnamed (isNamed_ne_failed _ _ _ _)
    | crashed => simp [bind, hr, hfree, hnamed]

theorem unbind_poisons_iff (nameOf : ρ → Option String) (name : String) {reg : Registry ρ}
    (hfree : reg.poisoned = false) :
    (reg.unbind nameOf name).1.poisoned = true ↔ ∃ r ∈ reg.bound, nameOf r = none := by
  cases hsilent : reg.bound.any fun r => (nameOf r).isNone with
  | true =>
    have hsome : ∃ r ∈ reg.bound, nameOf r = none := by simpa using hsilent
    simp [unbind, hfree, hsilent, hsome]
  | false =>
    have hnone : ¬ ∃ r ∈ reg.bound, nameOf r = none := by
      simpa [Option.isNone_iff_eq_none] using hsilent
    simp [unbind, hfree, hsilent, hnone]

end Registry

namespace Host

/-- What is asked of a process: an operation, or a question that changes nothing. -/
inductive Call where
  | perform (op : Op)
  | lookup
  | listSchedulers (w : Watch)
  | listExecutions (ref : Nat)
  | listJobs (ref : Nat)
  | poll (w : Watch) (now : Instant)

inductive Answer where
  | performed (answer : Traced SchedulerFault (Option Bool))
  | found (answer : Except PollFault (List Handle))
  | schedulers (answer : Traced PollFault (List Handle))
  | executions (answer : Option (Traced SchedulerFault Executions))
  | jobs (answer : Option (Traced SchedulerFault (List Job)))
  | snapshots (answer : Traced PollFault (List Snapshot))

def call (host : Host) : Call → Host × Answer
  | .perform op => ((host.perform op).1, .performed (host.perform op).2)
  | .lookup => (host, .found host.lookup)
  | .listSchedulers w => (host, .schedulers (Poll.listSchedulers (w.source host.lookup)))
  | .listExecutions ref =>
    (host, .executions ((host.schedulers[ref]?).map fun s => s.handle.listExecutions))
  | .listJobs ref => (host, .jobs ((host.schedulers[ref]?).map fun s => s.handle.listJobs))
  | .poll w now => (host, .snapshots (host.poll w now))

def reached (calls : List Call) : Host := calls.foldl (fun host c => (host.call c).1) {}

/-- A call breaks down while the registry is locked for a change: a scheduler is bound and another
one comes up that does not give its name, before any of the same name, or the schedulers of a name
are taken out and one does not give its own. -/
def Poisons (host : Host) : Call → Prop
  | .perform (.bind ref) => ∃ name, host.nameOf ref = some name ∧
      LeadsTo (fun s => host.nameOf s ≠ some name) (fun s => host.nameOf s = none)
        host.registry.bound
  | .perform (.unbind _) => ∃ ref ∈ host.registry.bound, host.nameOf ref = none
  | _ => False

theorem reached_concat (calls : List Call) (c : Call) :
    reached (calls ++ [c]) = ((reached calls).call c).1 := by
  simp [reached]

theorem poisoned_call_iff {host : Host} (hfree : host.registry.poisoned = false) (c : Call) :
    (host.call c).1.registry.poisoned = true ↔ host.Poisons c := by
  cases c with
  | perform op =>
    cases op with
    | bind ref => exact Registry.bind_poisons_iff host.nameOf ref hfree
    | unbind name => exact Registry.unbind_poisons_iff host.nameOf name hfree
    | add s => simp [call, perform, Poisons, hfree]
    | loseName ref => simp [call, perform, modify, Poisons, hfree]
    | change ref op => simp [call, perform, modify, Poisons, hfree]
  | lookup | listSchedulers | listExecutions | listJobs | poll => simp [call, Poisons, hfree]

theorem bind_of_nameless {host : Host} {ref : Nat} (h : host.nameOf ref = none) :
    host.perform (.bind ref) = (host, .silent .crashed) := by
  simp only [perform, Registry.bind, h]
  rfl

section Poisoned

variable {host : Host} (h : host.registry.poisoned = true)

include h

theorem bind_of_poisoned {ref : Nat} {name : String} (hname : host.nameOf ref = some name) :
    host.perform (.bind ref) = (host, .silent (.failed .lockPoisoned)) := by
  simp only [perform, Registry.bind, hname, h, if_true]
  rfl

theorem unbind_of_poisoned (name : String) :
    host.perform (.unbind name) = (host, .silent (.failed .lockPoisoned)) := by
  simp only [perform, Registry.unbind, h, if_true]
  rfl

theorem lookup_of_poisoned : host.lookup = .error (.registry Registry.poisonedDetail) := by
  simp only [lookup, Registry.lookup, h, if_true]
  rfl

theorem listSchedulers_of_poisoned {w : Watch} (hw : w.capability = .available) :
    Poll.listSchedulers (w.source host.lookup) =
      .silent (.failed (.registry Registry.poisonedDetail)) := by
  rw [lookup_of_poisoned h, Watch.source, hw]
  rfl

theorem poll_of_poisoned {w : Watch} (hw : w.capability = .available) (now : Instant) :
    host.poll w now = .silent (.failed (.registry Registry.poisonedDetail)) := by
  rw [poll, lookup_of_poisoned h, Watch.poll, Watch.source, hw]
  rfl

theorem poisoned_call (c : Call) : (host.call c).1.registry.poisoned = true := by
  cases c with
  | perform op =>
    cases op with
    | bind ref =>
      show (host.perform (.bind ref)).1.registry.poisoned = true
      cases hname : host.nameOf ref with
      | none => rw [bind_of_nameless hname, h]
      | some name => rw [bind_of_poisoned h hname, h]
    | unbind name =>
      show (host.perform (.unbind name)).1.registry.poisoned = true
      rw [unbind_of_poisoned h, h]
    | add s => exact h
    | loseName ref => exact h
    | change ref op => exact h
  | lookup | listSchedulers | listExecutions | listJobs | poll => exact h

end Poisoned

theorem poisoned_of_reached {calls : List Call} (h : (reached calls).registry.poisoned = true)
    (more : List Call) : (reached (calls ++ more)).registry.poisoned = true := by
  induction more using List.reverseRecOn with
  | nil => rwa [List.append_nil]
  | append_singleton more c ih =>
    rw [← List.append_assoc, reached_concat]
    exact poisoned_call ih c

theorem reached_poisoned_iff (calls : List Call) :
    (reached calls).registry.poisoned = true ↔
      ∃ before c after, calls = before ++ c :: after ∧ (reached before).Poisons c := by
  constructor
  · intro h
    induction calls using List.reverseRecOn with
    | nil => cases h
    | append_singleton calls c ih =>
      cases hbefore : (reached calls).registry.poisoned with
      | true =>
        obtain ⟨before, d, after, hcalls, hpoisons⟩ := ih hbefore
        exact ⟨before, d, after ++ [c], by simp [hcalls], hpoisons⟩
      | false =>
        rw [reached_concat] at h
        exact ⟨calls, c, [], rfl, (poisoned_call_iff hbefore c).mp h⟩
  · rintro ⟨before, c, after, rfl, hpoisons⟩
    rw [List.append_cons]
    apply poisoned_of_reached
    rw [reached_concat]
    cases hbefore : (reached before).registry.poisoned with
    | true => exact poisoned_call hbefore c
    | false => exact (poisoned_call_iff hbefore c).mpr hpoisons

/-- The registry is poisoned from the first call on that breaks down while it is locked for a
change, and never by another. From then on no scheduler is bound or taken out and none is found. -/
theorem poisoned_by_history (calls : List Call) :
    let host := reached calls
    (host.registry.poisoned = true ↔
      ∃ before c after, calls = before ++ c :: after ∧ (reached before).Poisons c) ∧
    (host.registry.poisoned = false →
      ∀ c, (host.call c).1.registry.poisoned = true ↔ host.Poisons c) ∧
    (∀ ref, host.nameOf ref = none → host.perform (.bind ref) = (host, .silent .crashed)) ∧
    (∀ c, (∀ op, c ≠ .perform op) → (host.call c).1 = host) ∧
    (host.registry.poisoned = true →
      (∀ more, (reached (calls ++ more)).registry.poisoned = true) ∧
      (∀ ref name, host.nameOf ref = some name →
        host.perform (.bind ref) = (host, .silent (.failed .lockPoisoned))) ∧
      (∀ name, host.perform (.unbind name) = (host, .silent (.failed .lockPoisoned))) ∧
      host.lookup = .error (.registry Registry.poisonedDetail) ∧
      ∀ w : Watch, w.capability = .available →
        Poll.listSchedulers (w.source host.lookup) =
          .silent (.failed (.registry Registry.poisonedDetail)) ∧
        ∀ now, host.poll w now = .silent (.failed (.registry Registry.poisonedDetail))) := by
  intro host
  refine ⟨reached_poisoned_iff calls, poisoned_call_iff, ?_, ?_, ?_⟩
  · intro ref href
    exact bind_of_nameless href
  · intro c hc
    cases c with
    | perform op => exact absurd rfl (hc op)
    | lookup | listSchedulers | listExecutions | listJobs | poll => rfl
  · intro h
    refine ⟨poisoned_of_reached h, ?_, ?_, ?_, ?_⟩
    · intro ref name hname
      exact bind_of_poisoned h hname
    · exact unbind_of_poisoned h
    · exact lookup_of_poisoned h
    · intro w hw
      exact ⟨listSchedulers_of_poisoned h hw, poll_of_poisoned h hw⟩

def namedOnly (name : String) : Scheduler :=
  .foreign ⟨some name, .ok [], .ok [], fun _ => .ok [], fun _ => .ok false⟩

def secondNameless : List Call :=
  [.perform (.add (namedOnly "main")), .perform (.add (namedOnly "night")),
    .perform (.add (namedOnly "main")), .perform (.add (namedOnly "day")),
    .perform (.bind 0), .perform (.bind 1), .perform (.loseName 1)]

/-- A poll breaks down at it and a scheduler of the first name is refused, neither of which poisons
the registry. A scheduler of a third name does. -/
theorem poisoned_by_third_name :
    ((reached secondNameless).poll ⟨⟨"99", "127.0.0.1"⟩, .available⟩
      ⟨19783, 28800, 0, by decide, by decide, by decide, by decide⟩).outcome =
        .crashed ∧
    (reached (secondNameless ++ [.perform (.bind 2)])).registry.poisoned = false ∧
    (reached (secondNameless ++ [.perform (.bind 2), .perform (.bind 3)])).perform (.bind 2) =
      (reached (secondNameless ++ [.perform (.bind 2), .perform (.bind 3)]),
        .silent (.failed .lockPoisoned)) := by
  have hpoisoned : (reached (secondNameless ++
      [.perform (.bind 2), .perform (.bind 3)])).registry.poisoned = true := by
    apply (poisoned_by_history _).1.mpr
    refine ⟨secondNameless ++ [.perform (.bind 2)], .perform (.bind 3), [], by simp, "day", rfl, ?_⟩
    exact ⟨[0], 1, [], rfl, by decide, rfl⟩
  obtain ⟨-, -, -, -, hafter⟩ :=
    poisoned_by_history (secondNameless ++ [.perform (.bind 2), .perform (.bind 3)])
  obtain ⟨-, hbind, -⟩ := hafter hpoisoned
  exact ⟨rfl, rfl, hbind 2 "main" rfl⟩

end Host

end JobWatch
