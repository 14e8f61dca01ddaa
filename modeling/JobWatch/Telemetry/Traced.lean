import JobWatch.Outcome
import JobWatch.Telemetry.Event

/-!
# Calls that tell what they do

The events of a call stand in order, also those before it failed or broke down.
-/

set_option autoImplicit false

namespace JobWatch

structure Traced (ε α : Type) where
  events : List Event
  outcome : Outcome ε α
  deriving DecidableEq, Repr

namespace Traced

variable {ε δ α β : Type}

instance : Monad (Traced ε) where
  pure a := ⟨[], .done a⟩
  bind x f :=
    match x.outcome with
    | .done a => ⟨x.events ++ (f a).events, (f a).outcome⟩
    | .failed fault => ⟨x.events, .failed fault⟩
    | .crashed => ⟨x.events, .crashed⟩

def tell (e : Event) : Traced ε Unit := ⟨[e], .done ()⟩

def silent (x : Outcome ε α) : Traced ε α := ⟨[], x⟩

def ofExcept (x : Except ε α) : Traced ε α := silent (.ofExcept x)

def orElse (x : Traced ε α) (recover : ε → Traced δ α) : Traced δ α :=
  match x.outcome with
  | .done a => ⟨x.events, .done a⟩
  | .failed fault => ⟨x.events ++ (recover fault).events, (recover fault).outcome⟩
  | .crashed => ⟨x.events, .crashed⟩

@[simp] theorem outcome_pure (a : α) : (pure a : Traced ε α).outcome = .done a := rfl

@[simp] theorem outcome_bind (x : Traced ε α) (f : α → Traced ε β) :
    (x >>= f).outcome = x.outcome >>= fun a => (f a).outcome := by
  obtain ⟨events, outcome⟩ := x
  cases outcome <;> rfl

@[simp] theorem outcome_tell (e : Event) : (tell e : Traced ε Unit).outcome = .done () := rfl

@[simp] theorem outcome_silent (x : Outcome ε α) : (silent x).outcome = x := rfl

@[simp] theorem outcome_ofExcept (x : Except ε α) :
    (ofExcept x).outcome = Outcome.ofExcept x := rfl

@[simp] theorem events_pure (a : α) : (pure a : Traced ε α).events = [] := rfl

theorem events_bind (x : Traced ε α) (f : α → Traced ε β) :
    (x >>= f).events =
      match x.outcome with
      | .done a => x.events ++ (f a).events
      | _ => x.events := by
  obtain ⟨events, outcome⟩ := x
  cases outcome <;> rfl

@[simp] theorem events_tell (e : Event) : (tell e : Traced ε Unit).events = [e] := rfl

@[simp] theorem events_silent (x : Outcome ε α) : (silent x).events = [] := rfl

@[simp] theorem events_ofExcept (x : Except ε α) : (ofExcept x).events = [] := rfl

theorem outcome_orElse (x : Traced ε α) (recover : ε → Traced δ α) :
    (x.orElse recover).outcome =
      match x.outcome with
      | .done a => .done a
      | .failed fault => (recover fault).outcome
      | .crashed => .crashed := by
  obtain ⟨events, outcome⟩ := x
  cases outcome <;> rfl

end Traced

end JobWatch
