import JobWatch.Telemetry.Traced

/-!
# The registry of schedulers

The schedulers of a process stand in the order in which they were bound. A name may be bound once at
a time. Names are asked of the schedulers themselves; if one breaks down while the registry is
locked for a change, the registry is poisoned and of no use from then on.
-/

set_option autoImplicit false

namespace JobWatch

structure Registry (ρ : Type) where
  bound : List ρ := []
  poisoned : Bool := false
  deriving DecidableEq, Repr

namespace Registry

variable {ρ : Type}

/-- Is one of the schedulers of this name? They are asked in order up to the first that is. -/
def isNamed (nameOf : ρ → Option String) (name : String) : List ρ → Outcome SchedulerFault Bool
  | [] => .done false
  | r :: rest =>
    match nameOf r with
    | none => .crashed
    | some other => if other = name then .done true else isNamed nameOf name rest

def bind (nameOf : ρ → Option String) (r : ρ) (reg : Registry ρ) :
    Registry ρ × Traced SchedulerFault Unit :=
  -- the name is asked before the registry is locked, so its lack poisons nothing
  match nameOf r with
  | none => (reg, .silent .crashed)
  | some name =>
    if reg.poisoned then (reg, .silent (.failed .lockPoisoned))
    else
      match isNamed nameOf name reg.bound with
      | .done true => (reg, .silent (.failed (.alreadyRegistered name)))
      | .done false =>
        ({ reg with bound := reg.bound ++ [r] }, .tell (.schedulerRegistered name))
      | _ => ({ reg with poisoned := true }, .silent .crashed)

def unbind (nameOf : ρ → Option String) (name : String) (reg : Registry ρ) :
    Registry ρ × Traced SchedulerFault Bool :=
  if reg.poisoned then (reg, .silent (.failed .lockPoisoned))
  else if reg.bound.any fun r => (nameOf r).isNone then
    ({ reg with poisoned := true }, .silent .crashed)
  else
    let kept := reg.bound.filter fun r => nameOf r ≠ some name
    ({ reg with bound := kept }, .silent (.done (kept.length ≠ reg.bound.length)))

def poisonedDetail : String := "scheduler registry lock poisoned"

def lookup (reg : Registry ρ) : Except PollFault (List ρ) :=
  if reg.poisoned then .error (.registry poisonedDetail) else .ok reg.bound

end Registry

end JobWatch
