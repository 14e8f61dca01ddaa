/-!
# How a call ends

A call ends with a value, with a fault that the caller is told, or by breaking down in the middle,
as when it calls something that cannot answer at all.
-/

set_option autoImplicit false

namespace JobWatch

inductive Outcome (ε α : Type) where
  | done (value : α)
  | failed (fault : ε)
  | crashed
  deriving DecidableEq, Repr

namespace Outcome

variable {ε δ α β : Type}

def map (f : α → β) : Outcome ε α → Outcome ε β
  | done a => done (f a)
  | failed fault => failed fault
  | crashed => crashed

def mapFault (f : ε → δ) : Outcome ε α → Outcome δ α
  | done a => done a
  | failed fault => failed (f fault)
  | crashed => crashed

def ofExcept : Except ε α → Outcome ε α
  | .ok a => done a
  | .error fault => failed fault

def ofOption : Option α → Outcome ε α
  | some a => done a
  | none => crashed

instance : Monad (Outcome ε) where
  pure := done
  bind x f :=
    match x with
    | done a => f a
    | failed fault => failed fault
    | crashed => crashed

@[simp] theorem pure_eq_done (a : α) : (pure a : Outcome ε α) = done a := rfl

@[simp] theorem done_bind (a : α) (f : α → Outcome ε β) : (done a >>= f) = f a := rfl

@[simp] theorem failed_bind (fault : ε) (f : α → Outcome ε β) :
    (failed fault >>= f) = failed fault := rfl

@[simp] theorem crashed_bind (f : α → Outcome ε β) : (crashed >>= f) = crashed := rfl

@[simp] theorem bind_done (x : Outcome ε α) : (x >>= fun a => done a) = x := by
  cases x <;> rfl

theorem bind_eq_done_iff {x : Outcome ε α} {f : α → Outcome ε β} {b : β} :
    x >>= f = done b ↔ ∃ a, x = done a ∧ f a = done b := by
  cases x <;> simp

theorem bind_eq_failed_iff {x : Outcome ε α} {f : α → Outcome ε β} {fault : ε} :
    x >>= f = failed fault ↔ x = failed fault ∨ ∃ a, x = done a ∧ f a = failed fault := by
  cases x <;> simp

@[simp] theorem ofOption_some (a : α) : (ofOption (some a) : Outcome ε α) = done a := rfl

@[simp] theorem ofOption_none : (ofOption none : Outcome ε α) = crashed := rfl

@[simp] theorem ofExcept_ok (a : α) : (ofExcept (.ok a) : Outcome ε α) = done a := rfl

@[simp] theorem ofExcept_error (fault : ε) :
    (ofExcept (.error fault) : Outcome ε α) = failed fault := rfl

@[simp] theorem mapFault_done (f : ε → δ) (a : α) : (done a).mapFault f = done a := rfl

@[simp] theorem mapFault_failed (f : ε → δ) (fault : ε) :
    (failed fault : Outcome ε α).mapFault f = failed (f fault) := rfl

end Outcome

end JobWatch
