import JobWatch.Registry
import JobWatch.Scheduler.Catalog
import JobWatch.Watch

/-!
# A process with its schedulers and their registry

Schedulers come into being, change, are bound and unbound in any order; a poll sees the bound ones
as they are at that moment.
-/

set_option autoImplicit false

namespace JobWatch

open Calendar (Instant)

inductive Scheduler where
  | kept (name : String) (catalog : Catalog)
  | foreign (handle : Handle)

namespace Scheduler

def handle : Scheduler → Handle
  | kept name catalog => catalog.handle name
  | foreign h => h

def withoutName : Scheduler → Scheduler
  | foreign h => foreign { h with name := none }
  | s => s

def change (op : Catalog.Op) : Scheduler → Scheduler
  | kept name catalog => kept name (catalog.step op)
  | s => s

def reply (op : Catalog.Op) : Scheduler → Traced SchedulerFault (Option Bool)
  | kept name catalog => do
    match op with
    | .start e => Traced.tell (.executionStarted name e.job.key)
    | .finish job => Traced.tell (.executionFinished name job)
    | _ => pure ()
    Traced.ofExcept (catalog.reply op)
  | foreign _ => pure none

end Scheduler

structure Host where
  schedulers : List Scheduler := []
  registry : Registry Nat := {}

namespace Host

inductive Op where
  | add (s : Scheduler)
  | loseName (ref : Nat)
  | change (ref : Nat) (op : Catalog.Op)
  | bind (ref : Nat)
  | unbind (name : String)

def nameOf (host : Host) (ref : Nat) : Option String := do (← host.schedulers[ref]?).handle.name

def modify (f : Scheduler → Scheduler) (ref : Nat) (host : Host) : Host :=
  { host with schedulers := host.schedulers.modify ref f }

def perform (host : Host) : Op → Host × Traced SchedulerFault (Option Bool)
  | .add s => ({ host with schedulers := host.schedulers ++ [s] }, pure none)
  | .loseName ref => (host.modify Scheduler.withoutName ref, pure none)
  | .change ref op =>
    (host.modify (Scheduler.change op) ref,
      match host.schedulers[ref]? with
      | some s => s.reply op
      | none => pure none)
  | .bind ref =>
    let (registry, answer) := host.registry.bind host.nameOf ref
    ({ host with registry }, do answer; pure none)
  | .unbind name =>
    let (registry, answer) := host.registry.unbind host.nameOf name
    ({ host with registry }, do let removed ← answer; pure (some removed))

def step (host : Host) (op : Op) : Host := (host.perform op).1

def run : List Op → Host → Host
  | [], host => host
  | op :: ops, host => run ops (host.step op)

theorem run_append (ops rest : List Op) (host : Host) :
    run (ops ++ rest) host = run rest (run ops host) := by
  induction ops generalizing host with
  | nil => rfl
  | cons op ops ih => exact ih _

def handles (host : Host) (refs : List Nat) : List Handle :=
  refs.filterMap fun ref => (host.schedulers[ref]?).map Scheduler.handle

def lookup (host : Host) : Except PollFault (List Handle) :=
  host.registry.lookup.map host.handles

def poll (host : Host) (w : Watch) (now : Instant) : Traced PollFault (List Snapshot) :=
  w.poll host.lookup now

end Host

end JobWatch
