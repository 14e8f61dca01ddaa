import JobWatch.Job
import Std.Data.HashMap

/-!
# Running executions by name

The running executions of a scheduler stand under the dotted key of their job, in the order in which
the jobs first came up. A later execution takes the place of an earlier one of the same job. An
index gives the place of each name.
-/

set_option autoImplicit false

namespace JobWatch

structure Executions where
  entries : Array (String × Execution)
  index : Std.HashMap String Nat

namespace Executions

def empty : Executions := ⟨#[], ∅⟩

def insert (x : Executions) (name : String) (e : Execution) : Executions :=
  match x.index[name]? with
  | some place => { x with entries := x.entries.modify place fun (known, _) => (known, e) }
  | none => ⟨x.entries.push (name, e), x.index.insert name x.entries.size⟩

def get? (x : Executions) (name : String) : Option Execution := do
  let place ← x.index[name]?
  let (_, e) ← x.entries[place]?
  some e

def size (x : Executions) : Nat := x.entries.size

def isEmpty (x : Executions) : Bool := x.entries.isEmpty

def toList (x : Executions) : List (String × Execution) := x.entries.toList

def ofList (es : List Execution) : Executions :=
  es.foldl (fun x e => x.insert e.job.key.dotted e) empty

end Executions

end JobWatch
