import JobWatch.Hash.Sha256
import JobWatch.Key

/-!
# The identity of the watched process

Its process id and its host address go into the id by which a collector knows a job: both parts and
a hash of the job's key, with underscores between them.
-/

set_option autoImplicit false

namespace JobWatch

structure Identity where
  pid : String
  host : String
  deriving DecidableEq, Repr

namespace Identity

def resolve (own : Identity) (pid host : Option String) : Identity :=
  ⟨pid.getD own.pid, host.getD own.host⟩

/-- The id of a job of this process. The hash depends on the dotted key alone. -/
def jobId (p : Identity) (key : Key) : String :=
  p.pid ++ "_" ++ p.host ++ "_" ++ Sha256.shortHex key.dotted

end Identity

end JobWatch
