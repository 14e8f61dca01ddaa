/-!
# Keys of jobs and triggers

Jobs and triggers are told apart by a group and a name; in messages and ids the two are written with
a point between them.
-/

set_option autoImplicit false

namespace JobWatch

structure Key where
  group : String
  name : String
  deriving DecidableEq, Repr, Hashable

namespace Key

/-- Group and name with a point between them. Keys whose parts hold points may share this text. -/
def dotted (k : Key) : String := k.group ++ "." ++ k.name

end Key

end JobWatch
