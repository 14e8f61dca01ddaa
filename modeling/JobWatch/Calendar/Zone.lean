import JobWatch.Calendar.Date

/-!
# Time zones

A zone is the offset from universal time that it starts with and the list of its changes. A local
time may stand for one instant, for two where clocks were set back over it, or for none where they
were set forward past it.
-/

set_option autoImplicit false

namespace JobWatch.Calendar

structure OffsetChange where
  start : Int
  offset : Int
  deriving DecidableEq, Repr

/-- A time zone; its changes are in ascending order. -/
structure Zone where
  initial : Int
  changes : List OffsetChange
  deriving DecidableEq, Repr

namespace Zone

def offsetAfter (offset : Int) : List OffsetChange → Int → Int
  | [], _ => offset
  | change :: later, instant =>
    if instant < change.start then offset else offsetAfter change.offset later instant

def offsetAt (z : Zone) (instant : Int) : Int := offsetAfter z.initial z.changes instant

def localTime (z : Zone) (instant : Int) : Int := instant + z.offsetAt instant

def offsets (z : Zone) : List Int := (z.initial :: z.changes.map (·.offset)).eraseDups

def instantsAt (z : Zone) (clock : Int) : List Int :=
  (z.offsets.map (clock - ·)).filter fun instant => z.localTime instant = clock

/-- Does a local date occur in the zone? It does if its first or its last second does. -/
def hasDate (z : Zone) (day : Int) : Bool :=
  ¬ (z.instantsAt (day * 86400)).isEmpty || ¬ (z.instantsAt (day * 86400 + 86399)).isEmpty

def fixed (offset : Int) : Zone := ⟨offset, []⟩

def utc : Zone := fixed 0

end Zone

end JobWatch.Calendar
