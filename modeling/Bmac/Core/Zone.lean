import Mathlib.Tactic

/-!
# Time zones

A zone is the sequence of its UTC offset changes, which is all that `jiff` reads from the zone
database: the offset in force before the first change, and for each change the instant it happens
and the offset from then on. Instants are seconds of the Unix epoch, offsets seconds east of UTC.
-/

namespace Bmac.Core

def dayS : Int := 86400

structure TimeZone where
  first : Int
  /-- In the order of their instants. -/
  changes : List (Int × Int)
  deriving DecidableEq, Repr

namespace TimeZone

def utc : TimeZone := ⟨0, []⟩

/-- The offset in force at instant `t`: that of the last change at or before it. -/
def offset (zone : TimeZone) (t : Int) : Int :=
  zone.changes.foldl (fun o c => if c.1 ≤ t then c.2 else o) zone.first

/-- The civil date at instant `t`, as its number of days since 1970-01-01. -/
def date (zone : TimeZone) (t : Int) : Int := (t + zone.offset t) / dayS

def instantFrom (offset localS : Int) : List (Int × Int) → Int
  | [] => localS - offset
  | (t, o) :: rest =>
    if localS < t + max offset o then localS - offset else instantFrom o localS rest

/-- The instant of a local time, in seconds of the local clock since 1970-01-01. A time that a change
skips or repeats counts by the offset before the change (`AmbiguousZoned::compatible`). -/
def instant (zone : TimeZone) (localS : Int) : Int := instantFrom zone.first localS zone.changes

end TimeZone

end Bmac.Core
