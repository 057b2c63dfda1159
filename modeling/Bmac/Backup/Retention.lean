import Mathlib.Data.Prod.Lex
import Bmac.Base.Newest
import Bmac.Core.Ids
import Bmac.Core.Zone

/-!
# Appliance retention

`bmac-backup/src/retention.rs`: how times fall into days, weeks, months and years, and which
PITs the appliance keeps. Days are the cluster's calendar days; weeks, months and years count
whole days from a VM's start day; the newest PIT of a period wins it. PIT times are within
`jiff`'s range of years, so no `i64` of the source overflows and the model counts in `Int`.
-/

namespace Bmac.Backup

open Bmac.Base Bmac.Core

def weekDays : Int := 7
def yearMonths : Int := 12

/-! ## Calendar -/

/-- Calendar days in the cluster's time zone or, for tests, days of `testDayS` seconds. -/
structure Calendar where
  zone : TimeZone
  testDayS : Option Int
  test_pos : ∀ s ∈ testDayS, 0 < s

/-- A test day that isn't positive counts as none. -/
def Calendar.new (zone : TimeZone) (testDayS : Option Int) : Calendar where
  zone := zone
  testDayS := testDayS.filter (0 < ·)
  test_pos := by intro s hs; simpa using (Option.mem_filter_iff.mp hs).2

def Calendar.day (calendar : Calendar) (t : Int) : Int :=
  match calendar.testDayS with
  | some length => t / length
  | none => calendar.zone.date t

/-- A run of days from a VM's start day: a week, a month or a year. -/
structure Period where
  startDay : Int
  days : Int

def Period.of (period : Period) (day : Int) : Int := (day - period.startDay) / period.days

/-- A PIT's place in the order of its VM's history: when it was taken, then its UUID. -/
abbrev Stamp := Int ×ₗ Uuid

/-- `RangeInclusive` of periods; no lower bound stands for `i64::MIN`. -/
structure Periods where
  first : Option Int
  last : Int

def Periods.contains (periods : Periods) (p : Int) : Bool :=
  (match periods.first with
    | some first => decide (first ≤ p)
    | none => true) && decide (p ≤ periods.last)

/-- The newest PIT of each period in `periods` that holds any of `pits`
(`(id, day, taken)`), keyed by `periodOf day`. -/
def winners (pits : List (Uuid × Int × Int)) (periodOf : Int → Int) (periods : Periods) :
    List Uuid :=
  let inside := pits.filter fun (_, day, _) => periods.contains (periodOf day)
  let byPeriod : List (Int × Stamp) :=
    newest (inside.map fun (id, day, taken) => (periodOf day, toLex (taken, id)))
  byPeriod.map fun (_, stamp) => (ofLex stamp).2

/-- The current period and `before` periods before it, or every one up to it. -/
def back (current : Int) (before : Option Nat) : Periods :=
  ⟨before.map fun (n : Nat) => current - n, current⟩

/-! ## Policy -/

structure ApplianceRetention where
  /-- The days before today that keep their newest PIT. -/
  daily : Nat
  /-- The weeks before this week that keep their newest PIT. -/
  weekly : Nat
  /-- The months before this month that keep their newest PIT, when `yearly` is on. -/
  monthly : Nat
  /-- The days in a month. -/
  monthDays : Nat
  /-- Whether every year before this one keeps its newest PIT, and older months none; off keeps
  every month's newest PIT. -/
  yearly : Bool
  deriving DecidableEq, Repr

namespace ApplianceRetention

def default : ApplianceRetention :=
  { daily := 7, weekly := 4, monthly := 12, monthDays := 30, yearly := true }

def validate (policy : ApplianceRetention) : Except String Unit :=
  if policy.monthDays < 28 ∨ policy.monthDays > 31 then
    .error "a month must be 28 to 31 days"
  else .ok ()

/-- Whether `policy` keeps less than `before`: a lower count, a different month, or yearly turned
on. -/
def weakens (policy before : ApplianceRetention) : Bool :=
  policy.daily < before.daily ||
  policy.weekly < before.weekly ||
  (policy.yearly && before.yearly && policy.monthly < before.monthly) ||
  policy.monthDays != before.monthDays ||
  (policy.yearly && !before.yearly)

end ApplianceRetention

/-- Why the appliance keeps a PIT. -/
inductive KeepReason where
  | latest | today | daily | weekly | monthly | yearly
  | branchHead | branchRoot | commonAncestor
  | restoreGrant | cloneOrigin | hold | peerRepair | transfer
  deriving DecidableEq, Repr

/-- A published PIT. `parent` is the PIT it was received on top of (`none` for a full receive). -/
structure AppliancePit where
  pitUuid : Uuid
  takenS : Int
  branch : String
  parent : Option Uuid
  deriving DecidableEq, Repr

def AppliancePit.stamp (pit : AppliancePit) : Stamp := toLex (pit.takenS, pit.pitUuid)

/-- Where a VM's history stands on the calendar. -/
structure Clock where
  calendar : Calendar
  startDay : Option Int
  nowS : Int

/-- A map from PITs to sets of reasons, as its pairs in the order they were added. -/
abbrev Reasons := List (Uuid × KeepReason)

/-- The PIT has an entry. -/
def Reasons.Keeps (keep : Reasons) (id : Uuid) : Prop := ∃ why, (id, why) ∈ keep

instance (keep : Reasons) (id : Uuid) : Decidable (keep.Keeps id) :=
  decidable_of_iff (id ∈ keep.map Prod.fst) (by simp [Reasons.Keeps])

/-! ## The keep set -/

/-- The day of the oldest of `times`. -/
def firstDay (calendar : Calendar) (times : List Int) : Option Int :=
  times.min?.map calendar.day

/-- `max_by_key` by stamp: the last of the largest. -/
def latestPit (pits : List AppliancePit) : Option AppliancePit :=
  pits.foldl (fun best p =>
    match best with
    | none => some p
    | some q => if q.stamp ≤ p.stamp then some p else some q) none

def byId (pits : List AppliancePit) (id : Uuid) : Option AppliancePit :=
  pits.reverse.find? (·.pitUuid = id)

def dated (pits : List AppliancePit) (calendar : Calendar) : List (Uuid × Int × Int) :=
  pits.map fun p => (p.pitUuid, calendar.day p.takenS, p.takenS)

def startDay (pits : List AppliancePit) (clock : Clock) : Int :=
  (clock.startDay.or (firstDay clock.calendar (pits.map (·.takenS)))).getD
    (clock.calendar.day clock.nowS)

/-- Each tier with the periods before the current one that it keeps; `none` is every one. -/
def tiers (policy : ApplianceRetention) (startDay : Int) :
    List (Period × Option Nat × KeepReason) :=
  let week : Period := ⟨startDay, weekDays⟩
  let month : Period := ⟨startDay, max policy.monthDays 1⟩
  let year : Period := ⟨startDay, month.days * yearMonths⟩
  let day : Period := ⟨startDay, 1⟩
  [(day, some policy.daily, .daily),
    (week, some policy.weekly, .weekly),
    (month, if policy.yearly then some policy.monthly else none, .monthly)] ++
  (if policy.yearly then [(year, none, .yearly)] else [])

def crossing (pits : List AppliancePit) (p : AppliancePit) : Reasons :=
  match p.parent.bind (byId pits) with
  | some parent =>
    if parent.branch ≠ p.branch then
      [(p.pitUuid, .branchRoot), (parent.pitUuid, .commonAncestor)]
    else []
  | none => []

/-- The newest PIT of each branch, among those that `sel` takes. -/
def branchNewest (pits : List AppliancePit) (sel : AppliancePit → Bool) : List Uuid :=
  (newest ((pits.filter sel).map fun p => (p.branch, p.stamp))).map fun (_, stamp) =>
    (ofLex stamp).2

def applianceKeep (pits : List AppliancePit) (policy : ApplianceRetention) (clock : Clock)
    (pinned : Reasons) : Reasons :=
  let today := clock.calendar.day clock.nowS
  let dated := dated pits clock.calendar
  let latest := (latestPit pits).toList.map fun p => (p.pitUuid, KeepReason.latest)
  let todays := (dated.filter fun (_, day, _) => today ≤ day).map fun (id, _) =>
    (id, KeepReason.today)
  let periods := (tiers policy (startDay pits clock)).flatMap fun (period, count, why) =>
    (winners dated period.of (back (period.of today) count)).map fun id => (id, why)
  let roots := pits.flatMap (crossing pits)
  -- Only the newest full receive roots a branch, so older lineages expire.
  let heads := (branchNewest pits fun _ => true).map fun id => (id, KeepReason.branchHead)
  let seeds := (branchNewest pits fun p => p.parent.isNone).map fun id =>
    (id, KeepReason.branchRoot)
  latest ++ todays ++ periods ++ roots ++ heads ++ seeds ++ pinned

end Bmac.Backup
