import Bmac.Base.Keyed
import Bmac.Core.Dict
import Bmac.Core.Ids

/-!
# Alerts

`bmacd/src/notify/alerts.rs`: the conditions of the cluster open, escalate and resolve the alerts of
a book, one for each condition and resource. SHA-256 is a parameter.
-/

namespace Bmac.Bmacd.Notify

open Bmac.Base Bmac.Core

def reopenMs : Int := 10 * 60000
def warningHoldMs : Int := 5 * 60000
def history : Nat := 2000
def maxMessage : Nat := 300

inductive ConditionSeverity where
  | info | warning | critical
  deriving DecidableEq

namespace ConditionSeverity

def rank : ConditionSeverity → Nat
  | info => 0
  | warning => 1
  | critical => 2

instance : LE ConditionSeverity := ⟨fun a b => a.rank ≤ b.rank⟩
instance : LT ConditionSeverity := ⟨fun a b => a.rank < b.rank⟩
instance (a b : ConditionSeverity) : Decidable (a ≤ b) := inferInstanceAs (Decidable (a.rank ≤ b.rank))
instance (a b : ConditionSeverity) : Decidable (a < b) := inferInstanceAs (Decidable (a.rank < b.rank))

end ConditionSeverity

structure NextStep where
  text : String
  operation : Option OperationId
  args : Dict String
  deriving DecidableEq

structure Condition where
  id : String
  resource : String
  severity : ConditionSeverity
  message : String
  sinceMs : Int
  nextSteps : List NextStep
  deriving DecidableEq

inductive AlertState where
  | open | acknowledged | resolved
  deriving DecidableEq

/-- One condition on one resource that stayed at warning or critical for its hold time. -/
structure Alert where
  id : String
  condition : String
  resource : String
  host : Option HostSlot
  severity : ConditionSeverity
  message : String
  nextStep : Option NextStep
  state : AlertState
  openedMs : Int
  resolvedMs : Option Int
  acknowledgedBy : Option String
  acknowledgedMs : Option Int
  /-- Counts reopenings and escalations. -/
  generation : Nat
  /-- When an opening notification was last queued, if ever. -/
  notifiedMs : Option Int
  deriving DecidableEq

structure Silence where
  id : String
  condition : Option String
  resource : Option String
  host : Option HostSlot
  untilMs : Int
  reason : String
  createdBy : String
  createdMs : Int
  deriving DecidableEq

/-- The alerts that are open, acknowledged, or resolved within `reopenMs`. -/
structure Book where
  alerts : List Alert
  deriving DecidableEq

/-- What evaluating the conditions did to one alert, by ID. -/
inductive Change where
  | opened (id : String)
  | reopened (id : String)
  | escalated (id : String)
  | resolved (id : String)
  deriving DecidableEq

def Change.id : Change → String
  | opened id | reopened id | escalated id | resolved id => id

def hostOf (resource : String) : Option HostSlot := (Text.split '/' resource).head?.bind HostSlot.parse

/-- `zfs` in `zfs.pool.member`. -/
def category (condition : String) : String := (Text.split '.' condition).headD condition

def alertId (sha256 : List UInt8 → List UInt8) (condition resource : String) (openedMs : Int) :
    String :=
  let digest := sha256 (s!"{condition}\x00{resource}\x00{openedMs}".toUTF8.data.toList)
  String.ofList ((digest.take 6).flatMap fun b => (Text.hex 2 b.toNat).toList)

def trimmed (message : String) : String :=
  if maxMessage < message.length then
    String.ofList (message.toList.take maxMessage) ++ "..."
  else message

def due (condition : Condition) (nowMs : Int) : Bool :=
  match condition.severity with
  | .critical => true
  | .warning => warningHoldMs ≤ nowMs - condition.sinceMs
  | .info => false

abbrev Key := String × String

def Alert.key (a : Alert) : Key := (a.condition, a.resource)

def Condition.key (c : Condition) : Key := (c.id, c.resource)

namespace Book

def get (book : Book) (id : String) : Option Alert := book.alerts.find? (·.id = id)

/-! ## Evaluating -/

def stale (nowMs : Int) (alert : Alert) : Bool :=
  alert.state = .resolved && reopenMs < nowMs - alert.resolvedMs.getD 0

/-- What a due condition does to its alert that isn't resolved. -/
def update (condition : Condition) (alert : Alert) : Alert × Option Change :=
  let alert' := { alert with
    message := trimmed condition.message, nextStep := condition.nextSteps.head?
    severity := condition.severity }
  if alert.severity < condition.severity then
    ({ alert' with generation := alert.generation + 1 }, some (.escalated alert.id))
  else (alert', none)

def reopen (condition : Condition) (alert : Alert) : Alert × Option Change :=
  ({ alert with
      state := .open, resolvedMs := none, acknowledgedBy := none, acknowledgedMs := none
      severity := condition.severity, message := trimmed condition.message
      nextStep := condition.nextSteps.head?, generation := alert.generation + 1 },
    some (.reopened alert.id))

def opened (sha256 : List UInt8 → List UInt8) (condition : Condition) (nowMs : Int) : Alert where
  id := alertId sha256 condition.id condition.resource nowMs
  condition := condition.id
  resource := condition.resource
  host := hostOf condition.resource
  severity := condition.severity
  message := trimmed condition.message
  nextStep := condition.nextSteps.head?
  state := .open
  openedMs := nowMs
  resolvedMs := none
  acknowledgedBy := none
  acknowledgedMs := none
  generation := 1
  notifiedMs := none

def see (condition : Condition) (alert : Alert) : Alert × Option Change :=
  if alert.state = .resolved then reopen condition alert else update condition alert

def apply (sha256 : List UInt8 → List UInt8) (nowMs : Int) (alerts : List Alert)
    (condition : Condition) : List Alert × List Change :=
  match Keyed.find Alert.key condition.key alerts with
  | some alert =>
    (Keyed.modifyFirst (·.key = condition.key) (fun a => (see condition a).1) alerts,
      (see condition alert).2.toList)
  | none =>
    let alert := opened sha256 condition nowMs
    (alerts ++ [alert], [.opened alert.id])

/-- Applies one due condition, after some changes. -/
def applyNext (sha256 : List UInt8 → List UInt8) (nowMs : Int) (s : List Alert × List Change)
    (condition : Condition) : List Alert × List Change :=
  ((apply sha256 nowMs s.1 condition).1, s.2 ++ (apply sha256 nowMs s.1 condition).2)

def gone (conditions : List Condition) (alert : Alert) : Bool :=
  alert.state ≠ .resolved && !conditions.any fun c =>
    c.id = alert.condition && c.resource = alert.resource && ConditionSeverity.warning ≤ c.severity

def resolve (nowMs : Int) (alert : Alert) : Alert :=
  { alert with state := .resolved, resolvedMs := some nowMs }

/-- Applies the current conditions: the book, what changed, and the alerts that leave it. -/
def evaluate (sha256 : List UInt8 → List UInt8) (book : Book) (conditions : List Condition)
    (nowMs : Int) (mayResolve : Bool) : Book × List Change × List Alert :=
  let expired := book.alerts.filter (stale nowMs)
  let kept := book.alerts.filter (!stale nowMs ·)
  let (alerts, changes) := (conditions.filter (due · nowMs)).foldl (applyNext sha256 nowMs) (kept, [])
  if mayResolve then
    (⟨alerts.map fun a => if gone conditions a then resolve nowMs a else a⟩,
      changes ++ (alerts.filter (gone conditions)).map (.resolved ·.id), expired)
  else (⟨alerts⟩, changes, expired)

end Book

/-! ## Patterns -/

/-- The condition itself, or a category ending in `.` that it belongs to. -/
def «matches» (pattern condition : String) : Bool :=
  if Text.endsWith '.' pattern then pattern.toList.isPrefixOf condition.toList
  else condition = pattern

def switchedOff (disabled : List String) (condition : String) : Bool :=
  disabled.any («matches» · condition)

def silenced (alert : Alert) (silences : List Silence) (nowMs : Int) : Bool :=
  silences.any fun s =>
    nowMs < s.untilMs && s.condition.all («matches» · alert.condition) &&
    s.resource.all (alert.resource = ·) && s.host.all (alert.host = some ·)

/-! ## Other changes of a book -/

namespace Book

/-- Closes the open alerts of switched-off conditions without a change. -/
def switchOff (book : Book) (disabled : List String) (nowMs : Int) : Book :=
  ⟨book.alerts.map fun a =>
    if a.state ≠ .resolved && switchedOff disabled a.condition then resolve nowMs a else a⟩

def acknowledged (by_ : String) (nowMs : Int) (alert : Alert) : Alert :=
  { alert with
    state := .acknowledged, acknowledgedBy := some by_, acknowledgedMs := some nowMs }

def acknowledge (book : Book) (id by_ : String) (nowMs : Int) : Except String Book :=
  match book.get id with
  | none => .error s!"no open alert {id}"
  | some alert =>
    match alert.state with
    | .open =>
      .ok ⟨Keyed.modifyFirst (·.id = id) (acknowledged by_ nowMs) book.alerts⟩
    | .acknowledged => .ok book
    | .resolved => .error s!"alert {id} is already resolved"

/-- Adds the alerts of a local book that are neither in the book by ID nor by condition. -/
def merge (book localBook : Book) : Book :=
  ⟨localBook.alerts.foldl (fun alerts alert =>
    if alerts.any fun a => a.id = alert.id || a.key = alert.key then alerts
    else alerts ++ [alert]) book.alerts⟩

end Book

def archive (past expired : List Alert) : List Alert :=
  if expired.isEmpty then past
  else
    let newest := expired.insertionSort fun a b =>
      (b.resolvedMs : WithBot Int) ≤ (a.resolvedMs : WithBot Int)
    (newest ++ past).take history

end Bmac.Bmacd.Notify
