import Bmac.Base.Keyed
import Bmac.Base.Run
import Bmac.Core.Disk
import Bmac.Core.Ids

/-!
# The storage journal

`bmac-storage/src/journal.rs`: what the storage workflows must remember that the pool itself forgets
or can't say. Every change takes an exclusive lock and replaces the file, so that an update is one
step. A removal's id has its vdev and the second it was requested in; `journal_exact` says that the
ids are distinct where no vdev's removal is recorded twice in one second.
-/

namespace Bmac.Storage

open Bmac.Base Bmac.Core

inductive VdevClass where
  | data | special | log | cache | spare
  deriving DecidableEq

inductive VdevType where
  | single | mirror | raidz1 | raidz2 | raidz3
  deriving DecidableEq

namespace Journal

def schemaVersion : Nat := 1
def maxScrubs : Nat := 20
def maxRemovals : Nat := 200
def maxLine : Nat := 500

structure Trim where
  completedAt : Int

structure Scrub where
  completedAt : Int
  /-- `zpool status`'s scan line. -/
  result : String

inductive RemovalState where
  /-- `zpool remove` was started, or may have been. -/
  | requested
  /-- The pool never started it, or cancelled it. -/
  | failed
  /-- Finished, and its disks released. -/
  | retired
  deriving DecidableEq

/-- A member of a vdev being removed. -/
structure RemovedMember where
  /-- `none` for a member whose disk was already gone. -/
  identity : Option DiskIdentity
  /-- Its LUKS mapper, to close once the removal finishes. -/
  mapper : Option String
  size : Option Nat

structure Note where
  «at» : Int
  note : String

structure Removal where
  id : String
  vdev : String
  members : List RemovedMember
  state : RemovalState
  requestedAt : Int
  updatedAt : Int
  notes : List Note

/-- The member a disk was chosen to replace. -/
structure Replacement where
  leaf : String
  /-- The old member's disk, when it was still installed. -/
  old : Option DiskIdentity
  /-- The old member's LUKS mapper, to retire once the new one is in. -/
  mapper : Option String
  vdev : String
  recordedAt : Int

/-- A new vdev whose disks were chosen. -/
structure Addition where
  number : Nat
  «class» : VdevClass
  kind : VdevType
  members : List DiskIdentity
  recordedAt : Int

inductive SimulationStage where
  /-- The member was taken offline and its LUKS closed. -/
  | offline
  /-- Its disk was erased. -/
  | erased

/-- A failure drill under way: one member made to look pulled. -/
structure Simulation where
  vdev : String
  leaf : String
  disk : DiskIdentity
  mapper : Option String
  stage : SimulationStage
  startedAt : Int

structure State where
  schema : Nat := schemaVersion
  trims : List (GuestName × Trim) := []
  scrubs : List Scrub := []
  removals : List Removal := []
  /-- Keyed by the identity of the new disk. -/
  replacements : List (DiskIdentity × Replacement) := []
  additions : List Addition := []
  /-- The last addition number handed out. -/
  lastAddition : Nat := 0
  simulation : Option Simulation := none

def oneLine (what text : String) : Except String Unit :=
  if text = "" ∨ '\n' ∈ text.toList ∨ maxLine < Text.len text then
    .error s!"{what} must be one line of at most {maxLine} characters"
  else .ok ()

namespace Removal

/-- What `set_removal` makes of a removal. -/
def set (r : Removal) (to_ : RemovalState) (note : Option String) (now : Int) : Removal :=
  { r with state := to_, updatedAt := now, notes := r.notes ++ (note.map (⟨now, ·⟩)).toList }

def isRequested (r : Removal) : Bool := r.state = .requested

end Removal

/-- The list without the elements at its start that are more than `most`. -/
def keepLast {α : Type} (most : Nat) (l : List α) : List α := l.drop (l.length - most)

namespace State

def validate (s : State) : Except String Unit := do
  if s.schema ≠ schemaVersion then
    throw s!"unsupported storage journal schema {s.schema}"
  if 1 < s.removals.countP (·.isRequested) then
    throw "more than one vdev removal is in progress"
  s.removals.forM fun removal =>
    if removal.members.isEmpty then throw s!"removal {removal.id} has no members" else pure ()
  s.scrubs.forM fun scrub => oneLine "a scrub result" scrub.result
  if s.additions.any (s.lastAddition < ·.number) then
    throw "an addition number was never handed out"

def recordTrims (s : State) (guests : List GuestName) (now : Int) : State :=
  { s with trims := guests.map (·, ⟨now⟩) ++ s.trims.filter (·.1 ∉ guests) }

def recordScrub (s : State) (result : String) (now : Int) : Except String State := do
  oneLine "a scrub result" result
  return { s with scrubs := keepLast maxScrubs (s.scrubs ++ [⟨now, result⟩]) }

def removalInProgress (s : State) : Option Removal := s.removals.find? (·.isRequested)

def removalId (vdev : String) (now : Int) : String := s!"removal-{now}-{vdev}"

def newRemoval (vdev : String) (members : List RemovedMember) (now : Int) : Removal :=
  ⟨removalId vdev now, vdev, members, .requested, now, now, []⟩

/-- Records a removal about to be started; its ID. -/
def recordRemoval (s : State) (vdev : String) (members : List RemovedMember) (now : Int) :
    Except String (State × String) := do
  oneLine "a vdev name" vdev
  if members.isEmpty then throw "a removal needs its members"
  if !members.any (·.identity.isSome) then
    throw "at least one member of a removed vdev must be an installed disk"
  match s.removalInProgress with
  | some other => throw s!"the removal of {other.vdev} is still in progress"
  | none =>
    let removals := keepLast maxRemovals (s.removals ++ [newRemoval vdev members now])
    return ({ s with removals }, removalId vdev now)

def setRemoval (s : State) (id : String) (to_ : RemovalState) (note : Option String) (now : Int) :
    Except String State := do
  note.forM (oneLine "a note")
  if s.removals.any (·.id = id) then
    return { s with removals := Keyed.modifyFirst (·.id = id) (·.set to_ note now) s.removals }
  else throw s!"no removal {id}"

/-- Records `disk` as chosen to replace `replacement.leaf`. -/
def recordReplacement (s : State) (disk : DiskIdentity) (replacement : Replacement) :
    Except String State := do
  oneLine "a vdev name" replacement.vdev
  oneLine "a leaf" replacement.leaf
  match s.replacements.find? fun e =>
      e.1 ≠ disk ∧ e.2.vdev = replacement.vdev ∧ e.2.leaf = replacement.leaf with
  | some (other, _) => throw s!"{other.value} is already chosen to replace {replacement.leaf}"
  | none =>
    return { s with replacements := (disk, replacement) :: s.replacements.filter (·.1 ≠ disk) }

def clearReplacement (s : State) (disk : DiskIdentity) : State :=
  { s with replacements := s.replacements.filter (·.1 ≠ disk) }

def chosen (s : State) (members : List DiskIdentity) : Option (DiskIdentity × Nat) :=
  members.findSome? fun member =>
    (s.additions.find? (member ∈ ·.members)).map fun other => (member, other.number)

/-- Records a new vdev's chosen disks; its number. -/
def beginAddition (s : State) («class» : VdevClass) (kind : VdevType) (members : List DiskIdentity)
    (now : Int) : Except String (State × Nat) := do
  if members.isEmpty then throw "a new vdev needs disks"
  match s.chosen members with
  | some (member, number) => throw s!"{member.value} is already chosen for new vdev {number}"
  | none =>
    let number := s.lastAddition + 1
    let addition : Addition := ⟨number, «class», kind, members, now⟩
    return ({ s with lastAddition := number, additions := s.additions ++ [addition] }, number)

def finishAddition (s : State) (number : Nat) : State :=
  { s with additions := s.additions.filter (·.number ≠ number) }

def beginSimulation (s : State) (simulation : Simulation) : Except String State :=
  match s.simulation with
  | some other => .error s!"a failure drill on {other.leaf} is already under way"
  | none => .ok { s with simulation := some simulation }

def eraseSimulation (s : State) : State :=
  { s with simulation := s.simulation.map ({ · with stage := .erased }) }

def endSimulation (s : State) : State := { s with simulation := none }

end State

/-! ## Updates -/

inductive Change where
  | recordTrims (guests : List GuestName) (now : Int)
  | recordScrub (result : String) (now : Int)
  | recordRemoval (vdev : String) (members : List RemovedMember) (now : Int)
  | setRemoval (id : String) (to_ : RemovalState) (note : Option String) (now : Int)
  | recordReplacement (disk : DiskIdentity) (replacement : Replacement)
  | clearReplacement (disk : DiskIdentity)
  | beginAddition («class» : VdevClass) (kind : VdevType) (members : List DiskIdentity) (now : Int)
  | finishAddition (number : Nat)
  | beginSimulation (simulation : Simulation)
  | eraseSimulation
  | endSimulation

/-- What a change gives its caller. -/
inductive Given where
  | nothing
  | id (id : String)
  | number (number : Nat)

def State.change (s : State) : Change → Except String (State × Given)
  | .recordTrims guests now => .ok (s.recordTrims guests now, .nothing)
  | .recordScrub result now => (s.recordScrub result now).map (·, .nothing)
  | .recordRemoval vdev members now => (s.recordRemoval vdev members now).map fun (s, id) => (s, .id id)
  | .setRemoval id to_ note now => (s.setRemoval id to_ note now).map (·, .nothing)
  | .recordReplacement disk replacement => (s.recordReplacement disk replacement).map (·, .nothing)
  | .clearReplacement disk => .ok (s.clearReplacement disk, .nothing)
  | .beginAddition c kind members now =>
    (s.beginAddition c kind members now).map fun (s, number) => (s, .number number)
  | .finishAddition number => .ok (s.finishAddition number, .nothing)
  | .beginSimulation simulation => (s.beginSimulation simulation).map (·, .nothing)
  | .eraseSimulation => .ok (s.eraseSimulation, .nothing)
  | .endSimulation => .ok (s.endSimulation, .nothing)

/-- Changes the journal under its lock. Nothing is written when the change fails. -/
def update (s : State) (c : Change) : Except String (State × Given) := do
  s.validate
  let (s, given) ← s.change c
  s.validate
  return (s, given)

/-- The journal, and the removal ids and the addition numbers that were given out, in order. -/
structure World where
  state : State := {}
  ids : List String := []
  numbers : List Nat := []

def World.give (w : World) (s : State) : Given → World
  | .nothing => { w with state := s }
  | .id id => { w with state := s, ids := w.ids ++ [id] }
  | .number number => { w with state := s, numbers := w.numbers ++ [number] }

def World.next (w : World) (c : Change) : Option World :=
  match update w.state c with
  | .ok (s, given) => some (w.give s given)
  | .error _ => none

abbrev Step (w : World) (c : Change) (w' : World) : Prop := w.next c = some w'

end Journal

end Bmac.Storage
