import Bmac.Adapters.InUse
import Bmac.Base.Trace
import Bmac.Bmacd.Capture
import Bmac.Storage.Journal

/-!
# The disks that storage operations offer and erase

`bmacd/src/native/disks`: a `Snapshot` has the host's storage as it is, the disks as the inventory reads
them, and the storage journal. `candidates` are the disks that may be chosen for a new member, and
`finish` erases the disks that a finished removal or replacement left behind.
-/

namespace Bmac.Bmacd.DiskWork

open Bmac.Base Bmac.Core Bmac.Adapters Bmac.Storage Prog
open Bmac.Storage.Journal (State Removal Replacement RemovalState)
open Capture (Stop)

def minDiskBytes : Nat := 8 * 2 ^ 30

/-- A disk as the inventory reads it. -/
structure InventoryDisk where
  /-- The kernel name, such as `nvme0n1` or `sda`. -/
  name : String
  path : String
  identity : Option DiskIdentity
  sizeBytes : Nat
  removable : Bool
  /-- The disk's names under `/dev/disk/by-id/`. -/
  byId : List String
  /-- Why BMAC can't use the disk safely. -/
  problems : List String

/-- `ById::from_str`. -/
def parseById (text : String) : Option String :=
  let allowed (c : Char) := Text.isAlphanumeric c || "._:+@,=-".toList.contains c
  let partition : Bool := match Text.splitBefore "trap-".toList text.toList.reverse with
    | some (digits, _) => !digits.isEmpty && digits.all Text.isDigit
    | none => false
  if text = "" ∨ 255 < Text.len text then none
  else if Text.startsWith '.' text ∨ Text.startsWith '-' text then none
  else if !text.toList.all allowed ∨ partition then none
  else some text

def InventoryDisk.idPath (disk : InventoryDisk) : Option String := disk.byId.findSome? parseById

def InventoryDisk.isDevice (disk : InventoryDisk) (kname : String) : Bool :=
  disk.path = kname || disk.name = kname

/-- The host's storage at one moment. -/
structure Snapshot where
  layout : Layout
  disks : List InventoryDisk
  journal : State

/-- A disk the operator may choose for a new member. -/
structure Candidate where
  disk : InventoryDisk
  byId : String
  identity : DiskIdentity
  row : DiskRow

/-- The sections that hold members a storage operation knows. -/
def classOf («section» : String) : Bool :=
  ["special", "logs", "cache", "spares"].contains «section»

namespace Snapshot

variable (s : Snapshot)

def topMembers : List Member :=
  s.layout.vdevs.flatMap (·.members) ++
    (s.layout.auxiliaryVdevs.filter fun e => classOf e.1).flatMap fun e => e.2.flatMap (·.members)

def memberDisks : List String := s.topMembers.filterMap (·.disk)

def diskNamed (name : String) : Option InventoryDisk := s.disks.find? (·.isDevice name)

def diskWith (identity : DiskIdentity) : Option InventoryDisk :=
  match s.disks.filter (·.identity = some identity) with
  | [disk] => some disk
  | _ => none

def row (disk : InventoryDisk) : Option DiskRow := s.layout.allDisks.find? fun r => disk.isDevice r.disk

def holdsMember (disk : InventoryDisk) : Bool := s.memberDisks.any disk.isDevice

def journaledDisks : List DiskIdentity :=
  s.journal.additions.flatMap (·.members) ++ s.journal.replacements.map (·.1) ++
    (s.journal.removalInProgress.toList.flatMap (·.members)).filterMap (·.identity)

def candidate (row : DiskRow) : Option Candidate := do
  let disk ← s.diskNamed row.disk
  let identity ← disk.identity
  let byId ← disk.idPath
  if disk.problems.isEmpty ∧ !disk.removable ∧ minDiskBytes ≤ disk.sizeBytes ∧
      identity ∉ s.journaledDisks ∧ (s.diskWith identity).isSome then
    some { disk, byId, identity, row }
  else none

/-- Disks BMAC may erase for a new member: in no pool, recognized by identity, with nothing using them,
and chosen by no journal record. -/
def candidates : List Candidate :=
  (s.layout.unassignedDisks.filter fun row =>
    row.inUseReasons.isEmpty && !(s.layout.espOnlyDisks.map (·.disk)).contains row.disk).filterMap
      s.candidate

end Snapshot

/-! ## Finishing removals and replacements -/

inductive Call where
  | snapshot
  /-- Whether `/dev/mapper` has the name. -/
  | mapped (mapper : String)
  | close (mapper : String)
  /-- Takes the mappers out of crypttab and the initramfs. -/
  | unregister (mappers : List String)
  | deleteHeader (mapper : String)
  /-- The disks as the inventory reads them now. -/
  | disks
  | wipeMetadata (disk : InventoryDisk)
  | setRemoval (id : String) (state : RemovalState)
  | clearReplacement (disk : DiskIdentity)

def Reply : Call → Type
  | .snapshot => Except Stop Snapshot
  | .mapped _ => Bool
  | .deleteHeader _ => Unit
  | .disks => List InventoryDisk
  | _ => Except Stop Unit

abbrev Program (α : Type) := Prog Call Reply Stop α

namespace Host

def snapshot : Program (Except Stop Snapshot) := ask Call.snapshot

def mapped (mapper : String) : Program Bool := ask (Call.mapped mapper)

def close (mapper : String) : Program (Except Stop Unit) := ask (Call.close mapper)

def unregister (mappers : List String) : Program (Except Stop Unit) := ask (Call.unregister mappers)

def deleteHeader (mapper : String) : Program Unit := ask (Call.deleteHeader mapper)

def disks : Program (List InventoryDisk) := ask Call.disks

def wipeMetadata (disk : InventoryDisk) : Program (Except Stop Unit) := ask (Call.wipeMetadata disk)

def setRemoval (id : String) (state : RemovalState) : Program (Except Stop Unit) :=
  ask (Call.setRemoval id state)

def clearReplacement (disk : DiskIdentity) : Program (Except Stop Unit) :=
  ask (Call.clearReplacement disk)

end Host

def mapperOf (member : Member) : Option String :=
  (member.mapper.or (Text.stripStart "/dev/mapper/" member.path)).map fun m =>
    (Text.stripStart "/dev/mapper/" m).getD m

def named : DiskIdentity → String
  | .wwn w => s!"WWN {w}"
  | .serial s => s!"serial {s}"

def idChars : Nat := 24

/-- `bmac-<pool>-<id>`, where `<id>` is `w` and the WWN's hex digits, or `s` and the serial's letters and
digits; the last 24 of them. -/
def mapperName (pool : String) (identity : DiskIdentity) : String :=
  let (tag, value) := match identity with
    | .wwn wwn =>
      ("w", ((Text.stripStart "0x" wwn).or ((Text.splitOnce '.' wwn).map Prod.snd)).getD wwn)
    | .serial serial => ("s", serial)
  let kept := value.toList.filter Text.isAlphanumeric
  s!"bmac-{pool}-{tag}{String.ofList (kept.drop (kept.length - idChars))}"

/-- One piece of finishing work. -/
inductive Work where
  | removal (removal : Removal)
  | replacement (disk : DiskIdentity) (replacement : Replacement)

namespace Work

def parts (pool : String) : Work → List String × List DiskIdentity
  | removal r => (r.members.filterMap (·.mapper), r.members.filterMap (·.identity))
  | replacement disk r =>
    -- a failure drill replaces a disk with itself
    if r.old = some disk ∨ r.mapper = some (mapperName pool disk) then ([], [])
    else (r.mapper.toList, r.old.toList)

def describe : Work → String
  | removal r => s!"the removal of {r.vdev}"
  | replacement disk r => s!"the replacement of {r.leaf} by {named disk}"

end Work

def resolve (identity : DiskIdentity) : Program InventoryDisk := do
  match (← Host.disks).filter (·.identity = some identity) with
  | [one] => return one
  | [] => fail (.failed s!"no disk with {named identity} is installed now")
  | _ => fail (.failed
      s!"more than one disk reports {named identity}; BMAC won't guess which to change")

def closeMapper (pool : String) (work : Work) (inPool : List String) (mapper : String) : Program Unit := do
  if inPool.contains mapper then
    fail (.failed s!"{mapper} is still in {pool}; {work.describe} isn't finished")
  else if ← Host.mapped mapper then orFail (Host.close mapper)

/-- Erases the metadata of the disks that nothing uses; those that are left alone. -/
def release (s : Snapshot) : List DiskIdentity → Program (List DiskIdentity)
  | [] => return []
  | identity :: rest => do
    match s.diskWith identity with
    | none => release s rest
    | some disk =>
      if s.holdsMember disk ∨ ((s.row disk).map (·.inUseReasons)).getD [] ≠ [] then
        return identity :: (← release s rest)
      else
        let disk ← resolve identity
        orFail (Host.wipeMetadata disk)
        release s rest

def close (pool : String) (work : Work) (mappers : List String) : Program Unit := do
  let s ← orFail Host.snapshot
  forEach (closeMapper pool work (s.topMembers.filterMap mapperOf)) mappers
  if mappers.isEmpty then return ()
  orFail (Host.unregister mappers)
  forEach Host.deleteHeader mappers

def finish (pool : String) (work : Work) : Program Unit := do
  let (mappers, disks) := work.parts pool
  close pool work mappers
  let s ← orFail Host.snapshot
  let kept ← release s disks
  if kept.isEmpty then
    match work with
    | .removal r => orFail (Host.setRemoval r.id .retired)
    | .replacement disk _ => orFail (Host.clearReplacement disk)

end Bmac.Bmacd.DiskWork
