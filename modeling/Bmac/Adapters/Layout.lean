import Bmac.Adapters.Disks
import Bmac.Adapters.Zpool
import Bmac.Base.Lines

/-!
# One host's storage as it is

`bmac-adapters/src/layout.rs`: rpool's vdevs with each member resolved to its disk, the boot partitions,
and every disk with why it is in use. `build` puts it together from `lsblk`, the status of each imported
pool, `proxmox-boot-tool`'s UUIDs, and crypttab. What no check of a disk reads is left out.
-/

namespace Bmac.Adapters

open Bmac.Base Bmac.Core

/-- A vdev member traced to its physical disk. -/
structure Member where
  /-- The path `zpool status -P` prints. -/
  path : String
  state : Option String
  /-- The resolved kernel device. -/
  device : String
  luks : Bool
  mapper : Option String
  /-- The partition under the LUKS mapping, or the device itself. -/
  backing : Option String
  disk : Option String
  serial : Option String
  identity : Option DiskIdentity
  model : Option String
  diskSize : Option Nat
  /-- The `replacing-N` or `spare-N` grouping the leaf is under, if any. -/
  group : Option String

/-- A vdev of rpool, or a data vdev of any imported pool. -/
structure LayoutVdev where
  name : String
  state : Option String
  replacing : Bool
  members : List Member

structure DiskRow where
  disk : String
  serial : Option String
  identity : Option DiskIdentity
  model : Option String
  size : Option Nat
  tran : Option String
  fstype : Option String
  partitionsOrHolders : Nat
  mounted : Bool
  /-- Why the disk must not be pulled; empty when it may be. -/
  inUseReasons : List String

structure Layout where
  vdevs : List LayoutVdev
  auxiliaryVdevs : Dict (List LayoutVdev)
  /-- Each data vdev with its pool. -/
  importedPoolVdevs : List (String × LayoutVdev)
  espPartitions : List String
  allDisks : List DiskRow
  /-- Disks with no reason to be in use, which may be pulled. -/
  physicallyRemovableDisks : List DiskRow
  /-- Disks in no imported pool and holding no registered ESP. -/
  unassignedDisks : List DiskRow
  /-- Disks holding a registered ESP but in no pool. -/
  espOnlyDisks : List DiskRow

/-- What `build` combines. -/
structure Inputs where
  /-- The pool the layout is of. -/
  status : PoolStatus
  devices : BlockDevices
  bootUuids : List String
  crypttab : String
  /-- `zpool status` of every imported pool. -/
  allPools : List PoolStatus
  /-- Resolves a `/dev/...` path to its kernel device. -/
  realpath : String → String
  /-- `str::to_uppercase`. -/
  upper : String → String

/-- `str::split_whitespace`. -/
def splitWhitespace (line : List Char) : List String :=
  ((line.splitOnP Text.isWhitespace).filter (· ≠ [])).map String.ofList

def crypttabUuids (text : String) : List String :=
  (Lines.lines text.toList).filterMap fun line =>
    match splitWhitespace line with
    | first :: second :: _ => if hasPrefix "#" first then none else Text.stripStart "UUID=" second
    | _ => none

namespace Inputs

variable (i : Inputs)

/-- `zpool` names a device by its path; other leaves aren't devices. -/
def resolved (leaf : ConfigNode) : Option String :=
  if hasPrefix "/dev/" leaf.name then some (i.realpath leaf.name) else none

def member (group : Option String) (leaf : ConfigNode) : Member :=
  let kname := (i.resolved leaf).getD leaf.name
  let device := i.devices.get? kname
  let disk := (device.bind (·.disk)).bind i.devices.get?
  let luks := (device.bind (·.kind)) = some "crypt"
  { path := leaf.name
    state := leaf.state
    device := kname
    luks := luks
    mapper := if luks then device.bind (·.name) else none
    backing := if luks then device.bind (·.parent) else device.map fun _ => kname
    disk := disk.map (·.kname)
    serial := disk.bind (·.serial)
    identity := disk.bind (·.identity)
    model := disk.bind (·.model)
    diskSize := disk.bind (·.size)
    group := group }

mutual

def walk (group : Option String) : ConfigNode → List Member
  | .mk name state [] => [i.member group (.mk name state [])]
  | .mk name _ (child :: children) =>
    let group :=
      if hasPrefix "replacing-" name || hasPrefix "spare-" name then some name else group
    walk group child ++ walkAll group children

def walkAll (group : Option String) : List ConfigNode → List Member
  | [] => []
  | node :: rest => walk group node ++ walkAll group rest

end

def layoutVdev (vdev : ConfigNode) : LayoutVdev :=
  ⟨vdev.name, vdev.state, vdev.replacing, i.walk none vdev⟩

def isEsp (device : BlockDevice) : Bool :=
  match device.uuid with
  | some uuid => uuid ≠ "" && i.bootUuids.contains (i.upper uuid)
  | none => false

def espPartitions : List String := (i.devices.filter fun e => i.isEsp e.2).map (·.2.kname)

def espDisks : List String := i.espPartitions.filterMap fun kname => (i.devices.get? kname).bind (·.disk)

def poolLeaves : List ConfigNode :=
  i.allPools.flatMap fun pool => pool.sections.flatMap fun «section» =>
    «section».vdevs.flatMap (·.leaves)

def importedPoolDisks : List String :=
  i.poolLeaves.filterMap fun leaf => ((i.resolved leaf).bind i.devices.get?).bind (·.disk)

/-- A guest's disk. -/
def isZvol (kname : String) : Bool :=
  match Text.stripStart "/dev/zd" kname with
  | some digits => !digits.toList.isEmpty && digits.toList.all Text.isDigit
  | none => false

def holders (below : List BlockDevice) : List String :=
  (((below.filterMap (·.kind)).filter (· ≠ "part")).foldl (fun d kind => Dict.insert d kind ()) []).map (·.1)

def diskRow (device : BlockDevice) (descendants : List BlockDevice) : DiskRow :=
  let mounted := descendants.any fun d => !d.mountpoints.isEmpty
  let holders := holders descendants.tail
  let listed := descendants.any fun d => d.uuid.any fun u => (crypttabUuids i.crypttab).contains u
  { disk := device.kname
    serial := device.serial
    identity := device.identity
    model := device.model
    size := device.size
    tran := device.tran
    fstype := device.fstype
    partitionsOrHolders := device.children.length
    mounted := mounted
    inUseReasons :=
      (if i.importedPoolDisks.contains device.kname then ["member of an imported ZFS pool"] else []) ++
      (if mounted then ["mounted filesystem or active swap"] else []) ++
      (if holders.isEmpty then [] else ["active " ++ Text.join "/" holders ++ " holder"]) ++
      (if i.espDisks.contains device.kname then ["registered Proxmox boot ESP"] else []) ++
      (if listed then ["configured in /etc/crypttab"] else []) }

/-- The rows of the disks, in the order of their names; `none` when `depth` levels don't hold one. -/
def rows (depth : Nat) : Option (List DiskRow) :=
  (i.devices.filter fun e => e.2.kind = some "disk" ∧ e.2.parent = none ∧ !isZvol e.1).mapM fun e =>
    (i.devices.subtree depth e.1).map (i.diskRow e.2)

/-- The vdevs whose members are resolved: those of the pool, and the data vdevs of every pool. -/
def resolvedVdevs : List ConfigNode :=
  i.status.vdevs .data ++ (i.status.sections.filter (·.class ≠ .data)).flatMap (·.vdevs) ++
    i.allPools.flatMap (·.vdevs .data)

def memberDisks : List String :=
  i.resolvedVdevs.flatMap fun vdev => (i.layoutVdev vdev).members.filterMap (·.disk)

end Inputs

/-- `depth` bounds the levels of devices below a disk. -/
def build (i : Inputs) (depth : Nat) : Option Layout := do
  let vdevs := (i.status.vdevs .data).map i.layoutVdev
  let auxiliaryVdevs := (i.status.sections.filter (·.class ≠ .data)).foldl
    (fun d «section» => Dict.insert d «section».class.asStr («section».vdevs.map i.layoutVdev)) []
  let importedPoolVdevs := i.allPools.flatMap fun pool =>
    (pool.vdevs .data).map fun vdev => (pool.pool, i.layoutVdev vdev)
  let allDisks ← i.rows depth
  let free := allDisks.filter fun row => !i.memberDisks.contains row.disk
  return {
    vdevs, auxiliaryVdevs, importedPoolVdevs, allDisks
    espPartitions := i.espPartitions
    physicallyRemovableDisks := allDisks.filter (·.inUseReasons.isEmpty)
    unassignedDisks := free.filter fun row => !i.espDisks.contains row.disk
    espOnlyDisks := free.filter fun row => i.espDisks.contains row.disk }

end Bmac.Adapters
