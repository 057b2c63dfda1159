import Bmac.Backup.Config
import Bmac.Bmacd.Source
import Bmac.Pmxcfs.Lock

/-!
# Capturing a PIT

`bmacd/src/backup/capture.rs` from the moment the checks passed: the VM's lease, then `leased` with
the guest frozen or not, the snapshots, their replication and the record. What each call answers,
and whether a failed one happened all the same, is in `Calls`; the state is what the calls
leave: the hosts' snapshots, the VM's records and the calls made to the guest.

A PIT whose record fails has its snapshots destroyed again.
-/

namespace Bmac.Bmacd.Capture

open Bmac.Base Bmac.Core Bmac.Backup Bmac.Pmxcfs

inductive Stop where
  | failed (message : String)
  | cancelled

/-- A guest as `/cluster/resources` shows it. -/
structure LiveGuest where
  node : HostSlot
  running : Bool

structure ReplicationJob where
  id : String
  target : HostSlot

/-- A disk with its dataset. -/
structure Disk where
  reference : DiskRef
  dataset : String

/-- A call to the guest agent or to the timer that thaws the guest, with its answer. -/
inductive GuestCall where
  | armThaw (answer : Except String String)
  | freeze (answer : Except String Value)
  | thaw (answer : Except String Unit)
  | disarmThaw (unit : String) (answer : Except String Unit)

structure State where
  /-- Each host's snapshots, with their GUIDs. -/
  snapshots : HostSlot → String → Option SnapshotGuid
  pits : List PitRecord
  lineage : Option Lineage
  policy : Option Policy
  guest : List GuestCall
  /-- The snapshots that the cleanup destroyed. -/
  destroyed : List String

abbrev M := EStateM Stop State

/-- One round of waiting for the replicas: what came to each target since the round before, and
whether its snapshots can't be read now. -/
structure ReplicationRound where
  cancelled : Bool
  arrived : HostSlot → List (String × SnapshotGuid)
  unread : HostSlot → Option String

/-- Answers of the calls of one capture, in the order it makes them. -/
structure Calls where
  lease : Except String Unit
  live : Except String (Option LiveGuest)
  config : Except String String
  dataset : String → Except String String
  /-- the PIT's new name -/
  name : PitName
  armThaw : Except String String
  freeze : Except String Value
  /-- the thaw and the timer's end after a freeze that failed -/
  thawUnfrozen : Except String Unit
  disarmUnfrozen : Except String Unit
  /-- the snapshots that `zfs snapshot` made, and its answer -/
  taken : List (String × SnapshotGuid)
  snapshot : Except String Unit
  thaw : Except String Unit
  disarm : Except String Unit
  configAgain : Except String String
  datasetAgain : String → Except String String
  /-- why the owner's snapshots can't be read -/
  unreadOwned : Option String
  members : Except String (List HostSlot)
  jobs : Except String (List ReplicationJob)
  /-- the rounds of waiting; the deadline has passed after the last -/
  round : ReplicationRound
  rounds : List ReplicationRound
  owner : Except String (Option LiveGuest)
  versions : Except String (String × String)
  props : String → Except String (Nat × Nat)
  pitUuid : Uuid
  branchUuid : Uuid
  /-- the new UUID of a dataset that has none -/
  volumeUuid : String → Uuid
  nowS : Int
  lock : Option PmxcfsError
  unreadLineage : Option ApiError
  savePit : Pmxcfs.Fault
  saveLineage : Pmxcfs.Fault
  unreadPolicy : Option ApiError
  savePolicy : Pmxcfs.Fault
  unlock : Option PmxcfsError
  /-- which of the cleanup's destroys happen -/
  destroys : String → Bool
  /-- whether the attempt gets into the lineage -/
  recordsAttempt : Bool
  nowMs : Int

structure Context where
  codec : Codec
  thisHost : HostSlot
  clusterUuid : String
  bmacVersion : String
  replicationTimeoutS : Nat

/-- `storage` of `bmacd/src/backup/store.rs`. -/
def backupStorage : PmxcfsError → ApiError
  | .revisionConflict _ _ _ =>
    .new .conflict "the backup record changed since it was read; reload and try again"
  | .lockTimeout _ _ => .new .unavailable "the cluster is busy; try again"
  | e => .new .internal s!"backup records: {e.text}"

/-- A call that gives its answer and changes nothing. -/
def ask {α : Type} (answer : Except String α) : M α := ofExcept (answer.mapError .failed)

/-- A read that may fail. -/
def readable (unread : Option String) : M Unit :=
  match unread with
  | some e => throw (.failed e)
  | none => pure ()

def poolOf (dataset : String) : String := (Text.split '/' dataset).headD ""

def poolsOf (disks : List Disk) : List String :=
  (disks.foldl (fun d disk => Dict.insert d (poolOf disk.dataset) ()) []).map (·.1)

def readDisks (config : Except String String) (dataset : String → Except String String) :
    Except String (String × Dict String × List Disk) := do
  let raw ← config
  let refs ← disks (currentConfig raw).2
  let disks ← refs.mapM fun reference => (dataset reference.volumeId).map (⟨reference, ·⟩)
  return ((currentConfig raw).1, (currentConfig raw).2, disks)

def snapshotName (name : PitName) (disk : Disk) : String := s!"{disk.dataset}@{name.text}"

/-! ## The state's changes -/

namespace State

def called (s : State) (call : GuestCall) : State :=
  { s with guest := s.guest ++ [call] }

/-- New snapshots on a host; those that exist stay. -/
def arrive (s : State) (host : HostSlot) (new : List (String × SnapshotGuid)) :
    State :=
  { s with snapshots := fun h name =>
      (s.snapshots h name).or (if h = host then new.lookup name else none) }

def destroy (s : State) (host : HostSlot) (name : String) : State :=
  { s with
    snapshots := fun h n => if h = host ∧ n = name then none else s.snapshots h n
    destroyed := s.destroyed ++ [name] }

end State

def called (call : GuestCall) : M Unit := do
  let s ← get
  set (s.called call)

/-! ## Freezing -/

def freezeGuest (calls : Calls) (policy : Policy) (running : Bool) :
    M (Consistency × Value × Option String) :=
  if policy.freeze ≠ .never ∧ running then do
    called (.armThaw calls.armThaw)
    let unit ← ask calls.armThaw
    called (.freeze calls.freeze)
    match calls.freeze with
    | .ok answer => return (.filesystem, .object [("freeze", answer)], some unit)
    | .error e => do
      called (.thaw calls.thawUnfrozen)
      called (.disarmThaw unit calls.disarmUnfrozen)
      if policy.freeze = .required then
        throw (.failed s!"the guest agent didn't freeze the filesystems: {e}")
      return (.crash, .object [("freeze", .string s!"failed: {e}")], none)
  else return (.crash, .object [("freeze", .string "not attempted")], none)

/-- Failed thaws and timers that can't be stopped only warn. -/
def thawGuest (calls : Calls) (consistency : Consistency) (timer : Option String) :
    M Unit := do
  if consistency = .filesystem then called (.thaw calls.thaw)
  match timer with
  | some unit => called (.disarmThaw unit calls.disarm)
  | none => pure ()

/-- Steps 4 to 6: freeze (or not), snapshot, thaw. -/
def snapshotFrozen (cx : Context) (calls : Calls) (policy : Policy) (running : Bool) :
    M (Consistency × Value) := do
  let (consistency, evidence, timer) ← freezeGuest calls policy running
  let s ← get
  set (s.arrive cx.thisHost calls.taken)
  thawGuest calls consistency timer
  ask calls.snapshot
  return (consistency, evidence)

/-! ## Replication -/

def hostSet (hosts : List HostSlot) : List HostSlot :=
  ((List.range 33).filterMap HostSlot.new).filter (· ∈ hosts)

/-- One target's turn in a round: whether it has every snapshot with the owner's GUID. -/
def replicated (round : ReplicationRound) (guids : Dict SnapshotGuid) (target : HostSlot) :
    M Bool := do
  let s ← get
  set (s.arrive target (round.arrived target))
  readable (round.unread target)
  let s ← get
  let found := guids.filterMap fun (name, _) => (s.snapshots target name).map (name, ·)
  match found.find? fun (name, guid) => guids.get? name ≠ some guid with
  | some (name, guid) =>
    throw (.failed (s!"{name} on {target} has GUID {guid}, not the owner's " ++
      s!"{(guids.get? name).getD 0}; the PIT isn't offered"))
  | none => return found.length = guids.length

/-- The targets of a round that are still late after it. -/
def replicateRound (round : ReplicationRound) (guids : Dict SnapshotGuid) :
    List HostSlot → M (List HostSlot)
  | [] => return []
  | target :: rest => do
    let done ← replicated round guids target
    let late ← replicateRound round guids rest
    return if done then late else target :: late

/-- The rounds of waiting for `pending`. -/
def replicateRounds (cx : Context) (guids : Dict SnapshotGuid) :
    List ReplicationRound → List HostSlot → M Unit
  | [], pending =>
    throw (.failed ("replication didn't bring the snapshots to " ++
      Text.join ", " (pending.map HostSlot.text) ++ s!" within {cx.replicationTimeoutS} seconds"))
  | round :: rounds, pending => do
    if round.cancelled then throw .cancelled
    let pending ← replicateRound round guids pending
    if pending.isEmpty then return ()
    replicateRounds cx guids rounds pending

def replicationTargets (cx : Context) (production : Production) (members : List HostSlot) :
    List HostSlot :=
  production.placement.filter fun h => h ∈ members ∧ h ≠ cx.thisHost

/-- Step 8: every placement host has every snapshot with the owner's GUID. -/
def replicate (cx : Context) (calls : Calls) (production : Production)
    (guids : Dict SnapshotGuid) : M Unit := do
  let members ← ask calls.members
  let targets := replicationTargets cx production members
  if targets.isEmpty then return ()
  let jobs ← ask calls.jobs
  match targets.find? fun target => !jobs.any (·.target = target) with
  | some target => throw (.failed s!"{production.name} has no replication job to {target}")
  | none => replicateRounds cx guids (calls.round :: calls.rounds) (hostSet targets)

/-! ## The record -/

/-- What a capture knows once its snapshots are taken. -/
structure FinishInput where
  disks : List Disk
  configText : String
  config : Dict String
  consistency : Consistency
  evidence : Value

/-- What it found out about them. -/
structure Captured where
  guids : Dict SnapshotGuid
  proxmox : String
  openzfs : String
  props : List (Nat × Nat)

def newLineage (calls : Calls) (vm : Uuid) : Lineage where
  revision := 0
  vmUuid := vm
  branchUuid := calls.branchUuid
  head := none
  volumes := []
  lastAttempt := none

/-- The volumes of the manifest, and the lineage's with the new ones. -/
def captureVolumes (calls : Calls) (guids : Dict SnapshotGuid) :
    List (Disk × Nat × Nat) → Dict Uuid → List Volume × Dict Uuid
  | [], known => ([], known)
  | (disk, volsize, volblocksize) :: rest, known =>
    let id := (known.get? disk.dataset).getD (calls.volumeUuid disk.dataset)
    let (volumes, known) := captureVolumes calls guids rest (known.insert disk.dataset id)
    (⟨id.text, disk.reference.slot, disk.reference.role, disk.dataset,
      -- each disk's snapshot has its GUID there
      (guids.get? (snapshotName calls.name disk)).getD 0, volsize, volblocksize,
      disk.reference.boot⟩ :: volumes, known)

def newManifest (cx : Context) (calls : Calls) (production : Production)
    (policy : Policy) (input : FinishInput) (captured : Captured) (lineage : Lineage)
    (volumes : List Volume) : Manifest where
  schemaVersion := manifestSchema
  clusterUuid := cx.clusterUuid
  vmUuid := production.vmUuid.text
  vmid := production.vmid
  pitUuid := calls.pitUuid.text
  branchUuid := lineage.branchUuid.text
  parentPitUuid := lineage.head.map Uuid.text
  snapshot := calls.name
  takenAtS := calls.name.takenS
  consistency := input.consistency
  evidence := input.evidence
  multiPool := policy.acceptMultiPool && 1 < (poolsOf input.disks).length
  versions := ⟨captured.proxmox, captured.openzfs, cx.bmacVersion⟩
  configText := input.configText
  config := input.config
  configSha256 := cx.codec.sha256Hex input.configText
  volumes := volumes
  firmware := firmware input.config
  registry := production.record
  prerequisites := prerequisites input.config
  sha256 := ""

def newPit (calls : Calls) (production : Production) (available : List Uuid)
    (consistency : Consistency) (lineage : Lineage) (text : String) : PitRecord where
  revision := 0
  pitUuid := calls.pitUuid
  vmUuid := production.vmUuid
  branchUuid := lineage.branchUuid
  parent := lineage.head
  name := calls.name
  takenS := calls.name.takenS
  consistency := consistency
  manifest := text
  presence := .snapshot
  offers := Table.ofList (available.map (·, .open_ calls.nowS))
  releaseBlocked := none

/-- A write under the lock: it may fail and yet have happened. -/
def save (fault : Pmxcfs.Fault) (change : State → State) :
    EStateM ApiError State Unit := do
  let s ← get
  if fault.happens then set (change s)
  ofExcept (fault.answer.mapError backupStorage)

/-- A new PIT's record must not exist. -/
def savePit (fault : Pmxcfs.Fault) (pit : PitRecord) : EStateM ApiError State Unit := do
  let s ← get
  match s.pits.find? (·.pitUuid = pit.pitUuid) with
  | some found =>
    throw (backupStorage (.revisionConflict pit.pitUuid.text 0 (.ofNat found.revision)))
  | none => save fault fun s => { s with pits := s.pits ++ [{ pit with revision := 1 }] }

def saveLineage (fault : Pmxcfs.Fault) (lineage : Lineage) : EStateM ApiError State Unit :=
  save fault fun s => { s with lineage := some { lineage with revision := lineage.revision + 1 } }

def savePolicy (fault : Pmxcfs.Fault) (policy : Policy) : EStateM ApiError State Unit :=
  save fault fun s => { s with policy := some { policy with revision := policy.revision + 1 } }

def readRecord (unread : Option ApiError) : EStateM ApiError State State :=
  match unread with
  | some e => throw e
  | none => get

def lineageOf (calls : Calls) (production : Production) (s : State) : Lineage :=
  s.lineage.getD (newLineage calls production.vmUuid)

def startPolicy (calls : Calls) (policy : Option Policy) :
    EStateM ApiError State Unit :=
  match policy with
  | some policy =>
    if policy.startedS = none then
      savePolicy calls.savePolicy { policy with startedS := some calls.name.takenS }
    else pure ()
  | none => pure ()

def volumesOf (calls : Calls) (input : FinishInput) (captured : Captured) (lineage : Lineage) :
    List Volume × Dict Uuid :=
  captureVolumes calls captured.guids (input.disks.zip captured.props) lineage.volumes

def sealedManifest (cx : Context) (calls : Calls) (production : Production)
    (policy : Policy) (input : FinishInput) (captured : Captured) (lineage : Lineage) :
    Manifest × String :=
  (newManifest cx calls production policy input captured lineage
    (volumesOf calls input captured lineage).1).seal_ cx.codec

/-- The writes of step 9, under the lock. -/
def recordLocked (cx : Context) (calls : Calls) (production : Production)
    (policy : Policy) (available : List Uuid) (input : FinishInput) (captured : Captured) :
    EStateM ApiError State Unit := do
  let s ← readRecord calls.unreadLineage
  let lineage := lineageOf calls production s
  let sealed := sealedManifest cx calls production policy input captured lineage
  savePit calls.savePit (newPit calls production available input.consistency lineage sealed.2)
  saveLineage calls.saveLineage { lineage with
    volumes := (volumesOf calls input captured lineage).2
    head := some calls.pitUuid }
  let s ← readRecord calls.unreadPolicy
  startPolicy calls s.policy

/-- `BackupStore::locked`: the work's error goes before the unlock's. -/
def locked (calls : Calls) (work : EStateM ApiError State Unit) :
    EStateM ApiError State Unit :=
  match calls.lock with
  | some e => throw (backupStorage e)
  | none => do
    work
    match calls.unlock with
    | some e => throw (backupStorage e)
    | none => pure ()

/-- Step 9. -/
def record (cx : Context) (calls : Calls) (production : Production)
    (policy : Policy) (available : List Uuid) (input : FinishInput) (captured : Captured) :
    M Unit := fun s =>
  match locked calls (recordLocked cx calls production policy available input captured) s with
  | .ok () s => .ok () s
  | .error e s => .error (.failed s!"could not record the PIT: {e.message}") s

/-! ## The capture -/

def ownedGuids (cx : Context) (calls : Calls) (snapshots : List String) :
    M (Dict SnapshotGuid) := do
  readable calls.unreadOwned
  let s ← get
  let owned ← snapshots.mapM fun snapshot =>
    ask ((ofOption (s.snapshots cx.thisHost snapshot)
      s!"{snapshot} is missing right after it was taken").map (snapshot, ·))
  return owned.foldl (fun d (name, guid) => d.insert name guid) []

/-- Steps 7 and 8, and what the record needs beside. -/
def recheck (cx : Context) (calls : Calls) (production : Production)
    (input : FinishInput) : M Captured := do
  let (again, _, _) ← ask (readDisks calls.configAgain calls.datasetAgain)
  if again ≠ input.configText then
    throw (.failed "the VM's configuration changed during the capture; the PIT is discarded")
  let guids ← ownedGuids cx calls (input.disks.map (snapshotName calls.name))
  replicate cx calls production guids
  let owner ← ask calls.owner
  if !owner.any (·.node = cx.thisHost) then
    throw (.failed (s!"{production.name} moved during the capture; the PIT is discarded and the " ++
      "next slot backs it up"))
  let (proxmox, openzfs) ← ask calls.versions
  let props ← ask (input.disks.mapM fun disk => calls.props disk.dataset)
  return ⟨guids, proxmox, openzfs, props⟩

/-- Steps 7 to 9. -/
def finish (cx : Context) (calls : Calls) (production : Production) (policy : Policy)
    (available : List Uuid) (input : FinishInput) : M Uuid := do
  let captured ← recheck cx calls production input
  record cx calls production policy available input captured
  return calls.pitUuid

/-- Steps 2 to 6. -/
def takeSnapshots (cx : Context) (calls : Calls) (production : Production)
    (policy : Policy) : M FinishInput := do
  let live ← ask calls.live
  let live ← ask (ofOption live s!"Proxmox has no VM {production.vmid}")
  if live.node ≠ cx.thisHost then
    throw (.failed (s!"{production.name} is on {live.node} now, not {cx.thisHost}; the next slot " ++
      "backs it up there"))
  let (configText, config, disks) ← ask (readDisks calls.config calls.dataset)
  if 1 < (poolsOf disks).length ∧ !policy.acceptMultiPool then
    throw (.failed (s!"{production.name}'s disks are on several pools " ++
      "(" ++ Text.join ", " (poolsOf disks) ++ "), where one snapshot command isn't atomic; its " ++
      "backup policy must accept that first"))
  let (consistency, evidence) ← snapshotFrozen cx calls policy live.running
  return ⟨disks, configText, config, consistency, evidence⟩

/-- The snapshots of a failed PIT go again; a destroy that fails only warns. -/
def cleanup (cx : Context) (calls : Calls) (snapshots : List String)
    (s : State) : State :=
  snapshots.foldl (fun s name => if calls.destroys name then s.destroy cx.thisHost name else s) s

def leased (cx : Context) (calls : Calls) (production : Production) (policy : Policy)
    (available : List Uuid) : M Uuid := do
  let input ← takeSnapshots cx calls production policy
  fun s => match finish cx calls production policy available input s with
    | .ok pitUuid s => .ok pitUuid s
    | .error e s =>
      .error e (cleanup cx calls (input.disks.map (snapshotName calls.name)) s)

/-- `record_attempt`: a failure to write it only warns. -/
def recordAttempt (calls : Calls) (production : Production) (attempt : Attempt)
    (s : State) : State :=
  let lineage := lineageOf calls production s
  if calls.recordsAttempt then
    { s with lineage := some { lineage with
      lastAttempt := some attempt
      revision := lineage.revision + 1 } }
  else s

/-- `capture` from the lease on. -/
def capture (cx : Context) (calls : Calls) (production : Production) (policy : Policy)
    (available : List Uuid) : M Uuid := do
  ask (calls.lease.mapError fun e =>
    s!"could not take {production.name}'s orchestration lease " ++
      s!"(another operation may hold it): {e}")
  fun s => match leased cx calls production policy available s with
    | .ok pitUuid s =>
      .ok pitUuid (recordAttempt calls production (.captured calls.nowMs pitUuid) s)
    | .error (.failed message) s =>
      .error (.failed message) (recordAttempt calls production (.failed calls.nowMs message) s)
    | .error .cancelled s => .error .cancelled s

end Bmac.Bmacd.Capture
