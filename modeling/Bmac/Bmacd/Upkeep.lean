import Bmac.Base.Prog
import Bmac.Bmacd.Capture

/-!
# Upkeep

`bmacd/src/backup/upkeep.rs`: a host's pass over a VM's PITs, as a program of atomic calls. A copy's
name is a snapshot's or a bookmark's; what local retention, the policy, the lineage and the restores
give a plan is the answer of `readInputs`, and the manifest's reader is a parameter.
-/

namespace Bmac.Bmacd.Upkeep

open Bmac.Base Bmac.Core Bmac.Backup Bmac.Bmacd

/-- A snapshot `dataset@name` or a bookmark `dataset#name`. -/
inductive Copy where
  | snapshot (dataset name : String)
  | bookmark (dataset name : String)
  deriving DecidableEq

def Copy.text : Copy → String
  | snapshot dataset name => s!"{dataset}@{name}"
  | bookmark dataset name => s!"{dataset}#{name}"

instance : ToString Copy := ⟨Copy.text⟩

/-- A line of a pass's report. -/
inductive Note where
  | released (name : String)
  | blocked (name reason : String)
  | bookmarkRemoved (host : HostSlot) (bookmark : Copy)
  | dropped (name : String)
  | error (e : String)

/-- What a plan is made from beside the PITs: the assigned appliances' heads, and the PITs that local
retention, restores and new branches need. -/
structure PassInputs where
  heads : List Head
  localRetention : List Uuid
  restores : List Uuid
  branchStarts : List Uuid

/-- A PIT's volumes: each one's dataset and its snapshot's GUID. -/
abbrev Volumes := List (String × SnapshotGuid)

inductive Call where
  | byUuid
  | liveGuest (vmid : Nat)
  | leased (name : GuestName)
  | readPits
  | readSettings
  | readInputs (pits : List PitRecord)
  | readClock
  | readPit (id : Uuid)
  /-- the clock, for one offer of a PIT -/
  | holds (settings : BackupSettings) (id : Uuid) (offer : Offer)
  | members
  | guids (host : HostSlot) (names : List Copy)
  | bookmark (host : HostSlot) (snapshot bookmark : Copy)
  /-- a copy of the PIT goes; `kept` are the volumes whose bookmarks the plan keeps -/
  | destroy (id : Uuid) (kept : Volumes) (host : HostSlot) (copy : Copy)
  | savePit (pit : PitRecord)
  | deletePit (id : Uuid)
  | note (n : Note)

def Reply : Call → Type
  | .byUuid => Except String (Option Production)
  | .liveGuest _ => Except String (Option Capture.LiveGuest)
  | .leased _ => Except String Bool
  | .readPits => Except String (List PitRecord)
  | .readSettings => Except String BackupSettings
  | .readInputs _ => Except String PassInputs
  | .readClock => Int
  | .readPit _ => Except String (Option PitRecord)
  | .holds _ _ _ => Bool
  | .members => Except String (List HostSlot)
  | .guids _ _ => Except String (Copy → Option SnapshotGuid)
  | .bookmark _ _ _ => Except String Unit
  | .destroy _ _ _ _ => Except String Unit
  | .savePit _ => Except String Unit
  | .deletePit _ => Except String Unit
  | .note _ => Unit

abbrev Program (α : Type) := Prog Call Reply String α

def guids (host : HostSlot) (names : List Copy) :
    Program (Except String (Copy → Option SnapshotGuid)) :=
  Prog.ask (Call.guids host names)

def destroy (id : Uuid) (kept : Volumes) (host : HostSlot) (copy : Copy) :
    Program (Except String Unit) :=
  Prog.ask (Call.destroy id kept host copy)

def note (n : Note) : Program Unit := Prog.ask (Call.note n)

/-! ## Plans -/

def clusterPit (pit : PitRecord) : ClusterPit where
  pitUuid := pit.pitUuid
  takenS := pit.takenS
  branch := pit.branchUuid.text
  offers := pit.offers.map fun (appliance, offer) => (appliance.text, offer)

def bookmarksProven : Bool := true

def inputsOf (pits : List PitRecord) (inputs : PassInputs) : Inputs where
  pits := pits.map clusterPit
  heads := inputs.heads
  localRetention := inputs.localRetention
  stagingOrigins := []
  restores := inputs.restores
  branchStarts := inputs.branchStarts
  bookmarksProven := bookmarksProven

/-- `Upkeep::plan`, of a pass that read the PITs and what else it needs. -/
def upkeepPlan (pits : List PitRecord) (inputs : PassInputs) (nowS : Int)
    (settings : BackupSettings) : Plan :=
  plan (inputsOf pits inputs) nowS settings

/-! ## Bookmarks -/

def snapshotsOf (volumes : Volumes) (name : PitName) : List Copy :=
  volumes.map fun v => .snapshot v.1 name.text

def bookmarksOf (volumes : Volumes) (name : PitName) : List Copy :=
  volumes.map fun v => .bookmark v.1 name.text

def placedMembers (placement : List HostSlot) : Program (List HostSlot) := do
  let members ← Prog.orFail (Prog.ask Call.members)
  return placement.filter (· ∈ members)

/-- A volume that has no bookmark on the host yet gets one from the host's own snapshot. -/
def bookmarkVolume (host : HostSlot) (name : PitName) (present : Copy → Option SnapshotGuid)
    (volume : String × SnapshotGuid) : Program Unit :=
  let snapshot := Copy.snapshot volume.1 name.text
  let bookmark := Copy.bookmark volume.1 name.text
  match present bookmark with
  | some _ => return ()
  | none =>
    match present snapshot with
    | some found =>
      if found = volume.2 then Prog.orFail (Prog.ask (Call.bookmark host snapshot bookmark))
      else .fail s!"{snapshot} on {host.text} has GUID {found}, not {volume.2}"
    | none =>
      .fail s!"{host.text} has neither {snapshot} nor its bookmark; waiting for replication"

def checkBookmark (host : HostSlot) (name : PitName) (made : Copy → Option SnapshotGuid)
    (volume : String × SnapshotGuid) : Program Unit :=
  let bookmark := Copy.bookmark volume.1 name.text
  if made bookmark = some volume.2 then return ()
  else .fail s!"{bookmark} on {host.text} doesn't have GUID {volume.2}"

def bookmarkHost (name : PitName) (volumes : Volumes) (host : HostSlot) : Program Unit := do
  let present ← (guids host (snapshotsOf volumes name ++ bookmarksOf volumes name)).orFail
  Prog.forEach (bookmarkVolume host name present) volumes
  let made ← (guids host (bookmarksOf volumes name)).orFail
  Prog.forEach (checkBookmark host name made) volumes

/-- Bookmarks every volume on every placement host from its own copy of the snapshot, and checks
each bookmark has the manifest's GUID. -/
def bookmarkEverywhere (placement : List HostSlot) (name : PitName) (volumes : Volumes) :
    Program Unit := do
  let hosts ← placedMembers placement
  Prog.forEach (bookmarkHost name volumes) hosts

/-! ## One PIT -/

/-- What a pass knows when it comes to a PIT. -/
structure Pass where
  thisHost : HostSlot
  production : Production
  settings : BackupSettings
  plan : Plan

def Pass.kept (pass : Pass) (id : Uuid) (volumes : Volumes) : Volumes :=
  if pass.plan.keepsBookmark id then volumes else []

/-- Destroys each copy; the last failure. -/
def destroyAll (id : Uuid) (kept : Volumes) (host : HostSlot) :
    List Copy → Option String → Program (Option String)
  | [], failed => return failed
  | copy :: rest, failed => do
    match ← destroy id kept host copy with
    | .ok () => destroyAll id kept host rest failed
    | .error e => destroyAll id kept host rest (some e)

def anyHolds (settings : BackupSettings) (id : Uuid) : List Offer → Program Bool
  | [] => return false
  | offer :: rest => do
    let holds : Bool ← Prog.ask (Call.holds settings id offer)
    if holds then return true else anyHolds settings id rest

def releaseReady (pass : Pass) (fresh : PitRecord) (volumes : Volumes) (snapshots : List Copy) :
    Except String Unit → Program (PitRecord × Bool)
  | .error reason => do
    note (.blocked fresh.name.text reason)
    return ({ fresh with releaseBlocked := some reason }, fresh.releaseBlocked ≠ some reason)
  | .ok () => do
    let present ← (guids pass.thisHost snapshots).orFail
    let failed ← destroyAll fresh.pitUuid (pass.kept fresh.pitUuid volumes) pass.thisHost
      (snapshots.filter fun copy => (present copy).isSome) none
    match failed with
    | some reason => do
      note (.blocked fresh.name.text reason)
      return ({ fresh with releaseBlocked := some reason }, true)
    | none => do
      note (.released fresh.name.text)
      return ({ fresh with releaseBlocked := none, presence := .bookmark }, true)

def ready (pass : Pass) (fresh : PitRecord) (volumes : Volumes) : Program (Except String Unit) :=
  if pass.plan.keepsBookmark fresh.pitUuid then
    (bookmarkEverywhere pass.production.placement fresh.name volumes).attempt
  else return .ok ()

/-- Releases the snapshots of a PIT; none if an offer of it holds after all. -/
def release (pass : Pass) (pit : PitRecord) (volumes : Volumes) :
    Program (Option (PitRecord × Bool)) := do
  -- Read the offers again: a claim may have arrived since the plan.
  let found : Option PitRecord ← Prog.orFail (Prog.ask (Call.readPit pit.pitUuid))
  let fresh ← Prog.ofExcept (ofOption found s!"{pit.name.text} left the catalog")
  let holds ← anyHolds pass.settings fresh.pitUuid fresh.offers.values
  if holds then return none
  else do
    let done ← ready pass fresh volumes
    let released ← releaseReady pass fresh volumes (snapshotsOf volumes pit.name) done
    return some released

def releaseIfDue (pass : Pass) (pit : PitRecord) (volumes : Volumes) :
    Program (Option (PitRecord × Bool)) :=
  if pit.presence = .snapshot && pass.plan.releasesSnapshot pit.pitUuid then
    release pass pit volumes
  else return some (pit, false)

/-- Whether the host keeps none of the bookmarks. -/
def removeBookmarks (id : Uuid) (host : HostSlot) : List Copy → Bool → Program Bool
  | [], all => return all
  | bookmark :: rest, all => do
    match ← destroy id [] host bookmark with
    | .ok () => do
      note (.bookmarkRemoved host bookmark)
      removeBookmarks id host rest all
    | .error e => do
      note (.error e)
      removeBookmarks id host rest false

def removeEverywhere (id : Uuid) (bookmarks : List Copy) : List HostSlot → Bool → Program Bool
  | [], all => return all
  | host :: rest, all => do
    match ← guids host bookmarks with
    | .error e => do
      note (.error e)
      removeEverywhere id bookmarks rest false
    | .ok present => do
      let all ← removeBookmarks id host (bookmarks.filter fun copy => (present copy).isSome) all
      removeEverywhere id bookmarks rest all

/-- Whether the PIT has neither snapshots nor bookmarks left. -/
def leaves (pass : Pass) (pit : PitRecord) (bookmarks : List Copy) : Program Bool :=
  if pass.plan.keepsBookmark pit.pitUuid then return false
  else do
    let hosts ← placedMembers pass.production.placement
    let removed ← removeEverywhere pit.pitUuid bookmarks hosts true
    return removed && pit.presence = .bookmark

/-- `Upkeep::pit`: carries the plan out for one PIT. -/
def upkeepPit (codec : Codec) (pass : Pass) (pit : PitRecord) : Program Unit := do
  let manifest ← Prog.ofExcept
    ((Manifest.open_ codec pit.manifest).mapError fun e => s!"{pit.name.text}: {e.text}")
  let volumes : Volumes := manifest.volumes.map fun v => (v.dataset, v.snapshotGuid)
  let released ← releaseIfDue pass pit volumes
  match released with
  | none => return ()
  | some (pit', changed) => do
    let gone ← leaves pass pit' (bookmarksOf volumes pit.name)
    if gone then do
      Prog.orFail (Prog.ask (Call.deletePit pit'.pitUuid))
      note (.dropped pit'.name.text)
    else if changed then Prog.orFail (Prog.ask (Call.savePit pit'))
    else return ()

/-- One PIT's turn; a failure goes to the report. -/
def upkeepTurn (codec : Codec) (pass : Pass) (pit : PitRecord) : Program Unit := do
  match ← (upkeepPit codec pass pit).attempt with
  | .ok () => return ()
  | .error e => note (.error e)

/-! ## A pass -/

/-- The PITs of a VM that this host owns and nothing holds. -/
def upkeepPits (codec : Codec) (thisHost : HostSlot) (production : Production) : Program Unit := do
  let pits : List PitRecord ← Prog.orFail (Prog.ask Call.readPits)
  if pits.isEmpty then return ()
  else do
    let settings : BackupSettings ← Prog.orFail (Prog.ask Call.readSettings)
    let inputs : PassInputs ← Prog.orFail (Prog.ask (Call.readInputs pits))
    let nowS : Int ← Prog.ask Call.readClock
    Prog.forEach
      (upkeepTurn codec ⟨thisHost, production, settings, upkeepPlan pits inputs nowS settings⟩) pits

/-- `Upkeep::vm`: one pass over one VM. -/
def upkeepVm (codec : Codec) (thisHost : HostSlot) : Program Unit := do
  let found : Option Production ← Prog.orFail (Prog.ask Call.byUuid)
  match found with
  | none => return ()
  | some production => do
    let live : Option Capture.LiveGuest ← Prog.orFail (Prog.ask (Call.liveGuest production.vmid))
    if !live.any (·.node = thisHost) then return ()
    else do
      let leased : Bool ← Prog.orFail (Prog.ask (Call.leased production.name))
      if leased then return ()
      else upkeepPits codec thisHost production

end Bmac.Bmacd.Upkeep
