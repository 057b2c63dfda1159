import Bmac.Registry.Allocate

/-!
# Updating guests

`record-staging-snapshot-intent`, `record-staging-snapshot`, `share-staging-snapshot` and `update` of
`cluster_registry.py`. Each writes one guest's record, once it and the records with it are valid.
-/

namespace Bmac.Registry

open Bmac.Base Bmac.Core

variable (py : Python) (reg : Registry)

def revise (resources : List Resource) (updated : Resource) : List Resource :=
  resources.map fun r => if r.name = updated.name then updated else r

def saveUpdated (policy : Policy) (resources : List Resource) (updated : Resource) (clock : Int) :
    Except String (Outcome Resource) := do
  let updated := { updated with updatedAt := utcNow clock, revision := updated.revision + 1 }
  validateResource py updated policy
  validateRegistryInvariants (revise resources updated)
  return ⟨[.writeResource updated], updated⟩

def existing (resources : List Resource) (name : GuestName) : Except String Resource :=
  ofOption (named resources name) s!"resource does not exist: {name}"

def checkRevision (expected : Option Int) (current : Resource) : Except String Unit := do
  match expected with
  | some expected =>
    if current.revision ≠ expected then
      throw s!"revision conflict: expected {expected}, found {current.revision}"
  | none => pure ()

def Resource.withSnapshot (r : Resource) (snapshot : Option Snapshot) : Resource :=
  { r with proxmox := { r.proxmox with snapshot } }

/-! ## Snapshots of staging guests -/

/-- `moxN=GUID`. -/
def parseSnapshotGuids (values : List String) : Except String (Table String String) :=
  values.foldlM (fun result value => do
    match Text.splitOnce '=' value with
    | none => throw "snapshot GUID must use moxN=GUID"
    | some (node, guid) =>
      if (result.get? node).isSome then throw s!"duplicate snapshot GUID node: {node}"
      if !isGuid guid then throw s!"invalid ZFS GUID for {node}"
      return result.insert node guid) []

/-- `STORAGE:VOLUME,moxN=GUID`. -/
def parseSnapshotVolumeGuids (values : List String) :
    Except String (Table String (Table String String)) :=
  values.foldlM (fun result value => do
    match (Text.rsplitOnce ',' value).bind fun (volumeId, rest) =>
        (Text.splitOnce '=' rest).map fun (node, guid) => (volumeId, node, guid) with
    | none => throw "snapshot volume GUID must use STORAGE:VOLUME,MOXN=GUID"
    | some (volumeId, node, guid) =>
      let _ ← validateSafeIdentifier volumeId "snapshot source volume id"
      if (HostSlot.parse node).isNone then throw s!"invalid snapshot GUID node: {node}"
      if !isGuid guid then throw s!"invalid ZFS GUID for {volumeId} on {node}"
      let guids := (result.get? volumeId).getD []
      if (guids.get? node).isSome then
        throw s!"duplicate snapshot GUID for {volumeId} on {node}"
      return result.insert volumeId (guids.insert node guid)) []

def snapshotSource (resources : List Resource) (current : Resource) : Except String Resource :=
  ofOption ((current.source.bind (named resources)).filter (·.kind = .production))
    "staging snapshot source production resource is missing"

structure IntentArgs where
  expectedRevision : Option Int := none
  snapshotName : String
  snapshotOwnerNode : String
  sourceVolumeId : String
  snapshottedVolumeIds : List String

def recordStagingSnapshotIntent (name : GuestName) (args : IntentArgs) (clock : Int) :
    Except String (Outcome Resource) := do
  let policy ← reg.policy
  let snapshotName ← validateSnapshotName args.snapshotName
  let sourceVolumeId ← validateSafeIdentifier args.sourceVolumeId "snapshot source volume id"
  let sourceVolumeIds ← args.snapshottedVolumeIds.mapM
    (validateSafeIdentifier · "snapshotted source volume id")
  if sourceVolumeIds = [] ∨ ¬sourceVolumeIds.Nodup ∨ sourceVolumeId ∉ sourceVolumeIds then
    throw "snapshotted source volumes must be unique and include the root volume"
  let resources ← reg.resources py
  let current ← existing resources name
  if current.kind ≠ .staging then
    throw "snapshot intent may only be recorded on staging resources"
  let source ← snapshotSource resources current
  if source.proxmox.volumeId ≠ some sourceVolumeId then
    throw "snapshot root volume must equal the registered production volume"
  let ownerNode ← ofOption (nodeIn source.placement args.snapshotOwnerNode)
    "snapshot owner must belong to production placement"
  let metadata : Snapshot :=
    { name := snapshotName, ownerNode, guids := []
      staging := some
        { sourceResource := source.name, sourceVolumeId, sourceVolumeIds, volumeGuids := []
          verified := false, dependentResources := [current.name], refcount := 1 } }
  if current.proxmox.snapshot = some metadata then return ⟨[], current⟩
  if current.proxmox.snapshot.isSome then
    throw "staging resource already has a different snapshot dependency"
  checkRevision args.expectedRevision current
  if current.state ≠ .snapshotting then
    throw "staging snapshot intent may only be recorded while snapshotting"
  match resources.find? fun r => r.kind = .staging ∧ r.proxmox.snapshot.any fun s =>
      s.staging.any (·.sourceResource = source.name) ∧ s.name = snapshotName with
  | some holder => throw s!"snapshot {quoted snapshotName} already belongs to {holder.name}"
  | none => saveUpdated py policy resources (current.withSnapshot (some metadata)) clock

structure RecordArgs where
  expectedRevision : Option Int := none
  snapshotName : String
  snapshotOwnerNode : String
  sourceVolumeId : String
  snapshotGuids : List String
  snapshotVolumeGuids : List String

def checkVolumeGuids (volumeGuids : Table String (Table String String)) (intent : StagingSnapshot)
    (source : Resource) : Except String Unit := do
  if !sameSet (volumeGuids.map (·.1)) intent.sourceVolumeIds then
    throw "snapshot volume GUIDs must cover every intended source volume"
  volumeGuids.forM fun (volumeId, nodeGuids) => do
    if !sameSet (nodeGuids.map (·.1)) (nodeTexts source.placement) then
      throw s!"snapshot GUIDs for {volumeId} must cover production placement"
    if (nodeGuids.map (·.2)).dedup.length ≠ 1 then
      throw s!"snapshot GUID differs between nodes for {volumeId}"

def recordStagingSnapshot (name : GuestName) (args : RecordArgs) (clock : Int) :
    Except String (Outcome Resource) := do
  let policy ← reg.policy
  let snapshotName ← validateSnapshotName args.snapshotName
  let sourceVolumeId ← validateSafeIdentifier args.sourceVolumeId "snapshot source volume id"
  let guids ← parseSnapshotGuids args.snapshotGuids
  let volumeGuids ← parseSnapshotVolumeGuids args.snapshotVolumeGuids
  let resources ← reg.resources py
  let current ← existing resources name
  if current.kind ≠ .staging then
    throw "snapshot dependencies may only be recorded on staging resources"
  let source ← snapshotSource resources current
  if source.proxmox.volumeId ≠ some sourceVolumeId then
    throw "snapshot source volume must equal the registered production volume"
  let ownerNode ← ofOption (nodeIn source.placement args.snapshotOwnerNode)
    "snapshot owner must belong to production placement"
  match current.proxmox.snapshot.bind fun s => s.staging.map (s, ·) with
  | none => throw "snapshot intent must be recorded before snapshot verification"
  | some (intent, staging) =>
    if intent.name ≠ snapshotName ∨ intent.ownerNode ≠ ownerNode ∨
        staging.sourceResource ≠ source.name ∨ staging.sourceVolumeId ≠ sourceVolumeId then
      throw "verified snapshot does not match its durable intent"
    checkVolumeGuids volumeGuids staging source
    if volumeGuids.get? sourceVolumeId ≠ some guids then
      throw "root snapshot GUIDs must equal the root volume GUID map"
    let metadata : Snapshot :=
      { intent with guids, staging := some { staging with volumeGuids, verified := true } }
    if intent = metadata then return ⟨[], current⟩
    if staging.verified then throw "staging snapshot is already verified differently"
    checkRevision args.expectedRevision current
    if current.state ≠ .snapshotting ∧ current.state ≠ .replicating then
      throw ("staging snapshot dependency may only be recorded while " ++
        "snapshotting or replicating")
    saveUpdated py policy resources (current.withSnapshot (some metadata)) clock

def stagingSnapshotHolders (resources : List Resource) (source : GuestName) (snapshotName : String) :
    List Resource :=
  resources.filter fun r =>
    r.kind = .staging ∧ r.source = some source ∧ r.proxmox.snapshot.any (·.name = snapshotName)

def snapshotReleasingStates : List State := [.cleanupPending, .failed]

/-- `--from` is `donor`. -/
def shareStagingSnapshot (name donor : GuestName) (expectedRevision : Option Int) (clock : Int) :
    Except String (Outcome Resource) := do
  let policy ← reg.policy
  let resources ← reg.resources py
  let current ← existing resources name
  let donor ← existing resources donor
  if current.kind ≠ .staging ∨ donor.kind ≠ .staging then
    throw "snapshots may only be shared between staging resources"
  if donor.name = current.name then throw "a staging resource cannot share its own snapshot"
  let sourceText (r : Resource) : String := (r.source.map GuestName.text).getD "None"
  if donor.source ≠ current.source then
    throw s!"{donor.name} is a copy of {sourceText donor}, not {sourceText current}"
  let source ← snapshotSource resources current
  match donor.proxmox.snapshot.bind fun s => (s.staging.filter (·.verified)).map (s, ·) with
  | none => throw s!"{donor.name} has no verified snapshot to share"
  | some (snapshot, staging) =>
    if some staging.sourceVolumeId ≠ source.proxmox.volumeId then
      throw "the shared snapshot's root volume is no longer the production volume"
    let liveHolders := (stagingSnapshotHolders resources source.name snapshot.name).filter
      (·.state ∉ snapshotReleasingStates)
    if liveHolders = [] then
      throw (s!"snapshot {quoted snapshot.name} is being released by its last " ++
        "staging guest and can no longer be shared")
    let metadata : Snapshot :=
      { snapshot with
        staging := some { staging with dependentResources := [current.name], refcount := 1 } }
    if current.proxmox.snapshot = some metadata then return ⟨[], current⟩
    if current.proxmox.snapshot.isSome then
      throw "staging resource already has a different snapshot dependency"
    checkRevision expectedRevision current
    if current.state ≠ .reserved then
      throw ("a shared snapshot may only be attached to a freshly reserved " ++
        "staging resource")
    saveUpdated py policy resources (current.withSnapshot (some metadata)) clock

/-! ## `update` -/

/-- The arguments of `update`. An inner `none` clears a field, and so does the empty list of
aliases. -/
structure UpdateArgs where
  expectedRevision : Option Int := none
  state : Option State := none
  placement : Option (List String) := none
  initialNode : Option String := none
  ownerNode : Option (Option String) := none
  routesEnabled : Option Bool := none
  purpose : Option String := none
  primaryDomain : Option String := none
  aliases : Option (List String) := none
  stagingDnsBase : Option String := none
  haNodes : Option (List String) := none
  replicationTargets : Option (List String) := none
  volumeId : Option (Option String) := none
  clearSnapshot : Bool := false
  snapshotName : Option String := none
  snapshotOwnerNode : Option String := none
  snapshotGuids : List String := []
  diskBytes : Option Int := none

/-- Something that is done with an argument, if it is given. -/
def withArg {α : Type} (arg : Option α) (r : Resource) (f : α → Except String Resource) :
    Except String Resource :=
  match arg with
  | none => .ok r
  | some a => f a

section

variable (policy : Policy) (resources : List Resource) (current : Resource) (args : UpdateArgs)

/-- Copies of a guest. -/
def dependents : List Resource := resources.filter (·.source = some current.name)

def updateState (r : Resource) : Except String Resource :=
  withArg args.state r fun state =>
    if state = current.state then .ok r
    else if state ∉ stateTransitions current.kind current.state then
      .error (s!"invalid {current.kind.text} state transition " ++ s!"{current.state} -> {state}")
    else .ok { r with state }

def updatePlacement (r : Resource) : Except String Resource :=
  withArg args.placement r fun nodes => do
    let placement ← validateNodes policy.limits.maxHosts (flattenNodes nodes) false false
    let first ← ofOption placement.head? "at least one placement node is required"
    if current.kind = .staging ∧ placement.length ≠ 1 then
      throw "staging placement must contain exactly one node"
    let initialNode := if r.initialNode ∈ placement then r.initialNode else first
    if r.ownerNode.any (· ∉ placement) then
      throw "clear or change owner before removing it from placement"
    return { r with placement, initialNode }

def updateInitialNode (r : Resource) : Except String Resource :=
  withArg args.initialNode r fun node => do
    let initialNode ← ofOption (nodeIn r.placement node) "initial node must belong to placement"
    return { r with initialNode }

def updateOwnerNode (r : Resource) : Except String Resource :=
  withArg args.ownerNode r fun
    | none => .ok { r with ownerNode := none }
    | some node => do
      let ownerNode ← ofOption (nodeIn r.placement node) "owner node must belong to placement"
      return { r with ownerNode := some ownerNode }

def updateRoutes (r : Resource) : Except String Resource :=
  withArg args.routesEnabled r fun routesEnabled => do
    if routesEnabled ∧ r.state ∉ routableStates then
      throw "routes may only be enabled in stopped, ready, or active state"
    return { r with routesEnabled }

def updatePurpose (r : Resource) : Except String Resource :=
  withArg args.purpose r fun purpose => do
    if current.kind ≠ .production then
      throw "staging purpose is inherited from its production source"
    if dependents resources current ≠ [] then
      throw "cannot change purpose while staging dependents exist"
    let slug ← normalizePurpose py purpose
    return { r with purpose := { r.purpose with slug } }

def updatePrimaryDomain (r : Resource) : Except String Resource :=
  withArg args.primaryDomain r fun domain => do
    let primary ← normalizeDomain py domain
    return { r with domains := { r.domains with primary } }

def updateAliases (r : Resource) : Except String Resource :=
  withArg args.aliases r fun values => do
    let aliases ← normalizeDomains py values
    if r.domains.primary ∈ aliases then throw "primary domain may not also be an alias"
    return { r with domains := { r.domains with aliases } }

def updateStagingBase (r : Resource) : Except String Resource :=
  withArg args.stagingDnsBase r fun domain => do
    if current.kind ≠ .production then
      throw "only production resources define a staging DNS base"
    if dependents resources current ≠ [] then
      throw "cannot change staging DNS base while staging dependents exist"
    let stagingBase ← normalizeDomain py domain
    return { r with domains := { r.domains with stagingBase } }

def updateHaNodes (r : Resource) : Except String Resource :=
  withArg args.haNodes r fun nodes => do
    let haNodes ← validateNodes policy.limits.maxHosts (flattenNodes nodes) true false
    if current.kind = .staging ∧ haNodes ≠ [] then
      throw "staging resources may not be HA-managed"
    if haNodes.any (· ∉ r.placement) then throw "HA nodes must be contained in placement"
    return { r with proxmox := { r.proxmox with haNodes } }

def updateReplicationTargets (r : Resource) : Except String Resource :=
  withArg args.replicationTargets r fun nodes => do
    let replicationTargets ← validateNodes policy.limits.maxHosts (flattenNodes nodes) true false
    if replicationTargets.any (· ∉ r.placement) then
      throw "replication targets must be contained in placement"
    return { r with proxmox := { r.proxmox with replicationTargets } }

def checkVolume (volumeId : Option String) : Except String Unit := do
  if current.kind = .production then
    let holders := resources.filter fun r =>
      r.kind = .staging ∧ r.source = some current.name ∧ r.proxmox.snapshot.isSome
    if holders ≠ [] ∧ volumeId ≠ current.proxmox.volumeId then
      throw ("cannot change production volume while staging snapshot " ++
        "dependencies exist: " ++ Text.join ", " (holders.map (·.name.text)))

def updateVolume (r : Resource) : Except String Resource :=
  withArg args.volumeId r fun volumeId => do
    let volumeId ← volumeId.mapM (validateSafeIdentifier · "volume id")
    checkVolume resources current volumeId
    return { r with proxmox := { r.proxmox with volumeId } }

def baseSnapshot (r : Resource) : Except String Snapshot :=
  match r.proxmox.snapshot with
  | some snapshot => .ok snapshot
  | none => do
    match args.snapshotName, args.snapshotOwnerNode with
    | some name, some node =>
      let name ← validateSnapshotName name
      let ownerNode ← ofOption (nodeIn r.placement node) "snapshot owner must belong to placement"
      return { name, ownerNode, guids := [], staging := none }
    | _, _ =>
      throw "new snapshot metadata requires --snapshot-name and --snapshot-owner-node"

def UpdateArgs.snapshotGiven (args : UpdateArgs) : Bool :=
  args.snapshotName.isSome || args.snapshotOwnerNode.isSome || args.snapshotGuids ≠ []

def updateSnapshotName (snapshot : Snapshot) : Except String String :=
  match args.snapshotName with
  | some name => validateSnapshotName name
  | none => .ok snapshot.name

def updateSnapshotOwner (r : Resource) (snapshot : Snapshot) : Except String HostSlot :=
  match args.snapshotOwnerNode with
  | some node => ofOption (nodeIn r.placement node) "snapshot owner must belong to placement"
  | none => .ok snapshot.ownerNode

def updateSnapshot (r : Resource) : Except String Resource :=
  if args.clearSnapshot then .ok (r.withSnapshot none)
  else if !args.snapshotGiven then .ok r
  else do
    let snapshot ← baseSnapshot args r
    let name ← updateSnapshotName args snapshot
    let ownerNode ← updateSnapshotOwner args r snapshot
    let guids ← parseSnapshotGuids args.snapshotGuids
    return r.withSnapshot (some { snapshot with
      name, ownerNode
      guids := guids.foldl (fun merged (node, guid) => merged.insert node guid) snapshot.guids })

def updateDiskBytes (r : Resource) : Except String Resource :=
  withArg args.diskBytes r fun diskBytes => do
    if current.kind ≠ .production then
      throw "only production root disk sizes may be updated"
    if diskBytes % mib ≠ 0 then throw "--disk-bytes must be a whole number of MiB"
    let currentBytes := effectiveDiskBytes current.spec
    if diskBytes ≤ currentBytes then
      throw ("--disk-bytes may only grow the registered root disk " ++
        s!"(currently {currentBytes} bytes)")
    return { r with spec := { r.spec with diskBytes := some diskBytes } }

def UpdateArgs.changes (args : UpdateArgs) (current : Resource) : Bool :=
  args.state.any (· ≠ current.state) || args.placement.isSome || args.initialNode.isSome ||
    args.ownerNode.isSome || args.routesEnabled.isSome || args.purpose.isSome ||
    args.primaryDomain.isSome || args.aliases.isSome || args.stagingDnsBase.isSome ||
    args.haNodes.isSome || args.replicationTargets.isSome || args.volumeId.isSome ||
    args.clearSnapshot || args.snapshotGiven || args.diskBytes.isSome

end

def update (name : GuestName) (args : UpdateArgs) (clock : Int) :
    Except String (Outcome Resource) := do
  let policy ← reg.policy
  let resources ← reg.resources py
  let current ← existing resources name
  checkRevision args.expectedRevision current
  let updated ← updateState current args current
  let updated ← updatePlacement policy current args updated
  let updated ← updateInitialNode args updated
  let updated ← updateOwnerNode args updated
  let updated ← updateRoutes args updated
  let updated ← updatePurpose py resources current args updated
  let updated ← updatePrimaryDomain py args updated
  let updated ← updateAliases py args updated
  let updated ← updateStagingBase py resources current args updated
  let updated ← updateHaNodes policy current args updated
  let updated ← updateReplicationTargets policy args updated
  let updated ← updateVolume resources current args updated
  let updated ← updateSnapshot args updated
  let updated ← updateDiskBytes current args updated
  if !args.changes current then throw "update did not specify any changes"
  saveUpdated py policy resources updated clock

end Bmac.Registry
