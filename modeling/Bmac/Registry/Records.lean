import Bmac.Registry.Invariants

/-!
# The registry's other records

Cleanups, hosts, the control node, the ingress and the installs, with the checks of
`cluster_registry.py` on each.
-/

namespace Bmac.Registry

open Bmac.Base Bmac.Core

/-! ## Cleanups -/

inductive CleanupAction where
  | deleteSnapshot | destroyVm | destroyVolume | removeReplication | removeRoute
  deriving DecidableEq

inductive CleanupState where
  | pending | completed
  deriving DecidableEq

structure Cleanup where
  id : String
  resource : GuestName
  resourceId : Uuid
  node : HostSlot
  action : CleanupAction
  target : String
  reason : String
  state : CleanupState
  attempts : Nat
  createdAt : Int
  updatedAt : Int
  revision : Int
  deriving DecidableEq

/-- `VM_CLEANUP_TARGET_RE`. -/
def isVmTarget (target : String) : Bool :=
  (Text.stripStart "vm:" target).any Text.positiveDecimal

/-- `vm-N-disk-M`. -/
def isDiskText (disk : String) : Bool :=
  match (Text.stripStart "vm-" disk).map (Text.split '-') with
  | some [vmid, "disk", number] =>
    Text.positiveDecimal vmid && number ≠ "" && number.toList.all Text.isDigit
  | _ => false

/-- `VOLUME_CLEANUP_TARGET_RE`. -/
def isVolumeTarget (target : String) : Bool :=
  match Text.split ':' target with
  | [storage, disk] =>
    starts Text.isAlphanumeric (fun c => Text.isAlphanumeric c || "_.+-".toList.contains c) 63
      storage.toList && isDiskText disk
  | _ => false

/-- `SNAPSHOT_CLEANUP_TARGET_RE`: the snapshot's name. -/
def snapshotTarget (target : String) : Option String :=
  match Text.split '@' target with
  | [vm, snapshot] =>
    if (Text.stripStart "vm-" vm).any Text.positiveDecimal && isSnapshotText snapshot then
      some snapshot
    else none
  | _ => none

/-- `REPLICATION_CLEANUP_TARGET_RE`. -/
def isReplicationTarget (target : String) : Bool :=
  match Text.split '-' target with
  | [vmid, job] => Text.positiveDecimal vmid && job ≠ "" && job.toList.all Text.isDigit
  | _ => false

def validateCleanupTarget (action : CleanupAction) (value : String) : Except String String := do
  let target ← validateSafeIdentifier value "cleanup target"
  match action with
  | .destroyVm =>
    if !isVmTarget target then throw "destroy-vm cleanup target must be vm:VMID"
  | .destroyVolume =>
    if !isVolumeTarget target then
      throw "destroy-volume cleanup target must be STORAGE:vm-VMID-disk-N"
  | .deleteSnapshot =>
    match snapshotTarget target with
    | none =>
      let candidate := Text.join "@" ((Text.split '@' target).drop 1)
      if (Text.stripStart "__replicate_" candidate).isSome then
        let _ ← validateSnapshotName candidate
      throw "delete-snapshot cleanup target must be vm-VMID@SNAPSHOT"
    | some name => let _ ← validateSnapshotName name
  | .removeReplication =>
    if !isReplicationTarget target then throw "remove-replication cleanup target must be VMID-JOB"
  | .removeRoute =>
    if !(GuestName.parse target).any isResourceName then
      throw "remove-route cleanup target must be a resource name"
  return target

def validateCleanup (r : Cleanup) : Except String Unit := do
  let _ ← validateSafeIdentifier r.id "cleanup id"
  if !isResourceName r.resource then throw "cleanup resource name is invalid"
  let _ ← validateCleanupTarget r.action r.target
  if 240 < r.reason.length ∨ r.reason.toList.contains '\n' then throw "cleanup reason is invalid"
  if r.revision < 1 then throw "cleanup revision is invalid"
  rejectSecretMaterial [] [r.id, r.target, r.reason] "cleanup record"

/-! ## Hosts -/

inductive HostState where
  | joining | member
  deriving DecidableEq

structure HostRecord where
  node : HostSlot
  state : HostState
  createdAt : Int
  updatedAt : Int
  revision : Int
  deriving DecidableEq

def validateHostSlot (r : HostRecord) (policy : Policy) : Except String Unit := do
  let _ ← validateSlots policy [r.node] false
  if r.revision < 1 then throw "host slot revision must be positive"

structure Control where
  controlNode : HostSlot
  createdAt : Int
  updatedAt : Int
  revision : Int
  deriving DecidableEq

def validateClusterControl (r : Control) (policy : Policy) : Except String Unit := do
  let _ ← validateSlots policy [r.controlNode] false
  if r.revision < 1 then throw "cluster control revision must be positive"

/-! ## Ingress -/

structure Generation where
  generation : String
  bundleSha256 : String
  routeCount : Int
  createdAt : Int
  deriving DecidableEq

def validateGeneration (r : Generation) : Except String Unit := do
  let _ ← validateSha256 r.generation "ingress generation"
  let _ ← validateSha256 r.bundleSha256 "ingress bundle digest"
  if r.routeCount < 0 ∨ maxRoutes < r.routeCount then
    throw s!"ingress route_count must be between 0 and {maxRoutes}"

structure Desired where
  generation : String
  bundleSha256 : String
  routeCount : Int
  nodes : List HostSlot
  createdAt : Int
  updatedAt : Int
  revision : Int
  deriving DecidableEq

/-- `mox1` up to the policy's last host. -/
def expectedNodes (policy : Policy) : List HostSlot :=
  (List.range policy.limits.maxHosts.toNat).filterMap fun i => HostSlot.new (i + 1)

def validateDesired (r : Desired) (policy : Policy) : Except String Unit := do
  let _ ← validateSha256 r.generation "desired ingress generation"
  let _ ← validateSha256 r.bundleSha256 "desired ingress bundle digest"
  if r.routeCount < 0 ∨ maxRoutes < r.routeCount then
    throw s!"desired ingress route_count must be between 0 and {maxRoutes}"
  if r.nodes ≠ expectedNodes policy then
    throw "desired ingress nodes must contain every configured mox in order"
  if r.revision < 1 then throw "ingress desired revision must be a positive integer"
  if r.updatedAt < r.createdAt then throw "ingress desired updated_at predates created_at"

inductive NodeState where
  | pending | staged | applied | rejectOnly
  deriving DecidableEq

structure NodeStatus where
  node : HostSlot
  desiredGeneration : String
  appliedGeneration : Option String
  state : NodeState
  createdAt : Int
  updatedAt : Int
  revision : Int
  deriving DecidableEq

def validateNodeStatus (r : NodeStatus) (policy : Policy) : Except String Unit := do
  let _ ← validateNodes policy.limits.maxHosts [r.node.text] false true
  let _ ← validateSha256 r.desiredGeneration "node desired ingress generation"
  r.appliedGeneration.forM fun applied => do
    let _ ← validateSha256 applied "node applied ingress generation"
  if r.state = .applied ∧ r.appliedGeneration ≠ some r.desiredGeneration then
    throw "applied ingress node status must match its desired generation"
  if r.revision < 1 then throw "ingress node status revision must be positive"
  if r.updatedAt < r.createdAt then throw "ingress node status updated_at predates created_at"

structure Allowance where
  node : HostSlot
  generation : String
  expiresAt : Int
  deriving DecidableEq

structure Transition where
  generation : String
  allowances : List Allowance
  createdAt : Int
  updatedAt : Int
  revision : Int
  deriving DecidableEq

def validateTransition (r : Transition) (policy : Policy) : Except String Unit := do
  let _ ← validateSha256 r.generation "ingress transition generation"
  if r.allowances = [] then throw "ingress transition allowances must be a non-empty list"
  r.allowances.forM fun allowance => do
    let _ ← validateNodes policy.limits.maxHosts [allowance.node.text] false true
    let _ ← validateSha256 allowance.generation "allowed previous generation"
    if allowance.generation = r.generation then
      throw "an allowance must name a previous generation"
  if ¬(r.allowances.map (·.node.number)).Pairwise (· < ·) then
    throw "ingress transition allowances must be unique and ordered"
  if r.revision < 1 then throw "ingress transition revision must be positive"
  if r.updatedAt < r.createdAt then throw "ingress transition updated_at predates created_at"

/-! ## Installs -/

inductive InstallPhase where
  | unknown | unstarted | mediaAttached | installerStarted | installedConfirmed | guestVerified
  | networkFinalized
  deriving DecidableEq

namespace InstallPhase

def text : InstallPhase → String
  | unknown => "unknown"
  | unstarted => "unstarted"
  | mediaAttached => "media-attached"
  | installerStarted => "installer-started"
  | installedConfirmed => "installed-confirmed"
  | guestVerified => "guest-verified"
  | networkFinalized => "network-finalized"

instance : ToString InstallPhase := ⟨text⟩

end InstallPhase

def installPhaseTransitions : InstallPhase → List InstallPhase
  | .unknown => [.mediaAttached, .installedConfirmed]
  | .unstarted => [.mediaAttached, .installedConfirmed]
  | .mediaAttached => [.installerStarted]
  | .installerStarted => [.mediaAttached, .installedConfirmed]
  | .installedConfirmed => [.guestVerified]
  | .guestVerified => [.networkFinalized]
  | .networkFinalized => []

inductive InstallMode where
  | ubuntuAutoinstall | manual
  deriving DecidableEq

/-- `ORCHESTRATION_LEGACY_CONTRACT_KEYS`. -/
structure StartupContract where
  finalNetworkEnabled : Bool
  startupSha256 : Option String
  deriving DecidableEq

/-- The other `ORCHESTRATION_CONTRACT_KEYS`. -/
structure SourceContract where
  sourceIsoSha256 : String
  installMode : InstallMode
  deriving DecidableEq

structure Lease where
  nonce : String
  owner : String
  acquiredAt : Int
  expiresAt : Int
  deriving DecidableEq

structure Orchestration where
  resource : GuestName
  resourceId : Uuid
  installPhase : InstallPhase
  startup : Option StartupContract
  source : Option SourceContract
  lease : Option Lease
  createdAt : Int
  updatedAt : Int
  revision : Int
  deriving DecidableEq

def validateLease (lease : Lease) : Except String Unit := do
  if !isHexText 32 lease.nonce then throw "orchestration lease nonce is invalid"
  let _ ← validateSafeIdentifier lease.owner "orchestration lease owner"
  if lease.expiresAt ≤ lease.acquiredAt then
    throw "orchestration lease expiry must follow acquisition"

def validateOrchestration (r : Orchestration) : Except String Unit := do
  if r.source.isSome ∧ r.startup = none then
    throw "orchestration record has a partial VM contract"
  if !isResourceName r.resource then throw "orchestration record has an invalid resource name"
  if r.startup.any fun startup => startup.startupSha256.any fun sha => !isSha256 sha then
    throw "startup_sha256 must be lowercase SHA-256 or null"
  if r.source.any fun source => !isSha256 source.sourceIsoSha256 then
    throw "source_iso_sha256 must be lowercase SHA-256"
  if r.revision < 1 then throw "orchestration revision must be a positive integer"
  if r.updatedAt < r.createdAt then throw "orchestration updated_at predates created_at"
  r.lease.forM validateLease

end Bmac.Registry
