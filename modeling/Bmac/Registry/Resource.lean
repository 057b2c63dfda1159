import Mathlib.Data.String.Basic
import Bmac.Core.Table
import Bmac.Registry.Policy

/-!
# Guests of the registry

The resource records of `cluster_registry.py`: their states, their fields and `validate_resource`.
-/

namespace Bmac.Registry

open Bmac.Base Bmac.Core

inductive Kind where
  | production | staging
  deriving DecidableEq

def Kind.text : Kind → String
  | production => "production"
  | staging => "staging"

inductive State where
  | reserved | provisioning | snapshotting | replicating | cloning | patching | stopped | ready
  | active | stopping | cleanupPending | failed
  deriving DecidableEq

namespace State

def text : State → String
  | reserved => "reserved"
  | provisioning => "provisioning"
  | snapshotting => "snapshotting"
  | replicating => "replicating"
  | cloning => "cloning"
  | patching => "patching"
  | stopped => "stopped"
  | ready => "ready"
  | active => "active"
  | stopping => "stopping"
  | cleanupPending => "cleanup_pending"
  | failed => "failed"

instance : ToString State := ⟨text⟩

end State

def stateTransitions : Kind → State → List State
  | .production, .reserved => [.provisioning, .failed, .cleanupPending]
  | .production, .provisioning => [.stopped, .replicating, .failed, .cleanupPending]
  | .production, .replicating => [.stopped, .ready, .failed, .cleanupPending]
  | .production, .stopped =>
    [.provisioning, .replicating, .ready, .active, .failed, .cleanupPending]
  | .production, .ready => [.active, .stopped, .failed, .cleanupPending]
  | .production, .active => [.stopping, .stopped, .failed]
  | .production, .stopping => [.stopped, .failed, .cleanupPending]
  | .production, .failed => [.provisioning, .stopped, .cleanupPending]
  | .production, .cleanupPending => [.failed]
  | .production, _ => []
  | .staging, .reserved => [.snapshotting, .cloning, .failed, .cleanupPending]
  | .staging, .snapshotting => [.replicating, .cloning, .failed, .cleanupPending]
  | .staging, .replicating => [.cloning, .failed, .cleanupPending]
  | .staging, .cloning => [.patching, .failed, .cleanupPending]
  | .staging, .patching => [.stopped, .ready, .failed, .cleanupPending]
  | .staging, .stopped => [.ready, .active, .failed, .cleanupPending]
  | .staging, .ready => [.active, .stopped, .failed, .cleanupPending]
  | .staging, .active => [.stopping, .stopped, .failed]
  | .staging, .stopping => [.stopped, .failed, .cleanupPending]
  | .staging, .failed => [.snapshotting, .cloning, .patching, .stopped, .cleanupPending]
  | .staging, .cleanupPending => [.failed]
  | .staging, _ => []

def releaseStates : List State := [.reserved, .stopped, .failed, .cleanupPending]
def routableStates : List State := [.stopped, .ready, .active]

structure Purpose where
  slug : String
  sourceResource : Option GuestName
  deriving DecidableEq

structure Domains where
  primary : String
  aliases : List String
  stagingBase : String
  deriving DecidableEq

def Domains.routed (d : Domains) : List String := d.primary :: d.aliases

/-- The fields of a snapshot that only a staging guest's has. -/
structure StagingSnapshot where
  sourceResource : GuestName
  sourceVolumeId : String
  sourceVolumeIds : List String
  volumeGuids : Table String (Table String String)
  verified : Bool
  dependentResources : List GuestName
  refcount : Int
  deriving DecidableEq

/-- The GUIDs are keyed by the nodes' names. -/
structure Snapshot where
  name : String
  ownerNode : HostSlot
  guids : Table String String
  staging : Option StagingSnapshot
  deriving DecidableEq

structure Proxmox where
  haNodes : List HostSlot := []
  replicationTargets : List HostSlot := []
  volumeId : Option String := none
  snapshot : Option Snapshot := none
  deriving DecidableEq

structure Resource where
  id : Uuid
  allocationId : Option String
  requestFingerprint : String
  kind : Kind
  name : GuestName
  index : Int
  source : Option GuestName
  vmid : Int
  ip : Nat
  mac : String
  state : State
  purpose : Purpose
  domains : Domains
  placement : List HostSlot
  initialNode : HostSlot
  ownerNode : Option HostSlot
  routesEnabled : Bool
  spec : Spec
  proxmox : Proxmox
  createdAt : Int
  updatedAt : Int
  revision : Int
  deriving DecidableEq

/-! ## What callers choose -/

namespace Snapshot

def keys (s : Snapshot) : List String :=
  s.guids.map (·.1) ++ s.staging.elim [] fun st =>
    st.volumeGuids.map (·.1) ++ st.volumeGuids.flatMap fun e => e.2.map (·.1)

def texts (s : Snapshot) : List String :=
  s.name :: s.staging.elim [] fun st => st.sourceVolumeId :: st.sourceVolumeIds

end Snapshot

namespace Resource

def keys (r : Resource) : List String := r.proxmox.snapshot.elim [] Snapshot.keys

def texts (r : Resource) : List String :=
  r.allocationId.toList ++ [r.purpose.slug] ++ r.domains.routed ++ [r.domains.stagingBase,
    r.spec.storage] ++ r.proxmox.volumeId.toList ++ r.proxmox.snapshot.elim [] Snapshot.texts

end Resource

/-! ## Validation -/

def validateVmid (vmid : Int) (policy : Policy) : Except String Unit := do
  if vmid < 100 ∨ 999999999 < vmid then throw "VMID must be between 100 and 999999999"
  let reserved := policy.network.haproxyVmidRange
  if reserved.start ≤ vmid ∧ vmid ≤ reserved.stop then
    throw (s!"VMID {vmid} is reserved for fixed HAProxy LXCs " ++
      s!"({reserved.start}-{reserved.stop})")

def sameSet (a b : List String) : Bool := a.all (b.contains ·) && b.all (a.contains ·)

def nodeTexts (nodes : List HostSlot) : List String := nodes.map HostSlot.text

/-- A guest's nodes are ones that the policy allows, each once. -/
def validateSlots (policy : Policy) (nodes : List HostSlot) (allowEmpty : Bool) :
    Except String (List HostSlot) :=
  validateNodes policy.limits.maxHosts (nodeTexts nodes) allowEmpty false

def validateVolumeGuids (policy : Policy) (guids : Table String String) (s : StagingSnapshot) :
    Except String Unit := do
  if !sameSet (s.volumeGuids.map (·.1)) s.sourceVolumeIds then
    throw "verified staging snapshot GUIDs must cover every source volume"
  s.volumeGuids.forM fun (volumeId, nodeGuids) => do
    if nodeGuids = [] then throw s!"snapshot GUIDs for {volumeId} must be a non-empty object"
    nodeGuids.forM fun (node, guid) => do
      let _ ← validateNode policy.limits.maxHosts node
      if !isGuid guid then throw s!"snapshot GUID metadata is invalid for {volumeId}"
    if (nodeGuids.map (·.2)).dedup.length ≠ 1 then
      throw s!"snapshot GUID differs between nodes for {volumeId}"
  if s.volumeGuids.get? s.sourceVolumeId ≠ some guids then
    throw "root snapshot GUIDs must match the root volume GUID map"

def validateStagingSnapshot (policy : Policy) (r : Resource) (guids : Table String String)
    (s : StagingSnapshot) : Except String Unit := do
  if some s.sourceResource ≠ r.source then
    throw "staging snapshot source must match the resource source"
  let _ ← validateSafeIdentifier s.sourceVolumeId "snapshot source volume id"
  if s.sourceVolumeIds = [] ∨ ¬s.sourceVolumeIds.Nodup then
    throw "staging snapshot source volumes must be a non-empty unique array"
  s.sourceVolumeIds.forM fun volumeId => do
    let _ ← validateSafeIdentifier volumeId "snapshot source volume id"
  if s.sourceVolumeId ∉ s.sourceVolumeIds then
    throw "staging root source volume must be among snapshotted volumes"
  if s.verified then validateVolumeGuids policy guids s
  else if guids ≠ [] ∨ s.volumeGuids ≠ [] then
    throw "unverified staging snapshot intent may not claim GUIDs"
  if s.dependentResources ≠ [r.name] then
    throw "a unique staging snapshot must name its one dependent resource"
  if s.refcount ≠ 1 then throw "a unique staging snapshot refcount must be exactly one"

def validateSnapshot (policy : Policy) (r : Resource) (s : Snapshot) : Except String Unit := do
  -- `require_exact_keys`: a staging guest's snapshot has all the fields, a production guest's three.
  if s.staging.isSome ≠ (r.kind = .staging) then throw "snapshot metadata has unknown fields"
  let _ ← validateSnapshotName s.name
  let _ ← validateNode policy.limits.maxHosts s.ownerNode.text
  if r.kind = .production ∧ s.ownerNode ∉ r.placement then
    throw "snapshot owner node must belong to placement"
  s.guids.forM fun (node, guid) => do
    let slot ← validateNode policy.limits.maxHosts node
    if (r.kind = .production ∧ slot ∉ r.placement) ∨ !isGuid guid then
      throw "snapshot GUID metadata is invalid"
  s.staging.forM (validateStagingSnapshot policy r s.guids)

def validateKind (policy : Policy) (r : Resource) (octet : Nat) : Except String Unit :=
  match r.kind, r.name with
  | .production, .production number => do
    if r.source ≠ none then throw "production resource has staging identity"
    if (number : Int) ≠ r.index then throw "production resource index does not match its name"
    let range := policy.network.productionRange
    let expected : Int := range.start + r.index - 1
    if range.stop < expected ∨ (octet : Int) ≠ expected then
      throw "production resource name/IP formula is invalid"
    if r.purpose.sourceResource ≠ none then
      throw "production purpose may not have a source resource"
  | .production, .staging _ _ => throw "production resource has staging identity"
  | .staging, .production _ => throw "staging source/name relationship is invalid"
  | .staging, .staging number source => do
    if r.source ≠ some (.production source) then
      throw "staging source/name relationship is invalid"
    if (number : Int) ≠ r.index then throw "staging index does not match its name"
    if !policy.network.stagingRange.contains octet then
      throw "staging IP is outside its configured range"
    if r.purpose.sourceResource ≠ r.source then
      throw "staging purpose source does not match source resource"
    if r.placement.length ≠ 1 then throw "staging placement must contain exactly one node"
    if r.proxmox.haNodes ≠ [] then throw "staging resources may not have HA nodes"

/-- `RESOURCE_RE` on a name: its numbers don't begin with a zero. -/
def isResourceName : GuestName → Bool
  | .production number => 0 < number
  | .staging number source => 0 < number && 0 < source

variable (py : Python)

def validateDomains (d : Domains) : Except String Unit := do
  let primary ← normalizeDomain py d.primary
  if primary ≠ d.primary then throw "resource primary domain is not normalized"
  let aliases ← normalizeDomains py d.aliases
  if aliases ≠ d.aliases ∨ primary ∈ aliases then
    throw "resource aliases are not normalized and unique"
  let stagingBase ← normalizeDomain py d.stagingBase
  if stagingBase ≠ d.stagingBase then throw "resource staging base is not normalized"
  if stagingBase ∈ primary :: aliases then
    throw "resource staging base must differ from routed domains"

def validateProxmox (policy : Policy) (r : Resource) : Except String Unit := do
  let proxmox := r.proxmox
  let haNodes ← validateSlots policy proxmox.haNodes true
  let targets ← validateSlots policy proxmox.replicationTargets true
  if (haNodes ++ targets).any (· ∉ r.placement) then
    throw "Proxmox HA/replication metadata exceeds placement"
  proxmox.volumeId.forM fun volumeId => do
    let _ ← validateSafeIdentifier volumeId "volume id"
  proxmox.snapshot.forM (validateSnapshot policy r)

def validateResource (r : Resource) (policy : Policy) : Except String Unit := do
  let _ ← normalizeAllocationId r.allocationId
  if !isSha256 r.requestFingerprint then throw "resource request fingerprint is invalid"
  if r.index ≤ 0 then throw "resource index must be a positive integer"
  if !isResourceName r.name then throw s!"invalid resource name: {quoted r.name.text}"
  validateVmid r.vmid policy
  let net := policy.network.cidr
  if !net.contains r.ip then throw "resource IP is outside policy network"
  if !isMac r.mac then throw "resource MAC is invalid or not normalized"
  if r.revision < 1 then throw "resource revision must be positive"
  let _ ← normalizePurpose py r.purpose.slug
  validateDomains py r.domains
  let placement ← validateSlots policy r.placement false
  if r.initialNode ∉ placement then throw "resource initial node must belong to placement"
  if r.ownerNode.any (· ∉ placement) then throw "resource owner node must belong to placement"
  if r.routesEnabled ∧ r.state ∉ routableStates then
    throw "routes may only be enabled for stopped, ready, or active guests"
  validateSpec r.spec
  validateProxmox policy r
  validateKind policy r (r.ip - net.address)
  rejectSecretMaterial r.keys r.texts s!"resource {r.name}"

/-- `resource_sort_key`: production first, then by number. -/
def resourceSortKey (r : Resource) : Nat × Nat × String :=
  let number := match r.name with
    | .production number => number
    | .staging number _ => number
  (if r.kind = .production then 0 else 1, number, r.name.text)

end Bmac.Registry
