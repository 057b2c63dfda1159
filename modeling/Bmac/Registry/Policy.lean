import Bmac.Base.Checks
import Bmac.Registry.Checks

/-!
# The registry's policy

`build_policy`, `validate_policy` and `validate_spec` of `cluster_registry.py`. A range is one of
offsets from the network's address. The transitions between states that a policy repeats are those of
`stateTransitions`, and stay out of it here.
-/

namespace Bmac.Registry

open Bmac.Base Bmac.Core

def maxHosts : Int := 32
def minPolicyPrefix : Nat := 16
def maxPolicyPrefix : Nat := 24

structure Range where
  start : Nat
  stop : Nat
  deriving DecidableEq

namespace Range

/-- Its number of values. -/
def count (r : Range) : Nat := r.stop + 1 - r.start

def contains (r : Range) (n : Nat) : Bool := r.start ≤ n && n ≤ r.stop

/-- The sets of values of two ascending ranges meet. -/
def overlaps (r s : Range) : Bool := r.start ≤ s.stop && s.start ≤ r.stop

end Range

def haproxyVmidRange : Range := ⟨9111, 9110 + 32⟩

inductive DiskAllocation where
  | sparse | reserved
  deriving DecidableEq

structure Spec where
  cores : Int
  memoryMb : Int
  diskGib : Int
  diskAllocation : DiskAllocation
  replicationInterval : String
  storage : String
  /-- The exact size of a root disk that was grown. -/
  diskBytes : Option Int
  deriving DecidableEq

def mib : Int := 1024 * 1024
def gib : Int := 1024 * mib
def maxDiskBytes : Int := 1024 * 1024 * gib

def validateSpec (spec : Spec) : Except String Unit := do
  if spec.cores ≤ 0 then throw "resource spec cores must be a positive integer"
  if spec.memoryMb ≤ 0 then throw "resource spec memory_mb must be a positive integer"
  if spec.diskGib ≤ 0 then throw "resource spec disk_gib must be a positive integer"
  if !Text.positiveDecimal spec.replicationInterval then
    throw "replication interval must be a positive minute count"
  if !isStorageId spec.storage then
    throw "resource spec storage must be a Proxmox storage id"
  if spec.diskBytes.any fun bytes =>
      bytes % mib ≠ 0 ∨ bytes ≤ spec.diskGib * gib ∨ maxDiskBytes < bytes then
    throw "resource spec disk_bytes must be a whole-MiB byte count larger than disk_gib"

def effectiveDiskBytes (spec : Spec) : Int := spec.diskBytes.getD (spec.diskGib * gib)

structure PolicyNetwork where
  cidr : Network
  /-- An address, and the length of its network. -/
  guestGateway : Nat × Nat
  moxHostRange : Range
  haproxyRange : Range
  productionRange : Range
  stagingRange : Range
  haproxyVmidRange : Range
  deriving DecidableEq

structure Limits where
  maxHosts : Int
  maxProduction : Int
  maxStaging : Int
  reservationTtlSeconds : Int
  deriving DecidableEq

structure Tags where
  production : String
  staging : String
  evictable : String
  deriving DecidableEq

structure Defaults where
  production : Spec
  staging : Spec
  deriving DecidableEq

structure Policy where
  registryId : Uuid
  network : PolicyNetwork
  limits : Limits
  tags : Tags
  defaults : Defaults
  createdAt : Int
  deriving DecidableEq

namespace PolicyNetwork

def ranges (net : PolicyNetwork) : List (String × Range) :=
  [("mox_host_range", net.moxHostRange), ("haproxy_range", net.haproxyRange),
    ("production_range", net.productionRange), ("staging_range", net.stagingRange)]

end PolicyNetwork

def checkOverlaps (prefix_ : String) : List (String × Range) → Except String Unit
  | [] => .ok ()
  | (name, range) :: rest =>
    match rest.find? fun other => range.overlaps other.2 with
    | some other => .error s!"{prefix_}{name} and {other.1} overlap"
    | none => checkOverlaps prefix_ rest

def validateTags (tags : Tags) : Except String Unit := do
  let _ ← validateSafeIdentifier tags.production "production tag"
  let _ ← validateSafeIdentifier tags.staging "staging tag"
  let _ ← validateSafeIdentifier tags.evictable "evictable tag"
  if ¬[tags.production, tags.staging, tags.evictable].Nodup then
    throw "policy tags must be distinct"

def isPolicyNetwork (net : Network) : Bool :=
  minPolicyPrefix ≤ net.len && net.len ≤ maxPolicyPrefix

/-- Whether an offset is a usable host's. -/
def isUsable (net : Network) (octet : Nat) : Bool := 1 ≤ octet && octet ≤ net.size - 2

def Policy.texts (policy : Policy) : List String :=
  [policy.tags.production, policy.tags.staging, policy.tags.evictable, policy.defaults.production.storage,
    policy.defaults.staging.storage]

def validatePolicy (policy : Policy) : Except String Unit := do
  let net := policy.network
  if !isPolicyNetwork net.cidr ∨
      Network.around net.guestGateway.1 net.guestGateway.2 ≠ net.cidr then
    throw ("policy network and guest gateway must share an IPv4 network " ++
      s!"from /{minPolicyPrefix} to /{maxPolicyPrefix}")
  net.ranges.forM fun (name, range) =>
    if ¬(1 ≤ range.start ∧ range.start ≤ range.stop ∧ range.stop ≤ net.cidr.size - 2) then
      throw s!"policy {name} is not a usable host-offset range"
    else pure ()
  if net.haproxyVmidRange ≠ haproxyVmidRange then
    throw s!"policy haproxy_vmid_range must be {haproxyVmidRange.start}-{haproxyVmidRange.stop}"
  checkOverlaps "policy " net.ranges
  let gatewayOctet := net.guestGateway.1 - net.cidr.address
  if !isUsable net.cidr gatewayOctet ∨ net.ranges.any (·.2.contains gatewayOctet) then
    throw "policy guest gateway is invalid or overlaps an allocation range"
  let limits := policy.limits
  if limits.maxHosts < 1 ∨ maxHosts < limits.maxHosts then
    throw s!"policy max_hosts must be between 1 and {maxHosts}"
  if net.moxHostRange.count < limits.maxHosts ∨ net.haproxyRange.count < limits.maxHosts then
    throw "policy host allocation ranges are too small"
  if limits.maxProduction ≠ net.productionRange.count ∨
      limits.maxStaging ≠ net.stagingRange.count then
    throw "policy allocation limits do not match IP ranges"
  if limits.reservationTtlSeconds < 60 then throw "policy reservation TTL is invalid"
  validateTags policy.tags
  validateSpec policy.defaults.production
  validateSpec policy.defaults.staging
  rejectSecretMaterial [] policy.texts "registry policy"

/-- The arguments of `init`. -/
structure InitArgs where
  network : String
  guestGateway : String
  moxIpStart : String
  moxIpEnd : String
  haproxyIpStart : String
  haproxyIpEnd : String
  productionIpStart : String
  productionIpEnd : String
  stagingIpStart : String
  stagingIpEnd : String
  maxHosts : Int
  tags : Tags
  reservationTtlSeconds : Int
  prodCores : Int
  prodMemoryMb : Int
  prodDiskGib : Int
  prodDiskAllocation : DiskAllocation
  prodStorage : String
  stagingCores : Int
  stagingMemoryMb : Int
  stagingDiskGib : Int
  replicationInterval : String

def addressOctet (net : Network) (value label : String) : Except String Nat := do
  match Ipv4.parse value with
  | none => throw s!"invalid {label}"
  | some address =>
    if !net.contains address then throw s!"{label} must belong to the policy network"
    let octet := address - net.address
    if !isUsable net octet then throw s!"{label} must be a usable host address"
    return octet

def parseRange (net : Network) (name start stop : String) : Except String Range := do
  let first ← addressOctet net start s!"{name} start"
  let last ← addressOctet net stop s!"{name} end"
  if last < first then throw s!"{name} must be an ascending range"
  return ⟨first, last⟩

/-- `build_policy`; `id` is the registry's new id. -/
def buildPolicy (args : InitArgs) (id : Uuid) (now : Int) : Except String Policy := do
  let net ← ofOption (ipNetwork args.network) "invalid policy network"
  let gateway ← ofOption (ipInterface args.guestGateway) "invalid policy network"
  if !isPolicyNetwork net then
    throw s!"policy network must be an IPv4 /{minPolicyPrefix} to /{maxPolicyPrefix}"
  if Network.around gateway.1 gateway.2 ≠ net then
    throw "guest gateway must belong to the policy network"
  if args.maxHosts < 1 ∨ maxHosts < args.maxHosts then
    throw s!"max hosts must be between 1 and {maxHosts}"
  if args.reservationTtlSeconds < 60 then
    throw "reservation TTL must be at least 60 seconds"
  let mox ← parseRange net "mox_host_range" args.moxIpStart args.moxIpEnd
  let haproxy ← parseRange net "haproxy_range" args.haproxyIpStart args.haproxyIpEnd
  let production ← parseRange net "production_range" args.productionIpStart args.productionIpEnd
  let staging ← parseRange net "staging_range" args.stagingIpStart args.stagingIpEnd
  let network : PolicyNetwork := ⟨net, gateway, mox, haproxy, production, staging, haproxyVmidRange⟩
  checkOverlaps "" network.ranges
  let gatewayOctet := gateway.1 - net.address
  if !isUsable net gatewayOctet then throw "guest gateway must be a usable host address"
  if network.ranges.any (·.2.contains gatewayOctet) then
    throw "guest gateway overlaps an allocation range"
  if mox.count < args.maxHosts then throw "mox host range is smaller than max hosts"
  if haproxy.count < args.maxHosts then throw "HAProxy range is smaller than max hosts"
  validateTags args.tags
  let spec (cores memoryMb diskGib : Int) (allocation : DiskAllocation) : Spec :=
    ⟨cores, memoryMb, diskGib, allocation, args.replicationInterval, args.prodStorage, none⟩
  let policy : Policy :=
    { registryId := id
      network
      limits := ⟨args.maxHosts, production.count, staging.count, args.reservationTtlSeconds⟩
      tags := args.tags
      defaults :=
        { production :=
            spec args.prodCores args.prodMemoryMb args.prodDiskGib args.prodDiskAllocation
          staging := spec args.stagingCores args.stagingMemoryMb args.stagingDiskGib .sparse }
      createdAt := utcNow now }
  validatePolicy policy
  return policy

/-- A policy that `init` writes is a valid one. -/
theorem validatePolicy_of_build {args : InitArgs} {id : Uuid} {now : Int} {policy : Policy}
    (h : buildPolicy args id now = .ok policy) : validatePolicy policy = .ok () := by
  simp only [buildPolicy, bind_eq_ok, check_eq_ok, pure_eq_ok] at h
  obtain ⟨net, -, gateway, -, -, -, -, -, mox, -, haproxy, -, production, -, staging, -, -, -, -, -,
    -, -, -, -, _, hv, rfl⟩ := h
  exact hv

end Bmac.Registry
