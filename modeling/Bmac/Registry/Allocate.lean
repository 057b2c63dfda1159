import Bmac.Registry.Files

/-!
# Allocating guests

`init`, `allocate-prod` and `allocate-staging` of `cluster_registry.py`. A name, a number and an
address are the lowest free ones.
-/

namespace Bmac.Registry

open Bmac.Base Bmac.Core

/-- The arguments of `add_spec_arguments`. -/
structure SpecArgs where
  cores : Option Int := none
  memoryMb : Option Int := none
  diskGib : Option Int := none
  diskAllocation : Option DiskAllocation := none
  storage : Option String := none
  replicationInterval : Option String := none

/-- What a request's fingerprint is made of. -/
inductive Request where
  | production (vmid : Int) (purpose primary : String) (aliases : List String)
      (stagingBase : String) (placement : List HostSlot) (initialNode : HostSlot) (spec : Spec)
  | staging (source : GuestName) (vmid : Int) (domain : Option String)
      (placement : List HostSlot) (spec : Spec)
  deriving DecidableEq

structure CleanupIdentity where
  resource : GuestName
  resourceId : Uuid
  node : HostSlot
  action : CleanupAction
  target : String
  deriving DecidableEq

/-- The hex SHA-256 of canonical JSON. -/
structure Digests where
  /-- `request_fingerprint`. -/
  request : Request → String
  cleanup : CleanupIdentity → String

variable (py : Python) (digests : Digests) (reg : Registry)

def deterministicMac (registryId : Uuid) (name : GuestName) : String :=
  let digest := (py.sha256 (registryId.text ++ "\x00" ++ name.text)).take 6
  let digest := match digest with
    | [] => []
    | first :: rest => ((first ||| 2) &&& 0xfe) :: rest
  Text.join ":" (digest.map fun part => Text.hex 2 part.toNat)

def effectiveSpec (args : SpecArgs) (policy : Policy) (kind : Kind) : Except String Spec := do
  let defaults := match kind with
    | .production => policy.defaults.production
    | .staging => policy.defaults.staging
  let spec : Spec :=
    { cores := args.cores.getD defaults.cores
      memoryMb := args.memoryMb.getD defaults.memoryMb
      diskGib := args.diskGib.getD defaults.diskGib
      diskAllocation := args.diskAllocation.getD defaults.diskAllocation
      replicationInterval := args.replicationInterval.getD defaults.replicationInterval
      storage := args.storage.getD defaults.storage
      diskBytes := none }
  validateSpec spec
  return spec

def named (resources : List Resource) (name : GuestName) : Option Resource :=
  resources.find? (·.name = name)

def nodeIn (nodes : List HostSlot) (node : String) : Option HostSlot :=
  nodes.find? (·.text = node)

def findIdempotentAllocation (resources : List Resource) (allocationId : Option String)
    (fingerprint : String) (kind : Kind) : Except String (Option Resource) :=
  match allocationId with
  | none => .ok none
  | some allocationId =>
    match resources.find? (·.allocationId = some allocationId) with
    | none => .ok none
    | some resource =>
      if resource.kind ≠ kind ∨ resource.requestFingerprint ≠ fingerprint then
        .error s!"allocation id {quoted allocationId} was already used for a different request"
      else .ok (some resource)

/-- What a new record is made of; the rest of it is always the same. -/
structure NewResource where
  kind : Kind
  name : GuestName
  index : Nat
  source : Option GuestName
  vmid : Int
  ip : Nat
  purpose : Purpose
  domains : Domains
  placement : List HostSlot
  initialNode : HostSlot
  spec : Spec
  allocationId : Option String
  fingerprint : String

def baseResource (policy : Policy) (r : NewResource) (id : Uuid) (clock : Int) : Resource where
  id := id
  allocationId := r.allocationId
  requestFingerprint := r.fingerprint
  kind := r.kind
  name := r.name
  index := r.index
  source := r.source
  vmid := r.vmid
  ip := r.ip
  mac := deterministicMac py policy.registryId r.name
  state := .reserved
  purpose := r.purpose
  domains := r.domains
  placement := r.placement
  initialNode := r.initialNode
  ownerNode := none
  routesEnabled := false
  spec := r.spec
  proxmox := {}
  createdAt := utcNow clock
  updatedAt := utcNow clock
  revision := 1

/-- What an allocation answers. -/
structure Allocation where
  created : Bool
  resource : Resource

/-- A new record, once it and the records with it are valid. -/
def register (policy : Policy) (resources : List Resource) (resource : Resource) :
    Except String (Outcome Allocation) := do
  validateResource py resource policy
  validateRegistryInvariants (resources ++ [resource])
  return ⟨[.writeResource resource], true, resource⟩

/-- `init`: whether the policy is new. -/
def initRegistry (args : InitArgs) (id : Uuid) (clock : Int) : Except String (Outcome Bool) := do
  if reg.policyFile.isSome then
    let _ ← reg.policy
    return ⟨[], false⟩
  let policy ← buildPolicy args id clock
  return ⟨[.writePolicy policy], true⟩

structure AllocateProdArgs where
  vmid : Int
  purpose : String
  primaryDomain : String
  alias_ : List String := []
  stagingDnsBase : Option String := none
  placement : List String
  initialNode : Option String := none
  allocationId : Option String := none
  spec : SpecArgs := {}

/-- A text that is given and isn't empty. -/
def given (text : Option String) : Option String := text.filter (· ≠ "")

def allocateProd (args : AllocateProdArgs) (id : Uuid) (clock : Int) :
    Except String (Outcome Allocation) := do
  let policy ← reg.policy
  let placement ← validateNodes policy.limits.maxHosts (flattenNodes args.placement) false false
  let initialNode ← ofOption
    (match given args.initialNode with
      | some node => nodeIn placement node
      | none => placement.head?)
    "initial node must belong to production placement"
  let purposeSlug ← normalizePurpose py args.purpose
  let primary ← normalizeDomain py args.primaryDomain
  let aliases ← normalizeDomains py args.alias_
  if primary ∈ aliases then throw "primary domain may not also be an alias"
  let stagingBase ←
    normalizeDomain py ((given args.stagingDnsBase).getD s!"staging.{primary}")
  if stagingBase ∈ primary :: aliases then
    throw "staging DNS base must differ from production routes"
  let allocationId ← normalizeAllocationId args.allocationId
  validateVmid args.vmid policy
  let spec ← effectiveSpec args.spec policy .production
  let fingerprint := digests.request
    (.production args.vmid purposeSlug primary aliases stagingBase placement initialNode spec)
  let resources ← reg.resources py
  match ← findIdempotentAllocation resources allocationId fingerprint .production with
  | some existing => return ⟨[], false, existing⟩
  | none =>
    let candidates := (List.range policy.limits.maxProduction.toNat).map (· + 1)
    let index ← ofOption
      (candidates.find? fun index => (named resources (.production index)).isNone)
      "production allocation range is exhausted"
    let net := policy.network
    register py policy resources (baseResource py policy
      { kind := .production
        name := .production index
        index
        source := none
        vmid := args.vmid
        ip := net.cidr.address + net.productionRange.start + index - 1
        purpose := ⟨purposeSlug, none⟩
        domains := ⟨primary, aliases, stagingBase⟩
        placement, initialNode, spec, allocationId, fingerprint } id clock)

structure AllocateStagingArgs where
  source : GuestName
  vmid : Int
  placement : List String
  placementLimit : Int
  domain : Option String := none
  allocationId : Option String := none
  spec : SpecArgs := {}

/-- `stageNprodM`; a source's name is `prodM`. -/
def stagingName (suffix : Nat) : GuestName → GuestName
  | .production number => .staging suffix number
  | .staging _ number => .staging suffix number

def allocateStaging (args : AllocateStagingArgs) (id : Uuid) (clock : Int) :
    Except String (Outcome Allocation) := do
  let policy ← reg.policy
  let placement ← validateNodes policy.limits.maxHosts (flattenNodes args.placement) false true
  let node ← ofOption placement.head? "exactly one placement node is required"
  validateVmid args.vmid policy
  let allocationId ← normalizeAllocationId args.allocationId
  let resources ← reg.resources py
  let source ← ofOption ((named resources args.source).filter (·.kind = .production))
    s!"staging source is not a registered production guest: {args.source}"
  if node ∉ source.placement then
    throw "staging node must belong to source production placement"
  if source.ownerNode = some node then
    throw "staging node may not be the source production owner"
  let requestedDomain ← (given args.domain).mapM (normalizeDomain py)
  let spec ← effectiveSpec args.spec policy .staging
  if args.spec.storage.any (· ≠ source.spec.storage) then
    throw s!"staging clones live on their source's storage, {source.spec.storage}"
  let spec := { spec with storage := source.spec.storage }
  let fingerprint :=
    digests.request (.staging source.name args.vmid requestedDomain placement spec)
  match ← findIdempotentAllocation resources allocationId fingerprint .staging with
  | some existing => return ⟨[], false, existing⟩
  | none =>
    if args.placementLimit ≤ 0 then throw "staging placement limit must be positive"
    let placed := (resources.filter fun r => r.kind = .staging ∧ r.placement = placement).length
    if args.placementLimit ≤ placed then
      throw (s!"{node} already has {placed} registered staging " ++
        s!"guests (limit {args.placementLimit})")
    let copies := resources.filter fun r => r.kind = .staging ∧ r.source = some source.name
    let suffixes := (List.range args.placementLimit.toNat).map (· + 1)
    let suffix ← ofOption (suffixes.find? fun suffix : Nat => copies.all (·.index ≠ suffix))
      (s!"stage number range 1-{args.placementLimit} is exhausted " ++
        s!"for source {source.name}")
    let name := stagingName suffix source.name
    let domain ← match requestedDomain with
      | some domain => pure domain
      | none => normalizeDomain py s!"{name}.{source.domains.primary}"
    let net := policy.network
    let octets := (List.range net.stagingRange.count).map (net.stagingRange.start + ·)
    let ip ← ofOption
      ((octets.map (net.cidr.address + ·)).find? fun ip => resources.all (·.ip ≠ ip))
      "staging IP allocation range is exhausted"
    register py policy resources (baseResource py policy
      { kind := .staging
        name
        index := suffix
        source := some source.name
        vmid := args.vmid
        ip
        purpose := ⟨source.purpose.slug, some source.name⟩
        domains := ⟨domain, [], source.domains.stagingBase⟩
        placement
        initialNode := node
        spec, allocationId, fingerprint } id clock)

end Bmac.Registry
