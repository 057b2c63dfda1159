import Bmac.Registry.Files

/-!
# Guests that differ from what runs

`reconcile_report` of `cluster_registry.py` for the nodes, the VMs and the volumes of an observation,
and `live` of `bmac-registry/src/reconcile.rs`, which makes the same checks natively.
-/

namespace Bmac.Registry

open Bmac.Base Bmac.Core

structure ObservedVm where
  name : String
  node : String
  status : String
  mac : Option String
  tags : List String
  volumeIds : List String

/-- The nodes, whether each is online, and the VMs that exist. -/
structure Observed where
  nodes : Table String Bool
  vms : Table Int ObservedVm

namespace Observed

/-- The volumes: those of the VMs. -/
def volumes (observed : Observed) : List String :=
  (observed.vms.values.flatMap (·.volumeIds)).dedup

end Observed

inductive Severity where
  | error | warning
  deriving DecidableEq

def Severity.rank : Severity → Nat
  | error => 0
  | warning => 1

structure Issue where
  severity : Severity
  code : String
  resource : String
  message : String
  deriving DecidableEq

/-- Errors first, then by code and resource. -/
def Issue.before (a b : Issue) : Prop :=
  a.severity.rank < b.severity.rank ∨ a.severity.rank = b.severity.rank ∧
    (a.code < b.code ∨ a.code = b.code ∧ a.resource ≤ b.resource)

instance : DecidableRel Issue.before := fun _ _ => by
  unfold Issue.before
  infer_instance

def sortIssues (issues : List Issue) : List Issue := issues.insertionSort Issue.before

/-- `sorted` texts. -/
def sorted (texts : List String) : List String := texts.insertionSort (· ≤ ·)

/-- An issue, if something holds. -/
def issueIf (c : Prop) [Decidable c] (severity : Severity) (code : String) (r : Resource)
    (message : String) : List Issue :=
  if c then [⟨severity, code, r.name.text, message⟩] else []

/-- The nodes of a guest that weren't observed, in the order of its placement. -/
def missingNodes (observed : Observed) (r : Resource) : List String :=
  (nodeTexts r.placement).filter fun node => observed.nodes.get? node = none

def offlineNodes (observed : Observed) (r : Resource) : List String :=
  (nodeTexts r.placement).filter fun node => observed.nodes.get? node = some false

def requiredTags (policy : Policy) (r : Resource) : List String :=
  match r.kind with
  | .production => [policy.tags.production]
  | .staging => [policy.tags.staging, policy.tags.evictable]

/-! ## `reconcile_report` -/

def validateObservedNode (policy : Policy) (node : String) : Except String Unit := do
  let _ ← validateNodes policy.limits.maxHosts [node] false false

def validateObservedVm (policy : Policy) (vm : ObservedVm) : Except String Unit := do
  let _ ← validateSafeIdentifier vm.name "observed VM name"
  validateObservedNode policy vm.node
  let _ ← validateSafeIdentifier vm.status "observed VM status"
  -- `str.lower` of what `MAC_RE` accepts, which is ASCII.
  if vm.mac.any fun mac => !isMac (Text.toLower mac) then throw "observed VM MAC is invalid"
  vm.volumeIds.forM fun volumeId => do
    let _ ← validateSafeIdentifier volumeId "observed VM volume id"

def validateObserved (policy : Policy) (observed : Observed) : Except String Unit := do
  observed.nodes.forM fun (node, _) => validateObservedNode policy node
  observed.vms.forM fun (_, vm) => validateObservedVm policy vm
  observed.volumes.forM fun volumeId => do
    let _ ← validateSafeIdentifier volumeId "observed volume id"

/-- `RESOURCE_RE`. -/
def isResourceText (s : String) : Bool :=
  let prod (s : String) : Bool := (Text.stripStart "prod" s).any Text.positiveDecimal
  prod s || (Text.stripStart "stage" s).any fun rest =>
    (Text.splitBefore "prod".toList rest.toList).any fun (digits, source) =>
      Text.positiveDecimal (String.ofList digits) && prod (String.ofList source)

section

variable (policy : Policy) (observed : Observed) (now : Int)

def reconcileVm (r : Resource) (vm : ObservedVm) : List Issue :=
  let missing := sorted ((requiredTags policy r).dedup.filter (· ∉ vm.tags))
  issueIf (vm.name ≠ r.name.text) .error "vm-name-mismatch" r "VM name differs from registry" ++
  issueIf (vm.mac.any fun mac => Text.toLower mac ≠ r.mac) .error "vm-mac-mismatch" r
    "VM MAC differs from registry" ++
  issueIf (vm.node ∉ nodeTexts r.placement) .error "vm-placement-mismatch" r
    s!"VM is on {vm.node}, outside placement" ++
  issueIf (missing ≠ []) .error "vm-tag-mismatch" r
    ("VM is missing required tags: " ++ Text.join ", " missing) ++
  issueIf (r.state = .active ∧ vm.status ≠ "running") .error "vm-status-mismatch" r
    "active registry resource is not running"

/-- The issues of a guest without a VM. -/
def reconcileAbsent (r : Resource) : List Issue :=
  if r.state ∈ [State.reserved, .provisioning] ∧
      policy.limits.reservationTtlSeconds * second < now - r.createdAt then
    issueIf True .error "stale-reservation" r "reservation exceeded policy TTL and no VM exists"
  else
    issueIf (r.state ∉ [State.reserved, .provisioning, .failed]) .error "vm-missing" r
      s!"registered {r.state} resource has no observed VM"

/-- The issues of a guest. -/
def reconcileResource (r : Resource) : List Issue :=
  let missing := sorted (missingNodes observed r).dedup
  let offline := sorted (offlineNodes observed r)
  issueIf (missing ≠ []) .error "placement-node-missing" r
    ("placement nodes absent from Proxmox API: " ++ Text.join ", " missing) ++
  issueIf (offline ≠ []) .warning "placement-node-offline" r
    ("placement nodes reported offline: " ++ Text.join ", " offline) ++
  (observed.vms.get? r.vmid).elim (reconcileAbsent policy now r) (reconcileVm policy r) ++
  r.proxmox.volumeId.elim [] fun volumeId =>
    issueIf (volumeId ∉ observed.volumes) .error "volume-missing" r s!"volume {volumeId} is absent"

/-- VMs that are named like guests and aren't registered. -/
def unregisteredGuests (rs : List Resource) : List Issue :=
  (observed.vms.filter fun (vmid, vm) =>
      vmid ∉ rs.map (·.vmid) ∧ isResourceText vm.name).map fun (vmid, vm) =>
    ⟨.warning, "unregistered-guest", vm.name,
      s!"observed orchestration-shaped VM {vm.name} ({vmid}) is unregistered"⟩

/-- `reconcile_report` without `apply`: the issues. -/
def reconcileReport (py : Python) (rs : List Resource) : Except String (List Issue) := do
  validateObserved policy observed
  validateRegistryInvariants rs
  rs.forM (validateResource py · policy)
  return sortIssues (rs.flatMap (reconcileResource policy observed now) ++
    unregisteredGuests observed rs)

end

/-! ## `live` -/

/-- `jiff::Timestamp::as_millisecond`. -/
def asMillisecond (time : Int) : Int := time.tdiv 1000

/-- What `parse::<jiff::Timestamp>` and `as_millisecond` make of a time's text, which is not past jiff's last
timestamp, 9999-12-30T22:00:00.999999999Z. -/
def parsedMillisecond (time : Int) : Option Int :=
  if time < 253402207201 * second then some (asMillisecond time) else none

/-- A `u64` `as i64`. -/
def asI64 (n : Int) : Int := if n < 2 ^ 63 then n else n - 2 ^ 64

def eqIgnoreAsciiCase (a b : String) : Bool := Text.toLower a = Text.toLower b

section

variable (policy : Policy) (observed : Observed) (nowMs : Int)

def liveVm (r : Resource) (vm : ObservedVm) : List Issue :=
  let absent := ((requiredTags policy r).filter (· ∉ vm.tags)).insertionSort (· ≤ ·)
  issueIf (vm.name ≠ r.name.text) .error "vm-name-mismatch" r "VM name differs from registry" ++
  issueIf (vm.mac.any fun mac => !eqIgnoreAsciiCase mac r.mac) .error "vm-mac-mismatch" r
    "VM MAC differs from registry" ++
  issueIf (vm.node ∉ nodeTexts r.placement) .error "vm-placement-mismatch" r
    s!"VM is on {vm.node}, outside placement" ++
  issueIf (absent ≠ []) .error "vm-tag-mismatch" r
    ("VM is missing required tags: " ++ Text.join ", " absent) ++
  issueIf (r.state = .active ∧ vm.status ≠ "running") .error "vm-status-mismatch" r
    "active registry resource is not running"

/-- The issues of a guest without a VM. -/
def liveAbsent (r : Resource) : List Issue :=
  let created := (parsedMillisecond r.createdAt).getD nowMs
  let ageSeconds := (nowMs - created).tdiv 1000
  let reserving := r.state = .reserved ∨ r.state = .provisioning
  if reserving ∧ asI64 policy.limits.reservationTtlSeconds < ageSeconds then
    issueIf True .error "stale-reservation" r "reservation exceeded policy TTL and no VM exists"
  else
    issueIf (¬reserving ∧ r.state ≠ .failed) .error "vm-missing" r
      s!"registered {r.state} resource has no observed VM"

/-- The issues of a guest. -/
def liveResource (r : Resource) : List Issue :=
  let missing := missingNodes observed r
  let offline := offlineNodes observed r
  issueIf (missing ≠ []) .error "placement-node-missing" r
    ("placement nodes absent from Proxmox API: " ++ Text.join ", " missing) ++
  issueIf (offline ≠ []) .warning "placement-node-offline" r
    ("placement nodes reported offline: " ++ Text.join ", " offline) ++
  (observed.vms.get? r.vmid).elim (liveAbsent policy nowMs r) (liveVm policy r) ++
  r.proxmox.volumeId.elim [] fun volumeId =>
    issueIf (volumeId ∉ observed.volumes) .error "volume-missing" r s!"volume {volumeId} is absent"

def live (rs : List Resource) : List Issue :=
  sortIssues (rs.flatMap (liveResource policy observed nowMs))

end

end Bmac.Registry
