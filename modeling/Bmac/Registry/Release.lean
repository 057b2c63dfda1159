import Bmac.Registry.Allocate

/-!
# Releasing guests

`release`, `defer-cleanup` and `finalize-staging-cleanup` of `cluster_registry.py`, and `reconcile
--apply`, which completes cleanups.
-/

namespace Bmac.Registry

open Bmac.Base Bmac.Core

variable (py : Python) (digests : Digests) (reg : Registry)

def archiveOps (resource : Resource) (forced : Bool) (clock : Int) (entropy : Uuid) : List Op :=
  reg.pruneHistory (maxHistoryRecords - 1) ++
    [.writeHistory (historyName (utcNow clock) resource.name.text entropy)
        (.release (utcNow clock) forced resource),
      .removeResource resource.name]

def notClear (resource : Resource) : Bool :=
  resource.ownerNode.isSome || resource.proxmox.volumeId.isSome ||
    resource.proxmox.snapshot.isSome || resource.proxmox.haNodes ≠ [] ||
    resource.proxmox.replicationTargets ≠ []

def checkReleaseLease (resource : Resource) (now : Int) : Except String Unit := do
  match reg.orchestrationFiles.get? resource.name with
  | none => pure ()
  | some orchestration =>
    validateOrchestration orchestration
    if orchestration.resourceId ≠ resource.id then
      throw "orchestration record belongs to an obsolete resource"
    if orchestration.lease.any (now < ·.expiresAt) then
      throw "cannot release a resource with an active orchestration lease"

/-- The records that keep a guest from being released. -/
def checkReleasable (resources : List Resource) (cleanupRecords : List Cleanup)
    (resource : Resource) : Except String Unit := do
  let dependents := resources.filter (·.source = some resource.name)
  if dependents ≠ [] then
    throw (s!"cannot release {resource.name}; staging dependents exist: " ++
      Text.join ", " (dependents.map (·.name.text)))
  let pending := cleanupRecords.filter fun c => c.resourceId = resource.id ∧ c.state = .pending
  if pending ≠ [] then
    throw (s!"cannot release {resource.name}; deferred cleanup is pending: " ++
      Text.join ", " (pending.map (·.id)))

/-- What a release asks of a guest itself, unless it is forced. -/
def checkClear (resource : Resource) : Except String Unit := do
  if resource.state ∉ releaseStates then
    throw (s!"state {resource.state} is not releasable; transition to a " ++
      "stopped/failed/cleanup state or use --force")
  if resource.routesEnabled then throw "disable routes before releasing the resource"
  if notClear resource then
    throw ("clear owner, volume, snapshot, HA, and replication metadata " ++
      "before releasing; use --force only after external verification")

/-- The clock is read at `now`, and for the history at `later`. -/
def release (name : GuestName) (force : Bool) (now later : Int) (entropy : Uuid) :
    Except String (Outcome GuestName) := do
  let _ ← reg.policy
  let resources ← reg.resources py
  let cleanupRecords ← reg.cleanupRecords
  let resource ← ofOption (named resources name) s!"resource does not exist: {name}"
  checkReleaseLease reg resource now
  checkReleasable resources cleanupRecords resource
  if !force then checkClear resource
  let remaining := (resources.filter (·.id ≠ resource.id)).map (·.id)
  return ⟨archiveOps reg resource force later entropy ++ [.removeOrchestration name] ++
    (← reg.pruneCompletedCleanup remaining), name⟩

structure DeferArgs where
  resource : GuestName
  node : String
  action : CleanupAction
  target : String
  reason : String

/-- What `defer-cleanup` answers. -/
structure Deferral where
  created : Bool
  cleanup : Cleanup

def cleanupId (identity : CleanupIdentity) : String :=
  "cleanup-" ++ String.ofList ((digests.cleanup identity).toList.take 24)

def deferCleanup (args : DeferArgs) (clock : Int) :
    Except String (Outcome (Except String Deferral)) := do
  let policy ← reg.policy
  let nodes ← validateNodes policy.limits.maxHosts [args.node] false false
  let node ← ofOption nodes.head? "at least one placement node is required"
  let target ← validateCleanupTarget args.action args.target
  if 240 < args.reason.length ∨ args.reason.toList.contains '\n' then
    throw "cleanup reason must be one line of at most 240 characters"
  let resources ← reg.resources py
  let resource ← ofOption (named resources args.resource)
    s!"cleanup resource is not registered: {args.resource}"
  let id := cleanupId digests ⟨args.resource, resource.id, node, args.action, target⟩
  match ← reg.cleanup? id with
  | some record => return ⟨[], .ok ⟨false, record⟩⟩
  | none =>
    let pruned ← reg.pruneCompletedCleanup (resources.map (·.id))
    if maxCleanupRecords ≤ (reg.applyAll pruned).cleanupFiles.length then
      return ⟨pruned,
        .error s!"deferred cleanup registry reached its {maxCleanupRecords}-record limit"⟩
    let record : Cleanup :=
      { id
        resource := args.resource
        resourceId := resource.id
        node
        action := args.action
        target
        reason := args.reason
        state := .pending
        attempts := 0
        createdAt := utcNow clock
        updatedAt := utcNow clock
        revision := 1 }
    validateCleanup record
    return ⟨pruned ++ [.writeCleanup record], .ok ⟨true, record⟩⟩

def isCompleted (owned : List Cleanup) (node : HostSlot) (action : CleanupAction)
    (target : String) : Bool :=
  owned.any fun c =>
    c.state = .completed && c.node = node && c.action = action && c.target = target

/-- The nodes on which an action isn't completed. -/
def incompleteNodes (owned : List Cleanup) (nodes : List HostSlot) (action : CleanupAction)
    (target : String) : List HostSlot :=
  nodes.filter fun node => !isCompleted owned node action target

def joinNodes (nodes : List HostSlot) : String := Text.join ", " (nodeTexts nodes)

def snapshotCleanupTarget (source : Resource) (snapshot : Snapshot) : String :=
  s!"vm-{source.vmid}@{snapshot.name}"

def checkCompleted (owned : List Cleanup) (source resource : Resource) : Except String Unit := do
  let routes := incompleteNodes owned source.placement .removeRoute resource.name.text
  if routes ≠ [] then throw s!"HAProxy route removal is incomplete on: {joinNodes routes}"
  match resource.ownerNode with
  | some owner =>
    if !isCompleted owned owner .destroyVm s!"vm:{resource.vmid}" then
      throw "registered staging VM ownership lacks completed destruction"
  | none => pure ()
  match resource.proxmox.volumeId with
  | some volumeId =>
    let owner ← ofOption (resource.ownerNode <|> resource.placement.head?)
      "staging placement must contain exactly one node"
    if !isCompleted owned owner .destroyVolume volumeId then
      throw "registered staging volume lacks completed destruction"
  | none => pure ()
  match resource.proxmox.snapshot with
  | some snapshot =>
    let missing := incompleteNodes owned source.placement .deleteSnapshot
      (snapshotCleanupTarget source snapshot)
    if missing ≠ [] then
      throw ("staging snapshot cleanup is incomplete on: " ++
        Text.join ", " ((nodeTexts missing).insertionSort (· ≤ ·)))
  | none => pure ()

/-- What `finalize-staging-cleanup` answers: whether the guest is released. -/
def finalizeStagingCleanup (name : GuestName) (resourceId : Uuid) (clock : Int) (entropy : Uuid) :
    Except String (Outcome Bool) := do
  let policy ← reg.policy
  let resources ← reg.resources py
  let cleanupRecords ← reg.cleanupRecords
  match named resources name with
  | none => return ⟨← reg.pruneCompletedCleanup (resources.map (·.id)), false⟩
  | some resource =>
    if resource.id ≠ resourceId then
      throw s!"resource identity changed for {name}; refusing cleanup finalization"
    if resource.kind ≠ .staging then throw "only staging resources may use cleanup finalization"
    if resource.state ≠ .cleanupPending then
      throw s!"{name} is {resource.state}, not cleanup_pending"
    if resource.routesEnabled then throw "staging routes must be disabled before finalization"
    let owned := cleanupRecords.filter (·.resourceId = resourceId)
    let pending := (owned.filter (·.state ≠ .completed)).map (·.id)
    if pending ≠ [] then
      throw ("deferred cleanup remains pending: " ++
        Text.join ", " (pending.insertionSort (· ≤ ·)))
    let source ← ofOption ((resource.source.bind (named resources)).filter (·.kind = .production))
      "staging cleanup source production is missing"
    checkCompleted owned source resource
    let remaining := resources.filter (·.id ≠ resourceId)
    validateRegistryInvariants remaining
    remaining.forM (validateResource py · policy)
    return ⟨archiveOps reg resource false clock entropy ++
      (← reg.pruneCompletedCleanup (remaining.map (·.id))), true⟩

/-! ## `reconcile --apply` -/

/-- The VMs of an observation, if it has that section, and the cleanups that are reported as
completed. Its other sections make issues only. -/
structure Applied where
  vms : Option (List Int) := none
  cleanupCompleted : List String := []

/-- A reservation that passed its TTL without a VM has failed. -/
def expireReservation (policy : Policy) (observed : Applied) (now clock : Int) (r : Resource) :
    Resource :=
  if observed.vms.any (r.vmid ∉ ·) ∧ r.state ∈ [State.reserved, .provisioning] ∧
      policy.limits.reservationTtlSeconds * second < now - r.createdAt ∧
      .failed ∈ stateTransitions r.kind r.state then
    { r with state := .failed, updatedAt := utcNow clock, revision := r.revision + 1 }
  else r

def completeCleanup (observed : Applied) (clock : Int) (c : Cleanup) : Cleanup :=
  if c.id ∈ observed.cleanupCompleted ∧ c.state ≠ .completed then
    { c with
      state := .completed, attempts := c.attempts + 1, updatedAt := utcNow clock
      revision := c.revision + 1 }
  else c

/-- The clock is read at `now`, and for the records at `clock`. -/
def reconcileApply (observed : Applied) (now clock : Int) : Except String (Outcome Unit) := do
  let policy ← reg.policy
  let resources ← reg.resources py
  let cleanupRecords ← reg.cleanupRecords
  let updatedResources := resources.map (expireReservation policy observed now clock)
  let updatedCleanup := cleanupRecords.map (completeCleanup observed clock)
  validateRegistryInvariants updatedResources
  updatedResources.forM (validateResource py · policy)
  updatedCleanup.forM validateCleanup
  let ops := ((updatedResources.filter (· ∉ resources)).map Op.writeResource) ++
    (updatedCleanup.filter (· ∉ cleanupRecords)).map Op.writeCleanup
  let pruned ← (reg.applyAll ops).pruneCompletedCleanup (updatedResources.map (·.id))
  return ⟨ops ++ pruned, ()⟩

end Bmac.Registry
