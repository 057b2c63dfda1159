import Bmac.Registry.Files

/-!
# Host slots

`host-sync`, `host-reserve`, `host-release` and `control-set` of `cluster_registry.py`: the slots of
the cluster's hosts, and which of them is the control node.
-/

namespace Bmac.Registry

open Bmac.Base Bmac.Core

variable (py : Python) (reg : Registry)

/-- A single node of a command's arguments. -/
def validateOneNode (policy : Policy) (node : String) : Except String HostSlot := do
  let nodes ← validateNodes policy.limits.maxHosts [node] false false
  ofOption nodes.head? "at least one placement node is required"

def newSlot (node : HostSlot) (state : HostState) (now : Int) : HostRecord :=
  { node, state, createdAt := now, updatedAt := now, revision := 1 }

def memberSlot (now : Int) (node : HostSlot) : Option HostRecord → Option HostRecord
  | none => some (newSlot node .member now)
  | some record =>
    if record.state = .joining then
      some { record with state := .member, updatedAt := now, revision := record.revision + 1 }
    else none

/-- `host-sync`; `members` are the live cluster members or those of the arguments. -/
def hostSync (members : List String) (clock : Int) :
    Except String (Outcome (List HostSlot)) := do
  let policy ← reg.policy
  let members ← validateNodes policy.limits.maxHosts members false false
  let slots ← reg.hostSlots
  let records := (members.insertionSort (·.number ≤ ·.number)).filterMap fun node =>
    memberSlot (utcNow clock) node (slots.find? (·.node = node))
  records.forM (validateHostSlot · policy)
  return ⟨records.map .writeHost, members⟩

/-- `host-reserve`: whether the slot is new. -/
def hostReserve (node : String) (allowMember : Bool) (clock : Int) :
    Except String (Outcome Bool) := do
  let policy ← reg.policy
  let node ← validateOneNode policy node
  match reg.hostFiles.get? node with
  | some record =>
    validateHostSlot record policy
    if record.state = .member ∧ !allowMember then
      throw s!"{node} is already a cluster member slot"
    return ⟨[], false⟩
  | none =>
    let record := newSlot node .joining (utcNow clock)
    validateHostSlot record policy
    return ⟨[.writeHost record], true⟩

def nodeReferences (node : HostSlot) (resources : List Resource)
    (cleanupRecords : List Cleanup) : List String :=
  (resources.filter fun r =>
      node ∈ r.placement ∨ node = r.initialNode ∨ some node = r.ownerNode ∨
        node ∈ r.proxmox.haNodes ∨ node ∈ r.proxmox.replicationTargets ∨
        r.proxmox.snapshot.any fun s => node = s.ownerNode ∨ (s.guids.get? node.text).isSome).map
      (·.name.text) ++
    (cleanupRecords.filter fun c => c.node = node ∧ c.state = .pending).map (·.id)

/-- `host-release`: whether there was a slot. -/
def hostRelease (node : String) (reason : String) (expectedState : Option HostState) (clock : Int)
    (entropy : Uuid) : Except String (Outcome Bool) := do
  let policy ← reg.policy
  let node ← validateOneNode policy node
  if 240 < reason.length ∨ reason.toList.contains '\n' then
    throw "release reason must be one line of at most 240 characters"
  match reg.hostFiles.get? node with
  | none => return ⟨[], false⟩
  | some record =>
    validateHostSlot record policy
    let shown (state : HostState) : String := if state = .member then "member" else "joining"
    match expectedState with
    | some expected =>
      if record.state ≠ expected then
        throw s!"{node} slot is {shown record.state}, not {shown expected}"
    | none => pure ()
    let control ← reg.clusterControl
    if control.any (·.controlNode = node) then
      throw (s!"{node} is the cluster control node; set a new control " ++
        "node before releasing its slot")
    let references := nodeReferences node (← reg.resources py) (← reg.cleanupRecords)
    if references ≠ [] then
      throw (s!"cannot release {node}; registry records still reference it: " ++
        Text.join ", " references)
    return ⟨reg.pruneHistory (maxHistoryRecords - 1) ++
      [.writeHistory (historyName (utcNow clock) node.text entropy)
          (.hostRelease (utcNow clock) reason record),
        .removeHost node], true⟩

/-- The control record with a node, unless it has it already. -/
def writeControlNode (policy : Policy) (node : HostSlot) (now : Int) :
    Option Control → Except String (Outcome Control)
  | some control => do
    if control.controlNode = node then return ⟨[], control⟩
    let updated :=
      { control with controlNode := node, updatedAt := now, revision := control.revision + 1 }
    validateClusterControl updated policy
    return ⟨[.writeControl updated], updated⟩
  | none => do
    let control : Control := ⟨node, now, now, 1⟩
    validateClusterControl control policy
    return ⟨[.writeControl control], control⟩

/-- `control-set`; `expected` is a node's name or `none`. -/
def controlSet (node : String) (expected : Option String) (clock : Int) :
    Except String (Outcome Control) := do
  let policy ← reg.policy
  let node ← validateOneNode policy node
  let slots ← reg.hostSlots
  if !(slots.find? (·.node = node)).any (·.state = .member) then
    throw s!"{node} is not a recorded cluster member slot; run host-sync first"
  let current ← reg.clusterControl
  let found := current.elim "none" (·.controlNode.text)
  match expected with
  | some expected =>
    if found ≠ expected then
      throw s!"cluster control node changed: expected {expected}, found {found}"
  | none => pure ()
  writeControlNode policy node (utcNow clock) current

end Bmac.Registry
