import Bmac.Base.Prog
import Bmac.Haproxy.Routes
import Bmac.Registry.Records

/-!
# Rolling out a generation

`rollout_generation` of `sync_haproxy_routes.sh`: the coordinator stages a generation on every online
node, closes the nodes that can't keep serving theirs, makes the generation the desired one, and then
installs it on one node after another. A call of the program is one remote or registry step.
-/

namespace Bmac.Haproxy

open Bmac.Base Bmac.Core Bmac.Registry

/-- What `ingress-status` answers. -/
structure IngressStatus where
  desired : Option String
  nodes : List NodeStatus
  activeAllowances : List Allowance

inductive Call where
  /-- `node_generation_is_current` -/
  | isCurrent (node : HostSlot) (generation : String)
  /-- `stage_node` -/
  | stage (node : HostSlot)
  /-- `prune_node_generations` -/
  | prune (node : HostSlot)
  /-- the online nodes of a quorate cluster whose coordinator this is -/
  | online
  /-- `disable_ingress_node` -/
  | disable (node : HostSlot)
  /-- `ingress-status` -/
  | status
  /-- `node_ingress_facts` -/
  | facts (node : HostSlot)
  /-- `fetch_node_generation` -/
  | fetch (node : HostSlot) (generation : String)
  /-- `ingress-begin` -/
  | publish (allowances : List (HostSlot × String))
  /-- `mark_ingress_state` -/
  | mark (node : HostSlot) (state : NodeState)
  /-- `install_node` -/
  | install (node : HostSlot)
  /-- the second part of `enable_ingress_node` -/
  | load (node : HostSlot)
  /-- `ingress-finalize` -/
  | finalize

/-- Whether a call succeeded, or what it answered. `publish` answers whether there is a transition. -/
abbrev Reply : Call → Type
  | .online => Option (List HostSlot)
  | .status => Option IngressStatus
  | .facts _ => Option (Option String × Option String)
  | .fetch _ _ => Option (List ServedRoute)
  | .publish _ => Option Bool
  | _ => Bool

/-- A program that can end with `die`. -/
abbrev Script := Prog Call Reply String

def ask (c : Call) : Script (Reply c) := Prog.ask c

def die {α : Type} (message : String) : Script α := Prog.fail message

/-- A target node: whether it has still to commit the generation, and the generation that it may
serve until then. -/
structure Target where
  node : HostSlot
  needsCommit : Bool
  compatible : Option String := none

/-- `assert_coordinator_online_and_quorate`: the online nodes. -/
def assertCoordinator : Script (List HostSlot) := do
  match ← ask .online with
  | some nodes => return nodes
  | none => die "Coordinator is not in the expected quorate cluster"

variable (generation : String)

/-- A node's part of the staging loop. -/
def stageTarget (node : HostSlot) : Script (Bool × List String) := do
  if ← ask (.isCurrent node generation) then return (false, [])
  if ← ask (.stage node) then
    if ← ask (.prune node) then return (true, [])
    return (false, [s!"{node}: staged generation pruning failed"])
  return (false, [s!"{node}: staging failed"])

def stageTargets : List HostSlot → Script (List Target × List String)
  | [] => return ([], [])
  | node :: nodes => do
    let (needsCommit, failures) ← stageTarget generation node
    let (targets, others) ← stageTargets nodes
    return (⟨node, needsCommit, none⟩ :: targets, failures ++ others)

/-- `verify_target_membership`; `hosts` is every node that there can be. -/
def verifyTargetMembership (hosts targets : List HostSlot) : Script Unit := do
  let online ← assertCoordinator
  Prog.forEach (fun node =>
    if node ∈ online then
      if node ∈ targets then pure ()
      else do
        let _ ← ask (.disable node)
        die s!"{node} came online after staging and was forced reject-only"
    else if node ∈ targets then die s!"{node} went offline after staging"
    else pure ()) hosts

def servingIsAuthorized (node : HostSlot) (serving : String) (status : IngressStatus) : Bool :=
  (status.desired = some serving && status.nodes.any fun r =>
      r.node = node && some r.desiredGeneration = status.desired &&
        r.appliedGeneration = status.desired && r.state = .applied) ||
    status.activeAllowances.any fun a =>
      a.node = node && (a.generation = serving || status.desired = some serving)

variable (candidate : List ServedRoute)

def selectCompatiblePredecessor (node : HostSlot) (status : IngressStatus) :
    Script (Option String) := do
  match ← ask (.facts node) with
  | some (some enabled, active) =>
    if active ≠ some enabled ∨ enabled = generation then return none
    if !servingIsAuthorized node enabled status then return none
    if !status.nodes.any fun r =>
        r.node = node && r.appliedGeneration = some enabled && r.state ≠ .rejectOnly then
      return none
    if ← ask (.isCurrent node enabled) then
      match ← ask (.fetch node enabled) with
      | some previous =>
        if (compareGenerations previous candidate).compatible then return some enabled
        return none
      | none => return none
    return none
  | _ => return none

def classifyTarget (status : Option IngressStatus) (t : Target) : Script Target := do
  match status with
  | some status =>
    if t.needsCommit then
      return { t with
        compatible := ← selectCompatiblePredecessor generation candidate t.node status }
    return t
  | none => return t

def classifyTargets (status : Option IngressStatus) : List Target → Script (List Target)
  | [] => return []
  | t :: ts => do
    let t ← classifyTarget generation candidate status t
    let ts ← classifyTargets status ts
    return t :: ts

/-- A stale node that can't keep serving its generation is closed. -/
def closeTarget (t : Target) : Script (List String) := do
  if t.needsCommit ∧ t.compatible = none then
    if ← ask (.disable t.node) then return []
    return [s!"{t.node}: stale ingress could not be disabled"]
  return []

def closeTargets : List Target → Script (List String)
  | [] => return []
  | t :: ts => do
    let failures ← closeTarget t
    return failures ++ (← closeTargets ts)

/-- `publish_desired_generation`; whether there is a transition. -/
def publishDesired (targets : List Target) : Script Bool := do
  let _ ← assertCoordinator
  let allowances := targets.filterMap fun t => t.compatible.map fun previous => (t.node, previous)
  match ← ask (.publish allowances) with
  | some transition => return transition
  | none => die "Registry did not confirm the desired ingress generation"

/-- `enable_ingress_node`. -/
def enableIngress (node : HostSlot) : Script Bool := do
  if ← ask (.isCurrent node generation) then ask (.load node)
  else return false

def rejectNode (node : HostSlot) (mark : Bool) (failure : String) : Script (List String) := do
  let _ ← ask (.disable node)
  if mark then
    let _ ← ask (.mark node .rejectOnly)
  return [failure]

/-- What follows a node's commit: it is marked as applied, pruned and opened. -/
def serveTarget (t : Target) (unmarked unpruned unopened : String) : Script (List String) := do
  if ← ask (.mark t.node .applied) then
    if ← ask (.prune t.node) then
      if ← enableIngress generation t.node then return []
      rejectNode t.node true s!"{t.node}: {unopened}"
    else rejectNode t.node true s!"{t.node}: {unpruned}"
  else rejectNode t.node false s!"{t.node}: {unmarked}"

def markTarget (t : Target) : Script (List String) := do
  if t.needsCommit then
    if ← ask (.mark t.node .staged) then return []
    return [s!"{t.node}: staged state could not be persisted"]
  serveTarget generation t "current applied state could not be persisted"
    "generation pruning failed" "current ingress could not be enabled"

def markTargets : List Target → Script (List String)
  | [] => return []
  | t :: ts => do
    let failures ← markTarget generation t
    return failures ++ (← markTargets ts)

/-- A node whose generation could not be installed: a compatible one that serves its earlier
generation again stays open. -/
def failedInstall (t : Target) : Script (List String) := do
  let failure := s!"{t.node}: generation commit or reload failed"
  match t.compatible with
  | some previous =>
    if ← ask (.isCurrent t.node previous) then
      return [failure ++ s!"; compatible {String.ofList (previous.toList.take 16)} remains live " ++
        "within its rollout window"]
    rejectNode t.node true failure
  | none => rejectNode t.node true failure

def commitTarget (t : Target) : Script (List String) := do
  if ← ask (.install t.node) then
    serveTarget generation t "applied status could not be committed"
      "generation pruning failed" "ingress enablement failed"
  else failedInstall t

def commitTargets : List Target → Script (List String)
  | [] => return []
  | t :: ts => do
    if !t.needsCommit then commitTargets ts
    else
      let online ← assertCoordinator
      if t.node ∉ online then return [s!"{t.node}: node went offline immediately before commit"]
      let failures ← commitTarget generation t
      return failures ++ (← commitTargets ts)

/-- `finalize_rollout`, when there are allowances. -/
def finalizeRollout (transition : Bool) : Script (List String) := do
  if transition then
    let _ ← assertCoordinator
    if ← ask .finalize then return []
    return ["rollout allowances could not be withdrawn"]
  return []

/-- Until the desired generation is the new one: the targets, or what failed. -/
def prepareRollout (hosts nodes : List HostSlot) : Script (List Target × List String) := do
  let (targets, failures) ← stageTargets generation nodes
  if failures ≠ [] then return (targets, failures)
  verifyTargetMembership hosts nodes
  let status ← ask .status
  let targets ← classifyTargets generation candidate status targets
  let failures ← closeTargets targets
  if failures ≠ [] then return (targets, failures)
  verifyTargetMembership hosts nodes
  return (targets, [])

/-- `rollout_generation`: what failed. -/
def rolloutGeneration (hosts nodes : List HostSlot) : Script (List String) := do
  let (targets, failures) ← prepareRollout generation candidate hosts nodes
  if failures ≠ [] then return failures
  let transition ← publishDesired targets
  let failures ← markTargets generation targets
  if failures ≠ [] then return failures
  let failures ← commitTargets generation targets
  if failures ≠ [] then return failures
  finalizeRollout transition

end Bmac.Haproxy
