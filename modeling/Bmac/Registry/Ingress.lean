import Bmac.Registry.Files

/-!
# Ingress generations

The routes' generations in the registry: which one is desired, which one each node applied, and which
nodes may keep serving an earlier one while a new one is rolled out. `ingress-begin`, `-mark` and
`-finalize` of `cluster_registry.py`; a command that fails leaves what it wrote before.
-/

namespace Bmac.Registry

open Bmac.Base Bmac.Core

def minIngressCompatibleWindowSeconds : Int := 60
def maxIngressCompatibleWindowSeconds : Int := 3600
def maxIngressGenerations : Nat := 8

abbrev Command := EStateM String Registry

def write (op : Op) : Command Unit := modify (·.apply op)

def writeAll (ops : List Op) : Command Unit := ops.forM write

@[simp] theorem wp_write {op : Op} {Q : Unit → Registry → Prop} {E : String → Registry → Prop}
    {reg : Registry} : wp (write op) Q E reg = Q () (reg.apply op) := rfl

variable (reg : Registry)

/-! ## Readers -/

def generation? (generation : String) : Except String (Option Generation) := do
  let _ ← validateSha256 generation "ingress generation"
  match reg.generationFiles.get? generation with
  | none => return none
  | some r =>
    validateGeneration r
    return some r

def ingressDesired : Except String (Option Desired) :=
  match reg.desiredFile with
  | none => .ok none
  | some desired => do
    let policy ← reg.policy
    validateDesired desired policy
    let generation ← ofOption (← generation? reg desired.generation)
      "desired ingress generation metadata does not exist"
    if generation.generation ≠ desired.generation ∨
        generation.bundleSha256 ≠ desired.bundleSha256 ∨
        generation.routeCount ≠ desired.routeCount then
      throw "desired ingress pointer differs from generation metadata"
    return some desired

def ingressTransition : Except String (Option Transition) :=
  match reg.transitionFile with
  | none => .ok none
  | some transition => do
    let policy ← reg.policy
    validateTransition transition policy
    return some transition

def ingressNodeStatuses : Except String (Table HostSlot NodeStatus) := do
  let policy ← reg.policy
  reg.nodeFiles.forM fun (node, r) => do
    validateNodeStatus r policy
    if node ≠ r.node then
      throw s!"ingress node status filename does not match record: {node}.json"
  return reg.nodeFiles

/-- The generations that are removed: all but `current` and the newest others. -/
def pruneIngressGenerations (current : String) (keep : Nat) : Except String (List String) := do
  let _ ← validateSha256 current "current ingress generation"
  reg.generationFiles.forM fun (generation, r) => do
    validateGeneration r
    if generation ≠ r.generation then
      throw s!"ingress generation filename does not match record: {generation}.json"
  let records := reg.generationFiles.values
  let newest := records.insertionSort fun a b =>
    b.createdAt < a.createdAt ∨ a.createdAt = b.createdAt ∧ b.generation ≤ a.generation
  let others := (newest.map (·.generation)).filter (· ≠ current)
  let retained := current :: others.take (keep - 1)
  return (records.map (·.generation)).filter (· ∉ retained)

/-! ## Allowances -/

/-- A value of `--compatible`: `NODE=GENERATION`. -/
def parseCompatibleAllowance (nodes : List HostSlot) (allowances : Table HostSlot String)
    (value : String) : Except String (Table HostSlot String) := do
  let node := String.ofList (value.toList.takeWhile (· ≠ '='))
  match nodes.find? (·.text = node), value.toList.dropWhile (· ≠ '=') with
  | some slot, _ :: previous =>
    if (allowances.get? slot).isSome then throw s!"--compatible repeats {node}"
    let previous ← validateSha256 (String.ofList previous) "allowed previous generation"
    return allowances.insert slot previous
  | _, _ =>
    throw s!"--compatible must be NODE=GENERATION for a configured mox: {quoted value}"

def parseCompatibleAllowances (values : List String) (nodes : List HostSlot) :
    Except String (Table HostSlot String) :=
  values.foldlM (parseCompatibleAllowance nodes) []

def buildAllowance (generation : String) (statuses : Table HostSlot NodeStatus)
    (prior : List Allowance) (deadline : Int) (node : HostSlot) (previous : String) :
    Except String Allowance := do
  if previous = generation then throw s!"{node} allowance must name a previous generation"
  let refused := s!"{node} has not durably applied {String.ofList (previous.toList.take 16)}; " ++
    "it cannot keep serving it during the rollout"
  match statuses.get? node with
  | none => throw refused
  | some status =>
    if status.appliedGeneration ≠ some previous ∨ status.state = .rejectOnly then throw refused
    let expiresAt :=
      match prior.find? (·.node = node) with
      | some earlier => if earlier.generation = previous then earlier.expiresAt else deadline
      | none => deadline
    return ⟨node, previous, expiresAt⟩

def priorAllowances (existing : Option Transition) (generation : String) : List Allowance :=
  match existing with
  | some t => if t.generation = generation then t.allowances else []
  | none => []

def buildIngressTransition (policy : Policy) (generation : String)
    (requested : Table HostSlot String) (statuses : Table HostSlot NodeStatus)
    (windowSeconds now : Int) : Except String (Option Transition) := do
  if requested = [] then return none
  if windowSeconds < minIngressCompatibleWindowSeconds ∨
      maxIngressCompatibleWindowSeconds < windowSeconds then
    throw ("compatible rollout window must be between " ++
      s!"{minIngressCompatibleWindowSeconds} and {maxIngressCompatibleWindowSeconds} seconds")
  let existing ← ingressTransition reg
  let prior := priorAllowances existing generation
  let deadline := now + windowSeconds * second
  let allowances ← requested.mapM fun (node, previous) =>
    buildAllowance generation statuses prior deadline node previous
  let same := existing.filter (·.generation = generation)
  let transition : Transition :=
    { generation
      allowances
      createdAt := same.elim now (·.createdAt)
      updatedAt := now
      revision := existing.elim 1 (·.revision + 1) }
  validateTransition transition policy
  return some transition

/-! ## Commands -/

structure BeginArgs where
  generation : String
  bundleSha256 : String
  routeCount : Int
  node : List String
  compatible : List String
  compatibleWindowSeconds : Int

def beginGeneration (args : BeginArgs) (now : Int) : Except String (Option Generation) := do
  match ← generation? reg args.generation with
  | some r =>
    if r.generation ≠ args.generation ∨ r.bundleSha256 ≠ args.bundleSha256 ∨
        r.routeCount ≠ args.routeCount then
      throw "ingress generation was already recorded with different metadata"
    return none
  | none =>
    let r : Generation := ⟨args.generation, args.bundleSha256, args.routeCount, now⟩
    validateGeneration r
    return some r

/-- The desired generation's record after `ingress-begin`, unless it is that one already. -/
def beginDesired (policy : Policy) (args : BeginArgs) (nodes : List HostSlot) (now : Int)
    (existing : Option Desired) : Except String (Option Desired) := do
  if existing.any fun d => d.generation = args.generation ∧ d.bundleSha256 = args.bundleSha256 ∧
      d.routeCount = args.routeCount ∧ d.nodes = nodes then
    return none
  let desired : Desired :=
    { generation := args.generation
      bundleSha256 := args.bundleSha256
      routeCount := args.routeCount
      nodes
      createdAt := existing.elim now (·.createdAt)
      updatedAt := now
      revision := existing.elim 1 (·.revision + 1) }
  validateDesired desired policy
  return some desired

def beginStatus (generation : String) (node : HostSlot) (existing : Option NodeStatus) (now : Int) :
    NodeStatus :=
  let appliedGeneration := existing.bind (·.appliedGeneration)
  { node
    desiredGeneration := generation
    appliedGeneration
    state := if appliedGeneration = some generation then .applied else .pending
    createdAt := existing.elim now (·.createdAt)
    updatedAt := now
    revision := existing.elim 1 (·.revision + 1) }

def beginNodes (policy : Policy) (generation : String) (statuses : Table HostSlot NodeStatus)
    (now : Int) : List HostSlot → Command Unit
  | [] => pure ()
  | node :: nodes => do
    let existing := statuses.get? node
    if !existing.any (·.desiredGeneration = generation) then
      let status := beginStatus generation node existing now
      ofExcept (validateNodeStatus status policy)
      write (.writeNode status)
    beginNodes policy generation statuses now nodes

def ingressBegin (args : BeginArgs) (clock : Int) : Command Unit := do
  let _ ← ofExcept (validateSha256 args.generation "ingress generation")
  let _ ← ofExcept (validateSha256 args.bundleSha256 "ingress bundle digest")
  if args.routeCount < 0 ∨ maxRoutes < args.routeCount then
    throw s!"ingress route count must be between 0 and {maxRoutes}"
  let reg ← get
  let policy ← ofExcept reg.policy
  let nodes ← ofExcept (validateNodes policy.limits.maxHosts (flattenNodes args.node) false false)
  if nodes ≠ expectedNodes policy then
    throw "ingress begin must name every configured mox in order"
  let now := utcNow clock
  let generation ← ofExcept (beginGeneration reg args now)
  writeAll (generation.map .writeGeneration).toList
  let statuses ← ofExcept (ingressNodeStatuses reg)
  let requested ← ofExcept (parseCompatibleAllowances args.compatible nodes)
  let transition ← ofExcept (buildIngressTransition reg policy args.generation requested statuses
    args.compatibleWindowSeconds now)
  -- The allowance names the new generation: it has no effect until that one is desired.
  write (transition.elim .removeTransition .writeTransition)
  let existing ← ofExcept (ingressDesired (← get))
  let desired ← ofExcept (beginDesired policy args nodes now existing)
  writeAll (desired.map .writeDesired).toList
  beginNodes policy args.generation statuses now nodes
  let removed ← ofExcept (pruneIngressGenerations (← get) args.generation maxIngressGenerations)
  writeAll (removed.map .removeGeneration)

/-- The nodes of a transition's allowances that have not applied its generation. -/
def unapplied (transition : Transition) (statuses : Table HostSlot NodeStatus) : List HostSlot :=
  (transition.allowances.map (·.node)).filter fun node =>
    !(statuses.get? node).any fun status =>
      status.state = .applied ∧ status.appliedGeneration = some transition.generation

def ingressFinalize (generation : String) : Command Unit := do
  let _ ← ofExcept (validateSha256 generation "ingress generation")
  let reg ← get
  let desired ← ofExcept (ingressDesired reg)
  if !desired.any (·.generation = generation) then
    throw "refusing to finalize a superseded ingress generation"
  match ← ofExcept (ingressTransition reg) with
  | none => pure ()
  | some transition => do
    if transition.generation = generation then
      let statuses ← ofExcept (ingressNodeStatuses reg)
      let pending := unapplied transition statuses
      if pending ≠ [] then
        throw ("rollout allowances remain for unapplied nodes: " ++
          Text.join ", " (nodeTexts pending))
    write .removeTransition

def markStatus (generation : String) (node : HostSlot) (state : NodeState)
    (existing : Option NodeStatus) (now : Int) : NodeStatus :=
  { node
    desiredGeneration := generation
    appliedGeneration :=
      if state = .applied then some generation else existing.bind (·.appliedGeneration)
    state
    createdAt := existing.elim now (·.createdAt)
    updatedAt := now
    revision := existing.elim 1 (·.revision + 1) }

def nodeStatus? (policy : Policy) (node : HostSlot) : Except String (Option NodeStatus) :=
  match reg.nodeFiles.get? node with
  | none => .ok none
  | some r => do
    validateNodeStatus r policy
    return some r

def ingressMark (generation node : String) (state : NodeState) (clock : Int) : Command Unit := do
  let _ ← ofExcept (validateSha256 generation "ingress generation")
  let reg ← get
  let policy ← ofExcept reg.policy
  match ← ofExcept (ingressDesired reg) with
  | none => throw "no desired ingress generation has been published"
  | some desired =>
    if desired.generation ≠ generation then
      throw "refusing to mark a node for a superseded ingress generation"
    let slots ← ofExcept (validateNodes policy.limits.maxHosts [node] false true)
    match slots.head? with
    | none => throw "exactly one placement node is required"
    | some slot =>
      if slot ∉ desired.nodes then throw "ingress node is outside the desired node set"
      let existing ← ofExcept (nodeStatus? reg policy slot)
      let status := markStatus generation slot state existing (utcNow clock)
      let unchanged := existing.any fun old => old.desiredGeneration = generation ∧
        old.appliedGeneration = status.appliedGeneration ∧ old.state = state
      if !unchanged then
        ofExcept (validateNodeStatus status policy)
        write (.writeNode status)

end Bmac.Registry
