import Bmac.Registry.Files

/-!
# Install orchestration

The phase of a production guest's install and the lease of its installer: `orchestration-acquire`,
`-set-phase` and `-release` of `cluster_registry.py`.
-/

namespace Bmac.Registry

open Bmac.Base Bmac.Core

inductive InitialPhase where
  | unknown | unstarted
  deriving DecidableEq

def InitialPhase.phase : InitialPhase → InstallPhase
  | unknown => .unknown
  | unstarted => .unstarted

structure AcquireArgs where
  nonce : String
  owner : String
  ttlSeconds : Int
  initialInstallPhase : InitialPhase
  finalNetworkEnabled : Bool
  startupSha256 : String
  sourceIsoSha256 : String
  installMode : InstallMode
  deriving DecidableEq

variable (py : Python) (reg : Registry)

def orchestrationResource (name : GuestName) : Except String Resource := do
  let resources ← reg.resources py
  match resources.find? (·.name = name) with
  | none => throw s!"resource does not exist: {name}"
  | some resource =>
    if resource.kind ≠ .production then
      throw "production orchestration is only valid for production"
    return resource

def readOrchestration (resource : Resource) : Except String (Option Orchestration) :=
  match reg.orchestrationFiles.get? resource.name with
  | none => .ok none
  | some record => do
    validateOrchestration record
    if record.resourceId ≠ resource.id then
      throw "orchestration record belongs to an obsolete resource"
    return some record

def AcquireArgs.startup (args : AcquireArgs) : StartupContract where
  finalNetworkEnabled := args.finalNetworkEnabled
  startupSha256 :=
    if args.startupSha256 = "none" then none else some (py.lower args.startupSha256)

def AcquireArgs.source (args : AcquireArgs) : SourceContract :=
  ⟨py.lower args.sourceIsoSha256, args.installMode⟩

/-- A contract that is recorded stays; one that is not is now. -/
def keepContract {α : Type} [DecidableEq α] (recorded : Option α) (asked : α) (message : String) :
    Except String (Option α) :=
  match recorded with
  | none => .ok (some asked)
  | some c => if c ≠ asked then .error message else .ok (some c)

/-- The record without the new lease. -/
def acquireRecord (args : AcquireArgs) (resource : Resource) (now : Int) :
    Option Orchestration → Except String Orchestration
  | some record => do
    match record.lease with
    | some lease =>
      if lease.nonce ≠ args.nonce ∧ now < lease.expiresAt then
        throw ("resource orchestration lease is held by " ++
          s!"{lease.owner} until {isoTime lease.expiresAt}")
    | none => pure ()
    let startup ← keepContract record.startup (args.startup py)
      ("requested startup/network policy differs from the durable " ++ "production VM contract")
    let source ← keepContract record.source (args.source py)
      ("requested source ISO/install mode differs from the durable " ++ "production VM contract")
    return { record with startup, source, revision := record.revision + 1, updatedAt := now }
  | none =>
    .ok
      { resource := resource.name
        resourceId := resource.id
        installPhase := args.initialInstallPhase.phase
        startup := some (args.startup py)
        source := some (args.source py)
        lease := none
        createdAt := now
        updatedAt := now
        revision := 1 }

def orchestrationAcquire (name : GuestName) (args : AcquireArgs) (clock : Int) :
    Except String (Outcome Orchestration) := do
  if !isHexText 32 args.nonce then
    throw "orchestration lease nonce must be 32 lowercase hex digits"
  let owner ← validateSafeIdentifier args.owner "orchestration lease owner"
  if args.ttlSeconds < 60 ∨ 172800 < args.ttlSeconds then
    throw "orchestration lease TTL must be 60 through 172800 seconds"
  if (args.startup py).startupSha256.any fun sha => !isSha256 sha then
    throw "--startup-sha256 must be lowercase SHA-256 or none"
  if !isSha256 (args.source py).sourceIsoSha256 then
    throw "--source-iso-sha256 must be lowercase SHA-256"
  let resource ← orchestrationResource py reg name
  let now := utcNow clock
  let updated ← acquireRecord py args resource now (← readOrchestration reg resource)
  let updated :=
    { updated with lease := some ⟨args.nonce, owner, now, now + args.ttlSeconds * second⟩ }
  validateOrchestration updated
  return ⟨[.writeOrchestration name updated], updated⟩

def requireOrchestration (name : GuestName) : Except String Orchestration := do
  let resource ← orchestrationResource py reg name
  let record ← readOrchestration reg resource
  ofOption record "resource has no orchestration record"

def requireActiveOrchestrationLease (record : Orchestration) (nonce : String) (now : Int) :
    Except String Unit := do
  match record.lease with
  | none => throw "caller does not own the resource orchestration lease"
  | some lease =>
    if lease.nonce ≠ nonce then throw "caller does not own the resource orchestration lease"
    if lease.expiresAt ≤ now then throw "resource orchestration lease has expired"

/-- A step that starts an install again. -/
def destructiveRestart (current phase : InstallPhase) : Prop :=
  (current = .unknown ∨ current = .installerStarted) ∧ phase = .mediaAttached

instance (current phase : InstallPhase) : Decidable (destructiveRestart current phase) := by
  unfold destructiveRestart
  infer_instance

/-- The clock is read at `now`, and for the record at `later`. -/
def orchestrationSetPhase (name : GuestName) (nonce : String) (phase : InstallPhase)
    (confirmWipe : Option String) (now later : Int) : Except String (Outcome Orchestration) := do
  if !isHexText 32 nonce then throw "orchestration lease nonce is invalid"
  let record ← requireOrchestration py reg name
  requireActiveOrchestrationLease record nonce now
  let current := record.installPhase
  if phase = current then return ⟨[], record⟩
  if phase ∉ installPhaseTransitions current then
    throw s!"invalid install phase transition {current} -> {phase}"
  if destructiveRestart current phase ∧ confirmWipe ≠ some "WIPE" then
    throw "destructive installer restart requires exact --confirm-wipe WIPE"
  let updated :=
    { record with
      installPhase := phase, updatedAt := utcNow later, revision := record.revision + 1 }
  validateOrchestration updated
  return ⟨[.writeOrchestration name updated], updated⟩

def orchestrationRelease (name : GuestName) (nonce : String) (clock : Int) :
    Except String (Outcome Orchestration) := do
  if !isHexText 32 nonce then throw "orchestration lease nonce is invalid"
  let record ← requireOrchestration py reg name
  match record.lease with
  | none => return ⟨[], record⟩
  | some lease =>
    if lease.nonce ≠ nonce then throw "caller does not own the resource orchestration lease"
    let updated :=
      { record with lease := none, updatedAt := utcNow clock, revision := record.revision + 1 }
    validateOrchestration updated
    return ⟨[.writeOrchestration name updated], updated⟩

def smallAcquire (nonce : Char) : AcquireArgs where
  nonce := String.ofList (List.replicate 32 nonce)
  owner := "installer"
  ttlSeconds := 60
  initialInstallPhase := .unstarted
  finalNetworkEnabled := true
  startupSha256 := "none"
  sourceIsoSha256 := String.ofList (List.replicate 64 'b')
  installMode := .manual

end Bmac.Registry
