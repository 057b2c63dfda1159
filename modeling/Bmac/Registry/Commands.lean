import Bmac.Base.Run
import Bmac.Registry.Hosts
import Bmac.Registry.Orchestration
import Bmac.Registry.Release
import Bmac.Registry.Update

/-!
# Runs of the registry's commands

The commands that change the registry, each under its lock and possibly stopped between two of its
file operations (`Event.after`), and all that one can write (`Effect`). What a run keeps is proved
from `Effect` for every point of a command's operations (`Through`).
-/

namespace Bmac.Registry

open Bmac.Base Bmac.Core

/-- A command's name and arguments, with the UUID that it makes and its second reading of the
clock. -/
inductive Invocation where
  | init (args : InitArgs) (id : Uuid)
  | allocateProd (args : AllocateProdArgs) (id : Uuid)
  | allocateStaging (args : AllocateStagingArgs) (id : Uuid)
  | recordStagingSnapshotIntent (name : GuestName) (args : IntentArgs)
  | recordStagingSnapshot (name : GuestName) (args : RecordArgs)
  | shareStagingSnapshot (name donor : GuestName) (expectedRevision : Option Int)
  | update (name : GuestName) (args : UpdateArgs)
  | release (name : GuestName) (force : Bool) (later : Int) (entropy : Uuid)
  | deferCleanup (args : DeferArgs)
  | finalizeStagingCleanup (name : GuestName) (resourceId entropy : Uuid)
  | hostSync (members : List String)
  | hostReserve (node : String) (allowMember : Bool)
  | hostRelease (node reason : String) (expectedState : Option HostState) (entropy : Uuid)
  | controlSet (node : String) (expected : Option String)
  | reconcileApply (observed : Applied) (later : Int)
  | orchestrationAcquire (name : GuestName) (args : AcquireArgs)
  | orchestrationSetPhase (name : GuestName) (nonce : String) (phase : InstallPhase)
      (confirmWipe : Option String) (later : Int)
  | orchestrationRelease (name : GuestName) (nonce : String)
  /-- One file operation of an ingress command: each of them, in any order. -/
  | ingress (op : Op)

/-- The files of the ingress commands. -/
def Op.isIngress : Op → Bool
  | .writeGeneration _ | .removeGeneration _ | .writeNode _ | .writeDesired _ | .writeTransition _
  | .removeTransition => true
  | _ => false

section

variable (py : Python) (digests : Digests) (reg : Registry) (clock : Int)

/-- The file operations of a command. -/
def Invocation.ops : Invocation → Except String (List Op)
  | .init args id => (initRegistry reg args id clock).map (·.ops)
  | .allocateProd args id => (Registry.allocateProd py digests reg args id clock).map (·.ops)
  | .allocateStaging args id => (Registry.allocateStaging py digests reg args id clock).map (·.ops)
  | .recordStagingSnapshotIntent name args =>
    (Registry.recordStagingSnapshotIntent py reg name args clock).map (·.ops)
  | .recordStagingSnapshot name args =>
    (Registry.recordStagingSnapshot py reg name args clock).map (·.ops)
  | .shareStagingSnapshot name donor expectedRevision =>
    (Registry.shareStagingSnapshot py reg name donor expectedRevision clock).map (·.ops)
  | .update name args => (Registry.update py reg name args clock).map (·.ops)
  | .release name force later entropy =>
    (Registry.release py reg name force clock later entropy).map (·.ops)
  | .deferCleanup args => (Registry.deferCleanup py digests reg args clock).map (·.ops)
  | .finalizeStagingCleanup name resourceId entropy =>
    (Registry.finalizeStagingCleanup py reg name resourceId clock entropy).map (·.ops)
  | .hostSync members => (Registry.hostSync reg members clock).map (·.ops)
  | .hostReserve node allowMember => (Registry.hostReserve reg node allowMember clock).map (·.ops)
  | .hostRelease node reason expectedState entropy =>
    (Registry.hostRelease py reg node reason expectedState clock entropy).map (·.ops)
  | .controlSet node expected => (Registry.controlSet reg node expected clock).map (·.ops)
  | .reconcileApply observed later =>
    (Registry.reconcileApply py reg observed clock later).map (·.ops)
  | .orchestrationAcquire name args =>
    (Registry.orchestrationAcquire py reg name args clock).map (·.ops)
  | .orchestrationSetPhase name nonce phase confirmWipe later =>
    (Registry.orchestrationSetPhase py reg name nonce phase confirmWipe clock later).map (·.ops)
  | .orchestrationRelease name nonce =>
    (Registry.orchestrationRelease py reg name nonce clock).map (·.ops)
  | .ingress op => if op.isIngress then .ok [op] else .error "not an ingress file"

/-- A command that ran, or was stopped after `done` of its file operations. -/
structure Event where
  invocation : Invocation
  clock : Int
  done : Nat

/-- What an event leaves; a command that fails writes nothing. -/
def Event.after (e : Event) : Registry :=
  match e.invocation.ops py digests reg e.clock with
  | .ok ops => reg.applyAll (ops.take e.done)
  | .error _ => reg

def step (reg : Registry) (e : Event) (reg' : Registry) : Prop := reg' = e.after py digests reg

def afterAll (events : List Event) : Registry :=
  events.foldl (fun reg e => e.after py digests reg) reg

theorem run_afterAll (events : List Event) :
    Run (step py digests) reg events (afterAll py digests reg events) := by
  induction events generalizing reg with
  | nil => exact .nil reg
  | cons e events ih => exact .cons rfl (ih (e.after py digests reg))

end

/-! ## A small run -/

def smallInit : InitArgs where
  network := "10.0.0.0/24"
  guestGateway := "10.0.0.1/24"
  moxIpStart := "10.0.0.10"
  moxIpEnd := "10.0.0.19"
  haproxyIpStart := "10.0.0.20"
  haproxyIpEnd := "10.0.0.29"
  productionIpStart := "10.0.0.30"
  productionIpEnd := "10.0.0.59"
  stagingIpStart := "10.0.0.60"
  stagingIpEnd := "10.0.0.99"
  maxHosts := 3
  tags := ⟨"production", "staging", "evictable"⟩
  reservationTtlSeconds := 3600
  prodCores := 2
  prodMemoryMb := 2048
  prodDiskGib := 32
  prodDiskAllocation := .sparse
  prodStorage := "local-zfs"
  stagingCores := 2
  stagingMemoryMb := 2048
  stagingDiskGib := 32
  replicationInterval := "5"

/-- SHA-256 of what the MACs of `prod1` and of its copy are made of. -/
def smallPython : Python :=
  { asciiPython with
    sha256 := fun text =>
      if text = "00000000-0000-0000-0000-000000000000\x00prod1" then
        digestBytes 0xbf0750eae0073446d492208929dec35a24f6a658b232e1221e71b04a10bddf68
      else if text = "00000000-0000-0000-0000-000000000000\x00stage1prod1" then
        digestBytes 0x55ef7f342e8338227d88305f3ad16fd2e16fbb1a79cada17c9b9cd77fae35f42
      else digestBytes 0 }

def noDigest : String := String.ofList (List.replicate 64 '0')

/-- A command that ran to its end. -/
def completed (invocation : Invocation) : Event := ⟨invocation, 0, 100⟩

def smallProd : AllocateProdArgs where
  vmid := 101
  purpose := "web"
  primaryDomain := "www.example.com"
  placement := ["mox1", "mox2"]

def smallStaging : AllocateStagingArgs where
  source := .production 1
  vmid := 201
  placement := ["mox2"]
  placementLimit := 2

def smallProdRequest : Request :=
  .production 101 "web" "www.example.com" [] "staging.www.example.com"
    [⟨1, HostSlot.range_one⟩, ⟨2, HostSlot.range_two⟩] ⟨1, HostSlot.range_one⟩ smallSpec

def smallCopyRequest : Request := .staging (.production 1) 201 none [⟨2, HostSlot.range_two⟩] smallSpec

/-- SHA-256 of the two requests' canonical JSON. No cleanup is recorded. -/
def smallDigests : Digests where
  request := fun req =>
    if req = smallProdRequest then "99cd7367fd81c9112668e5aeecc051791e8f7244180e6814d51e020cdc30a217"
    else if req = smallCopyRequest then "6605f1d42c57f3680c346dc3527590f4f9a7ac05e5787780423c7736f5193feb"
    else noDigest
  cleanup := fun _ => noDigest

/-- `init`, and a production guest with a copy. -/
def smallEvents : List Event :=
  [completed (.init smallInit 0), completed (.allocateProd smallProd 1),
    completed (.allocateStaging smallStaging 2)]

end Bmac.Registry
