import Bmac.Base.Wp
import Bmac.Core.Civil
import Bmac.Registry.Records

/-!
# The registry's files

`Registry` of `cluster_registry.py`: one file for each record, in the directory of its kind and under
its name. A command reads them, checks, and then writes and removes files one by one: its `Outcome`.
It can be stopped between any two of these operations.
-/

namespace Bmac.Core

namespace GuestName

theorem toList_text (name : GuestName) : name.text.toList = match name with
    | production n => "prod".toList ++ n.repr.toList
    | staging n m => "stage".toList ++ (n.repr.toList ++ 'p' :: ("rod".toList ++ m.repr.toList)) := by
  cases name with
  | production n => simp [text, toString]
  | staging n m => simp [text, toString]

theorem text_injective : Function.Injective text := by
  intro a b h
  have hcs := congrArg String.toList h
  rw [toList_text, toList_text] at hcs
  have hdigits {n m : Nat} (h : n.repr.toList = m.repr.toList) : n = m := by
    rw [← Text.decimal_repr n, h, Text.decimal_repr]
  cases a with
  | production n =>
    cases b with
    | production m => rw [hdigits (List.append_cancel_left hcs)]
    | staging m s => cases hcs
  | staging n s =>
    cases b with
    | production m => cases hcs
    | staging m s' =>
      obtain ⟨rfl, hrest⟩ := Text.repr_append_inj rfl (List.append_cancel_left hcs)
      rw [hdigits (List.append_cancel_left hrest)]

/-- The order of the names' texts. -/
instance : LinearOrder GuestName := LinearOrder.lift' text text_injective

end GuestName

/-- The order of the slots' numbers. -/
instance : LinearOrder HostSlot := LinearOrder.lift' HostSlot.number fun a b h => by
  cases a
  cases b
  simpa using h

end Bmac.Core

namespace Bmac.Registry

open Bmac.Core

/-- What a release leaves of a guest or of a host. -/
inductive History where
  | release (releasedAt : Int) (forced : Bool) (resource : Resource)
  | hostRelease (releasedAt : Int) (reason : String) (slot : HostRecord)
  deriving DecidableEq

end Bmac.Registry

namespace Bmac

open Bmac.Core Bmac.Registry

structure Registry where
  policyFile : Option Policy := none
  resourceFiles : Table GuestName Resource := []
  cleanupFiles : Table String Cleanup := []
  historyFiles : Table String History := []
  orchestrationFiles : Table GuestName Orchestration := []
  generationFiles : Table String Generation := []
  nodeFiles : Table HostSlot NodeStatus := []
  desiredFile : Option Desired := none
  transitionFile : Option Transition := none
  hostFiles : Table HostSlot HostRecord := []
  controlFile : Option Control := none
  deriving DecidableEq

end Bmac

namespace Bmac.Registry

open Bmac.Base Bmac.Core

/-- A file written or removed. -/
inductive Op where
  | writePolicy (policy : Policy)
  | writeResource (r : Resource)
  | removeResource (name : GuestName)
  | writeCleanup (r : Cleanup)
  | removeCleanup (id : String)
  | writeHistory (name : String) (r : History)
  | removeHistory (name : String)
  | writeOrchestration (name : GuestName) (r : Orchestration)
  | removeOrchestration (name : GuestName)
  | writeGeneration (r : Generation)
  | removeGeneration (generation : String)
  | writeNode (r : NodeStatus)
  | writeDesired (r : Desired)
  | writeTransition (r : Transition)
  | removeTransition
  | writeHost (r : HostRecord)
  | removeHost (node : HostSlot)
  | writeControl (r : Control)

def apply (reg : Registry) : Op → Registry
  | .writePolicy policy => { reg with policyFile := some policy }
  | .writeResource r => { reg with resourceFiles := reg.resourceFiles.insert r.name r }
  | .removeResource name => { reg with resourceFiles := reg.resourceFiles.erase name }
  | .writeCleanup r => { reg with cleanupFiles := reg.cleanupFiles.insert r.id r }
  | .removeCleanup id => { reg with cleanupFiles := reg.cleanupFiles.erase id }
  | .writeHistory name r => { reg with historyFiles := reg.historyFiles.insert name r }
  | .removeHistory name => { reg with historyFiles := reg.historyFiles.erase name }
  | .writeOrchestration name r =>
    { reg with orchestrationFiles := reg.orchestrationFiles.insert name r }
  | .removeOrchestration name =>
    { reg with orchestrationFiles := reg.orchestrationFiles.erase name }
  | .writeGeneration r => { reg with generationFiles := reg.generationFiles.insert r.generation r }
  | .removeGeneration generation =>
    { reg with generationFiles := reg.generationFiles.erase generation }
  | .writeNode r => { reg with nodeFiles := reg.nodeFiles.insert r.node r }
  | .writeDesired r => { reg with desiredFile := some r }
  | .writeTransition r => { reg with transitionFile := some r }
  | .removeTransition => { reg with transitionFile := none }
  | .writeHost r => { reg with hostFiles := reg.hostFiles.insert r.node r }
  | .removeHost node => { reg with hostFiles := reg.hostFiles.erase node }
  | .writeControl r => { reg with controlFile := some r }

def applyAll (reg : Registry) (ops : List Op) : Registry := ops.foldl apply reg

@[simp] theorem applyAll_nil (reg : Registry) : reg.applyAll [] = reg := rfl

@[simp] theorem applyAll_cons (reg : Registry) (op : Op) (ops : List Op) :
    reg.applyAll (op :: ops) = (reg.apply op).applyAll ops := rfl

/-- The file operations of a command, and what it prints. -/
structure Outcome (α : Type) where
  ops : List Op
  result : α

/-! ## Readers -/

/-- `sorted` by `resource_sort_key`. -/
def sortsBefore (a b : Resource) : Prop :=
  let x := resourceSortKey a
  let y := resourceSortKey b
  x.1 < y.1 ∨ x.1 = y.1 ∧ (x.2.1 < y.2.1 ∨ x.2.1 = y.2.1 ∧ x.2.2 ≤ y.2.2)

instance : DecidableRel sortsBefore := fun _ _ => by
  unfold sortsBefore
  infer_instance

variable (py : Python) (reg : Registry)

def policy : Except String Policy := do
  let value ← ofOption reg.policyFile "registry policy does not exist"
  validatePolicy value
  return value

def resources : Except String (List Resource) := do
  let policy ← reg.policy
  reg.resourceFiles.forM fun (name, r) => do
    validateResource py r policy
    if name ≠ r.name then throw s!"resource filename does not match record name: {name}.json"
  validateRegistryInvariants reg.resourceFiles.values
  return reg.resourceFiles.values.insertionSort sortsBefore

def cleanupRecords : Except String (List Cleanup) := do
  reg.cleanupFiles.forM fun (id, r) => do
    validateCleanup r
    if id ≠ r.id then throw s!"cleanup filename does not match record id: {id}.json"
  return reg.cleanupFiles.values.insertionSort fun a b =>
    a.createdAt < b.createdAt ∨ a.createdAt = b.createdAt ∧ a.id ≤ b.id

def cleanup? (id : String) : Except String (Option Cleanup) := do
  let _ ← validateSafeIdentifier id "cleanup id"
  match reg.cleanupFiles.get? id with
  | none => return none
  | some r =>
    validateCleanup r
    return some r

def hostSlots : Except String (List HostRecord) := do
  let policy ← reg.policy
  reg.hostFiles.forM fun (node, r) => do
    validateHostSlot r policy
    if node ≠ r.node then throw s!"host slot filename does not match record: {node}.json"
  return reg.hostFiles.values

def clusterControl : Except String (Option Control) :=
  match reg.controlFile with
  | none => .ok none
  | some r => do
    let policy ← reg.policy
    validateClusterControl r policy
    return some r

variable {reg}

theorem policy_eq_ok {policy : Policy} :
    reg.policy = .ok policy ↔ reg.policyFile = some policy ∧ validatePolicy policy = .ok () := by
  simp only [Registry.policy, bind_eq_ok, ofOption_eq_ok, pure_eq_ok]
  constructor
  · rintro ⟨value, hfile, _, hvalid, rfl⟩
    exact ⟨hfile, hvalid⟩
  · rintro ⟨hfile, hvalid⟩
    exact ⟨policy, hfile, (), hvalid, rfl⟩

variable {py}

variable {rs : List Resource}

theorem resources_eq_ok : reg.resources py = .ok rs ↔
    ∃ policy, reg.policy = .ok policy ∧
      (∀ e ∈ reg.resourceFiles, validateResource py e.2 policy = .ok () ∧ e.1 = e.2.name) ∧
      Consistent reg.resourceFiles.values ∧
      rs = reg.resourceFiles.values.insertionSort sortsBefore := by
  simp only [resources, bind_eq_ok, ne_eq, pure_eq_ok]
  constructor
  · rintro ⟨policy, hpolicy, _, hall, _, hset, rfl⟩
    refine ⟨policy, hpolicy, fun e he => ?_, validateRegistryInvariants_eq_ok.mp hset, rfl⟩
    have hone := forM_eq_ok_iff.mp hall e he
    simp only [bind_eq_ok, last_check_eq_ok, not_not] at hone
    obtain ⟨_, hvalid, hname, -⟩ := hone
    exact ⟨hvalid, hname⟩
  · rintro ⟨policy, hpolicy, hall, hset, rfl⟩
    refine ⟨policy, hpolicy, ⟨⟩, forM_eq_ok_iff.mpr fun e he => ?_, ⟨⟩,
      validateRegistryInvariants_eq_ok.mpr hset, rfl⟩
    simp only [bind_eq_ok, last_check_eq_ok, not_not]
    exact ⟨(), (hall e he).1, (hall e he).2, rfl⟩

theorem mem_resources {r : Resource} (h : reg.resources py = .ok rs) :
    r ∈ rs ↔ (r.name, r) ∈ reg.resourceFiles := by
  obtain ⟨policy, -, hall, -, rfl⟩ := resources_eq_ok.mp h
  rw [List.mem_insertionSort]
  constructor
  · intro hr
    obtain ⟨e, he, rfl⟩ := List.mem_map.mp hr
    have hname := (hall e he).2
    obtain ⟨name, r⟩ := e
    exact (show name = r.name from hname) ▸ he
  · exact fun hr => List.mem_map.mpr ⟨_, hr, rfl⟩

theorem consistent_resources (h : reg.resources py = .ok rs) : Consistent rs := by
  obtain ⟨policy, -, -, hset, rfl⟩ := resources_eq_ok.mp h
  exact hset.perm (List.perm_insertionSort _ _).symm

/-! ## Pruning -/

def maxHistoryRecords : Nat := 256
def maxCompletedCleanupRecords : Nat := 512
def maxCleanupRecords : Nat := 4096

/-- The newest `keep` files of the history stay. -/
def pruneHistory (keep : Nat) : List Op :=
  (reg.historyFiles.take (reg.historyFiles.length - keep)).map fun e => .removeHistory e.1

/-- Completed cleanups of guests that are gone are removed when there are many. -/
def pruneCompletedCleanup (activeResourceIds : List Uuid) : Except String (List Op) := do
  let records ← reg.cleanupRecords
  let completed := records.filter (·.state = .completed)
  let removable := completed.filter (·.resourceId ∉ activeResourceIds)
  return (removable.take (completed.length - maxCompletedCleanupRecords)).map (.removeCleanup ·.id)

/-- `isoformat` of whole seconds. -/
def isoTime (now : Int) : String :=
  let c := civil (now / second / 86400)
  let time := (now / second % 86400).toNat
  let date := Text.digits 4 c.year.natAbs ++ '-' :: Text.digits 2 c.month.natAbs ++
    '-' :: Text.digits 2 c.day.natAbs
  let clock := Text.digits 2 (time / 3600) ++ ':' :: Text.digits 2 (time / 60 % 60) ++
    ':' :: Text.digits 2 (time % 60)
  String.ofList (date ++ 'T' :: clock ++ "+00:00".toList)

/-- The name of a release's file: the time without colons, the name and eight hex digits. -/
def historyName (now : Int) (name : String) (entropy : Uuid) : String :=
  let time := (isoTime now).toList.filter (· ≠ ':')
  String.ofList (time ++ s!"-{name}-".toList ++ entropy.text.toList.take 8)

/-! ## A small registry -/

def asciiPython : Python := ⟨id, some, fun _ => []⟩

def digestBytes (hex : Nat) : List UInt8 := (List.range 32).map fun i => (hex / 256 ^ (31 - i)).toUInt8

theorem length_digestBytes (hex : Nat) : (digestBytes hex).length = 32 := by
  rw [digestBytes, List.length_map, List.length_range]

def smallSpec : Spec := ⟨2, 2048, 32, .sparse, "5", "local-zfs", none⟩

/-- Three hosts of `10.0.0.0/24`. -/
def smallPolicy : Policy where
  registryId := 0
  network :=
    { cidr := ⟨Ipv4.number 10 0 0 0, 24⟩
      guestGateway := (Ipv4.number 10 0 0 1, 24)
      moxHostRange := ⟨10, 19⟩
      haproxyRange := ⟨20, 29⟩
      productionRange := ⟨30, 59⟩
      stagingRange := ⟨60, 99⟩
      haproxyVmidRange := haproxyVmidRange }
  limits := ⟨3, 30, 40, 3600⟩
  tags := ⟨"production", "staging", "evictable"⟩
  defaults := ⟨smallSpec, smallSpec⟩
  createdAt := 0

def mox (number : Nat) (h : 1 ≤ number ∧ number ≤ 32 := by decide) : HostSlot := ⟨number, h⟩

/-- A production guest `prod1` of the small policy. -/
def smallGuest : Resource where
  id := 1
  allocationId := none
  requestFingerprint := String.ofList (List.replicate 64 'a')
  kind := .production
  name := .production 1
  index := 1
  source := none
  vmid := 101
  ip := Ipv4.number 10 0 0 30
  mac := "02:00:00:00:00:01"
  state := .stopped
  purpose := ⟨"web", none⟩
  domains := ⟨"www.example.com", [], "staging.www.example.com"⟩
  placement := [mox 1 HostSlot.range_one, mox 2 HostSlot.range_two]
  initialNode := mox 1 HostSlot.range_one
  ownerNode := none
  routesEnabled := false
  spec := smallSpec
  proxmox := {}
  createdAt := 0
  updatedAt := 0
  revision := 1

def smallRegistry : Registry :=
  { policyFile := some smallPolicy, resourceFiles := [(.production 1, smallGuest)] }

end Bmac.Registry
