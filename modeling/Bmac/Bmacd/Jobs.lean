import Bmac.Base.Wp
import Bmac.Bmacd.Operations
import Mathlib.Data.List.Sort
import Mathlib.Data.Prod.Lex

/-!
# Job records

`bmacd/src/jobs.rs`: the records in the jobs directory and the operations on them. Each operation
runs under the jobs lock on all records, read in the order the directory lists them. What it takes
from outside is an argument: the host it runs on, the registry, the cluster's answers, the clock's
readings, a drawn id or nonce. Any access to the storage may fail, before it had its effect or
after, and the operation then stops there.
-/

namespace Bmac.Bmacd

open Bmac.Base Bmac.Core

def recordSchema : Nat := 1
def recordType : String := "job"
def maxIdempotencyKey : Nat := 128

inductive JobState where
  | admitted | running | completed | failed | cancelled | interrupted
  deriving DecidableEq

namespace JobState

def isTerminal : JobState → Bool
  | completed | failed | cancelled => true
  | admitted | running | interrupted => false

/-- As `Debug` writes it. -/
def debug : JobState → String
  | admitted => "Admitted"
  | running => "Running"
  | completed => "Completed"
  | failed => "Failed"
  | cancelled => "Cancelled"
  | interrupted => "Interrupted"

end JobState

structure JobLease where
  nonce : String
  holder : HostSlot
  acquiredAtMs : Int
  expiresAtMs : Int
  deriving DecidableEq

structure CancelOrder where
  forced : Bool
  by_ : String
  requestedAtMs : Int
  deriving DecidableEq

/-- The numbers have no bound here: `attempts` is a `u32` in the source, the revision and the sequence number are
`u64`, so this holds of jobs that are claimed fewer than 2^32 times and have fewer than 2^64 writes and events. -/
structure JobRecord where
  schemaVersion : Nat
  recordType : String
  revision : Nat
  id : JobId
  operation : OperationId
  title : String
  parameters : Dict String
  /-- The script's arguments, fixed at admission. -/
  args : List String
  locks : List String
  dryRun : Bool
  user : String
  role : Role
  idempotencyKey : String
  admittedBy : HostSlot
  target : HostSlot
  state : JobState
  message : Option String
  createdAtMs : Int
  updatedAtMs : Int
  admittedAtMs : Int
  finishedAtMs : Option Int
  /-- The current or last lease; kept after an interruption so the holder can still report how the
  job ended. -/
  lease : Option JobLease
  cancel : Option CancelOrder
  /-- Whether a soft cancel may interrupt the current phase. -/
  cancelAllowed : Bool
  phase : Option String
  pendingRequest : Option String
  /-- How many times a host has claimed it. -/
  attempts : Nat
  /-- The sequence number of its newest event. -/
  lastSeq : Nat
  deriving DecidableEq

namespace JobRecord

/-- Whether it still holds its resources. -/
def holdsLocks (r : JobRecord) : Bool := !r.state.isTerminal

/-- Its place among finished records, by when it finished. -/
def age (r : JobRecord) : Int ×ₗ JobId := toLex (r.finishedAtMs.getD r.updatedAtMs, r.id)

def next (r : JobRecord) : JobRecord := { r with revision := r.revision + 1 }

def finish (r : JobRecord) (state : JobState) (message : String) (now : Int) : JobRecord :=
  { r with
    state := state, message := some message, finishedAtMs := some now, updatedAtMs := now,
    pendingRequest := none }

end JobRecord

structure Caller where
  user : String
  role : Role

structure LaunchJob where
  operation : OperationId
  parameters : Dict Value
  idempotencyKey : String
  dryRun : Bool

/-- The job, and whether an earlier launch with the same key already admitted it. -/
structure Admission where
  job : JobRecord
  existing : Bool

structure Claim where
  job : JobRecord
  nonce : String

/-- What the running host reports about its job between events. -/
structure Progress where
  phase : Option String
  cancelAllowed : Bool
  pendingRequest : Option String
  lastSeq : Nat

structure Membership where
  quorate : Bool
  /-- Online members, in the order of their numbers. -/
  online : List HostSlot

/-- The cluster duty host: the lowest-numbered online host of a quorate partition. -/
def Membership.duty (m : Membership) : Option HostSlot := m.online.head?.filter fun _ => m.quorate

/-- What the cluster answers while the operation runs. -/
structure ClusterView where
  membership : Except String Membership
  guestOwner : GuestName → Except String (Option HostSlot)
  placement : GuestName → Except String (List HostSlot)

structure JobsConfig where
  dir : String
  /-- This host. -/
  host : HostSlot
  leaseTtlMs : Int
  claimTimeoutMs : Int
  keepFinished : Nat

/-- A host's view of the jobs while it runs one operation, with its clock's reading. -/
structure Jobs where
  config : JobsConfig
  registry : Registry
  cluster : ClusterView
  now : Int

/-! ## Storage -/

/-- How an access to the storage goes. -/
inductive Fault where
  | none
  | before (e : ApiError)
  | after (e : ApiError)

inductive Write where
  | saved (record : JobRecord)
  | removed (id : JobId)

/-- The jobs directory: the record in the file of each id. -/
abbrev Disk := JobId → Option JobRecord

def Write.apply (disk : Disk) : Write → Disk
  | saved record => Function.update disk record.id (some record)
  | removed id => Function.update disk id Option.none

/-- What an operation works on under the lock: the directory, the records read from it, the faults
still to come and the writes made so far. -/
structure World where
  disk : Disk
  records : List JobRecord
  faults : List Fault
  writes : List Write

abbrev Op := EStateM ApiError World

def access (effect : World → World) : Op Unit := do
  let w ← get
  match w.faults with
  | [] => set (effect w)
  | .none :: rest => set { effect w with faults := rest }
  | .before e :: rest =>
    set { w with faults := rest }
    throw e
  | .after e :: rest =>
    set { effect w with faults := rest }
    throw e

def World.write (w : World) (write : Write) : World :=
  { w with disk := write.apply w.disk, writes := w.writes ++ [write] }

def storageError (message : String) : ApiError := .new .internal s!"job records: {message}"

def putRecord (record : JobRecord) : List JobRecord → List JobRecord
  | [] => [record]
  | r :: rest => if r.id = record.id then record :: rest else r :: putRecord record rest

namespace Jobs

variable (jobs : Jobs)

def path (id : JobId) : String := s!"{jobs.config.dir}/{id.text}.json"

/-! ## Under the lock -/

def find (id : JobId) : Op JobRecord := do
  match (← get).records.find? (·.id = id) with
  | some record => return record
  | none => throw (.new .notFound s!"no job {id.text}")

/-- `write_record`: the stored revision must be the one that was read. -/
def writeRecord (record : JobRecord) : Op JobRecord := do
  let w ← get
  let path := jobs.path record.id
  let found := match w.disk record.id with
    | some current => current.revision
    | none => 0
  if (w.disk record.id).isSome && found < 1 then
    throw (storageError s!"record revision must be positive: {path}")
  if found ≠ record.revision then
    throw (storageError
      s!"revision conflict on {path}: expected {record.revision}, found {found}")
  access (·.write (.saved record.next))
  return record.next

def save (record : JobRecord) : Op JobRecord := do
  let record ← jobs.writeRecord record
  let w ← get
  set { w with records := putRecord record w.records }
  return record

def finished (records : List JobRecord) : List (Int ×ₗ JobId) :=
  ((records.filter (·.state.isTerminal)).map (·.age)).insertionSort (· ≤ ·)

def remove (id : JobId) : Op Unit := do
  access (·.write (.removed id))
  let w ← get
  set { w with records := w.records.filter (·.id ≠ id) }

def prune : Op Unit := do
  let finished := finished (← get).records
  if finished.length ≤ jobs.config.keepFinished then
    return
  let excess := finished.length - jobs.config.keepFinished
  let oldest := (finished.take excess).map fun key => (ofLex key).2
  let _ ← oldest.mapM remove

def readOne (record : JobRecord) : Except ApiError Unit := do
  let path := jobs.path record.id
  if record.schemaVersion > recordSchema then
    throw (storageError (s!"job record uses schema version {record.schemaVersion}; " ++
      s!"this version of BMAC understands up to {recordSchema}"))
  if record.recordType ≠ recordType then
    throw (.new .internal s!"{path} is not a job record")

/-- Runs `body` with the lock held and all records read. -/
def locked {α : Type} (body : Op α) : Op α := do
  access id
  ofExcept ((← get).records.forM jobs.readOne)
  let value ← body
  access id
  return value

def operation (id : OperationId) : Except ApiError Operation :=
  match jobs.registry.get id with
  | some operation => .ok operation
  | none => .error (.new .notFound s!"no operation {id}")

def quorate : Except ApiError Membership := do
  let membership ← match jobs.cluster.membership with
    | .ok membership => pure membership
    | .error e => throw (.new .unavailable e)
  if !membership.quorate then
    throw (.new .noQuorum
      "this host's part of the cluster has no quorum, so nothing can change")
  return membership

/-! ## Admission -/

def validIdempotencyKey (key : String) : Bool :=
  !key.isEmpty && Text.len key ≤ maxIdempotencyKey &&
  key.toList.all fun c => Text.isAlphanumeric c || c = '-' || c = '_' || c = '.' || c = ':'

def resolveTarget (operation : Operation) (parameters : Dict String) (membership : Membership) :
    Except ApiError HostSlot :=
  let param (id : String) : Except ApiError String :=
    match parameters.get? id with
    | some text => .ok text
    | none => .error (.new .invalid s!"{id} is required")
  let guest (id : String) : Except ApiError GuestName := do
    match GuestName.parse (← param id) with
    | some name => return name
    | none => throw (.new .invalid s!"{id} is not a guest")
  let online (host : HostSlot) : Except ApiError HostSlot :=
    if host ∈ membership.online then .ok host
    else .error (.new .unavailable s!"{host} is offline, and {operation.title} runs there")
  let cluster {α : Type} (answer : Except String α) : Except ApiError α :=
    answer.mapError (.new .unavailable)
  let me := jobs.config.host
  match operation.target with
  | .any | .placement => .ok me
  | .duty =>
    match membership.duty with
    | some host => .ok host
    | none => .error (.new .unavailable "no host is online")
  | .host id => do
    match HostSlot.parse (← param id) with
    | some host => online host
    | none => throw (.new .invalid s!"{id} is not a host")
  | .anyExcept id => do
    let excluded ← param id
    if me.text ≠ excluded then return me
    match membership.online.find? (·.text ≠ excluded) with
    | some host => return host
    | none => throw (.new .unavailable s!"no host other than {excluded} is online")
  | .owner id => do
    let name ← guest id
    match ← cluster (jobs.cluster.guestOwner name) with
    | some owner => online owner
    | none => throw (.new .notFound s!"no host has {name}")
  | .standby id => do
    let name ← guest id
    let owner ← cluster (jobs.cluster.guestOwner name)
    let placement ← cluster (jobs.cluster.placement name)
    if placement.isEmpty then throw (.new .notFound s!"no host has {name}")
    let standby := placement.filter fun h => some h ≠ owner ∧ h ∈ membership.online
    match standby.argmin (·.number) with
    | some host => return host
    | none => throw (.new .unavailable s!"none of {name}'s standby hosts is online")

def checkConflicts (records : List JobRecord) (wanted : List String) : Except ApiError Unit :=
  (records.filter (·.holdsLocks)).forM fun record =>
    record.locks.forM fun held =>
      match wanted.find? (locksConflict · held) with
      | none => .ok ()
      | some lock =>
        let hint := if record.state = .interrupted then
          " until someone resumes it or marks it failed" else ""
        .error (.new .conflict (s!"{lock} is in use by \"{record.title}\" ({record.id.text}), " ++
          s!"started by {record.user}{hint}"))

def newRecord (caller : Caller) (launch : LaunchJob) (operation : Operation) (prepared : Prepared)
    (target : HostSlot) (id : JobId) : JobRecord where
  schemaVersion := recordSchema
  recordType := recordType
  revision := 0
  id := id
  operation := launch.operation
  title := operation.title
  parameters := prepared.summary
  args := prepared.args
  locks := prepared.locks
  dryRun := prepared.dryRun
  user := caller.user
  role := caller.role
  idempotencyKey := launch.idempotencyKey
  admittedBy := jobs.config.host
  target := target
  state := .admitted
  message := none
  createdAtMs := jobs.now
  updatedAtMs := jobs.now
  admittedAtMs := jobs.now
  finishedAtMs := none
  lease := none
  cancel := none
  cancelAllowed := true
  phase := none
  pendingRequest := none
  attempts := 0
  lastSeq := 0

/-- Admits a job, or returns the one that the same key already admitted; `id` is the drawn id. -/
def admitJob (caller : Caller) (launch : LaunchJob) (id : JobId) : Op Admission := do
  if !validIdempotencyKey launch.idempotencyKey then
    throw (.new .invalid "the idempotency key must be 1 to 128 letters, digits, or - _ . :")
  let operation ← ofExcept (jobs.operation launch.operation)
  if caller.role.rank < operation.minRole.rank then
    throw (.new .forbidden s!"{operation.title} needs the {operation.minRole.debug} role")
  let prepared ← ofExcept (prepare operation launch.parameters launch.dryRun)
  jobs.locked do
    match (← get).records.find? fun r =>
        r.user = caller.user ∧ r.idempotencyKey = launch.idempotencyKey with
    | some existing =>
      let same := existing.operation = launch.operation ∧ existing.parameters = prepared.summary ∧
        existing.dryRun = prepared.dryRun
      if ¬ same then
        throw (.new .conflict "this idempotency key was already used for a different launch")
      return ⟨existing, true⟩
    | none =>
      let membership ← ofExcept jobs.quorate
      let target ← ofExcept (jobs.resolveTarget operation prepared.summary membership)
      ofExcept (checkConflicts (← get).records prepared.locks)
      let record ← jobs.save (jobs.newRecord caller launch operation prepared target id)
      jobs.prune
      return ⟨record, false⟩

/-! ## The holder -/

/-- The target host takes an admitted job, with the drawn `nonce`. -/
def claim (id : JobId) (nonce : String) : Op Claim :=
  jobs.locked do
    let record ← find id
    if record.state ≠ .admitted then
      throw (.new .conflict s!"job {id.text} is {record.state.debug}, not waiting to start")
    if record.target ≠ jobs.config.host then
      throw (.new .conflict s!"job {id.text} runs on {record.target}")
    let now := jobs.now
    let lease : JobLease := ⟨nonce, jobs.config.host, now, now + jobs.config.leaseTtlMs⟩
    let record ← jobs.save { record with
      state := .running, lease := some lease, attempts := record.attempts + 1,
      cancelAllowed := true, phase := none, pendingRequest := none, message := none,
      updatedAtMs := now }
    return ⟨record, nonce⟩

def checkHolder (record : JobRecord) (nonce : String) : Except ApiError JobLease :=
  let lost : ApiError := .new .conflict s!"this host no longer holds job {record.id.text}"
  match record.lease with
  | some lease =>
    if lease.nonce = nonce ∧ lease.holder = jobs.config.host then .ok lease else .error lost
  | none => .error lost

def renew (id : JobId) (nonce : String) (progress : Progress) : Op JobRecord :=
  jobs.locked do
    let record ← find id
    let lease ← ofExcept (jobs.checkHolder record nonce)
    let now := jobs.now
    if record.state ≠ .running ∨ now ≥ lease.expiresAtMs then
      throw (.new .conflict s!"the lease on job {id.text} has expired")
    let lease := { lease with expiresAtMs := now + jobs.config.leaseTtlMs }
    jobs.save { record with
      lease := some lease, phase := progress.phase, cancelAllowed := progress.cancelAllowed,
      pendingRequest := progress.pendingRequest, lastSeq := max record.lastSeq progress.lastSeq,
      updatedAtMs := now }

/-- Records how the job ended; the holder may report it even after the job was interrupted. -/
def finish (id : JobId) (nonce : String) (state : JobState) (message : String) (lastSeq : Nat) :
    Op JobRecord := do
  if !state.isTerminal then
    throw (.new .invalid "a job finishes completed, failed, or cancelled")
  jobs.locked do
    let record ← find id
    let _ ← ofExcept (jobs.checkHolder record nonce)
    if ¬ (record.state = .running ∨ record.state = .interrupted) then
      throw (.new .conflict s!"job {id.text} is already {record.state.debug}")
    let record ← jobs.save { record.finish state message jobs.now with
      lastSeq := max record.lastSeq lastSeq }
    jobs.prune
    return record

/-! ## Operators -/

def cancelled (caller : Caller) (force : Bool) (record : JobRecord) : Except ApiError JobRecord :=
  let now := jobs.now
  match record.state with
  | .admitted =>
    .ok { record.finish .cancelled s!"cancelled by {caller.user} before it started" now with
      cancel := some ⟨force, caller.user, now⟩ }
  | .running =>
    if !force && !record.cancelAllowed && record.pendingRequest.isNone then
      let phase := record.phase.getD "this phase"
      .error (.new .conflict
        s!"the job marked \"{phase}\" as unsafe to interrupt; wait for it to finish")
    else
      let forced := force || record.cancel.any (·.forced)
      let requestedAtMs := (record.cancel.map (·.requestedAtMs)).getD now
      .ok { record with
        cancel := some ⟨forced, caller.user, requestedAtMs⟩, updatedAtMs := now }
  | .interrupted =>
    .error (.new .conflict
      "the job was interrupted; check the live state, then resume it or mark it failed")
  | _ => .error (.new .conflict s!"job {record.id.text} has already finished")

def cancel (caller : Caller) (id : JobId) (force : Bool) : Op JobRecord :=
  jobs.locked do
    let record ← find id
    let operation ← ofExcept (jobs.operation record.operation)
    if caller.role.rank < operation.minRole.rank then
      throw (.new .forbidden
        s!"cancelling {operation.title} needs the {operation.minRole.debug} role")
    if force && caller.role.rank < Role.admin.rank then
      throw (.new .forbidden "a forced cancel needs the Admin role")
    let record ← ofExcept (jobs.cancelled caller force record)
    let record ← jobs.save record
    jobs.prune
    return record

def interrupted (caller : Caller) (id : JobId) : Op JobRecord := do
  let record ← find id
  let operation ← ofExcept (jobs.operation record.operation)
  if caller.role.rank < operation.minRole.rank then
    throw (.new .forbidden s!"{operation.title} needs the {operation.minRole.debug} role")
  if record.state ≠ .interrupted then
    throw (.new .conflict s!"job {id.text} is {record.state.debug}, not interrupted")
  return record

/-- Restarts an interrupted job from its checkpoint, on the host its target rule now picks. -/
def resume (caller : Caller) (id : JobId) : Op JobRecord :=
  jobs.locked do
    let record ← jobs.interrupted caller id
    let operation ← ofExcept (jobs.operation record.operation)
    if operation.resume ≠ .checkpoint then
      throw (.new .invalid (s!"{operation.title} can't continue after an interruption; " ++
        "check the live state, then mark it failed"))
    let membership ← ofExcept jobs.quorate
    let target ← ofExcept (jobs.resolveTarget operation record.parameters membership)
    let now := jobs.now
    jobs.save { record with
      target := target, state := .admitted, message := some s!"resumed by {caller.user}",
      admittedAtMs := now, updatedAtMs := now }

/-- Marks an interrupted job failed once someone has checked the live state. -/
def reconcile (caller : Caller) (id : JobId) : Op JobRecord :=
  jobs.locked do
    let record ← jobs.interrupted caller id
    let record ← jobs.save (record.finish .failed
      s!"marked failed by {caller.user} after checking the live state" jobs.now)
    jobs.prune
    return record

/-! ## Restarts and timeouts -/

def own (record : JobRecord) : Bool :=
  record.state = .running && record.lease.any (·.holder = jobs.config.host)

/-- For a starting `bmacd`: interrupts the jobs this host was running. `seen` are the records as a
first look found them, before the lock. -/
def interruptOwn (seen : List JobRecord) : Op (List JobRecord) := do
  if !seen.any jobs.own then
    return []
  jobs.locked do
    let own := (← get).records.filter jobs.own
    own.mapM fun record => jobs.save { record with
      state := .interrupted
      message := some (s!"{jobs.config.host} restarted while it ran; " ++
        "inspect the live state before resuming or marking it failed")
      updatedAtMs := jobs.now }

/-- Puts an interrupted checkpoint job this host was running back in line here, after the restart
it asked for. -/
def resumeAfterRestart (id : JobId) : Op JobRecord :=
  jobs.locked do
    let host := jobs.config.host
    let record ← find id
    let operation ← ofExcept (jobs.operation record.operation)
    let held := record.lease.any (·.holder = host)
    if record.state ≠ .interrupted ∨ ¬ held ∨ operation.resume ≠ .checkpoint then
      throw (.new .conflict s!"job {id.text} isn't an interrupted checkpoint job of {host}")
    let _ ← ofExcept jobs.quorate
    let now := jobs.now
    jobs.save { record with
      state := .admitted, target := host, message := some s!"resumed after {host} restarted",
      admittedAtMs := now, updatedAtMs := now }

/-- Whether the record is overdue at the reading `at_`. -/
def stale (at_ : Int) (record : JobRecord) : Bool :=
  match record.state with
  | .running => record.lease.any (at_ ≥ ·.expiresAtMs)
  | .admitted => at_ ≥ record.admittedAtMs + jobs.config.claimTimeoutMs
  | _ => false

def swept (record : JobRecord) : JobRecord :=
  if record.state = .running then
    let holder := ((record.lease.map (·.holder)).map (·.text)).getD "its host"
    { record with
      state := .interrupted
      message := some (s!"{holder} stopped renewing its lease; " ++
        "inspect the live state before resuming or marking it failed")
      updatedAtMs := jobs.now }
  else record.finish .failed s!"{record.target} never started it" jobs.now

/-- Interrupts running jobs whose lease expired and fails admitted ones their target never claimed.
What is overdue is decided by an earlier reading of the clock, `at_`, than the one it writes. -/
def sweep (at_ : Int) (seen : List JobRecord) : Op (List JobRecord) := do
  if !seen.any (jobs.stale at_) then
    return []
  jobs.locked do
    let overdue := (← get).records.filter (jobs.stale at_)
    let changed ← overdue.mapM fun record => jobs.save (jobs.swept record)
    jobs.prune
    return changed

end Jobs

end Bmac.Bmacd
