import Bmac.Base.Trace
import Bmac.Bmacd.Capture

/-!
# Changing a VM's disks

`bmacd/src/backup/replace.rs`: a production VM's own disks are brought back to a PIT. `change` takes
the VM's orchestration lease, stops the VM and deletes its replication jobs, changes the disks,
recreates the jobs and waits for each one's first sync, and then starts the VM and releases the lease.

The job is a program of calls on the host. A poll of a wait sleeps; after `polls` of them its limit
has passed, as each `Instant` may also say. What the job writes for the operator is left out.
-/

namespace Bmac.Bmacd.Replace

open Bmac.Base Bmac.Core
open Capture (Stop)

def leaseS : Nat := 48 * 3600
/-- Set-aside disks nest one level per restore over a clone. -/
def maxPromotes : Nat := 16
/-- A replication job that failed this many times since it was recreated stops the wait with Proxmox's
error. -/
def maxSyncFailures : Nat := 3

/-- One storage replication job, as recreated. -/
structure Job where
  id : String
  target : HostSlot
  schedule : String
  rate : Option String
  comment : Option String

structure JobState where
  busy : Bool
  failing : Bool
  lastSyncS : Int
  failCount : Nat
  error : Option String

inductive Call where
  | acquire (name : GuestName) (ttlS : Nat)
  | release (name : GuestName) (nonce : String)
  | haManaged (vmid : Nat)
  | setHa (vmid : Nat) (started : Bool)
  | running (vmid : Nat)
  | shutdown (vmid : Nat)
  | start (vmid : Nat)
  | jobs (vmid : Nat)
  /-- `pvesr delete`: Proxmox removes the replica, then the job. -/
  | deleteJob (id : String)
  | createJob (job : Job)
  | jobState (id : String)
  | scheduleNow (id : String)
  /-- The wall clock, in milliseconds. -/
  | nowMs
  /-- The monotonic clock, in milliseconds. -/
  | instant
  /-- Makes the unmounted parents of `dataset`. -/
  | ensureParent (dataset : String)
  | rename (old new : String)
  | inheritVolmode (dataset : String)
  | promote (dataset : String)
  | snapshot (name : String)
  /-- A full stream of `origin`, then the snapshots from it to `snapshot`, into `target`. -/
  | copyClone (origin snapshot target : String)
  | guid (snapshot : String)
  /-- `zfs destroy -r` of a dataset or a snapshot. -/
  | destroy (name : String)
  /-- A clone's origin snapshot. -/
  | origin (dataset : String)
  /-- `zfs rollback -r`: newer snapshots and bookmarks go. -/
  | rollback (snapshot : String)
  | rescan (vmid : Nat)
  /-- Removes a VM whose disks were moved away. -/
  | forgetVm (vmid : Nat)

/-- The answers. That of a job's creation carries when it took place, in milliseconds, which the
program doesn't look at. -/
def Reply : Call → Type
  | .acquire _ _ => Except String String
  | .haManaged _ => Except String Bool
  | .running _ => Except String Bool
  | .jobs _ => Except String (List Job)
  | .createJob _ => Except String Int
  | .jobState _ => Except String JobState
  | .nowMs => Int
  | .instant => Nat
  | .guid _ => Except String (Option String)
  | .origin _ => Except String (Option String)
  | _ => Except String Unit

abbrev Program (α : Type) := Prog Call Reply Stop α

abbrev Answer := Program (Except String Unit)

namespace Host

def acquire (name : GuestName) (ttlS : Nat) : Program (Except String String) :=
  Prog.ask (Call.acquire name ttlS)

def release (name : GuestName) (nonce : String) : Answer := Prog.ask (Call.release name nonce)

def haManaged (vmid : Nat) : Program (Except String Bool) := Prog.ask (Call.haManaged vmid)

def setHa (vmid : Nat) (started : Bool) : Answer := Prog.ask (Call.setHa vmid started)

def running (vmid : Nat) : Program (Except String Bool) := Prog.ask (Call.running vmid)

def shutdown (vmid : Nat) : Answer := Prog.ask (Call.shutdown vmid)

def start (vmid : Nat) : Answer := Prog.ask (Call.start vmid)

def jobs (vmid : Nat) : Program (Except String (List Job)) := Prog.ask (Call.jobs vmid)

def deleteJob (id : String) : Answer := Prog.ask (Call.deleteJob id)

def createJob (job : Job) : Program (Except String Int) := Prog.ask (Call.createJob job)

def jobState (id : String) : Program (Except String JobState) := Prog.ask (Call.jobState id)

def scheduleNow (id : String) : Answer := Prog.ask (Call.scheduleNow id)

def nowMs : Program Int := Prog.ask Call.nowMs

def instant : Program Nat := Prog.ask Call.instant

def ensureParent (dataset : String) : Answer := Prog.ask (Call.ensureParent dataset)

def rename (old new : String) : Answer := Prog.ask (Call.rename old new)

def inheritVolmode (dataset : String) : Answer := Prog.ask (Call.inheritVolmode dataset)

def promote (dataset : String) : Answer := Prog.ask (Call.promote dataset)

def snapshot (name : String) : Answer := Prog.ask (Call.snapshot name)

def copyClone (origin snapshot target : String) : Answer :=
  Prog.ask (Call.copyClone origin snapshot target)

def guid (snapshot : String) : Program (Except String (Option String)) :=
  Prog.ask (Call.guid snapshot)

def destroy (name : String) : Answer := Prog.ask (Call.destroy name)

def origin (dataset : String) : Program (Except String (Option String)) :=
  Prog.ask (Call.origin dataset)

def rollback (snapshot : String) : Answer := Prog.ask (Call.rollback snapshot)

def rescan (vmid : Nat) : Answer := Prog.ask (Call.rescan vmid)

def forgetVm (vmid : Nat) : Answer := Prog.ask (Call.forgetVm vmid)

end Host

/-- The call's answer, or the failure of the job. -/
def asked {α : Type} (answer : Program (Except String α)) : Program α := do
  match ← answer with
  | .ok a => return a
  | .error e => Prog.fail (.failed e)

structure Context where
  /-- Polls of a wait until its limit has passed. -/
  polls : Nat
  stopWaitMs : Nat
  replicationTimeoutMs : Nat
  askEveryMs : Nat

/-- A production VM stopped, with its replicas removed, under its lease. -/
structure Fenced where
  production : Production
  nonce : String
  ha : Bool := false
  jobs : List Job := []
  wasRunning : Bool := false

/-! ## Stopping the VM -/

def polled (limitMs started : Nat) (what : String) (done : Program Bool) : Nat → Program Unit
  | 0 => Prog.fail (.failed s!"{what} within {limitMs / 1000} seconds")
  | polls + 1 => do
    if ← done then return ()
    let now ← Host.instant
    if limitMs ≤ now - started then
      Prog.fail (.failed s!"{what} within {limitMs / 1000} seconds")
    else polled limitMs started what done polls

def waitUntil (cx : Context) (limitMs : Nat) (what : String) (done : Program Bool) : Program Unit := do
  let started ← Host.instant
  polled limitMs started what done cx.polls

def deleteJobs (jobs : List Job) : Program Unit :=
  Prog.forEach (fun job => asked (Host.deleteJob job.id)) jobs

/-- What `stop_and_drop` does once it has looked. -/
def stopAndDelete (cx : Context) (f : Fenced) : Program Unit := do
  let vmid := f.production.vmid
  if f.ha then asked (Host.setHa vmid false)
  else if f.wasRunning then asked (Host.shutdown vmid)
  waitUntil cx cx.stopWaitMs s!"VM {vmid} didn't stop" do
    return !(← asked (Host.running vmid))
  deleteJobs f.jobs
  if f.jobs.isEmpty then return ()
  waitUntil cx cx.replicationTimeoutMs "Proxmox didn't finish removing the replicas" do
    let left ← asked (Host.jobs vmid)
    return left.all fun job => (f.jobs.map (·.id)).all (· ≠ job.id)

/-- What it has found stays in `f` when it fails. -/
def stopAndDrop (cx : Context) (f : Fenced) : Program (Fenced × Except Stop Unit) := do
  let vmid := f.production.vmid
  match ← Host.haManaged vmid with
  | .error e => return (f, .error (.failed e))
  | .ok ha =>
    let f := { f with ha }
    match ← Host.jobs vmid with
    | .error e => return (f, .error (.failed e))
    | .ok jobs =>
      let f := { f with jobs }
      match ← Host.running vmid with
      | .error e => return (f, .error (.failed e))
      | .ok wasRunning =>
        let f := { f with wasRunning }
        let outcome ← (stopAndDelete cx f).attempt
        return (f, outcome)

/-! ## Replicating and starting it again -/

def createJobs (jobs : List Job) : Program Unit :=
  Prog.forEach (fun job => do
    let _ ← asked (Host.createJob job)
    return ()) jobs

def JobState.synced (state : JobState) (sinceS : Int) : Bool :=
  !state.busy && !state.failing && sinceS ≤ state.lastSyncS

abbrev Asked := List (String × Nat)

/-- One look at each job: those that aren't synced yet. -/
def look (cx : Context) (sinceS : Int) : List Job → Asked → Program (List Job × Asked)
  | [], asks => return ([], asks)
  | job :: rest, asks => do
    let state : JobState ← asked (Host.jobState job.id)
    if state.synced sinceS then look cx sinceS rest asks
    else if maxSyncFailures ≤ state.failCount then
      let why := state.error.getD "no error given"
      Prog.fail (.failed (s!"replication to mox{job.target.number} failed {state.failCount} times: " ++
        s!"{why}; it carries on in Proxmox"))
    else
      let now ← Host.instant
      let due := !state.busy && (asks.lookup job.id).all fun t => cx.askEveryMs ≤ now - t
      if due then
        let _ ← Host.scheduleNow job.id
        let asked ← Host.instant
        let (still, asks) ← look cx sinceS rest ((job.id, asked) :: asks)
        return (job :: still, asks)
      else
        let (still, asks) ← look cx sinceS rest asks
        return (job :: still, asks)

def lateText (cx : Context) (pending : List Job) : String :=
  let late := Text.join ", " (pending.map fun job => s!"mox{job.target.number}")
  s!"replication to {late} didn't finish within {cx.replicationTimeoutMs / 1000} seconds; it carries on in Proxmox"

def awaitSyncs (cx : Context) (sinceS : Int) (started : Nat) :
    Nat → List Job → Asked → Program Unit
  | _, [], _ => return ()
  | 0, pending, _ => Prog.fail (.failed (lateText cx pending))
  | polls + 1, pending, asks => do
    let (still, asks) ← look cx sinceS pending asks
    if still.isEmpty then return ()
    let now ← Host.instant
    if cx.replicationTimeoutMs ≤ now - started then Prog.fail (.failed (lateText cx still))
    else awaitSyncs cx sinceS started polls still asks

def replicate (cx : Context) (f : Fenced) : Program Unit := do
  if f.jobs.isEmpty then return ()
  let listed ← asked (Host.jobs f.production.vmid)
  let nowMs ← Host.nowMs
  let sinceS := Int.fdiv nowMs 1000
  createJobs (f.jobs.filter fun job => (listed.map (·.id)).all (· ≠ job.id))
  let started ← Host.instant
  awaitSyncs cx sinceS started cx.polls f.jobs []

def restart (f : Fenced) : Program Unit :=
  if f.ha then asked (Host.setHa f.production.vmid true)
  else asked (Host.start f.production.vmid)

def replicateAndStart (cx : Context) (f : Fenced) (start : Bool) : Program Unit := do
  replicate cx f
  if start then restart f

/-- Recreates the replication jobs and waits for each one's first sync, starts the VM when `start`,
and releases the lease. -/
def unfence (cx : Context) (f : Fenced) (start : Bool) : Program Unit := do
  let outcome : Except Stop Unit ← (replicateAndStart cx f start).attempt
  let _ ← Host.release f.production.name f.nonce
  Prog.ofExcept outcome

def fence (cx : Context) (production : Production) : Program Fenced := do
  match ← Host.acquire production.name leaseS with
  | .error e =>
    Prog.fail (.failed s!"could not take {production.name}'s orchestration lease (another operation may hold it): {e}")
  | .ok nonce =>
    let (f, outcome) ← stopAndDrop cx { production, nonce }
    match outcome with
    | .ok () => return f
    | .error stop =>
      let _ : Except Stop Unit ← (unfence cx f f.wasRunning).attempt
      Prog.fail stop

/-! ## Swapping disks -/

/-- One disk to replace: the restored zvol takes `current`'s name. -/
structure Swap where
  slot : String
  current : String
  restored : String
  volumeUuid : String

def poolOf (dataset : String) : String := (Text.split '/' dataset).headD ""

def leafOf (dataset : String) : String := (Text.split '/' dataset).getLastD ""

def replaced (pool : String) (vmid : Nat) (volumeUuid : String) (atS : Int) : String :=
  s!"{pool}/bmac-replaced/{vmid}/{volumeUuid}-{atS}"

/-- A disk that was renamed, with its old name and its new one. -/
abbrev Moved := List (String × String)

/-- The swaps one after the other, up to one that fails: what moved, and where each disk is kept. -/
def swapEach (vmid : Nat) (atS : Int) :
    List Swap → Moved → Dict String → Program (Moved × Except String (Dict String))
  | [], moved, aside => return (moved, .ok aside)
  | s :: rest, moved, aside => do
    let to_ := replaced (poolOf s.current) vmid s.volumeUuid atS
    match ← Host.ensureParent to_ with
    | .error e => return (moved, .error e)
    | .ok () =>
      match ← Host.rename s.current to_ with
      | .error e => return (moved, .error e)
      | .ok () =>
        let moved := moved ++ [(s.current, to_)]
        match ← Host.rename s.restored s.current with
        | .error e => return (moved, .error e)
        | .ok () =>
          let moved := moved ++ [(s.restored, s.current)]
          match ← Host.inheritVolmode s.current with
          | .error e => return (moved, .error e)
          | .ok () => swapEach vmid atS rest moved (aside.insert s.slot to_)

/-- What moved is put back, the last first; how each of the renames went. -/
def undo : Moved → Program (List String)
  | [] => return []
  | (old, new) :: rest => do
    match ← Host.rename new old with
    | .ok () => return s!"{old} is back" :: (← undo rest)
    | .error e => return s!"{new} is still where it moved ({e})" :: (← undo rest)

/-- Replaces `disk`, a clone of another disk's `origin`, with a copy that keeps the origin snapshot's
GUID and the clone's own writes. -/
def copyClone (slot disk origin : String) : Program Unit := do
  let pool := poolOf disk
  let nowMs ← Host.nowMs
  let atS := Int.fdiv nowMs 1000
  let copy := s!"{pool}/bmac-restore/copy-{atS}/{leafOf disk}"
  let snapshot := s!"{disk}@bmac-copy-{atS}"
  let originName := Text.join "@" ((Text.split '@' origin).drop 1)
  asked (Host.snapshot snapshot)
  asked (Host.ensureParent copy)
  asked (Host.copyClone origin snapshot copy)
  let copied ← asked (Host.guid s!"{copy}@{originName}")
  let wanted ← asked (Host.guid origin)
  let last ← asked (Host.guid s!"{copy}@bmac-copy-{atS}")
  let unlike : Stop :=
    .failed s!"{slot}: the copy {copy} doesn't have the snapshots of {disk}; {disk} is unchanged"
  if copied = none ∨ copied ≠ wanted then Prog.fail unlike
  let taken ← asked (Host.guid snapshot)
  if last ≠ taken then Prog.fail unlike
  asked (Host.destroy disk)
  asked (Host.rename copy disk)
  asked (Host.inheritVolmode disk)
  let _ ← Host.destroy s!"{disk}@bmac-copy-{atS}"
  let _ ← Host.destroy s!"{pool}/bmac-restore/copy-{atS}"

def ours (pool dataset : String) : Bool :=
  (Text.stripStart s!"{pool}/bmac-replaced/" dataset).isSome ||
    (Text.stripStart s!"{pool}/bmac-restore/" dataset).isSome

/-- The promotions of a disk that may still follow. -/
def promoteOver (slot disk : String) : Nat → Program Unit
  | 0 => return ()
  | rounds + 1 => do
    match ← asked (Host.origin disk) with
    | none => return ()
    | some origin =>
      let parent := (Text.split '@' origin).headD ""
      if !ours (poolOf disk) parent then copyClone slot disk origin
      else
        match ← Host.promote disk with
        | .error _ => return ()
        | .ok () => promoteOver slot disk rounds

/-- Makes a swapped-in disk own its snapshots: Proxmox replication sends a clone's stream, which its
target can't receive without the origin. -/
def ownHistory (slot disk : String) : Program Unit := promoteOver slot disk maxPromotes

/-- Swaps every restored zvol in, setting the current ones aside; the aside datasets by slot. A failure
puts back what moved. -/
def swap (vmid : Nat) (swaps : List Swap) : Program (Dict String) := do
  let nowMs ← Host.nowMs
  let (moved, outcome) ← swapEach vmid (Int.fdiv nowMs 1000) swaps [] []
  match outcome with
  | .error e =>
    let states ← undo moved.reverse
    let left := if states = [] then "no disk moved" else Text.join "; " states
    Prog.fail (.failed s!"{e}; {left}")
  | .ok aside =>
    Prog.forEach (fun s => ownHistory s.slot s.current) swaps
    let _ ← Host.rescan vmid
    return aside

/-! ## The steps of a change -/

/-- A disk to roll back, with its snapshot of the PIT. -/
structure Target where
  slot : String
  dataset : String
  snapshot : String

def rollbackEach : List Target → List String → Program Unit
  | [], _ => return ()
  | t :: rest, done => do
    match ← Host.rollback t.snapshot with
    | .error e =>
      let states := done.map (fun s => s!"{s} is rolled back") ++ [s!"{t.slot} is as it was ({e})"]
      Prog.fail (.failed ("the rollback stopped: " ++ Text.join "; " states))
    | .ok () => rollbackEach rest (done ++ [t.slot])

/-- What a job changes of a VM's disks. -/
inductive Step where
  | restoreInto (swaps : List Swap)
  | rollback (targets : List Target)
  | promote (swaps : List Swap) (newVmid : Nat)

/-- The change itself; each changed slot with its set-aside dataset, or with its own when it was rolled
back. -/
def Step.run (vmid : Nat) : Step → Program (Dict String)
  | .restoreInto swaps => swap vmid swaps
  | .rollback targets => do
    rollbackEach targets []
    return targets.foldl (fun datasets t => datasets.insert t.slot t.dataset) []
  | .promote swaps newVmid => do
    let aside ← swap vmid swaps
    let _ ← Host.forgetVm newVmid
    return aside

/-- Fences the VM, runs the step, and unfences it: started again when the step worked, stopped when it
didn't. -/
def change (cx : Context) (production : Production) (step : Step) : Program (Dict String) := do
  let fenced ← fence cx production
  let outcome ← (step.run production.vmid).attempt
  match outcome with
  | .ok done =>
    unfence cx fenced true
    return done
  | .error stop =>
    let _ : Except Stop Unit ← (unfence cx fenced false).attempt
    Prog.fail stop

end Bmac.Bmacd.Replace
