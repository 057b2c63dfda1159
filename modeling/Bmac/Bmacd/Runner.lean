import Bmac.Bmacd.JobCalls
import Bmac.Bmacd.SupervisorEnd

/-!
# The runner

`bmacd/src/runner.rs`: a host claims the admitted jobs that are its own, numbers their events on from
the record's `last_seq`, renews their leases with what the supervisor shows and reports how they
ended. The sink's writer stores the events of a host later, in the order they came. `ClusterStep` is
all of it on any number of hosts, each of which may stop at any moment. The notices on the hub and
the cancel orders that a run is told of are left out.
-/

namespace Bmac.Bmacd.Runner

open Bmac.Base Bmac.Core Bmac.Proto Bmac.Bmacd.Supervisor

/-- A claimed job on its host. -/
structure Attempt where
  /-- The place of its claim among the job's. -/
  claim : Nat
  /-- As the claim left it. -/
  record : JobRecord
  nonce : String
  /-- Its run; what that delivers goes to the sink's queue at once. -/
  supervised : Supervised

/-- An event and the claim of its job that it comes from. -/
structure Logged where
  claim : Nat
  event : JobEvent

structure Daemon where
  active : JobId → Option Attempt
  /-- The deliveries that the sink's writer has still to store. -/
  writes : List (List Logged)

structure Cluster where
  disk : Disk
  daemons : HostSlot → Daemon
  /-- The `last_seq` that each claim of a job started from, oldest first. -/
  claims : JobId → List Nat
  /-- Every event that was stored, on any host. -/
  stored : List Logged

/-- How the supervisor takes a claimed job. -/
inductive Launch where
  | runs (stopping : Bool)
  | refuses (error : ApiError)

def startedEvent (host : HostSlot) (record : JobRecord) : JobEvent :=
  ⟨record.id, record.lastSeq + 1, record.updatedAtMs,
    .started record.operation host record.user record.dryRun⟩

def Daemon.start (d : Daemon) (host : HostSlot) (id : JobId) (place : Nat) (claim : Claim)
    (launch : Launch) : Daemon :=
  let first := claim.job.lastSeq + 1
  let supervised := match launch with
    | .runs stopping => started (first + 1) stopping
    | .refuses error => ⟨none, false, [], some ⟨.failed, some error.message, none, none, first⟩⟩
  { active := Function.update d.active id (some ⟨place, claim.job, claim.nonce, supervised⟩)
    writes := d.writes ++ [[⟨place, startedEvent host claim.job⟩]] }

/-- The attempt goes on with `next`, and the sink gets what it delivered. -/
def Daemon.deliver (d : Daemon) (id : JobId) (attempt : Attempt) (next : Supervised) : Daemon where
  active := Function.update d.active id (some { attempt with supervised := { next with sent := [] } })
  writes := d.writes ++ next.sent.map (·.map (⟨attempt.claim, ·⟩))

/-- `progress` of the supervisor's view, or of an empty one. -/
def progress : Option ActiveRun → Progress
  | some run => ⟨run.activity, run.cancelAllowed, run.pendingRequest.bind (·.requestId), run.seq⟩
  | none => ⟨none, false, none, 0⟩

/-- What `drive` returns: how the job ended, or none while it runs or if it was left. -/
def Attempt.ending (a : Attempt) : Option (JobState × String × Nat) :=
  match a.supervised.run, a.supervised.outcome with
  | some _, _ => none
  | none, some outcome => some (outcome.state, outcome.message.getD "finished", outcome.lastSeq)
  | none, none =>
    if a.supervised.stopping then none
    else some (.failed, "the supervisor stopped watching the script", a.record.lastSeq)

/-- The calls that the runner makes for the jobs it claimed. -/
inductive Attempt.Reports (a : Attempt) (id : JobId) : Call → Prop where
  | renew : a.Reports id (.renew id a.nonce (progress a.supervised.run))
  | finish {state : JobState} {message : String} {lastSeq : Nat}
      (hend : a.ending = some (state, message, lastSeq)) :
      a.Reports id (.finish id a.nonce state message lastSeq)

/-- The calls that aren't a runner's. -/
def isOther : Call → Bool
  | .claim .. | .renew .. | .finish .. => false
  | _ => true

inductive Event where
  | call (act : Act)
  | claim (act : Act) (launch : Launch)
  | report (id : JobId) (act : Act)
  | operate (host : HostSlot) (config : Supervisor.Config) (op : Supervisor.Op × Int)
  | finalize (host : HostSlot) (config : Supervisor.Config) (nowMs : Int) (status : ExitStatus)
  | leave (host : HostSlot) (id : JobId)
  | store (host : HostSlot) (deliveries : Nat) (taken : Bool)
  | crash (host : HostSlot)

def Cluster.setDaemon (s : Cluster) (host : HostSlot) (d : Daemon) : Cluster :=
  { s with daemons := Function.update s.daemons host d }

inductive ClusterStep : Cluster → Event → Cluster → Prop where
  | call {s : Cluster} {act : Act} {disk' : Disk} (hcall : isOther act.call = true)
      (hstep : Step s.disk act disk') : ClusterStep s (.call act) { s with disk := disk' }
  | claim {s : Cluster} {act : Act} {disk' : Disk} {id : JobId} {nonce : String} {claim : Claim}
      {launch : Launch} (hcall : act.call = .claim id nonce)
      (hidle : (s.daemons act.jobs.config.host).active id = none) (hstep : Step s.disk act disk')
      (hreply : act.reply = .ok (.claim claim)) :
      ClusterStep s (.claim act launch)
        ({ s with
            disk := disk'
            claims := Function.update s.claims id (s.claims id ++ [claim.job.lastSeq]) }.setDaemon
          act.jobs.config.host
          ((s.daemons act.jobs.config.host).start act.jobs.config.host id (s.claims id).length claim
            launch))
  | claimRefused {s : Cluster} {act : Act} {disk' : Disk} {id : JobId} {nonce : String}
      {e : ApiError} {launch : Launch} (hcall : act.call = .claim id nonce)
      (hidle : (s.daemons act.jobs.config.host).active id = none) (hstep : Step s.disk act disk')
      (hreply : act.reply = .error e) :
      ClusterStep s (.claim act launch) { s with disk := disk' }
  | report {s : Cluster} {act : Act} {disk' : Disk} {id : JobId} {a : Attempt}
      (hactive : (s.daemons act.jobs.config.host).active id = some a)
      (hcall : a.Reports id act.call) (hstep : Step s.disk act disk') :
      ClusterStep s (.report id act) { s with disk := disk' }
  | operate {s : Cluster} {host : HostSlot} {config : Supervisor.Config}
      {op : Supervisor.Op × Int} {a : Attempt} {run : ActiveRun}
      (hactive : (s.daemons host).active config.job = some a) (hrun : a.supervised.run = some run) :
      ClusterStep s (.operate host config op)
        (s.setDaemon host
          ((s.daemons host).deliver config.job a (Supervisor.Op.step config a.supervised op)))
  | finalize {s : Cluster} {host : HostSlot} {config : Supervisor.Config} {nowMs : Int}
      {status : ExitStatus} {a : Attempt} {run : ActiveRun}
      (hactive : (s.daemons host).active config.job = some a) (hrun : a.supervised.run = some run) :
      ClusterStep s (.finalize host config nowMs status)
        (s.setDaemon host
          ((s.daemons host).deliver config.job a
            (Supervisor.finalize config nowMs a.supervised status)))
  /-- the job's end is recorded, or was left or can't be -/
  | leave {s : Cluster} {host : HostSlot} {id : JobId} {a : Attempt}
      (hactive : (s.daemons host).active id = some a) (hrun : a.supervised.run = none) :
      ClusterStep s (.leave host id)
        (s.setDaemon host
          { s.daemons host with active := Function.update (s.daemons host).active id none })
  /-- the writer stores the first deliveries in one transaction, or loses them -/
  | store (s : Cluster) (host : HostSlot) (deliveries : Nat) (taken : Bool) :
      ClusterStep s (.store host deliveries taken)
        ({ s with
            stored := s.stored ++
              if taken then ((s.daemons host).writes.take deliveries).flatten else [] }.setDaemon host
          { s.daemons host with writes := (s.daemons host).writes.drop deliveries })
  | crash (s : Cluster) (host : HostSlot) :
      ClusterStep s (.crash host) (s.setDaemon host ⟨fun _ => none, []⟩)

def Cluster.empty : Cluster := ⟨fun _ => none, fun _ => ⟨fun _ => none, []⟩, fun _ => [], []⟩

end Bmac.Bmacd.Runner
