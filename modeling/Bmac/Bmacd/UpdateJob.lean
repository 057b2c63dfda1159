import Bmac.Base.History
import Bmac.Bmacd.Capture
import Bmac.Release.Version

/-!
# Updating a cluster

`bmacd/src/updates/job.rs`: `update` has every host of the cluster install a bundle, one host after
another and the host that runs the job last, each checked before the next; the first failure stops it and
offers to roll the updated hosts back (`offerRollback`). `rollback` returns the hosts that run a bundle to
the one before.

A job is a program of calls. It reads what it has done from its checkpoints, so that it carries on where it
was when it starts again. A poll of a wait sleeps; after `polls` of them its limit has passed, as each
`Instant` may also say. What the jobs write for the operator is left out.
-/

namespace Bmac.Bmacd.Updates

open Bmac.Base Bmac.Core Prog
open Capture (Stop)

/-! ## What hosts report -/

/-- A bundle a host installed. -/
structure InstalledBundle where
  sha256 : String
  version : String
  deriving DecidableEq

/-- What a host runs and can roll back to. -/
structure Installed where
  current : Option InstalledBundle := none
  previous : Option InstalledBundle := none
  deriving DecidableEq

inductive InstallMode where
  | update
  /-- back to the bundle installed before the one that the host must be running -/
  | rollback
  deriving DecidableEq

structure InstallRequest where
  job : JobId
  mode : InstallMode
  sha256 : String
  deriving DecidableEq

inductive InstallState where
  | fetching
  | installing
  | installed
  | failed
  deriving DecidableEq

structure InstallStatus where
  mode : InstallMode
  state : InstallState
  message : Option String := none
  /-- The end of the package manager's output, when it failed. -/
  logTail : Option String := none
  deriving DecidableEq

structure HostUpdateState where
  host : HostSlot
  version : String
  installed : Installed
  /-- The install that the job asked for, if any. -/
  install : Option InstallStatus
  /-- Whether each companion unit is active. -/
  services : List (String × Bool)
  /-- The members whose streams this host receives. -/
  reachablePeers : List HostSlot
  deriving DecidableEq

/-- What the job reads of a checked bundle. -/
structure BundleSummary where
  sha256 : String
  version : String
  recordSchema : Nat
  readsRecordSchemaFrom : Nat
  deriving DecidableEq

structure Membership where
  quorate : Bool
  online : List HostSlot
  members : List HostSlot

/-- The host's current bundle has this SHA-256. -/
def HostUpdateState.runs (state : HostUpdateState) (sha256 : String) : Bool :=
  state.installed.current.any (·.sha256 = sha256)

def HostUpdateState.finished (state : HostUpdateState) : Bool :=
  state.install.any (·.state = .installed)

/-- Why the host isn't healthy: it must run `version` with its services up, and every other member must be
reachable from it. -/
def HostUpdateState.problem (state : HostUpdateState) (host : HostSlot) (version : String)
    (members : List HostSlot) : Option String :=
  let down := (state.services.filter fun service => !service.2).map (·.1)
  let missing := members.filter fun m => m ≠ host && !state.reachablePeers.contains m
  let downText := Text.join " and " down
  let missingText := Text.join ", " (missing.map HostSlot.text)
  if state.version ≠ version then some s!"it runs {state.version}, not {version}"
  else if !down.isEmpty then some s!"{downText} isn't running"
  else if !missing.isEmpty then some s!"it doesn't reach {missingText}"
  else none

/-! ## Checkpoints -/

structure Plan where
  hosts : List HostSlot
  members : List HostSlot
  migrate : Bool

/-- A step that a job recorded as done, with its data. -/
inductive Checkpoint where
  | bundle (sha256 : String)
  | plan (plan : Plan)
  | updated (host : HostSlot) (atMs : Int)
  | stopped (host : HostSlot) (message : String)
  | rollbackAsked (roll : Bool) (hosts : List HostSlot)
  /-- the version that the host went back to; none if it was left as it was -/
  | rolledBack (host : HostSlot) (version : Option String)
  /-- `plan` in the checkpoints of a `cluster.rollback` -/
  | rollbackPlan (sha256 : String) (hosts : List HostSlot)

/-- What a job has finished, the newest step first. -/
abbrev Done := List Checkpoint

namespace Done

variable (done : Done)

def bundle : Option String :=
  done.findSome? fun
    | .bundle sha256 => some sha256
    | _ => none

def plan : Option Plan :=
  done.findSome? fun
    | .plan plan => some plan
    | _ => none

def isUpdated (host : HostSlot) : Bool :=
  done.any fun
    | .updated h _ => h = host
    | _ => false

def stopped : Option (HostSlot × String) :=
  done.findSome? fun
    | .stopped host message => some (host, message)
    | _ => none

def rollbackAsked : Option (Bool × List HostSlot) :=
  done.findSome? fun
    | .rollbackAsked roll hosts => some (roll, hosts)
    | _ => none

def rolledBack (host : HostSlot) : Option (Option String) :=
  done.findSome? fun
    | .rolledBack h version => if h = host then some version else none
    | _ => none

def rollbackPlan : Option (String × List HostSlot) :=
  done.findSome? fun
    | .rollbackPlan sha256 hosts => some (sha256, hosts)
    | _ => none

end Done

/-! ## Calls -/

def urlChoice : String := "url"

/-- What the operator chose: a staged bundle, or one to fetch from a URL. -/
structure Chosen where
  bundle : String
  url : String
  valid : bundle = urlChoice →
    (Text.stripStart "https://" url).isSome ∨ (Text.stripStart "http://" url).isSome

/-- A bundle that hosts can be rolled back from. -/
structure Offered where
  sha256 : String
  version : String
  hosts : List HostSlot

inductive Call where
  | record (checkpoint : Checkpoint)
  /-- Whether the job was cancelled. -/
  | check
  /-- The wall clock, in milliseconds. -/
  | nowMs
  /-- The monotonic clock, in milliseconds. -/
  | instant
  | staged
  | chooseBundle (staged : List BundleSummary)
  | scratch
  | fetchUrl (url path : String)
  | removeFile (path : String)
  | stage (path : String)
  | openBundle (sha256 : String)
  /-- Whether HA resources are moved off each host while it updates. -/
  | options
  | confirm (title message : String) (details : List String)
  | chooseRollback (offered : List Offered)
  | membership
  | state (host : HostSlot) (job : JobId) (mode : InstallMode)
  | install (host : HostSlot) (request : InstallRequest)
  /-- The record schema that the cluster's data is in. -/
  | recordSchema
  | setRecordSchema (schema : Nat)
  /-- HA maintenance of a host. -/
  | maintenance (host : HostSlot) (on : Bool)
  | haResourcesOn (host : HostSlot)
  | expectServiceRestart
  | clearServiceRestart

def Reply : Call → Type
  | .nowMs => Int
  | .instant => Nat
  | .staged => List BundleSummary
  | .chooseBundle _ => Except Stop Chosen
  | .scratch => Except String String
  | .fetchUrl _ _ => Except String Unit
  | .removeFile _ => Unit
  | .stage _ => Except String BundleSummary
  | .openBundle _ => Except String BundleSummary
  | .options => Except Stop Bool
  | .confirm _ _ _ => Except Stop Bool
  | .chooseRollback _ => Except Stop String
  | .membership => Except String Membership
  | .state _ _ _ => Except String HostUpdateState
  | .install _ _ => Except String InstallStatus
  | .recordSchema => Except String Nat
  | .setRecordSchema _ => Except String Unit
  | .maintenance _ _ => Except String Unit
  | .haResourcesOn _ => Except String (List String)
  | _ => Except Stop Unit

abbrev Program (α : Type) := Prog Call Reply Stop α

/-- A part of a job whose failure is a text. -/
abbrev Attempt (α : Type) := Prog Call Reply String α

abbrev Trace := List (Base.Event Call Reply)

/-- What the job was started with. -/
structure Context where
  me : HostSlot
  job : JobId
  /-- Polls of a wait until its limit has passed. -/
  polls : Nat
  /-- Rounds of the comparison of two versions. -/
  rounds : Nat
  installWithinS : Nat := 20 * 60
  healthWithinS : Nat := 180
  haWithinS : Nat := 15 * 60

namespace Cluster

variable {ε : Type}

def membership : Prog Call Reply ε (Except String Membership) := ask Call.membership

def state (cx : Context) (host : HostSlot) (mode : InstallMode) :
    Prog Call Reply ε (Except String HostUpdateState) :=
  ask (Call.state host cx.job mode)

def install (host : HostSlot) (request : InstallRequest) : Prog Call Reply ε (Except String InstallStatus) :=
  ask (Call.install host request)

def recordSchema : Prog Call Reply ε (Except String Nat) := ask Call.recordSchema

def setRecordSchema (schema : Nat) : Prog Call Reply ε (Except String Unit) :=
  ask (Call.setRecordSchema schema)

def maintenance (host : HostSlot) (on : Bool) : Prog Call Reply ε (Except String Unit) :=
  ask (Call.maintenance host on)

def haResourcesOn (host : HostSlot) : Prog Call Reply ε (Except String (List String)) :=
  ask (Call.haResourcesOn host)

end Cluster

namespace Flow

variable {ε : Type}

def check : Prog Call Reply ε (Except Stop Unit) := ask Call.check

def nowMs : Prog Call Reply ε Int := ask Call.nowMs

def instant : Prog Call Reply ε Nat := ask Call.instant

def chooseBundle (staged : List BundleSummary) : Program Chosen := orFail (ask (Call.chooseBundle staged))

def options : Program Bool := orFail (ask Call.options)

def confirm (title message : String) (details : List String) : Program Bool :=
  orFail (ask (Call.confirm title message details))

def chooseRollback (offered : List Offered) : Program String := orFail (ask (Call.chooseRollback offered))

def expectServiceRestart : Prog Call Reply ε (Except Stop Unit) := ask Call.expectServiceRestart

def clearServiceRestart : Prog Call Reply ε (Except Stop Unit) := ask Call.clearServiceRestart

end Flow

def failing {α : Type} (part : Attempt α) : Program α := do
  match ← part.attempt with
  | .ok a => return a
  | .error e => fail (.failed e)

def asked {α : Type} (answer : Attempt (Except String α)) : Attempt α := orFail answer

def stopMessage : Stop → String
  | .cancelled => "cancelled"
  | .failed message => message

/-- `Checkpoints::record` -/
def record (done : Done) (checkpoint : Checkpoint) : Program Done := do
  orFail (ask (Call.record checkpoint))
  return checkpoint :: done

/-- Whether `version` is older than `than`, as their packages sort. -/
def older (cx : Context) (version than : String) : Bool := Release.older cx.rounds version than = some true

/-- The hosts in the order they are updated: the others by slot, then this one. -/
def order (hosts : List HostSlot) (me : HostSlot) : List HostSlot :=
  ((hosts.filter (· ≠ me)).insertionSort fun a b => a.number ≤ b.number).dedup ++ [me]

def slotsText (hosts : List HostSlot) : String := Text.join ", " (hosts.map HostSlot.text)

def sleep : Attempt Unit := do
  match ← Flow.check with
  | .ok () => return ()
  | .error _ => fail "cancelled"

/-! ## Every member's state -/

def askStates (cx : Context) (mode : InstallMode) :
    List HostSlot → Program (List HostUpdateState × List String)
  | [] => return ([], [])
  | host :: rest => do
    let answer ← Cluster.state cx host mode
    let (states, unreachable) ← askStates cx mode rest
    match answer with
    | .ok state => return (state :: states, unreachable)
    | .error e => return (states, s!"{host}: {e}" :: unreachable)

/-- Every member's state; all must answer. -/
def states (cx : Context) (mode : InstallMode) : Program (List HostUpdateState) := do
  let membership ← failing (asked Cluster.membership)
  if !membership.quorate then fail (.failed "the cluster isn't quorate")
  else
    let offline := membership.members.filter fun h => !membership.online.contains h
    if !offline.isEmpty then fail (.failed s!"every host must be online; {slotsText offline} isn't")
    else
      let (states, unreachable) ← askStates cx mode membership.members
      if !unreachable.isEmpty then
        let why := Text.join "; " unreachable
        fail (.failed s!"every host must answer; these didn't: {why}")
      else return states

/-! ## One host -/

def verdict : Option InstallStatus → Option (Except String Unit)
  | some status =>
    match status.state with
    | .installed => some (.ok ())
    | .failed =>
      let message := status.message.getD "the install failed"
      match status.logTail.filter fun log => Text.trim log ≠ "" with
      | some log => some (.error s!"{message}:\n{log}")
      | none => some (.error message)
    | _ => none
  | none => none

def lateInstall (cx : Context) (host : HostSlot) (lastError : String) : String :=
  if lastError = "" then s!"the install didn't finish within {cx.installWithinS}s"
  else s!"{host} stopped answering: {lastError}"

def installPolled (cx : Context) (host : HostSlot) (mode : InstallMode) (deadline : Nat) :
    Nat → Option InstallStatus → String → Attempt Unit
  | 0, status, lastError =>
    match verdict status with
    | some outcome => ofExcept outcome
    | none => fail (lateInstall cx host lastError)
  | polls + 1, status, lastError =>
    match verdict status with
    | some outcome => ofExcept outcome
    | none => do
      let now ← Flow.instant
      if deadline ≤ now then fail (lateInstall cx host lastError)
      else
        sleep
        match ← Cluster.state cx host mode with
        | .ok state => installPolled cx host mode deadline polls state.install lastError
        | .error e => installPolled cx host mode deadline polls status e

def awaitInstall (cx : Context) (host : HostSlot) (mode : InstallMode) (first : InstallStatus) :
    Attempt Unit := do
  let now ← Flow.instant
  installPolled cx host mode (now + 1000 * cx.installWithinS) cx.polls (some first) ""

/-- One look at the host: why it isn't healthy. -/
def healthProblem (cx : Context) (host : HostSlot) (mode : InstallMode) (version : String)
    (members : List HostSlot) : Attempt (Option String) := do
  match ← Cluster.state cx host mode with
  | .error e => return some s!"it doesn't answer: {e}"
  | .ok state => return state.problem host version members

def unhealthy (cx : Context) (host : HostSlot) (problem : String) : String :=
  s!"{host} isn't healthy after {cx.healthWithinS}s: {problem}"

def healthPolled (cx : Context) (host : HostSlot) (mode : InstallMode) (version : String)
    (members : List HostSlot) (deadline : Nat) : Nat → Attempt Unit
  | 0 => do
    match ← healthProblem cx host mode version members with
    | none => return ()
    | some problem => fail (unhealthy cx host problem)
  | polls + 1 => do
    match ← healthProblem cx host mode version members with
    | none => return ()
    | some problem =>
      let now ← Flow.instant
      if deadline ≤ now then fail (unhealthy cx host problem)
      else
        sleep
        healthPolled cx host mode version members deadline polls

def awaitHealth (cx : Context) (host : HostSlot) (mode : InstallMode) (version : String)
    (members : List HostSlot) : Attempt Unit := do
  let now ← Flow.instant
  healthPolled cx host mode version members (now + 1000 * cx.healthWithinS) cx.polls

def lateDrain (cx : Context) (host : HostSlot) (left : List String) : String :=
  let resources := Text.join ", " left
  s!"HA didn't move {resources} off {host} within {cx.haWithinS}s"

def drainPolled (cx : Context) (host : HostSlot) (deadline : Nat) : Nat → Attempt Unit
  | 0 => do
    let left ← asked (Cluster.haResourcesOn host)
    if left.isEmpty then return () else fail (lateDrain cx host left)
  | polls + 1 => do
    let left ← asked (Cluster.haResourcesOn host)
    if left.isEmpty then return ()
    else
      let now ← Flow.instant
      if deadline ≤ now then fail (lateDrain cx host left)
      else
        sleep
        drainPolled cx host deadline polls

def drain (cx : Context) (host : HostSlot) : Attempt Unit := do
  asked (Cluster.maintenance host true)
  let now ← Flow.instant
  drainPolled cx host (now + 1000 * cx.haWithinS) cx.polls

def installOn (cx : Context) (host : HostSlot) (mode : InstallMode) (sha256 version : String)
    (members : List HostSlot) : Attempt Unit := do
  let first ← asked (Cluster.install host { job := cx.job, mode, sha256 })
  awaitInstall cx host mode first
  awaitHealth cx host mode version members

def onlyIf (cond : Bool) (part : Attempt Unit) : Attempt Unit := if cond then part else return ()

def expectRestart : Attempt Unit := do
  match ← Flow.expectServiceRestart with
  | .ok () => return ()
  | .error stop => fail (stopMessage stop)

/-- Installs on one host and checks it: `sha256` is the bundle an update installs, or the one a rollback
leaves; `version` what the host runs afterwards. -/
def oneHost (cx : Context) (host : HostSlot) (mode : InstallMode) (sha256 version : String)
    (members : List HostSlot) (migrate : Bool) : Attempt Unit := do
  let me : Bool := host = cx.me
  onlyIf migrate (drain cx host)
  onlyIf me expectRestart
  let outcome : Except String Unit ← (installOn cx host mode sha256 version members).attempt
  -- what these two answer is ignored
  onlyIf me do
    let _ ← Flow.clearServiceRestart
    return ()
  onlyIf migrate do
    let _ ← Cluster.maintenance host false
    return ()
  ofExcept outcome

/-! ## Rolling back -/

/-- Rolls one host back; whether it went back to the bundle before. -/
def rollBackHost (cx : Context) (sha256 : String) (members : List HostSlot) (host : HostSlot) (done : Done) :
    Program (Bool × Done) := do
  match done.rolledBack host with
  | some version => return (version.isSome, done)
  | none =>
    match ← Cluster.state cx host .rollback with
    | .error e => fail (.failed s!"{host}: {e}")
    | .ok state =>
      match state.installed.previous.filter fun _ => state.runs sha256 with
      | none =>
        if !state.finished then
          let done ← record done (.rolledBack host none)
          return (false, done)
        else
          -- its rollback finished while this job was restarting
          match ← (awaitHealth cx host .rollback state.version members).attempt with
          | .error e => fail (.failed s!"rolling back {host}: {e}")
          | .ok () =>
            let done ← record done (.rolledBack host (some state.version))
            return (true, done)
      | some previous =>
        match ← (oneHost cx host .rollback sha256 previous.version members false).attempt with
        | .error e => fail (.failed s!"rolling back {host}: {e}")
        | .ok () =>
          let done ← record done (.rolledBack host (some previous.version))
          return (true, done)

def rollBackEach (cx : Context) (sha256 : String) (members : List HostSlot) :
    List HostSlot → Done → Program (List HostSlot)
  | [], _ => return []
  | host :: rest, done => do
    let (rolled, done) ← rollBackHost cx sha256 members host done
    let others ← rollBackEach cx sha256 members rest done
    return if rolled then host :: others else others

def rollBack (cx : Context) (done : Done) (sha256 : String) (hosts : List HostSlot) :
    Program (List HostSlot) := do
  let membership ← failing (asked Cluster.membership)
  rollBackEach cx sha256 membership.members hosts done

/-- The line of a host in the question about a rollback. -/
def previousVersion (states : List HostUpdateState) (host : HostSlot) : Option String :=
  ((states.find? (·.host = host)).bind (·.installed.previous)).map (·.version)

/-- Asks whether the hosts that run the bundle are to be rolled back. -/
def askRollback (cx : Context) (done : Done) (sha256 why : String) : Program Done := do
  if done.rollbackAsked.isSome then return done
  else
    let states ← states cx .rollback
    let onBundle := (states.filter (·.runs sha256)).map (·.host)
    if onBundle.isEmpty then fail (.failed s!"{why}. No host runs the new bundle.")
    else
      let hosts := (order onBundle cx.me).filter (onBundle.contains ·)
      let details := hosts.map fun h =>
        let previous := (previousVersion states h).getD "nothing kept"
        s!"{h}: back to {previous}"
      let roll ← Flow.confirm "Roll back the updated hosts?"
        (s!"{why}. Roll {slotsText hosts} back to the build each ran before? " ++
          "Fix what stopped the update first, or the rollback stops on it too.") details
      record done (.rollbackAsked roll hosts)

/-- After a failed host: offers to roll back every host that the bundle was installed on, and fails the job
either way. -/
def offerRollback {α : Type} (cx : Context) (done : Done) (sha256 : String) (stopped : HostSlot × String) :
    Program α := do
  let why := s!"The update stopped at {stopped.1}: {stopped.2}"
  let done ← askRollback cx done sha256 why
  match done.rollbackAsked with
  | some (true, hosts) =>
    let rolled ← rollBack cx done sha256 hosts
    fail (.failed s!"{why}. Rolled back {slotsText rolled}.")
  | _ =>
    fail (.failed (s!"{why}. Nothing was rolled back; run Roll back a cluster update to return " ++
      "the updated hosts to their previous build."))

/-! ## `cluster.update` -/

def schemaRefusal (bundle : BundleSummary) (cluster : Nat) : Option String :=
  if bundle.recordSchema < cluster then
    some (s!"the cluster's records are in schema {cluster}, newer than this bundle's " ++
      s!"{bundle.recordSchema}; a bundle that old can't run this cluster")
  else if cluster < bundle.readsRecordSchemaFrom then
    some (s!"this bundle reads records from schema {bundle.readsRecordSchemaFrom} on, and the cluster's " ++
      s!"are in schema {cluster}; update to an intermediate release first")
  else none

/-- The bundle to install: its SHA-256. -/
def chooseBundle : Program String := do
  let staged ← ask Call.staged
  let chosen ← Flow.chooseBundle staged
  if chosen.bundle ≠ urlChoice then return chosen.bundle
  else
    let scratch ← failing (asked (ask Call.scratch))
    match ← (ask (Call.fetchUrl chosen.url scratch) : Program (Except String Unit)) with
    | .error e =>
      let _ ← ask (Call.removeFile scratch)
      fail (.failed s!"cannot fetch {chosen.url}: {e}")
    | .ok () =>
      match ← (ask (Call.stage scratch) : Program (Except String BundleSummary)) with
      | .error e => fail (.failed s!"the bundle from {chosen.url} is refused: {e}")
      | .ok summary => return summary.sha256

def bundleStep (done : Done) : Program (String × Done) := do
  match done.bundle with
  | some sha256 => return (sha256, done)
  | none =>
    let sha256 ← chooseBundle
    let done ← record done (.bundle sha256)
    return (sha256, done)

def openBundle (sha256 : String) : Program BundleSummary := do
  match ← (ask (Call.openBundle sha256) : Program (Except String BundleSummary)) with
  | .ok summary => return summary
  | .error e => fail (.failed s!"bundle {sha256}: {e}")

def setSchema (summary : BundleSummary) (schema : Nat) : Program Unit :=
  failing (asked (Cluster.setRecordSchema (max summary.recordSchema schema)))

def HostUpdateState.isCurrent (state : HostUpdateState) (summary : BundleSummary) (sha256 : String) : Bool :=
  state.version = summary.version && state.runs sha256

/-- Checks the cluster and asks the operator; none when every host runs the bundle already. -/
def makePlan (cx : Context) (sha256 : String) (summary : BundleSummary) : Program (Option Plan) := do
  let states ← states cx .update
  let members := ((states.map (·.host)).insertionSort fun a b => a.number ≤ b.number).dedup
  let newer := states.filter fun s => older cx summary.version s.version
  if !newer.isEmpty then
    let runs := Text.join ", " (newer.map fun s => s!"{s.host} runs {s.version}")
    fail (.failed s!"this bundle is older than what runs now ({runs}); roll back instead")
  else
    let schema ← failing (asked Cluster.recordSchema)
    match schemaRefusal summary schema with
    | some refusal => fail (.failed refusal)
    | none =>
      let skip := (states.filter (·.isCurrent summary sha256)).map (·.host)
      let hosts := (order members cx.me).filter fun h => !skip.contains h
      if hosts.isEmpty then
        setSchema summary schema
        return none
      else
        let migrate ← Flow.options
        let details := states.map (fun s => s!"{s.host}: {s.version} now") ++ [s!"Order: {slotsText hosts}"]
        let confirmed ← Flow.confirm s!"Update {hosts.length} hosts to {summary.version}?"
          ("Each host installs the bundle and must come back healthy before the next starts. " ++
            "The first failure stops the update.") details
        if !confirmed then fail .cancelled
        else return some { hosts, members, migrate }

/-- Updates the hosts that aren't yet, one after another. -/
def installEach (cx : Context) (sha256 : String) (summary : BundleSummary) (plan : Plan) :
    List HostSlot → Done → Program Unit
  | [], _ => return ()
  | host :: rest, done => do
    if done.isUpdated host then installEach cx sha256 summary plan rest done
    else
      match ← (oneHost cx host .update sha256 summary.version plan.members plan.migrate).attempt with
      | .ok () =>
        let now ← Flow.nowMs
        let done ← record done (.updated host now)
        installEach cx sha256 summary plan rest done
      | .error message =>
        let done ← record done (.stopped host message)
        offerRollback cx done sha256 (host, message)

def installPlanned (cx : Context) (done : Done) (sha256 : String) (summary : BundleSummary) (plan : Plan) :
    Program (String × List HostSlot) := do
  installEach cx sha256 summary plan plan.hosts done
  let schema ← failing (asked Cluster.recordSchema)
  setSchema summary schema
  return (summary.version, plan.hosts)

def update (cx : Context) (done : Done) : Program (String × List HostSlot) := do
  let (sha256, done) ← bundleStep done
  let summary ← openBundle sha256
  match done.stopped with
  | some stopped => offerRollback cx done sha256 stopped
  | none =>
    match done.plan with
    | some plan => installPlanned cx done sha256 summary plan
    | none =>
      match ← makePlan cx sha256 summary with
      | none => return (summary.version, [])
      | some plan =>
        let done ← record done (.plan plan)
        installPlanned cx done sha256 summary plan

/-! ## `cluster.rollback` -/

/-- The host joins those that can be rolled back from its bundle. -/
def offer (offered : List Offered) (state : HostUpdateState) : List Offered :=
  match state.installed.current, state.installed.previous with
  | some current, some _ =>
    if offered.any (·.sha256 = current.sha256) then
      offered.map fun o => if o.sha256 = current.sha256 then { o with hosts := o.hosts ++ [state.host] } else o
    else offered ++ [{ sha256 := current.sha256, version := current.version, hosts := [state.host] }]
  | _, _ => offered

def chooseRollback (cx : Context) : Program (String × List HostSlot) := do
  let states ← states cx .rollback
  let offered := states.foldl offer []
  if offered.isEmpty then fail (.failed "no host keeps an earlier bundle to roll back to")
  else
    let chosen ← Flow.chooseRollback offered
    match offered.find? (·.sha256 = chosen) with
    | none => fail (.failed "no host runs that bundle")
    | some o =>
      let hosts := (order o.hosts cx.me).filter (o.hosts.contains ·)
      let details := hosts.map fun h =>
        let previous := (previousVersion states h).getD ""
        s!"{h}: {o.version} back to {previous}"
      let confirmed ← Flow.confirm s!"Roll {hosts.length} hosts back from {o.version}?"
        ("Each host installs the bundle it ran before and must come back healthy before the next " ++
          "starts.") details
      if !confirmed then fail .cancelled
      else return (o.sha256, hosts)

def rollback (cx : Context) (done : Done) : Program (String × List HostSlot) := do
  match done.rollbackPlan with
  | some (sha256, hosts) =>
    let rolled ← rollBack cx done sha256 hosts
    return (sha256, rolled)
  | none =>
    let (sha256, hosts) ← chooseRollback cx
    let done ← record done (.rollbackPlan sha256 hosts)
    let rolled ← rollBack cx done sha256 hosts
    return (sha256, rolled)

/-! ## Starting again -/

def recordedBy : Base.Event Call Reply → Option Checkpoint
  | ⟨.record checkpoint, .ok _⟩ => some checkpoint
  | _ => none

def recorded (tr : Trace) : Done := (tr.filterMap recordedBy).reverse

abbrev UpdateJob (cx : Context) : Trace → Prop := Resumed fun tr => update cx (recorded tr)

abbrev RollbackJob (cx : Context) : Trace → Prop := Resumed fun tr => rollback cx (recorded tr)

end Bmac.Bmacd.Updates
