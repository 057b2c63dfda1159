import Bmac.Core.Ids
import Bmac.Core.Table

/-!
# The lifetime of snapshots and bookmarks on the cluster

`bmac-backup/src/lifetime.rs` and the settings it reads: which PITs keep their snapshots, which
keep bookmarks, and why.
-/

namespace Bmac.Backup

open Bmac.Core

/-- The settings of `bmac-backup/src/settings.rs` that decisions on PITs read. -/
structure BackupSettings where
  checkinIntervalS : Int
  lateAfterS : Int
  readyWindowS : Int
  claimWindowS : Int
  stalledAfterS : Int
  delinquencyS : Int
  testDayS : Option Int
  deriving DecidableEq

def BackupSettings.default : BackupSettings where
  checkinIntervalS := 60
  lateAfterS := 3 * 60
  readyWindowS := 5 * 60
  claimWindowS := 5 * 60
  stalledAfterS := 10 * 60
  delinquencyS := 72 * 3600
  testDayS := none

/-- One appliance's part in one PIT. -/
inductive Offer where
  | open_ (offeredS : Int)
  /-- `progressS` is the last time bytes moved, and `bytes` how many the appliance had then. -/
  | claimed (progressS : Int) (bytes : Nat)
  | published
  | failed
  deriving DecidableEq

/-- Whether this offer still needs the PIT's snapshots. -/
def Offer.holds (nowS : Int) (settings : BackupSettings) : Offer → Bool
  | open_ offeredS => nowS - offeredS ≤ settings.claimWindowS
  | claimed progressS _ => nowS - progressS ≤ settings.stalledAfterS
  | published => false
  | failed => false

/-- Open or claimed: the appliance may still pull the PIT. -/
def Offer.pending : Offer → Bool
  | open_ _ => true
  | claimed _ _ => true
  | published => false
  | failed => false

structure ClusterPit where
  pitUuid : Uuid
  takenS : Int
  branch : String
  /-- Offers by appliance ID. -/
  offers : Table String Offer

/-- An assigned appliance's head: the newest PIT of this VM it has published. -/
structure Head where
  appliance : String
  pitUuid : Uuid
  delinquent : Bool

inductive SnapshotNeed where
  | offer | localRetention | stagingClone | restore
  /-- Bookmarks aren't proven, and an appliance that isn't delinquent has this PIT as its head. -/
  | applianceHead
  /-- Bookmarks aren't proven, and a new branch's first PIT will be sent from this one. -/
  | branchStart
  deriving DecidableEq

inductive BookmarkNeed where
  | applianceHead | newest | branchStart
  deriving DecidableEq

structure Inputs where
  pits : List ClusterPit
  heads : List Head
  localRetention : List Uuid
  stagingOrigins : List Uuid
  restores : List Uuid
  branchStarts : List Uuid
  bookmarksProven : Bool

/-- PITs whose snapshots and bookmarks stay, with every reason. -/
structure Plan where
  snapshots : List (Uuid × SnapshotNeed)
  bookmarks : List (Uuid × BookmarkNeed)

namespace Plan

def releasesSnapshot (plan : Plan) (pit : Uuid) : Bool := !plan.snapshots.any (·.1 = pit)

def keepsBookmark (plan : Plan) (pit : Uuid) : Bool := plan.bookmarks.any (·.1 = pit)

end Plan

/-- `max_by_key` by `(taken_s, pit_uuid)`: the last of the largest. -/
def newestPit (pits : List ClusterPit) : Option ClusterPit :=
  pits.foldl (fun best p =>
    match best with
    | none => some p
    | some q => if toLex (q.takenS, q.pitUuid) ≤ toLex (p.takenS, p.pitUuid) then some p else some q)
    none

/-- The heads of the appliances that aren't delinquent. -/
def liveHeads (inputs : Inputs) : List Uuid :=
  (inputs.heads.filter fun h =>
    !h.delinquent && inputs.pits.any (·.pitUuid = h.pitUuid)).map (·.pitUuid)

def plan (inputs : Inputs) (nowS : Int) (settings : BackupSettings) : Plan :=
  let known (id : Uuid) : Bool := inputs.pits.any (·.pitUuid = id)
  let offered := inputs.pits.filter fun p => p.offers.values.any (·.holds nowS settings)
  let heads := liveHeads inputs
  let starts := inputs.branchStarts.filter known
  { snapshots :=
      offered.map (fun p => (p.pitUuid, .offer)) ++
      (inputs.localRetention.filter known).map (fun id => (id, .localRetention)) ++
      (inputs.stagingOrigins.filter known).map (fun id => (id, .stagingClone)) ++
      (inputs.restores.filter known).map (fun id => (id, .restore)) ++
      (if inputs.bookmarksProven then [] else heads.map (fun id => (id, .applianceHead))) ++
      (if inputs.bookmarksProven then [] else starts.map (fun id => (id, .branchStart)))
    bookmarks :=
      (if inputs.bookmarksProven then heads.map (fun id => (id, .applianceHead)) else []) ++
      (newestPit inputs.pits).toList.map (fun p => (p.pitUuid, .newest)) ++
      (if inputs.bookmarksProven then starts.map (fun id => (id, .branchStart)) else []) }

end Bmac.Backup
