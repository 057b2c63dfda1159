import Bmac.Backup.Lifetime
import Bmac.Backup.Manifest

/-!
# The backup records

`bmac-backup/src/records.rs`: policies, appliances and the PIT catalog. A record carries the
revision it was read with; a new one carries 0.
-/

namespace Bmac.Backup

open Bmac.Core

/-- How a VM's PIT is made consistent. -/
inductive Freeze where
  | ifAvailable | required | never
  deriving DecidableEq

structure LocalRetention where
  newest : Nat
  days : Nat
  weeks : Nat
  deriving DecidableEq

structure Policy where
  revision : Nat
  vmUuid : Uuid
  vm : String
  scheduleId : String
  appliances : List Uuid
  localRetention : LocalRetention
  /-- When the VM's first PIT on the cluster was taken. -/
  startedS : Option Int
  freeze : Freeze
  acceptMultiPool : Bool
  enabled : Bool
  updatedBy : String
  updatedAtMs : Int
  deriving DecidableEq

inductive Enrollment where
  | pending | approved | revoked
  deriving DecidableEq

/-- What an appliance last reported for one VM. -/
structure ReportedHead where
  branchUuid : Uuid
  pitUuid : Uuid
  deriving DecidableEq

/-- What the appliance said about its own progress in its last check-in. -/
inductive Progress where
  | normal | repairing | reseedRequired
  deriving DecidableEq

structure ApplianceRecord where
  revision : Nat
  applianceUuid : Uuid
  name : String
  /-- SHA-256 of its client certificate. -/
  fingerprint : String
  enrollment : Enrollment
  paused : Bool
  retired : Bool
  lastCheckinMs : Option Int
  version : Option String
  locked : Bool
  progress : Progress
  heads : Table Uuid ReportedHead
  indexRevision : Nat
  deriving DecidableEq

inductive Attempt where
  | captured (atMs : Int) (pitUuid : Uuid)
  /-- No assigned appliance was available, and local retention didn't claim the slot. -/
  | skipped (atMs : Int)
  | failed (atMs : Int) (message : String)
  deriving DecidableEq

/-- A VM's identity in the backups: its current branch and volumes. -/
structure Lineage where
  revision : Nat
  vmUuid : Uuid
  branchUuid : Uuid
  /-- The newest PIT captured on the branch, even after the catalog lets it go. -/
  head : Option Uuid
  /-- Each disk's `volume_uuid`, by the dataset that holds it. -/
  volumes : Dict Uuid
  lastAttempt : Option Attempt
  deriving DecidableEq

/-- Where a PIT's data still is on the cluster. -/
inductive Presence where
  /-- Its snapshots exist on every placement host. -/
  | snapshot
  /-- Its snapshots are released; bookmarks remain on every placement host. -/
  | bookmark
  deriving DecidableEq

/-- One PIT in the catalog: its sealed manifest and the cluster's view of it. -/
structure PitRecord where
  revision : Nat
  pitUuid : Uuid
  vmUuid : Uuid
  branchUuid : Uuid
  parent : Option Uuid
  name : PitName
  takenS : Int
  consistency : Consistency
  manifest : String
  presence : Presence
  /-- Offers by appliance UUID. -/
  offers : Table Uuid Offer
  /-- Why releasing the snapshots last failed. -/
  releaseBlocked : Option String
  deriving DecidableEq

namespace PitRecord

/-- Whether an offer of it still needs its snapshots. -/
def held (pit : PitRecord) (nowS : Int) (settings : BackupSettings) : Bool :=
  pit.offers.values.any (·.holds nowS settings)

def setOffer (pit : PitRecord) (appliance : Uuid) (offer : Offer) : PitRecord :=
  { pit with offers := pit.offers.insert appliance offer }

end PitRecord

end Bmac.Backup
