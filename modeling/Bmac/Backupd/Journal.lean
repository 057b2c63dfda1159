import Bmac.Core.Ids

/-!
# The appliance's journal

`bmac-backupd/src/journal.rs`: the published PITs, the receives in progress and the PITs
quarantined after a failed check, with the names of the zvols they are in. Byte counts and
revisions are unbounded here.
-/

namespace Bmac.Backupd

open Bmac.Core

structure StoredVolume where
  volumeUuid : Uuid
  dataset : String
  guid : SnapshotGuid
  volsize : Nat
  volblocksize : Nat
  deriving DecidableEq

structure StoredPit where
  clusterUuid : String
  vmUuid : Uuid
  branchUuid : Uuid
  pitUuid : Uuid
  parent : Option Uuid
  /-- The snapshot name on every volume. -/
  name : String
  takenS : Int
  publishedAtMs : Int
  volumes : List StoredVolume
  bytes : Nat
  manifestSha256 : String
  /-- The PIT this one was received on top of, if any. -/
  receivedFrom : Option Uuid
  deriving DecidableEq

namespace StoredPit

def volume (pit : StoredPit) (id : Uuid) : Option StoredVolume :=
  pit.volumes.find? (·.volumeUuid = id)

def snapshot (pit : StoredPit) (volume : StoredVolume) : String :=
  s!"{volume.dataset}@{pit.name}"

theorem volume_eq_some {pit : StoredPit} {id : Uuid} {v : StoredVolume}
    (h : pit.volume id = some v) : v ∈ pit.volumes ∧ v.volumeUuid = id :=
  ⟨List.mem_of_find?_eq_some h, by simpa using List.find?_some h⟩

end StoredPit

/-- One volume of a receive in progress. -/
structure ReceivingVolume where
  volumeUuid : Uuid
  transferUuid : Uuid
  dataset : String
  done : Bool
  bytes : Nat
  deriving DecidableEq

structure Receiving where
  clusterUuid : String
  vmUuid : Uuid
  branchUuid : Uuid
  pitUuid : Uuid
  base : Option Uuid
  startedAtMs : Int
  volumes : List ReceivingVolume
  deriving DecidableEq

structure Quarantined where
  clusterUuid : String
  vmUuid : Uuid
  pitUuid : Uuid
  reason : String
  atMs : Int
  /-- The datasets the receive left. -/
  datasets : List String
  deriving DecidableEq

structure Journal where
  /-- Bumped on every change to the published PITs. -/
  revision : Nat
  pits : List StoredPit
  receiving : List Receiving
  quarantined : List Quarantined
  deriving DecidableEq

namespace Journal

def new : Journal := ⟨0, [], [], []⟩

def pit (journal : Journal) (cluster : String) (pit : Uuid) : Option StoredPit :=
  journal.pits.find? fun p => p.clusterUuid = cluster ∧ p.pitUuid = pit

def pitsOf (journal : Journal) (cluster : String) (vm : Uuid) : List StoredPit :=
  journal.pits.filter fun p => p.clusterUuid = cluster ∧ p.vmUuid = vm

def datasets (journal : Journal) : List String :=
  journal.pits.flatMap (fun p => p.volumes.map (·.dataset)) ++
    journal.receiving.flatMap fun r => r.volumes.map (·.dataset)

theorem pit_eq_some {journal : Journal} {cluster : String} {id : Uuid} {p : StoredPit}
    (h : journal.pit cluster id = some p) :
    p ∈ journal.pits ∧ p.clusterUuid = cluster ∧ p.pitUuid = id :=
  ⟨List.mem_of_find?_eq_some h, by simpa using List.find?_some h⟩

theorem mem_pitsOf {journal : Journal} {cluster : String} {vm : Uuid} {p : StoredPit} :
    p ∈ journal.pitsOf cluster vm ↔ p ∈ journal.pits ∧ p.clusterUuid = cluster ∧ p.vmUuid = vm := by
  simp [pitsOf]

end Journal

end Bmac.Backupd
