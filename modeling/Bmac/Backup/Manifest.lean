import Bmac.Bmacd.Operations

/-!
# PIT manifests

`bmac-backup/src/manifest.rs`: the record of everything a restore needs besides the data. The text
of a manifest is JSON with a SHA-256 over the rest of it; reading JSON and hashing are the
parameters of `Codec`.
-/

namespace Bmac.Backup

open Bmac.Core Bmac.Bmacd

def manifestSchema : Nat := 1

/-- How consistent the PIT's data is. -/
inductive Consistency where
  | crash | filesystem | application
  deriving DecidableEq

/-- What a volume is to the VM. -/
inductive VolumeRole where
  | disk | efiVars | tpmState
  deriving DecidableEq

structure Volume where
  volumeUuid : String
  /-- The VM configuration key it is attached at. -/
  slot : String
  role : VolumeRole
  /-- The source dataset on the owner at capture. -/
  dataset : String
  snapshotGuid : SnapshotGuid
  volsize : Nat
  volblocksize : Nat
  boot : Bool
  deriving DecidableEq

structure Firmware where
  bios : String
  machine : Option String
  secureBoot : Bool
  deriving DecidableEq

structure Versions where
  proxmox : String
  openzfs : String
  bmac : String
  deriving DecidableEq

/-- A PIT's snapshot name, `bmac-pit-<UTC timestamp>-<6 hex>`. -/
structure PitName where
  text : String
  takenS : Int
  deriving DecidableEq

structure Manifest where
  schemaVersion : Nat
  clusterUuid : String
  vmUuid : String
  vmid : Nat
  pitUuid : String
  branchUuid : String
  parentPitUuid : Option String
  snapshot : PitName
  takenAtS : Int
  consistency : Consistency
  evidence : Value
  multiPool : Bool
  versions : Versions
  configText : String
  config : Dict String
  configSha256 : String
  volumes : List Volume
  firmware : Firmware
  registry : Value
  prerequisites : List String
  /-- Over the canonical payload without this field. -/
  sha256 : String

inductive ManifestError where
  | schema (found : Nat)
  | digest
  | configDigest
  | noVolumes
  | duplicateSlot (slot : String)
  | json (message : String)

def ManifestError.text : ManifestError → String
  | schema found => s!"manifest schema {found} is not supported (expected {manifestSchema})"
  | digest => "the manifest's SHA-256 doesn't match its contents"
  | configDigest => "the manifest's configuration SHA-256 doesn't match its text"
  | noVolumes => "the manifest names no volumes"
  | duplicateSlot slot => s!"the manifest lists slot {slot} twice"
  | json message => s!"the manifest is not valid JSON: {message}"

/-- JSON and SHA-256. -/
structure Codec where
  parse : String → Except String Manifest
  /-- `canonical` of the manifest with its digest. -/
  print : Manifest → String
  /-- The digest of the payload without `sha256`. -/
  digest : Manifest → String
  sha256Hex : String → String

namespace Manifest

def repeatedSlot : List String → List Volume → Option String
  | _, [] => none
  | seen, v :: rest => if v.slot ∈ seen then some v.slot else repeatedSlot (v.slot :: seen) rest

def check (codec : Codec) (manifest : Manifest) : Except ManifestError Unit :=
  if manifest.schemaVersion ≠ manifestSchema then .error (.schema manifest.schemaVersion)
  else if manifest.sha256 ≠ codec.digest manifest then .error .digest
  else if manifest.configSha256 ≠ codec.sha256Hex manifest.configText then .error .configDigest
  else if manifest.volumes.isEmpty then .error .noVolumes
  else match repeatedSlot [] manifest.volumes with
    | some slot => .error (.duplicateSlot slot)
    | none => .ok ()

def open_ (codec : Codec) (text : String) : Except ManifestError Manifest :=
  match codec.parse text with
  | .error e => .error (.json e)
  | .ok manifest =>
    match manifest.check codec with
    | .error e => .error e
    | .ok () => .ok manifest

/-- Sets the digest, and returns the text to store. -/
def seal_ (codec : Codec) (manifest : Manifest) : Manifest × String :=
  let sealed := { manifest with sha256 := codec.digest manifest }
  (sealed, codec.print sealed)

end Manifest

end Bmac.Backup
