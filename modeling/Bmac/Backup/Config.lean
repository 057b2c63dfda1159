import Bmac.Base.Lines
import Bmac.Backup.Manifest

/-!
# VM configurations

`bmac-backup/src/manifest.rs` on Proxmox's `key: value` lines, and what a manifest takes from
them: the disks to capture, the firmware, what a restore can't recreate.
-/

namespace Bmac.Backup

open Bmac.Base Bmac.Core

def configLine (line : String) : Option (String × String × String) :=
  if Text.trim line = "" || Text.startsWith '#' line then none
  else (Text.splitOnce ':' line).map fun (key, value) => (line, Text.trim key, Text.trim value)

/-- The current settings: up to the first `[section]`, without comments. -/
def currentConfig (text : String) : String × Dict String :=
  let lines := (Lines.lines text.toList).map String.ofList
  let kept := (lines.takeWhile fun line => !Text.startsWith '[' line).filterMap configLine
  let parsed := kept.foldl (fun d (_, key, value) => Dict.insert d key value) []
  let text := Text.join "\n" (kept.map (·.1))
  (if text = "" then text else text ++ "\n", parsed)

structure DiskRef where
  slot : String
  role : VolumeRole
  /-- The Proxmox volume ID, `storage:volume`. -/
  volumeId : String
  boot : Bool

def isBusDisk (slot : String) : Bool :=
  ["scsi", "virtio", "sata", "ide"].any fun bus =>
    (Text.stripStart bus slot).any fun n => n ≠ "" && n.toList.all Text.isDigit

def diskRole (slot : String) : Option VolumeRole :=
  if slot = "efidisk0" then some .efiVars
  else if slot = "tpmstate0" then some .tpmState
  else if isBusDisk slot then some .disk
  else none

def bootOrder (config : Dict String) : List String :=
  let order := (Dict.get? config "boot").bind fun boot =>
    (Text.split ',' boot).findSome? (Text.stripStart "order=")
  (order.map (Text.split ';')).getD []

/-- One setting: a disk to capture, nothing of the kind, or a disk that can't be captured. -/
def diskOf (order : List String) (slot value : String) : Except String (Option DiskRef) :=
  match diskRole slot with
  | none => .ok none
  | some role =>
    let parts := Text.split ',' value
    let volume := Text.trim (parts.headD "")
    if parts.tail.any (Text.trim · = "media=cdrom") || volume = "none" || volume = "" then .ok none
    else if Text.startsWith '/' volume || !volume.toList.contains ':' then
      .error s!"{slot} is {volume}, not a storage volume; a PIT can't capture it"
    else .ok (some ⟨slot, role, volume, role ≠ .disk || slot ∈ order⟩)

/-- The disks a PIT must capture: every bus disk, the EFI vars and TPM state volumes. -/
def disks (config : Dict String) : Except String (List DiskRef) := do
  let found ← config.mapM fun (slot, value) => diskOf (bootOrder config) slot value
  let disks := found.filterMap id
  if disks.isEmpty then throw "the VM has no disks to capture"
  return disks

def firmware (config : Dict String) : Firmware where
  bios := (Dict.get? config "bios").getD "seabios"
  machine := Dict.get? config "machine"
  secureBoot := (Dict.get? config "efidisk0").any fun e =>
    (Text.split ',' e).any (Text.trim · = "pre-enrolled-keys=1")

/-- Configuration a restore can't recreate by itself. -/
def prerequisites (config : Dict String) : List String :=
  (config.filter fun (key, _) =>
    ["hostpci", "usb", "serial", "parallel"].any fun p => (Text.stripStart p key).isSome).map
    fun (key, value) => s!"{key}: {value} (host hardware)"

end Bmac.Backup
