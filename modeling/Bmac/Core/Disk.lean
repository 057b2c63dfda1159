import Bmac.Core.Text

/-!
# Disk identities

`bmac-core/src/disk.rs`: how a disk is recognized across reboots, controllers, and device-name
changes.
-/

namespace Bmac.Core

inductive DiskIdentity where
  /-- Lowercase, as the kernel reports it. -/
  | wwn (value : String)
  | serial (value : String)
  deriving DecidableEq

namespace DiskIdentity

def maxLen : Nat := 128

def clean (text : String) : Option String :=
  let text := Text.trim text
  let printable := text.toList.all fun c => 0x20 ≤ c.toNat && c.toNat ≤ 0x7e
  if text ≠ "" ∧ Text.len text ≤ maxLen ∧ printable then some text else none

/-- Linux builds `nvme.<vendor>-<serial hex>-<model hex>-<nsid>` when a namespace has no usable
identifier. It only restates the serial. -/
def isSyntheticWwn (wwn : String) : Bool := (Text.stripStart "nvme." wwn).isSome

/-- The identity from what `lsblk` or sysfs reports. A missing, blank, or synthetic WWN falls back to
the serial. -/
def fromReported (wwn serial : Option String) : Option DiskIdentity :=
  match ((wwn.bind clean).map Text.toLower).filter
      (fun w => !isSyntheticWwn w && !w.toList.contains ' ') with
  | some w => some (.wwn w)
  | none => (serial.bind clean).map .serial

def value : DiskIdentity → String
  | .wwn v => v
  | .serial v => v

end DiskIdentity

end Bmac.Core
