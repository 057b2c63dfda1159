import Bmac.Core.Dict
import Bmac.Core.Disk

/-!
# `lsblk`

`bmac-adapters/src/disks.rs`: the tree of block devices that `lsblk -J` prints, as a map by kernel name
(`visit`), and what is below a device in that map (`subtree`). A device that the tree lists under several
parents keeps the last of them.
-/

namespace Bmac.Adapters

open Bmac.Core

/-- A size as JSON has it. -/
inductive Size where
  | none
  /-- A number's text, and its value where it is a `u64`. -/
  | number (text : String) (value : Option Nat)
  | text (text : String)
  | other (text : String)

/-- What `lsblk` prints of a device. A field that is missing or isn't a text is `none`. -/
structure Facts where
  name : Option String := .none
  kname : Option String := .none
  kind : Option String := .none
  size : Size := .none
  serial : Option String := .none
  model : Option String := .none
  wwn : Option String := .none
  tran : Option String := .none
  fstype : Option String := .none
  uuid : Option String := .none
  mountpoints : List (Option String) := []

/-- A device with those below it. -/
inductive Node where
  | mk (facts : Facts) (children : List Node)

namespace Node

def facts : Node → Facts
  | mk facts _ => facts

def children : Node → List Node
  | mk _ children => children

@[simp] theorem facts_mk (facts : Facts) (children : List Node) : (mk facts children).facts = facts := rfl

@[simp] theorem children_mk (facts : Facts) (children : List Node) :
    (mk facts children).children = children := rfl

end Node

/-- A block device, with its place in the tree. -/
structure BlockDevice where
  name : Option String
  kname : String
  kind : Option String
  size : Option Nat
  serial : Option String
  model : Option String
  wwn : Option String
  tran : Option String
  fstype : Option String
  uuid : Option String
  mountpoints : List String
  parent : Option String
  /-- The kernel name of the whole disk this device is on. -/
  disk : Option String
  children : List String

/-- How the disk is recognized: its WWN, or its serial when it has none. -/
def BlockDevice.identity (d : BlockDevice) : Option DiskIdentity :=
  DiskIdentity.fromReported d.wwn d.serial

abbrev BlockDevices := Dict BlockDevice

def nonEmpty (text : Option String) : Option String := text.filter (· ≠ "")

def trimmed (text : Option String) : Option String := nonEmpty (text.map Text.trim)

def Facts.knameOf (facts : Facts) : Option String :=
  (nonEmpty facts.kname).or (nonEmpty facts.name)

def Node.knameOf (node : Node) : Option String := node.facts.knameOf

/-- `u64::from_str`. -/
def parseU64 (text : String) : Option Nat :=
  let digits := match text.toList with
    | '+' :: digits => digits
    | digits => digits
  if digits ≠ [] ∧ digits.all Text.isDigit ∧ Text.decimal digits < 2 ^ 64 then
    some (Text.decimal digits)
  else none

def Size.parse (kname : String) : Size → Except String (Option Nat)
  | .none => .ok .none
  | .number _ (.some n) => .ok (.some n)
  | .number shown .none => .error s!"{kname} has an invalid size {shown}"
  | .text s =>
    match parseU64 (Text.trim s) with
    | .some n => .ok (.some n)
    | .none => .error s!"{kname} has an invalid size {s.quote}"
  | .other shown => .error s!"{kname} has an invalid size {shown}"

/-- The disk of a node that is visited below `disk`. -/
def Facts.diskBelow (facts : Facts) (kname : String) (disk : Option String) : Option String :=
  match disk with
  | none => if facts.kind = some "disk" then some kname else none
  | some disk => some disk

def Node.device (node : Node) (kname : String) (size : Option Nat) (parent disk : Option String) :
    BlockDevice where
  name := node.facts.name
  kname := kname
  kind := node.facts.kind
  size := size
  serial := trimmed node.facts.serial
  model := trimmed node.facts.model
  wwn := node.facts.wwn
  tran := node.facts.tran
  fstype := node.facts.fstype
  uuid := node.facts.uuid
  mountpoints := node.facts.mountpoints.filterMap nonEmpty
  parent := parent
  disk := node.facts.diskBelow kname disk
  children := node.children.filterMap (·.knameOf)

mutual

def visit (parent disk : Option String) (devices : BlockDevices) : Node → Except String BlockDevices
  | .mk facts children =>
    match facts.knameOf with
    | none => .ok devices
    | some kname =>
      match facts.size.parse kname with
      | .error e => .error e
      | .ok size =>
        visitAll (some kname) (facts.diskBelow kname disk)
          (devices.insert kname ((Node.mk facts children).device kname size parent disk)) children

def visitAll (parent disk : Option String) (devices : BlockDevices) :
    List Node → Except String BlockDevices
  | [] => .ok devices
  | node :: rest =>
    match visit parent disk devices node with
    | .error e => .error e
    | .ok devices => visitAll parent disk devices rest

end

namespace BlockDevices

/-- The devices of the roots that `lsblk` printed. -/
def parse (roots : List Node) : Except String BlockDevices := visitAll none none [] roots

/-- The device and everything below it, depth first; `none` when `depth` levels don't hold it. -/
def subtree (devices : BlockDevices) : Nat → String → Option (List BlockDevice)
  | depth, kname =>
    match devices.get? kname with
    | none => some []
    | some device =>
      match depth with
      | 0 => none
      | depth + 1 => (device.children.mapM (subtree devices depth)).map fun below =>
          device :: below.flatten

end BlockDevices

end Bmac.Adapters
