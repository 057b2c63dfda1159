import Bmac.Backup.Names
import Bmac.Base.JsonValue

/-!
# Sealed manifests

The text of a manifest: `canonical` of `bmac-backup/src/manifest.rs` and what `serde_json` makes of it.
A reader refuses a text whose arrays and objects are 128 deep, so a manifest that is sealed opens again if
and only if its evidence and its registry record aren't that deep (`sealed_opens_iff`).
-/

namespace Bmac.Backup

open Bmac.Base Bmac.Core Bmac.Bmacd

/-- `serde_json::Value`, a number as its text. -/
abbrev Node := JsonValue String

mutual

def nodeOf : Bmacd.Value → Node
  | .null => .null
  | .bool b => .bool b
  | .number text => .number text
  | .string text => .string text
  | .array items => .array (nodesOf items)
  | .object fields => .object (nodeFields fields)

def nodesOf : List Bmacd.Value → List Node
  | [] => []
  | v :: items => nodeOf v :: nodesOf items

def nodeFields : List (String × Bmacd.Value) → List (String × Node)
  | [] => []
  | (key, v) :: fields => (key, nodeOf v) :: nodeFields fields

end

mutual

def valueOf : Node → Bmacd.Value
  | .null => .null
  | .bool b => .bool b
  | .number text => .number text
  | .string text => .string text
  | .array items => .array (valuesOf items)
  | .object members => .object (valueFields members)

def valuesOf : List Node → List Bmacd.Value
  | [] => []
  | v :: items => valueOf v :: valuesOf items

def valueFields : List (String × Node) → List (String × Bmacd.Value)
  | [] => []
  | (key, v) :: members => (key, valueOf v) :: valueFields members

end

/-! ## Writing -/

/-- A character as `serde_json` writes it. -/
def serdeEscape (c : Char) : List Char :=
  match Json.escapes.find? (·.2 = c) with
  | some e => ['\\', e.1]
  | none => if c.toNat < 0x20 then Json.unit c.toNat else [c]

def serdeWriter : JsonValue.Writer String := ⟨String.toList, serdeEscape⟩

def canonical (value : Node) : String := String.ofList (serdeWriter.write value)

def Consistency.text : Consistency → String
  | crash => "crash"
  | filesystem => "filesystem"
  | application => "application"

def VolumeRole.text : VolumeRole → String
  | disk => "disk"
  | efiVars => "efi_vars"
  | tpmState => "tpm_state"

def optionNode : Option String → Node
  | some text => .string text
  | none => .null

def natNode (n : Nat) : Node := .number n.repr

def textNodes (texts : List String) : Node := .array (texts.map .string)

/-- The members of a value come in the order of their keys, as its map keeps them. -/
def volumeNode (v : Volume) : Node :=
  .object [("boot", .bool v.boot), ("dataset", .string v.dataset), ("role", .string v.role.text),
    ("slot", .string v.slot), ("snapshot_guid", .string v.snapshotGuid.toNat.repr),
    ("volblocksize", natNode v.volblocksize), ("volsize", natNode v.volsize),
    ("volume_uuid", .string v.volumeUuid)]

def firmwareNode (f : Firmware) : Node :=
  .object [("bios", .string f.bios), ("machine", optionNode f.machine), ("secure_boot", .bool f.secureBoot)]

def versionsNode (v : Versions) : Node :=
  .object [("bmac", .string v.bmac), ("openzfs", .string v.openzfs), ("proxmox", .string v.proxmox)]

def manifestMembers (m : Manifest) : List (String × Node) :=
  [("branch_uuid", .string m.branchUuid),
    ("cluster_uuid", .string m.clusterUuid),
    ("config", .object (m.config.map fun e => (e.1, .string e.2))),
    ("config_sha256", .string m.configSha256),
    ("config_text", .string m.configText),
    ("consistency", .string m.consistency.text),
    ("evidence", nodeOf m.evidence),
    ("firmware", firmwareNode m.firmware),
    ("multi_pool", .bool m.multiPool),
    ("parent_pit_uuid", optionNode m.parentPitUuid),
    ("pit_uuid", .string m.pitUuid),
    ("prerequisites", textNodes m.prerequisites),
    ("registry", nodeOf m.registry),
    ("schema_version", natNode m.schemaVersion),
    ("sha256", .string m.sha256),
    ("snapshot", .string m.snapshot.text),
    ("taken_at_s", .number (String.ofList (Json.printInt m.takenAtS 0))),
    ("versions", versionsNode m.versions),
    ("vm_uuid", .string m.vmUuid),
    ("vmid", natNode m.vmid),
    ("volumes", .array (m.volumes.map volumeNode))]

def payload (m : Manifest) : Node := .object ((manifestMembers m).filter (·.1 ≠ "sha256"))

/-! ## Reading -/

/-- The text of a number, as it is written again: `floatText` gives that of one that isn't an integer of 64
bits. -/
def numberText (floatText : List Char → String) (text : List Char) : String :=
  let integer := match text with
    | '-' :: digits => digits.all Text.isDigit && 0 < Text.decimal digits && Text.decimal digits ≤ 2 ^ 63
    | digits => digits.all Text.isDigit && Text.decimal digits < 2 ^ 64
  if integer then String.ofList text else floatText text

/-- `serde_json::from_str` of a value, with its members as they come. -/
def readNode (floatText : List Char → String) (text : String) : Option Node :=
  JsonValue.read (fun number => some (numberText floatText number)) 128 text.toList

def asText : Node → Option String
  | .string text => some text
  | _ => none

def asBool : Node → Option Bool
  | .bool b => some b
  | _ => none

def asUnsigned (bound : Nat) : Node → Option Nat
  | .number text =>
    let cs := text.toList
    if cs ≠ [] ∧ cs.all Text.isDigit ∧ Text.decimal cs < bound then some (Text.decimal cs) else none
  | _ => none

def asI64 : Node → Option Int
  | .number text => (Text.parseInt text).filter fun n => -2 ^ 63 ≤ n && n < 2 ^ 63
  | _ => none

def asList {α : Type} (item : Node → Option α) : Node → Option (List α)
  | .array items => items.mapM item
  | _ => none

def asTextMap : Node → Option (Dict String)
  | .object members => (members.mapM fun m => (asText m.2).map (m.1, ·)).map fun entries =>
      entries.foldl (fun d m => Dict.insert d m.1 m.2) []
  | _ => none

/-- A field of type `Option<String>`. -/
def asOption : Option Node → Option (Option String)
  | none => some none
  | some .null => some none
  | some node => (asText node).map some

/-- A field with `#[serde(default)]`. -/
def asTextOrEmpty : Option Node → Option String
  | none => some ""
  | some node => asText node

/-- The fields of a struct, which is an object that has no other key and no key twice, or an array with at
least `needed` of them in their order. -/
def structFields (names : List String) (needed : Nat) : Node → Option (String → Option Node)
  | .object members =>
    if (members.map (·.1)).all (· ∈ names) ∧ (members.map (·.1)).Nodup then some fun name => members.lookup name
    else none
  | .array items =>
    if needed ≤ items.length ∧ items.length ≤ names.length then
      some fun name => (names.zip items).lookup name
    else none
  | _ => none

def asVariant : Node → Option String
  | .string text => some text
  | .object [(text, .null)] => some text
  | _ => none

def asConsistency (node : Node) : Option Consistency := do
  match ← asVariant node with
  | "crash" => some .crash
  | "filesystem" => some .filesystem
  | "application" => some .application
  | _ => none

def asRole (node : Node) : Option VolumeRole := do
  match ← asVariant node with
  | "disk" => some .disk
  | "efi_vars" => some .efiVars
  | "tpm_state" => some .tpmState
  | _ => none

/-- `SnapshotGuid::from_str`. -/
def asGuid (node : Node) : Option SnapshotGuid := do
  let cs := (← asText node).toList
  if cs = [] ∨ 20 < cs.length ∨ ¬ cs.all Text.isDigit then none
  if Text.decimal cs < 2 ^ 64 then some (UInt64.ofNat (Text.decimal cs)) else none

def asVolume (node : Node) : Option Volume := do
  let field ← structFields ["volume_uuid", "slot", "role", "dataset", "snapshot_guid", "volsize",
    "volblocksize", "boot"] 8 node
  return {
    volumeUuid := ← (field "volume_uuid").bind asText
    slot := ← (field "slot").bind asText
    role := ← (field "role").bind asRole
    dataset := ← (field "dataset").bind asText
    snapshotGuid := ← (field "snapshot_guid").bind asGuid
    volsize := ← (field "volsize").bind (asUnsigned (2 ^ 64))
    volblocksize := ← (field "volblocksize").bind (asUnsigned (2 ^ 64))
    boot := ← (field "boot").bind asBool }

def asFirmware (node : Node) : Option Firmware := do
  let field ← structFields ["bios", "machine", "secure_boot"] 3 node
  return {
    bios := ← (field "bios").bind asText
    machine := ← asOption (field "machine")
    secureBoot := ← (field "secure_boot").bind asBool }

def asVersions (node : Node) : Option Versions := do
  let field ← structFields ["proxmox", "openzfs", "bmac"] 3 node
  return {
    proxmox := ← (field "proxmox").bind asText
    openzfs := ← (field "openzfs").bind asText
    bmac := ← (field "bmac").bind asText }

def manifestNames : List String :=
  ["schema_version", "cluster_uuid", "vm_uuid", "vmid", "pit_uuid", "branch_uuid", "parent_pit_uuid",
    "snapshot", "taken_at_s", "consistency", "evidence", "multi_pool", "versions", "config_text", "config",
    "config_sha256", "volumes", "firmware", "registry", "prerequisites", "sha256"]

/-- A field of type `Value`. -/
def asValue (node : Node) : Bmacd.Value := valueOf node.kept

def asManifest (node : Node) : Option Manifest := do
  let field ← structFields manifestNames 20 node
  return {
    schemaVersion := ← (field "schema_version").bind (asUnsigned (2 ^ 32))
    clusterUuid := ← (field "cluster_uuid").bind asText
    vmUuid := ← (field "vm_uuid").bind asText
    vmid := ← (field "vmid").bind (asUnsigned (2 ^ 32))
    pitUuid := ← (field "pit_uuid").bind asText
    branchUuid := ← (field "branch_uuid").bind asText
    parentPitUuid := ← asOption (field "parent_pit_uuid")
    snapshot := ← ((field "snapshot").bind asText).bind PitName.fromStr
    takenAtS := ← (field "taken_at_s").bind asI64
    consistency := ← (field "consistency").bind asConsistency
    evidence := ← (field "evidence").map asValue
    multiPool := ← (field "multi_pool").bind asBool
    versions := ← (field "versions").bind asVersions
    configText := ← (field "config_text").bind asText
    config := ← (field "config").bind asTextMap
    configSha256 := ← (field "config_sha256").bind asText
    volumes := ← (field "volumes").bind (asList asVolume)
    firmware := ← (field "firmware").bind asFirmware
    registry := ← (field "registry").map asValue
    prerequisites := ← (field "prerequisites").bind (asList asText)
    sha256 := ← asTextOrEmpty (field "sha256") }

/-- `manifest.rs` with `serde_json`: `refusal` is what it says of a text that it doesn't read. -/
def serdeCodec (sha256Hex : String → String) (floatText : List Char → String) (refusal : String → String) :
    Codec where
  parse text := match (readNode floatText text).bind asManifest with
    | some m => .ok m
    | none => .error (refusal text)
  print m := canonical (.object (manifestMembers m))
  digest m := sha256Hex (canonical (payload m))
  sha256Hex := sha256Hex

/-! ## Values and their texts -/

mutual

theorem valueOf_nodeOf : ∀ v : Bmacd.Value, valueOf (nodeOf v) = v
  | .null => rfl
  | .bool _ => rfl
  | .number _ => rfl
  | .string _ => rfl
  | .array items => congrArg _ (valuesOf_nodesOf items)
  | .object fields => congrArg _ (valueFields_nodeFields fields)

theorem valuesOf_nodesOf : ∀ items : List Bmacd.Value, valuesOf (nodesOf items) = items
  | [] => rfl
  | v :: items => congrArg₂ _ (valueOf_nodeOf v) (valuesOf_nodesOf items)

theorem valueFields_nodeFields : ∀ fields : List (String × Bmacd.Value),
    valueFields (nodeFields fields) = fields
  | [] => rfl
  | (key, v) :: fields =>
    congrArg₂ _ (congrArg (key, ·) (valueOf_nodeOf v)) (valueFields_nodeFields fields)

end

/-- A number that is an integer of 64 bits. -/
def IsIntText (text : String) : Prop :=
  ∃ k : Int, -2 ^ 63 ≤ k ∧ k < 2 ^ 64 ∧ text.toList = Json.printInt k 0

theorem isIntText_repr {n : Nat} (h : n < 2 ^ 64) : IsIntText n.repr := by
  refine ⟨n, by omega, by omega, ?_⟩
  rw [Json.printInt, if_neg (by omega), Int.natAbs_natCast]

variable {sha256Hex : String → String} {floatText : List Char → String} {refusal : String → String}

theorem numberText_printInt {k : Int} (hlow : -2 ^ 63 ≤ k) (hhigh : k < 2 ^ 64) :
    numberText floatText (Json.printInt k 0) = String.ofList (Json.printInt k 0) := by
  have hdigits : k.natAbs.repr.toList.all Text.isDigit = true :=
    List.all_eq_true.mpr fun c hc => Text.isDigit_of_mem_repr hc
  unfold Json.printInt
  split
  · rename_i hneg
    simp only [numberText, hdigits, Text.decimal_repr, Bool.true_and, Bool.and_eq_true, decide_eq_true_eq]
    exact if_pos ⟨by omega, by omega⟩
  · unfold numberText
    split
    · rename_i digits heq
      exact (Json.repr_ne_minus k.natAbs [] digits ((List.append_nil _).trans heq)).elim
    · have hfits : k.natAbs < 2 ^ 64 := by omega
      simp only [hdigits, Text.decimal_repr, Bool.true_and, decide_eq_true_eq]
      exact if_pos hfits

theorem readString_serdeEscape (fuel : Nat) (c : Char) (cs : List Char) :
    Json.readString (fuel + 1) (serdeEscape c ++ cs) =
      (Json.readString fuel cs).map fun (text, rest) => (c :: text, rest) := by
  have hescaped (t : List Char) (h : Json.readEscape t = some (c, cs)) :
      Json.readString (fuel + 1) ('\\' :: t) =
        (Json.readString fuel cs).map fun (text, rest) => (c :: text, rest) := by
    rw [Json.readString, if_neg (by decide), if_pos rfl, h]
    simp only [Option.bind_eq_bind, Option.bind_some]
    cases Json.readString fuel cs <;> rfl
  unfold serdeEscape
  cases hfind : Json.escapes.find? (·.2 = c) with
  | some e =>
    have hc : e.2 = c := by simpa using List.find?_some hfind
    refine hescaped _ ?_
    rw [← hc]
    exact Json.readEscape_letter (List.mem_of_find?_eq_some hfind) cs
  | none =>
    have hplain (d : Char) (hd : d ∈ Json.escapes.map (·.2)) : c ≠ d := by
      rintro rfl
      obtain ⟨e, he, rfl⟩ := List.mem_map.mp hd
      simpa using List.find?_eq_none.mp hfind e he
    dsimp only
    split
    · rename_i hcontrol
      rw [Json.unit, List.cons_append, List.cons_append]
      exact hescaped _ (Json.readEscape_unit (by omega) cs)
    · rename_i hlow
      rw [List.singleton_append, Json.readString, if_neg (hplain _ (by decide)),
        if_neg (hplain _ (by decide)), if_neg hlow]
      cases Json.readString fuel cs <;> rfl

theorem serdeWriter_readBy : serdeWriter.ReadBy (fun number => some (numberText floatText number)) IsIntText where
  number text htext := by
    obtain ⟨k, hlow, hhigh, hk⟩ := htext
    refine ⟨k, hk, ?_⟩
    rw [numberText_printInt hlow hhigh, ← hk, String.ofList_toList]
  escape := readString_serdeEscape
  escape_ne c := by
    show serdeEscape c ≠ []
    unfold serdeEscape
    split
    · exact List.cons_ne_nil _ _
    · split
      · exact List.cons_ne_nil _ _
      · exact List.cons_ne_nil _ _

theorem canonical_eq_iff {v w : Node} (hv : v.WellFormed IsIntText) (hw : w.WellFormed IsIntText) :
    canonical v = canonical w ↔ v.Reordered w := by
  have hread := @serdeWriter_readBy fun _ => ""
  rw [canonical, canonical, String.ofList_inj, hread.write_eq_iff hv hw]

end Bmac.Backup
