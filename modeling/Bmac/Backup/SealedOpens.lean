import Bmac.Backup.Sealed

/-!
# Sealed manifests open again

What `serde_json` makes of a manifest's own text, field by field, and from it which sealed manifests open.
-/

namespace Bmac.Backup

open Bmac.Base Bmac.Core Bmac.Bmacd

/-! ## Nodes in order -/

/-- A value as a map keeps it, without floating-point numbers. -/
structure Kept (node : Node) : Prop where
  wellFormed : node.WellFormed IsIntText
  sorted : node.sorted = node

theorem kept_string (text : String) : Kept (.string text) := ⟨.string text, rfl⟩

theorem kept_bool (b : Bool) : Kept (.bool b) := ⟨.bool b, rfl⟩

theorem kept_option (text : Option String) : Kept (optionNode text) := by
  cases text with
  | none => exact ⟨.null, rfl⟩
  | some text => exact kept_string text

theorem kept_nat {n : Nat} (h : n < 2 ^ 64) : Kept (natNode n) := ⟨.number (isIntText_repr h), rfl⟩

theorem kept_array {items : List Node} (h : ∀ v ∈ items, Kept v) : Kept (.array items) :=
  ⟨.array fun v hv => (h v hv).wellFormed, JsonValue.sorted_array fun v hv => (h v hv).sorted⟩

theorem kept_object {members : List (String × Node)} (keys : List String) (hmap : members.map (·.1) = keys)
    (hkeys : keys.Pairwise (· < ·)) (h : ∀ m ∈ members, Kept m.2) : Kept (.object members) := by
  subst hmap
  have hsorted : Dict.Sorted members := List.pairwise_map.mp hkeys
  refine ⟨.object (hkeys.imp fun hlt => String.ne_of_lt hlt) fun m hm => (h m hm).wellFormed, ?_⟩
  exact JsonValue.sorted_object hsorted fun m hm => (h m hm).sorted

theorem Kept.kept {node : Node} (h : Kept node) : node.kept = node := by
  have hkept := JsonValue.kept_sorted h.wellFormed
  rwa [h.sorted] at hkept

/-- The types of a manifest's fields: numbers of so many bits, maps, and no floating-point numbers. -/
structure Manifest.Typed (m : Manifest) : Prop where
  schemaVersion : m.schemaVersion < 2 ^ 32
  vmid : m.vmid < 2 ^ 32
  takenAtS : -2 ^ 63 ≤ m.takenAtS ∧ m.takenAtS < 2 ^ 63
  config : m.config.Sorted
  volumes : ∀ v ∈ m.volumes, v.volsize < 2 ^ 64 ∧ v.volblocksize < 2 ^ 64
  evidence : Kept (nodeOf m.evidence)
  registry : Kept (nodeOf m.registry)

variable {m : Manifest}

theorem kept_volume {v : Volume} (h : v.volsize < 2 ^ 64 ∧ v.volblocksize < 2 ^ 64) : Kept (volumeNode v) := by
  refine kept_object ["boot", "dataset", "role", "slot", "snapshot_guid", "volblocksize", "volsize",
    "volume_uuid"] rfl (by decide) ?_
  simp only [List.forall_mem_cons, List.not_mem_nil, false_imp_iff, implies_true, and_true]
  exact ⟨kept_bool _, kept_string _, kept_string _, kept_string _, kept_string _, kept_nat h.2, kept_nat h.1,
    kept_string _⟩

theorem kept_members (h : m.Typed) : ∀ e ∈ manifestMembers m, Kept e.2 := by
  simp only [manifestMembers, List.forall_mem_cons, List.not_mem_nil, false_imp_iff, implies_true, and_true]
  have hconfig : Kept (.object (m.config.map fun e => (e.1, JsonValue.string e.2))) := by
    refine kept_object (m.config.map (·.1)) List.map_map ?_ fun e he => ?_
    · have hsorted : m.config.Sorted := h.config
      exact List.pairwise_map.mpr hsorted
    · obtain ⟨e', -, rfl⟩ := List.mem_map.mp he
      exact kept_string _
  have hfirmware : Kept (firmwareNode m.firmware) := by
    refine kept_object ["bios", "machine", "secure_boot"] rfl (by decide) ?_
    simp only [List.forall_mem_cons, List.not_mem_nil, false_imp_iff, implies_true, and_true]
    exact ⟨kept_string _, kept_option _, kept_bool _⟩
  have hversions : Kept (versionsNode m.versions) := by
    refine kept_object ["bmac", "openzfs", "proxmox"] rfl (by decide) ?_
    simp only [List.forall_mem_cons, List.not_mem_nil, false_imp_iff, implies_true, and_true]
    exact ⟨kept_string _, kept_string _, kept_string _⟩
  have hprerequisites : Kept (textNodes m.prerequisites) := by
    refine kept_array fun v hv => ?_
    obtain ⟨text, -, rfl⟩ := List.mem_map.mp hv
    exact kept_string text
  have htaken : Kept (.number (String.ofList (Json.printInt m.takenAtS 0))) := by
    have hfits := h.takenAtS
    exact ⟨.number ⟨m.takenAtS, by omega, by omega, String.toList_ofList⟩, rfl⟩
  have hvolumes : Kept (.array (m.volumes.map volumeNode)) := by
    refine kept_array fun v hv => ?_
    obtain ⟨volume, hvolume, rfl⟩ := List.mem_map.mp hv
    exact kept_volume (h.volumes volume hvolume)
  have hvmid : m.vmid < 2 ^ 64 := h.vmid.trans (by decide)
  have hschema : m.schemaVersion < 2 ^ 64 := h.schemaVersion.trans (by decide)
  exact ⟨kept_string _, kept_string _, hconfig, kept_string _, kept_string _, kept_string _, h.evidence,
    hfirmware, kept_bool _, kept_option _, kept_string _, hprerequisites, h.registry, kept_nat hschema,
    kept_string _, kept_string _, htaken, hversions, kept_string _, kept_nat hvmid, hvolumes⟩

theorem keys_manifestMembers (m : Manifest) : (manifestMembers m).map (·.1) =
    ["branch_uuid", "cluster_uuid", "config", "config_sha256", "config_text", "consistency", "evidence",
      "firmware", "multi_pool", "parent_pit_uuid", "pit_uuid", "prerequisites", "registry", "schema_version",
      "sha256", "snapshot", "taken_at_s", "versions", "vm_uuid", "vmid", "volumes"] := rfl

theorem sorted_manifestMembers (m : Manifest) : ((manifestMembers m).map (·.1)).Pairwise (· < ·) := by
  rw [keys_manifestMembers]
  decide

theorem kept_manifest (h : m.Typed) : Kept (.object (manifestMembers m)) :=
  kept_object _ rfl (sorted_manifestMembers m) (kept_members h)

theorem kept_payload (h : m.Typed) : Kept (payload m) :=
  kept_object _ rfl ((sorted_manifestMembers m).sublist (List.filter_sublist.map _)) fun e he =>
    kept_members h e (List.mem_filter.mp he).1

/-! ## Fields -/

theorem asUnsigned_natNode {n bound : Nat} (h : n < bound) : asUnsigned bound (natNode n) = some n := by
  have hdigits : n.repr.toList.all Text.isDigit = true :=
    List.all_eq_true.mpr fun c hc => Text.isDigit_of_mem_repr hc
  simp only [natNode, asUnsigned, Text.decimal_repr]
  exact if_pos ⟨Text.repr_ne_nil n, hdigits, h⟩

theorem parseInt_printInt (k : Int) : Text.parseInt (String.ofList (Json.printInt k 0)) = some k := by
  have hdigits : ∀ c ∈ k.natAbs.repr.toList, Text.isDigit c = true := fun c hc => Text.isDigit_of_mem_repr hc
  have hnumber : (if k.natAbs.repr.toList ≠ [] ∧ k.natAbs.repr.toList.all Text.isDigit = true then
      some (Text.decimal k.natAbs.repr.toList) else none) = some k.natAbs := by
    rw [if_pos ⟨Text.repr_ne_nil _, List.all_eq_true.mpr hdigits⟩, Text.decimal_repr]
  unfold Text.parseInt Json.printInt
  rw [String.toList_ofList]
  split_ifs with hneg
  · have hneg' : -(k.natAbs : Int) = k := by omega
    simp only [hnumber]
    exact congrArg some hneg'
  · have hpos : (k.natAbs : Int) = k := by omega
    dsimp only
    split
    · rename_i heq
      exact absurd (hdigits '-' (heq ▸ List.mem_cons_self)) (by decide)
    · rename_i heq
      exact absurd (hdigits '+' (heq ▸ List.mem_cons_self)) (by decide)
    · rw [hnumber]
      exact congrArg some hpos

theorem asI64_printInt {k : Int} (h : -2 ^ 63 ≤ k ∧ k < 2 ^ 63) :
    asI64 (.number (String.ofList (Json.printInt k 0))) = some k := by
  rw [asI64, parseInt_printInt, Option.filter_some_pos]
  simpa using h

theorem asConsistency_text (c : Consistency) : asConsistency (.string c.text) = some c := by
  cases c <;> rfl

theorem asRole_text (role : VolumeRole) : asRole (.string role.text) = some role := by
  cases role <;> rfl

theorem asOption_node (text : Option String) : asOption (some (optionNode text)) = some text := by
  cases text <;> rfl

theorem asGuid_text (guid : SnapshotGuid) : asGuid (.string guid.toNat.repr) = some guid := by
  have hfits : guid.toNat < 2 ^ 64 := UInt64.toNat_lt guid
  have hdigits : guid.toNat.repr.toList.all Text.isDigit = true :=
    List.all_eq_true.mpr fun c hc => Text.isDigit_of_mem_repr hc
  have hlen : guid.toNat.repr.toList.length ≤ 20 := by
    rw [Nat.toList_repr, Nat.length_toDigits_le_iff (by decide) (by decide)]
    omega
  have hcond : ¬ (guid.toNat.repr.toList = [] ∨ 20 < guid.toNat.repr.toList.length ∨
      ¬ guid.toNat.repr.toList.all Text.isDigit = true) := by
    rintro (h | h | h)
    · exact Text.repr_ne_nil _ h
    · omega
    · exact h hdigits
  simp only [asGuid, asText, Option.bind_eq_bind, Option.bind_some, if_neg hcond, Text.decimal_repr,
    if_pos hfits, UInt64.ofNat_toNat]

theorem mapM_asItem {α : Type} (node : α → Node) (item : Node → Option α) {xs : List α}
    (h : ∀ x ∈ xs, item (node x) = some x) : asList item (.array (xs.map node)) = some xs := by
  show (xs.map node).mapM item = some xs
  induction xs with
  | nil => rfl
  | cons x xs ih =>
    obtain ⟨hx, hxs⟩ := List.forall_mem_cons.mp h
    rw [List.map_cons, List.mapM_cons, hx, ih hxs]
    rfl

theorem asTextMap_config {config : Dict String} (h : config.Sorted) :
    asTextMap (.object (config.map fun e => (e.1, .string e.2))) = some config := by
  have hentries : (config.map fun e => (e.1, JsonValue.string (N := String) e.2)).mapM
      (fun m => (asText m.2).map (m.1, ·)) = some config := by
    induction config with
    | nil => rfl
    | cons e config ih =>
      have hih := ih (List.pairwise_cons.mp h).2
      rw [List.map_cons, List.mapM_cons, hih]
      rfl
  rw [asTextMap, hentries, Option.map_some, JsonValue.foldl_insert_sorted h]

theorem bind_then {α β : Type} {x : Option α} {a : α} {f : α → Option β} {y : Option β} (hx : x = some a)
    (hf : f a = y) : (x >>= f) = y := by
  rw [hx]
  exact hf

theorem structFields_object {names keys : List String} {members : List (String × Node)} {needed : Nat}
    (hmap : members.map (·.1) = keys) (hnames : keys.all (· ∈ names) = true) (hkeys : keys.Nodup) :
    structFields names needed (.object members) = some fun name => members.lookup name := by
  subst hmap
  exact if_pos ⟨hnames, hkeys⟩

theorem asVolume_node {v : Volume} (h : v.volsize < 2 ^ 64 ∧ v.volblocksize < 2 ^ 64) :
    asVolume (volumeNode v) = some v := by
  have hfields := @structFields_object ["volume_uuid", "slot", "role", "dataset", "snapshot_guid", "volsize",
    "volblocksize", "boot"] ["boot", "dataset", "role", "slot", "snapshot_guid", "volblocksize", "volsize",
    "volume_uuid"] [("boot", .bool v.boot), ("dataset", .string v.dataset), ("role", .string v.role.text),
    ("slot", .string v.slot), ("snapshot_guid", .string v.snapshotGuid.toNat.repr),
    ("volblocksize", natNode v.volblocksize), ("volsize", natNode v.volsize),
    ("volume_uuid", .string v.volumeUuid)] 8 rfl (by decide) (by decide)
  exact bind_then hfields (bind_then (a := v.volumeUuid) rfl (bind_then (a := v.slot) rfl
    (bind_then (asRole_text v.role) (bind_then (a := v.dataset) rfl (bind_then (asGuid_text v.snapshotGuid)
      (bind_then (asUnsigned_natNode h.1) (bind_then (asUnsigned_natNode h.2)
        (bind_then (a := v.boot) rfl rfl))))))))

theorem asFirmware_node (f : Firmware) : asFirmware (firmwareNode f) = some f := by
  have hfields := @structFields_object ["bios", "machine", "secure_boot"] ["bios", "machine", "secure_boot"]
    [("bios", .string f.bios), ("machine", optionNode f.machine), ("secure_boot", .bool f.secureBoot)] 3 rfl
    (by decide) (by decide)
  exact bind_then hfields (bind_then (a := f.bios) rfl (bind_then (asOption_node f.machine)
    (bind_then (a := f.secureBoot) rfl rfl)))

theorem asVersions_node (v : Versions) : asVersions (versionsNode v) = some v := by
  have hfields := @structFields_object ["proxmox", "openzfs", "bmac"] ["bmac", "openzfs", "proxmox"]
    [("bmac", .string v.bmac), ("openzfs", .string v.openzfs), ("proxmox", .string v.proxmox)] 3 rfl
    (by decide) (by decide)
  exact bind_then hfields (bind_then (a := v.proxmox) rfl (bind_then (a := v.openzfs) rfl
    (bind_then (a := v.bmac) rfl rfl)))

theorem asManifest_members (h : m.Typed) : asManifest (.object (manifestMembers m)) =
    (PitName.fromStr m.snapshot.text).map fun snapshot => { m with snapshot } := by
  have hfields := @structFields_object manifestNames _ (manifestMembers m) 20 (keys_manifestMembers m)
    (by decide) (by decide)
  have hevidence : asValue (nodeOf m.evidence) = m.evidence := by
    rw [asValue, h.evidence.kept, valueOf_nodeOf]
  have hregistry : asValue (nodeOf m.registry) = m.registry := by
    rw [asValue, h.registry.kept, valueOf_nodeOf]
  have hvolumes := mapM_asItem volumeNode asVolume fun v hv => asVolume_node (h.volumes v hv)
  have hprerequisites : asList asText (textNodes m.prerequisites) = some m.prerequisites :=
    mapM_asItem .string asText fun _ _ => rfl
  refine bind_then hfields ?_
  refine bind_then (asUnsigned_natNode h.schemaVersion) (bind_then (a := m.clusterUuid) rfl (bind_then (a := m.vmUuid) rfl
    (bind_then (asUnsigned_natNode h.vmid) (bind_then (a := m.pitUuid) rfl (bind_then (a := m.branchUuid) rfl
      (bind_then (asOption_node m.parentPitUuid) ?_))))))
  cases hname : PitName.fromStr m.snapshot.text with
  | none =>
    have hnone : (((manifestMembers m).lookup "snapshot").bind asText).bind PitName.fromStr = none := hname
    rw [hnone]
    rfl
  | some snapshot =>
    refine bind_then hname (bind_then (asI64_printInt h.takenAtS) (bind_then (asConsistency_text m.consistency)
      (bind_then (congrArg some hevidence) (bind_then (a := m.multiPool) rfl (bind_then (asVersions_node m.versions) ?_)))))
    refine bind_then (a := m.configText) rfl (bind_then (asTextMap_config h.config) (bind_then (a := m.configSha256) rfl
      (bind_then hvolumes (bind_then (asFirmware_node m.firmware) (bind_then (congrArg some hregistry)
        (bind_then hprerequisites (bind_then (a := m.sha256) rfl rfl)))))))

theorem snapshot_of_asManifest {node : Node} (h : asManifest node = some m) :
    PitName.fromStr m.snapshot.text = some m.snapshot := by
  unfold asManifest at h
  obtain ⟨field, -, h⟩ := Option.bind_eq_some_iff.mp h
  obtain ⟨schemaVersion, -, h⟩ := Option.bind_eq_some_iff.mp h
  obtain ⟨clusterUuid, -, h⟩ := Option.bind_eq_some_iff.mp h
  obtain ⟨vmUuid, -, h⟩ := Option.bind_eq_some_iff.mp h
  obtain ⟨vmid, -, h⟩ := Option.bind_eq_some_iff.mp h
  obtain ⟨pitUuid, -, h⟩ := Option.bind_eq_some_iff.mp h
  obtain ⟨branchUuid, -, h⟩ := Option.bind_eq_some_iff.mp h
  obtain ⟨parentPitUuid, -, h⟩ := Option.bind_eq_some_iff.mp h
  obtain ⟨snapshot, hsnapshot, h⟩ := Option.bind_eq_some_iff.mp h
  obtain ⟨text, -, hparse⟩ := Option.bind_eq_some_iff.mp hsnapshot
  obtain ⟨takenAtS, -, h⟩ := Option.bind_eq_some_iff.mp h
  obtain ⟨consistency, -, h⟩ := Option.bind_eq_some_iff.mp h
  obtain ⟨evidence, -, h⟩ := Option.bind_eq_some_iff.mp h
  obtain ⟨multiPool, -, h⟩ := Option.bind_eq_some_iff.mp h
  obtain ⟨versions, -, h⟩ := Option.bind_eq_some_iff.mp h
  obtain ⟨configText, -, h⟩ := Option.bind_eq_some_iff.mp h
  obtain ⟨config, -, h⟩ := Option.bind_eq_some_iff.mp h
  obtain ⟨configSha256, -, h⟩ := Option.bind_eq_some_iff.mp h
  obtain ⟨volumes, -, h⟩ := Option.bind_eq_some_iff.mp h
  obtain ⟨firmware, -, h⟩ := Option.bind_eq_some_iff.mp h
  obtain ⟨registry, -, h⟩ := Option.bind_eq_some_iff.mp h
  obtain ⟨prerequisites, -, h⟩ := Option.bind_eq_some_iff.mp h
  obtain ⟨sha256, -, h⟩ := Option.bind_eq_some_iff.mp h
  cases h
  show PitName.fromStr snapshot.text = some snapshot
  rw [(PitName.fromStr_eq_some hparse).1]
  exact hparse

/-! ## Depth -/

theorem depth_texts (entries : List (String × String)) :
    (JsonValue.object (entries.map fun e => (e.1, JsonValue.string (N := String) e.2))).depth ≤ 1 := by
  refine Nat.succ_le_succ (JsonValue.depthMembers_le fun m hm => ?_)
  obtain ⟨e, -, rfl⟩ := List.mem_map.mp hm
  exact Nat.le_refl 0

theorem depth_option (text : Option String) : (optionNode text).depth = 0 := by
  cases text <;> rfl

theorem depth_manifest_lt_iff (m : Manifest) : (JsonValue.object (manifestMembers m)).depth < 128 ↔
    (nodeOf m.evidence).depth ≤ 126 ∧ (nodeOf m.registry).depth ≤ 126 := by
  have hevidence : ("evidence", nodeOf m.evidence) ∈ manifestMembers m :=
    List.mem_of_getElem? (i := 6) rfl
  have hregistry : ("registry", nodeOf m.registry) ∈ manifestMembers m :=
    List.mem_of_getElem? (i := 12) rfl
  rw [JsonValue.depth]
  constructor
  · intro h
    have he : (nodeOf m.evidence).depth ≤ _ := JsonValue.depth_le_depthMembers hevidence
    have hr : (nodeOf m.registry).depth ≤ _ := JsonValue.depth_le_depthMembers hregistry
    omega
  · rintro ⟨he, hr⟩
    refine Nat.lt_of_le_of_lt (Nat.succ_le_succ (JsonValue.depthMembers_le (k := 126) ?_)) (by decide)
    have htexts : (textNodes m.prerequisites).depth ≤ 1 := by
      refine Nat.succ_le_succ (JsonValue.depthItems_le fun v hv => ?_)
      obtain ⟨text, -, rfl⟩ := List.mem_map.mp hv
      exact Nat.le_refl 0
    have hvolumes : (JsonValue.array (m.volumes.map volumeNode)).depth ≤ 2 := by
      refine Nat.succ_le_succ (JsonValue.depthItems_le fun v hv => ?_)
      obtain ⟨volume, -, rfl⟩ := List.mem_map.mp hv
      exact Nat.le_refl 1
    have hfirmware : (firmwareNode m.firmware).depth ≤ 1 := by
      refine Nat.succ_le_succ (JsonValue.depthMembers_le ?_)
      simp only [List.forall_mem_cons, List.not_mem_nil, false_imp_iff, implies_true, and_true]
      exact ⟨Nat.le_refl 0, (depth_option _).le, Nat.le_refl 0⟩
    have hversions : (versionsNode m.versions).depth ≤ 1 := Nat.le_refl 1
    have hconfig := depth_texts m.config
    have hparent := depth_option m.parentPitUuid
    have hscalar : (0 : Nat) ≤ 126 := by omega
    simp only [manifestMembers, List.forall_mem_cons, List.not_mem_nil, false_imp_iff, implies_true, and_true]
    exact ⟨hscalar, hscalar, by omega, hscalar, hscalar, hscalar, he, by omega, hscalar, by omega, hscalar,
      by omega, hr, hscalar, hscalar, hscalar, hscalar, by omega, hscalar, hscalar, by omega⟩

/-! ## Opening -/

variable {sha256Hex : String → String} {floatText : List Char → String} {refusal : String → String}

theorem repeatedSlot_eq_none {seen : List String} {volumes : List Volume} :
    Manifest.repeatedSlot seen volumes = none ↔
      (volumes.map (·.slot)).Nodup ∧ ∀ v ∈ volumes, v.slot ∉ seen := by
  induction volumes generalizing seen with
  | nil => simp [Manifest.repeatedSlot]
  | cons v volumes ih =>
    rw [Manifest.repeatedSlot]
    split
    · rename_i hseen
      simp [hseen]
    · rename_i hnew
      rw [ih]
      simp only [List.mem_cons, not_or, List.map_cons, List.nodup_cons, List.mem_map, not_exists, not_and,
        forall_eq_or_imp]
      constructor
      · rintro ⟨hnodup, hall⟩
        exact ⟨⟨fun w hw => (hall w hw).1, hnodup⟩, hnew, fun w hw => (hall w hw).2⟩
      · rintro ⟨⟨hhead, hnodup⟩, -, hall⟩
        exact ⟨hnodup, fun w hw => ⟨hhead w hw, hall w hw⟩⟩

/-- What `check` asks of a manifest. -/
structure Manifest.Sound (codec : Codec) (m : Manifest) : Prop where
  schema : m.schemaVersion = manifestSchema
  digest : m.sha256 = codec.digest m
  config : m.configSha256 = codec.sha256Hex m.configText
  volumes : m.volumes ≠ []
  slots : (m.volumes.map (·.slot)).Nodup

theorem check_eq_ok_iff {codec : Codec} : m.check codec = .ok () ↔ m.Sound codec := by
  have hslots := @repeatedSlot_eq_none [] m.volumes
  simp only [List.not_mem_nil, not_false_eq_true, implies_true, and_true] at hslots
  unfold Manifest.check
  split_ifs with hschema hdigest hconfig hvolumes
  · exact iff_of_false nofun fun h => hschema h.schema
  · exact iff_of_false nofun fun h => hdigest h.digest
  · exact iff_of_false nofun fun h => hconfig h.config
  · exact iff_of_false nofun fun h => h.volumes (List.isEmpty_iff.mp hvolumes)
  · split
    · rename_i slot hslot
      refine iff_of_false nofun fun h => ?_
      rw [hslots.mpr h.slots] at hslot
      cases hslot
    · rename_i hnone
      have hne : m.volumes ≠ [] := fun hnil => hvolumes (List.isEmpty_iff.mpr hnil)
      exact iff_of_true rfl ⟨not_not.mp hschema, not_not.mp hdigest, not_not.mp hconfig, hne, hslots.mp hnone⟩

theorem open_eq_ok_iff {codec : Codec} {text : String} :
    Manifest.open_ codec text = .ok m ↔ codec.parse text = .ok m ∧ m.Sound codec := by
  unfold Manifest.open_
  cases hparse : codec.parse text with
  | error e => exact iff_of_false (fun h => by cases h) fun h => by cases h.1
  | ok read =>
    have hcheck := @check_eq_ok_iff read codec
    dsimp only
    cases hread : read.check codec with
    | error e =>
      refine iff_of_false nofun fun h => ?_
      cases h.1
      rw [hcheck.mpr h.2] at hread
      cases hread
    | ok u =>
      refine ⟨fun h => ?_, fun h => ?_⟩
      · cases h
        exact ⟨rfl, hcheck.mp hread⟩
      · cases h.1
        rfl

/-- The digest doesn't cover itself. -/
theorem payload_sha256 (m : Manifest) (sha256 : String) : payload { m with sha256 } = payload m := rfl

theorem readNode_canonical {node : Node} (h : Kept node) :
    readNode floatText (canonical node) = if node.depth < 128 then some node else none := by
  have hw := @serdeWriter_readBy floatText
  unfold readNode canonical
  rw [String.toList_ofList]
  split
  · rename_i hshallow
    have hread := hw.read_write h.wellFormed hshallow (List.forall_mem_nil (Json.isWs · = true))
    rwa [List.append_nil, h.sorted] at hread
  · rename_i hdeep
    have hread := hw.read_write_none h.wellFormed (not_lt.mp hdeep) (List.forall_mem_nil (Json.isWs · = true))
    rwa [List.append_nil] at hread

/-- A manifest's own text is parsed as the manifest, unless it is too deep or the snapshot has another
name. -/
theorem parse_print (h : m.Typed) :
    (serdeCodec sha256Hex floatText refusal).parse ((serdeCodec sha256Hex floatText refusal).print m) = .ok m ↔
      PitName.fromStr m.snapshot.text = some m.snapshot ∧ (nodeOf m.evidence).depth ≤ 126 ∧
        (nodeOf m.registry).depth ≤ 126 := by
  have hread := @readNode_canonical floatText _ (kept_manifest h)
  rw [← depth_manifest_lt_iff m]
  simp only [serdeCodec, hread]
  by_cases hshallow : (JsonValue.object (manifestMembers m)).depth < 128
  · rw [if_pos hshallow, Option.bind_some, asManifest_members h]
    cases hname : PitName.fromStr m.snapshot.text with
    | none => exact iff_of_false nofun fun h => by cases h.1
    | some snapshot =>
      refine ⟨fun h => ?_, fun h => ?_⟩
      · have heq : snapshot = m.snapshot := congrArg Manifest.snapshot (Except.ok.inj h)
        exact ⟨congrArg some heq, hshallow⟩
      · cases h.1
        rfl
  · rw [if_neg hshallow]
    exact iff_of_false nofun fun h => hshallow h.2

theorem payload_injective {other : Manifest} (h : m.Typed) (h' : other.Typed)
    (hname : PitName.fromStr m.snapshot.text = some m.snapshot)
    (hname' : PitName.fromStr other.snapshot.text = some other.snapshot) (hsha : m.sha256 = other.sha256)
    (hpayload : payload m = payload other) : m = other := by
  have hsplit (m : Manifest) : manifestMembers m =
      ((manifestMembers m).filter (·.1 ≠ "sha256")).take 14 ++ ("sha256", .string m.sha256) ::
        ((manifestMembers m).filter (·.1 ≠ "sha256")).drop 14 := rfl
  have hmembers : manifestMembers m = manifestMembers other := by
    rw [hsplit m, hsplit other, hsha, JsonValue.object.inj hpayload]
  have hread := asManifest_members h
  rw [hmembers, asManifest_members h', hname, hname', Option.map_some, Option.map_some] at hread
  exact (Option.some.inj hread).symm

/-- Sealing changes no type. -/
theorem Manifest.Typed.withSha256 (h : m.Typed) (sha256 : String) : Manifest.Typed { m with sha256 } :=
  ⟨h.schemaVersion, h.vmid, h.takenAtS, h.config, h.volumes, h.evidence, h.registry⟩

theorem digest_withSha256 (m : Manifest) (sha256 : String) :
    (serdeCodec sha256Hex floatText refusal).digest { m with sha256 } =
      (serdeCodec sha256Hex floatText refusal).digest m := by
  simp only [serdeCodec, payload_sha256]

theorem parse_seal (h : m.Typed) (hname : PitName.fromStr m.snapshot.text = some m.snapshot)
    (hevidence : (nodeOf m.evidence).depth ≤ 126) (hregistry : (nodeOf m.registry).depth ≤ 126) :
    (serdeCodec sha256Hex floatText refusal).parse (m.seal_ (serdeCodec sha256Hex floatText refusal)).2 =
      .ok (m.seal_ (serdeCodec sha256Hex floatText refusal)).1 := by
  have hparse := @parse_print _ sha256Hex floatText refusal
    (h.withSha256 ((serdeCodec sha256Hex floatText refusal).digest m))
  rw [Manifest.seal_, hparse]
  exact ⟨hname, hevidence, hregistry⟩

theorem open_seal_iff (h : m.Typed) (hschema : m.schemaVersion = manifestSchema)
    (hconfig : m.configSha256 = sha256Hex m.configText) (hvolumes : m.volumes ≠ [])
    (hslots : (m.volumes.map (·.slot)).Nodup) :
    Manifest.open_ (serdeCodec sha256Hex floatText refusal)
        (m.seal_ (serdeCodec sha256Hex floatText refusal)).2 =
      .ok (m.seal_ (serdeCodec sha256Hex floatText refusal)).1 ↔
      PitName.fromStr m.snapshot.text = some m.snapshot ∧ (nodeOf m.evidence).depth ≤ 126 ∧
        (nodeOf m.registry).depth ≤ 126 := by
  have hparse := @parse_print _ sha256Hex floatText refusal
    (h.withSha256 ((serdeCodec sha256Hex floatText refusal).digest m))
  have hdigest := @digest_withSha256 sha256Hex floatText refusal m
    ((serdeCodec sha256Hex floatText refusal).digest m)
  have hsound : Manifest.Sound (serdeCodec sha256Hex floatText refusal)
      { m with sha256 := (serdeCodec sha256Hex floatText refusal).digest m } :=
    ⟨hschema, hdigest.symm, hconfig, hvolumes, hslots⟩
  rw [Manifest.seal_, open_eq_ok_iff, and_iff_left hsound, hparse]

/-- A manifest that is sealed opens again if and only if its snapshot's name is one that parses and neither
its evidence nor its registry record is 127 deep. Two values have one canonical text if and only if they
differ in the order of keys. A text opens if and only if what it says passes every check, and as something
else than what was sealed only with another digest. -/
theorem sealed_opens_iff (sha256Hex : String → String) (floatText : List Char → String)
    (refusal : String → String) :
    (∀ m : Manifest, m.Typed → m.schemaVersion = manifestSchema → m.configSha256 = sha256Hex m.configText →
      m.volumes ≠ [] → (m.volumes.map (·.slot)).Nodup →
      (Manifest.open_ (serdeCodec sha256Hex floatText refusal) (m.seal_ (serdeCodec sha256Hex floatText refusal)).2 =
          .ok (m.seal_ (serdeCodec sha256Hex floatText refusal)).1 ↔
        PitName.fromStr m.snapshot.text = some m.snapshot ∧ (nodeOf m.evidence).depth ≤ 126 ∧
          (nodeOf m.registry).depth ≤ 126)) ∧
    (∀ v w : Node, v.WellFormed IsIntText → w.WellFormed IsIntText →
      (canonical v = canonical w ↔ v.Reordered w)) ∧
    (∀ text m, Manifest.open_ (serdeCodec sha256Hex floatText refusal) text = .ok m ↔
      (serdeCodec sha256Hex floatText refusal).parse text = .ok m ∧
        m.Sound (serdeCodec sha256Hex floatText refusal)) ∧
    (Function.Injective sha256Hex → ∀ (m other : Manifest) (text : String), m.Typed →
      PitName.fromStr m.snapshot.text = some m.snapshot →
      Manifest.open_ (serdeCodec sha256Hex floatText refusal) text = .ok other → other.Typed →
      other.sha256 = (serdeCodec sha256Hex floatText refusal).digest m →
        other = (m.seal_ (serdeCodec sha256Hex floatText refusal)).1) := by
  refine ⟨fun m h hschema hconfig hvolumes hslots => open_seal_iff h hschema hconfig hvolumes hslots,
    fun v w hv hw => canonical_eq_iff hv hw, fun text m => open_eq_ok_iff, ?_⟩
  intro hinj m other text h hname hopen h' hsha
  obtain ⟨hparse, hsound⟩ := open_eq_ok_iff.mp hopen
  have hname' : PitName.fromStr other.snapshot.text = some other.snapshot := by
    simp only [serdeCodec] at hparse
    cases hread : (readNode floatText text).bind asManifest with
    | none =>
      rw [hread] at hparse
      cases hparse
    | some read =>
      rw [hread] at hparse
      cases hparse
      obtain ⟨node, -, hnode⟩ := Option.bind_eq_some_iff.mp hread
      exact snapshot_of_asManifest hnode
  have hdigest : canonical (payload other) = canonical (payload m) := hinj (hsound.digest.symm.trans hsha)
  have hsorted := (@serdeWriter_readBy floatText).sorted_eq (kept_payload h').wellFormed
    (kept_payload h).wellFormed (String.ofList_inj.mp hdigest)
  rw [(kept_payload h').sorted, (kept_payload h).sorted] at hsorted
  exact payload_injective h' (h.withSha256 _) hname' hname hsha (hsorted.trans (payload_sha256 m _).symm)

/-! ### Deep evidence -/

def nested : Nat → Bmacd.Value
  | 0 => .null
  | n + 1 => .array [nested n]

theorem depth_nested (n : Nat) : (nodeOf (nested n)).depth = n := by
  induction n with
  | zero => rfl
  | succ n ih => exact congrArg Nat.succ ((Nat.max_zero _).trans ih)

theorem kept_nested (n : Nat) : Kept (nodeOf (nested n)) := by
  induction n with
  | zero => exact ⟨.null, rfl⟩
  | succ n ih => exact kept_array (List.forall_mem_singleton.mpr ih)

/-- A manifest of one disk, with `evidence` as the guest agent gave it. -/
def diskManifest (evidence : Bmacd.Value) : Manifest where
  schemaVersion := 1
  clusterUuid := "c"
  vmUuid := "v"
  vmid := 100
  pitUuid := "p"
  branchUuid := "b"
  parentPitUuid := none
  snapshot := PitName.named 0 0
  takenAtS := 0
  consistency := .filesystem
  evidence := evidence
  multiPool := false
  versions := ⟨"9", "2.4", "3"⟩
  configText := ""
  config := []
  configSha256 := ""
  volumes := [⟨"u", "scsi0", .disk, "rpool/data/vm-100-disk-0", 1, 1024, 16384, true⟩]
  firmware := ⟨"seabios", none, false⟩
  registry := .null
  prerequisites := []
  sha256 := ""

theorem typed_diskManifest {evidence : Bmacd.Value} (h : Kept (nodeOf evidence)) :
    (diskManifest evidence).Typed where
  schemaVersion := show (1 : Nat) < 2 ^ 32 by decide
  vmid := show (100 : Nat) < 2 ^ 32 by decide
  takenAtS := show (-2 ^ 63 : Int) ≤ 0 ∧ (0 : Int) < 2 ^ 63 by decide
  config := List.Pairwise.nil
  volumes := List.forall_mem_singleton.mpr (show (1024 : Nat) < 2 ^ 64 ∧ (16384 : Nat) < 2 ^ 64 by decide)
  evidence := h
  registry := ⟨.null, rfl⟩

theorem deep_not_opened : ¬ ∃ (floatText : List Char → String) (refusal : String → String),
    ∀ (sha256Hex : String → String) (m : Manifest), m.Typed →
      PitName.fromStr m.snapshot.text = some m.snapshot → m.schemaVersion = manifestSchema →
      m.configSha256 = sha256Hex m.configText → m.volumes ≠ [] → (m.volumes.map (·.slot)).Nodup →
      Manifest.open_ (serdeCodec sha256Hex floatText refusal)
          (m.seal_ (serdeCodec sha256Hex floatText refusal)).2 =
        .ok (m.seal_ (serdeCodec sha256Hex floatText refusal)).1 := by
  rintro ⟨floatText, refusal, hall⟩
  have hname : PitName.fromStr (PitName.named 0 0).text = some (PitName.named 0 0) :=
    PitName.fromStr_named (by unfold InYears; decide) 0
  have htyped := typed_diskManifest (kept_nested 127)
  have hopen := hall (fun _ => "") (diskManifest (nested 127)) htyped hname rfl rfl (by decide) (by decide)
  have hdeep := ((open_seal_iff htyped rfl rfl (by decide) (by decide)).mp hopen).2.1
  rw [show (diskManifest (nested 127)).evidence = nested 127 from rfl, depth_nested] at hdeep
  omega

end Bmac.Backup
