import Bmac.Adapters.InUse

/-!
# Disks in no pool

`build` lists a disk as unassigned when none of the members it resolves is on it and no registered ESP
is. It resolves the members of every class of its own pool, and the data members of the other pools:
`assigned_iff` says when the lists are right.
-/

namespace Bmac.Adapters

open Bmac.Core

namespace Inputs

variable (i : Inputs)

def deviceOf (leaf : ConfigNode) : String := (i.resolved leaf).getD leaf.name

def diskOf (leaf : ConfigNode) : Option String := (i.devices.get? (i.deviceOf leaf)).bind (·.disk)

def leaves : List ConfigNode :=
  (i.status.sections.flatMap fun «section» => «section».vdevs.flatMap (·.leaves)) ++ i.poolLeaves

/-- A leaf of an imported pool is on the disk `root`. -/
def Pooled (root : Node) : Prop :=
  ∃ leaf ∈ i.leaves, ∃ n, root.On n ∧ n.knameOf = some (i.deviceOf leaf)

/-- A registered ESP is on the disk `root`. -/
def Registered (root : Node) : Prop :=
  ∃ n, root.On n ∧ ∃ uuid, n.facts.uuid = some uuid ∧ uuid ≠ "" ∧ i.upper uuid ∈ i.bootUuids

/-- The map has a leaf of this pool, or of a data vdev of any pool, on the disk. -/
def Counted (disk : String) : Prop :=
  ∃ vdev ∈ i.resolvedVdevs, ∃ leaf ∈ vdev.leaves, i.diskOf leaf = some disk

/-- The map has a registered ESP on the disk. -/
def EspOn (disk : String) : Prop := ∃ e ∈ i.devices, i.isEsp e.2 = true ∧ e.2.disk = some disk

end Inputs

/-- The disk `root` is in the lists it belongs in. -/
structure Assigned (i : Inputs) (layout : Layout) (root : Node) (disk : String) : Prop where
  unassigned : disk ∈ layout.unassignedDisks.map (·.disk) ↔ ¬ i.Pooled root ∧ ¬ i.Registered root
  espOnly : disk ∈ layout.espOnlyDisks.map (·.disk) ↔ ¬ i.Pooled root ∧ i.Registered root

/-! ## The tree behind the map -/

section

variable {roots : List Node} {p d : Option String} {n root : Node} {k disk : String}
  {devices : BlockDevices} {dev : BlockDevice}

theorem diskBelow_none {facts : Facts} (h : facts.diskBelow k none = some disk) :
    facts.kind = some "disk" ∧ disk = k := by
  simp only [Facts.diskBelow] at h
  split at h
  · rename_i hkind
    exact ⟨hkind, (Option.some.inj h).symm⟩
  · cases h

theorem on_of_diskBelow (ht : LsblkTree roots) (hn : Seen none none roots p d n)
    (hk : n.knameOf = some k) (hdisk : n.facts.diskBelow k d = some disk) :
    ∃ root ∈ roots, root.facts.kind = some "disk" ∧ root.knameOf = some disk ∧ root.On n := by
  induction hn generalizing k with
  | root hmem =>
    obtain ⟨hkind, rfl⟩ := diskBelow_none hdisk
    exact ⟨_, hmem, hkind, hk, .root⟩
  | @child p d n c kn hseen hkn hc ih =>
    cases hbelow : n.facts.diskBelow kn d with
    | none =>
      -- a disk is a root
      rw [hbelow] at hdisk
      cases ht.disks (.child hseen hkn hc) (diskBelow_none hdisk).1
    | some below =>
      rw [hbelow] at hdisk
      cases hdisk
      obtain ⟨root, hroot, hkind, hname, hon⟩ := ih hkn hbelow
      exact ⟨root, hroot, hkind, hname, .child hon hc⟩

theorem fromSeen_of_get? (hparse : BlockDevices.parse roots = .ok devices)
    (h : devices.get? k = some dev) : FromSeen none none roots k dev :=
  ((visitAll_visited roots hparse).from_ k dev h).resolve_left (by simp [Dict.get?])

theorem on_of_get? (ht : LsblkTree roots) (hparse : BlockDevices.parse roots = .ok devices)
    (hroot : root ∈ roots) (hname : root.knameOf = some disk) (h : devices.get? k = some dev)
    (hdisk : dev.disk = some disk) : ∃ n, root.On n ∧ n.knameOf = some k ∧ dev.uuid = n.facts.uuid := by
  obtain ⟨p, d, n, size, hn, hk, rfl⟩ := fromSeen_of_get? hparse h
  obtain ⟨root', hroot', -, hname', hon⟩ := on_of_diskBelow ht hn hk hdisk
  obtain rfl := eq_of_pairwise ht.rootsOnce hroot' hroot (hname'.trans hname.symm)
  exact ⟨n, hon, hk, rfl⟩

theorem get?_disk (ht : LsblkTree roots) (hparse : BlockDevices.parse roots = .ok devices)
    (h : devices.get? k = some dev) (hdisk : dev.disk = some disk) :
    ∃ dev', devices.get? disk = some dev' ∧ dev'.kname = disk := by
  obtain ⟨p, d, n, size, hn, hk, rfl⟩ := fromSeen_of_get? hparse h
  obtain ⟨root, hroot, hkind, hname, -⟩ := on_of_diskBelow ht hn hk hdisk
  obtain ⟨size', parent, disk', hget, -⟩ := (sole_root ht hroot hkind hname).get hparse (.root hroot)
  exact ⟨_, hget, rfl⟩

end

/-! ## The members -/

variable {i : Inputs} {roots : List Node} {root : Node} {disk : String}

theorem member_disk (ht : LsblkTree roots) (hparse : BlockDevices.parse roots = .ok i.devices)
    (group : Option String) (leaf : ConfigNode) : (i.member group leaf).disk = i.diskOf leaf := by
  have hmember : (i.member group leaf).disk =
      ((i.diskOf leaf).bind i.devices.get?).map (·.kname) := rfl
  rw [hmember]
  cases hdisk : i.diskOf leaf with
  | none => rfl
  | some disk =>
    obtain ⟨dev, hdev, hon⟩ := Option.bind_eq_some_iff.mp hdisk
    obtain ⟨dev', hget, hname⟩ := get?_disk ht hparse hdev hon
    rw [Option.bind_some, hget, Option.map_some, hname]

mutual

theorem walk_disks (ht : LsblkTree roots) (hparse : BlockDevices.parse roots = .ok i.devices)
    (group : Option String) : (node : ConfigNode) →
      (i.walk group node).filterMap (·.disk) = node.leaves.filterMap i.diskOf
  | .mk name state [] => by
    rw [Inputs.walk, ConfigNode.leaves, List.filterMap_cons, List.filterMap_cons,
      member_disk ht hparse]
    rfl
  | .mk name state (child :: children) => by
    rw [Inputs.walk, ConfigNode.leaves, List.filterMap_append, List.filterMap_append,
      walk_disks ht hparse _ child, walkAll_disks ht hparse _ children]

theorem walkAll_disks (ht : LsblkTree roots) (hparse : BlockDevices.parse roots = .ok i.devices)
    (group : Option String) : (nodes : List ConfigNode) →
      (i.walkAll group nodes).filterMap (·.disk) = (ConfigNode.leavesAll nodes).filterMap i.diskOf
  | [] => by rw [Inputs.walkAll, ConfigNode.leavesAll]; rfl
  | node :: rest => by
    rw [Inputs.walkAll, ConfigNode.leavesAll, List.filterMap_append, List.filterMap_append,
      walk_disks ht hparse group node, walkAll_disks ht hparse group rest]

end

theorem mem_memberDisks (ht : LsblkTree roots) (hparse : BlockDevices.parse roots = .ok i.devices) :
    disk ∈ i.memberDisks ↔ i.Counted disk := by
  unfold Inputs.memberDisks Inputs.Counted
  simp only [Inputs.layoutVdev, walk_disks ht hparse, List.mem_flatMap, List.mem_filterMap]

theorem mem_espDisks (hparse : BlockDevices.parse roots = .ok i.devices) :
    disk ∈ i.espDisks ↔ i.EspOn disk := by
  have hsorted : i.devices.Sorted := (visitAll_visited roots hparse).sorted List.Pairwise.nil
  have hkname : ∀ e ∈ i.devices, i.devices.get? e.2.kname = some e.2 := by
    rintro ⟨k, dev⟩ he
    have hget := Dict.get?_of_mem hsorted he
    obtain ⟨p, d, n, size, -, -, rfl⟩ := fromSeen_of_get? hparse hget
    exact hget
  simp only [Inputs.espDisks, Inputs.espPartitions, List.mem_filterMap, List.mem_map, List.mem_filter,
    Inputs.EspOn]
  constructor
  · rintro ⟨_, ⟨e, ⟨he, hesp⟩, rfl⟩, hdisk⟩
    rw [hkname e he, Option.bind_some] at hdisk
    exact ⟨e, he, hesp, hdisk⟩
  · rintro ⟨e, he, hesp, hdisk⟩
    exact ⟨_, ⟨e, ⟨he, hesp⟩, rfl⟩, by rw [hkname e he]; exact hdisk⟩

theorem mem_leaves {vdev leaf : ConfigNode} (hvdev : vdev ∈ i.resolvedVdevs) (hleaf : leaf ∈ vdev.leaves) :
    leaf ∈ i.leaves := by
  have hdata : ∀ {pool : PoolStatus} {v : ConfigNode}, v ∈ pool.vdevs .data →
      ∃ «section» ∈ pool.sections, v ∈ «section».vdevs := by
    intro pool v hv
    unfold PoolStatus.vdevs at hv
    split at hv
    · rename_i found hfound
      exact ⟨found, List.mem_of_find?_eq_some hfound, hv⟩
    · exact absurd hv List.not_mem_nil
  rw [Inputs.leaves, List.mem_append]
  rcases List.mem_append.mp hvdev with hown | hother
  · left
    have hsection : ∃ «section» ∈ i.status.sections, vdev ∈ «section».vdevs := by
      rcases List.mem_append.mp hown with hv | hv
      · exact hdata hv
      · obtain ⟨found, hfound, hv⟩ := List.mem_flatMap.mp hv
        exact ⟨found, List.mem_of_mem_filter hfound, hv⟩
    obtain ⟨found, hfound, hv⟩ := hsection
    exact List.mem_flatMap.mpr ⟨found, hfound, List.mem_flatMap.mpr ⟨vdev, hv, hleaf⟩⟩
  · right
    obtain ⟨pool, hpool, hv⟩ := List.mem_flatMap.mp hother
    obtain ⟨found, hfound, hv⟩ := hdata hv
    exact List.mem_flatMap.mpr ⟨pool, hpool, List.mem_flatMap.mpr ⟨found, hfound,
      List.mem_flatMap.mpr ⟨vdev, hv, hleaf⟩⟩⟩

theorem pooled_of_counted (ht : LsblkTree roots) (hparse : BlockDevices.parse roots = .ok i.devices)
    (hroot : root ∈ roots) (hname : root.knameOf = some disk) (h : i.Counted disk) : i.Pooled root := by
  obtain ⟨vdev, hvdev, leaf, hleaf, hdisk⟩ := h
  obtain ⟨dev, hdev, hon⟩ := Option.bind_eq_some_iff.mp hdisk
  obtain ⟨n, hn, hk, -⟩ := on_of_get? ht hparse hroot hname hdev hon
  exact ⟨leaf, mem_leaves hvdev hleaf, n, hn, hk⟩

theorem registered_of_espOn (ht : LsblkTree roots) (hparse : BlockDevices.parse roots = .ok i.devices)
    (hroot : root ∈ roots) (hname : root.knameOf = some disk) (h : i.EspOn disk) : i.Registered root := by
  obtain ⟨⟨k, dev⟩, he, hesp, hdisk⟩ := h
  have hsorted : i.devices.Sorted := (visitAll_visited roots hparse).sorted List.Pairwise.nil
  obtain ⟨n, hn, -, huuid⟩ := on_of_get? ht hparse hroot hname (Dict.get?_of_mem hsorted he) hdisk
  unfold Inputs.isEsp at hesp
  split at hesp
  · rename_i uuid hsome
    simp only [Bool.and_eq_true, decide_eq_true_eq, List.contains_iff_mem] at hesp
    exact ⟨n, hn, uuid, huuid ▸ hsome, by simpa using hesp.1, hesp.2⟩
  · cases hesp

/-! ## The lists -/

/-- Each disk that isn't a guest's has a row. -/
theorem mem_rows_disk {depth : Nat} {rows : List DiskRow} (ht : LsblkTree roots)
    (hparse : BlockDevices.parse roots = .ok i.devices) (hrows : i.rows depth = some rows)
    (hroot : root ∈ roots) (hkind : root.facts.kind = some "disk") (hname : root.knameOf = some disk)
    (hzvol : Inputs.isZvol disk = false) : disk ∈ rows.map (·.disk) := by
  have hv := visitAll_visited roots hparse
  obtain ⟨dev, hget⟩ := Option.isSome_iff_exists.mp (hv.seen _ _ _ _ (.root hroot) hname)
  obtain ⟨p, d, n, size, hn, hk, rfl⟩ := fromSeen_of_get? hparse hget
  have hsame : n.facts.kind = some "disk" :=
    (ht.sameKind hn (.root hroot) (hk.trans hname.symm)).trans hkind
  obtain rfl := ht.disks hn hsame
  have hmem : (disk, n.device disk size none d) ∈ i.devices.filter fun e =>
      e.2.kind = some "disk" ∧ e.2.parent = none ∧ !Inputs.isZvol e.1 := by
    refine List.mem_filter.mpr ⟨Dict.mem_of_get? hget, ?_⟩
    simpa [Node.device, hzvol] using hsame
  obtain ⟨row, hrow, hmade⟩ := (mapM_some hrows).1 _ hmem
  obtain ⟨l, -, rfl⟩ := Option.map_eq_some_iff.mp hmade
  exact List.mem_map.mpr ⟨_, hrow, rfl⟩

theorem mem_filter_disk {rows : List DiskRow} (p : String → Bool) :
    disk ∈ (rows.filter fun row => p row.disk).map (·.disk) ↔
      disk ∈ rows.map (·.disk) ∧ p disk = true := by
  simp only [List.mem_map, List.mem_filter]
  constructor
  · rintro ⟨row, ⟨hrow, hp⟩, rfl⟩
    exact ⟨⟨row, hrow, rfl⟩, hp⟩
  · rintro ⟨⟨row, hrow, rfl⟩, hp⟩
    exact ⟨row, ⟨hrow, hp⟩, rfl⟩

/-- What the lists of `build` have. -/
theorem mem_lists {depth : Nat} {layout : Layout} (ht : LsblkTree roots)
    (hparse : BlockDevices.parse roots = .ok i.devices) (hbuild : build i depth = some layout)
    (hroot : root ∈ roots) (hkind : root.facts.kind = some "disk") (hname : root.knameOf = some disk)
    (hzvol : Inputs.isZvol disk = false) :
    (disk ∈ layout.unassignedDisks.map (·.disk) ↔ ¬ i.Counted disk ∧ ¬ i.EspOn disk) ∧
      (disk ∈ layout.espOnlyDisks.map (·.disk) ↔ ¬ i.Counted disk ∧ i.EspOn disk) := by
  obtain ⟨rows, hrows, hlayout⟩ := Option.bind_eq_some_iff.mp hbuild
  have hrow := mem_rows_disk ht hparse hrows hroot hkind hname hzvol
  have hunassigned : layout.unassignedDisks = (rows.filter fun row =>
      !i.memberDisks.contains row.disk).filter fun row => !i.espDisks.contains row.disk := by
    rw [← Option.some.inj hlayout]
  have hespOnly : layout.espOnlyDisks = (rows.filter fun row =>
      !i.memberDisks.contains row.disk).filter fun row => i.espDisks.contains row.disk := by
    rw [← Option.some.inj hlayout]
  rw [hunassigned, hespOnly, ← mem_memberDisks ht hparse, ← mem_espDisks hparse]
  constructor
  · rw [mem_filter_disk fun disk => !i.espDisks.contains disk,
      mem_filter_disk fun disk => !i.memberDisks.contains disk]
    simp [hrow]
  · rw [mem_filter_disk fun disk => i.espDisks.contains disk,
      mem_filter_disk fun disk => !i.memberDisks.contains disk]
    simp [hrow]

/-- Two marks that are set soundly split the disks rightly exactly when they are set as often as they
should be. -/
theorem split_iff {pooled counted registered esp : Prop} (hcounted : counted → pooled)
    (hesp : esp → registered) :
    ((¬ counted ∧ ¬ esp ↔ ¬ pooled ∧ ¬ registered) ∧ (¬ counted ∧ esp ↔ ¬ pooled ∧ registered)) ↔
      (pooled → counted) ∧ (¬ pooled → registered → esp) := by
  tauto

/-- A disk is in the lists it belongs in exactly when, of the leaves on it, one is resolved to it, and a
registered ESP on it is in the map as being there. -/
theorem assigned_iff {depth : Nat} {layout : Layout} (ht : LsblkTree roots)
    (hparse : BlockDevices.parse roots = .ok i.devices) (hbuild : build i depth = some layout)
    (hroot : root ∈ roots) (hkind : root.facts.kind = some "disk") (hname : root.knameOf = some disk)
    (hzvol : Inputs.isZvol disk = false) :
    Assigned i layout root disk ↔
      (i.Pooled root → i.Counted disk) ∧ (¬ i.Pooled root → i.Registered root → i.EspOn disk) := by
  obtain ⟨hunassigned, hespOnly⟩ := mem_lists ht hparse hbuild hroot hkind hname hzvol
  have hsplit := split_iff (pooled_of_counted ht hparse hroot hname)
    (registered_of_espOn ht hparse hroot hname)
  rw [← hunassigned, ← hespOnly] at hsplit
  rw [← hsplit]
  exact ⟨fun h => ⟨h.unassigned, h.espOnly⟩, fun h => ⟨h.1, h.2⟩⟩

/-! ## Three disks in two pools

`rpool` is on `sda`, and `tank` on `sdb`, with `sdc` as its cache. -/

def plainDisk (name : String) : Node := .mk { name := name, kname := name, kind := "disk" } []

def threeDisks : List Node := ["/dev/sda", "/dev/sdb", "/dev/sdc"].map plainDisk

def plainVdev (name : String) : ConfigNode := .mk name (some "ONLINE") []

def twoPools : Inputs where
  status := ⟨"rpool", [], [⟨.data, [plainVdev "/dev/sda"]⟩]⟩
  devices := ["/dev/sda", "/dev/sdb", "/dev/sdc"].map fun name =>
    (name, (plainDisk name).device name none none none)
  bootUuids := []
  crypttab := ""
  allPools := [⟨"rpool", [], [⟨.data, [plainVdev "/dev/sda"]⟩]⟩,
    ⟨"tank", [], [⟨.data, [plainVdev "/dev/sdb"]⟩, ⟨.cache, [plainVdev "/dev/sdc"]⟩]⟩]
  realpath := id
  upper := id

theorem seen_threeDisks {p d : Option String} {n : Node} (h : Seen none none threeDisks p d n) :
    p = none ∧ n ∈ threeDisks := by
  have hchildless : ∀ m ∈ threeDisks, m.children = [] := by
    intro m hm
    obtain ⟨name, -, rfl⟩ := List.mem_map.mp hm
    rfl
  induction h with
  | root hmem => exact ⟨rfl, hmem⟩
  | child _ _ hc ih =>
    rw [hchildless _ ih.2] at hc
    exact absurd hc List.not_mem_nil

theorem threeDisks_tree : LsblkTree threeDisks := by
  have hplain : ∀ {p d n}, Seen none none threeDisks p d n → ∃ name, n = plainDisk name ∧ name ≠ "" := by
    intro p d n h
    obtain ⟨name, hname, rfl⟩ := List.mem_map.mp (seen_threeDisks h).2
    exact ⟨name, rfl, (by decide : ∀ name ∈ ["/dev/sda", "/dev/sdb", "/dev/sdc"], name ≠ "") name hname⟩
  refine ⟨fun h => ?_, fun h => ?_, fun h h' _ => ?_, by decide, fun h => ?_,
    fun h _ => (seen_threeDisks h).1, fun h h' _ _ => ?_⟩
  · obtain ⟨name, rfl, hne⟩ := hplain h
    exact ⟨name, by simp [Node.knameOf, Facts.knameOf, plainDisk, nonEmpty, hne]⟩
  · obtain ⟨name, rfl, -⟩ := hplain h
    exact ⟨"disk", rfl⟩
  · obtain ⟨name, rfl, -⟩ := hplain h
    obtain ⟨name', rfl, -⟩ := hplain h'
    rfl
  · obtain ⟨name, rfl, -⟩ := hplain h
    exact List.Pairwise.nil
  · rw [(seen_threeDisks h).1, (seen_threeDisks h').1]

theorem parse_threeDisks : BlockDevices.parse threeDisks = .ok twoPools.devices := rfl

theorem built_twoPools : ∃ layout, build twoPools 1 = some layout := ⟨_, rfl⟩

theorem not_registered_plain {name : String} : ¬ twoPools.Registered (plainDisk name) := by
  rintro ⟨n, -, uuid, -, -, hboot⟩
  exact List.not_mem_nil hboot

/-- The data disk of the other pool is in neither list. -/
theorem assigned_data : ∃ layout, build twoPools 1 = some layout ∧
    Assigned twoPools layout (plainDisk "/dev/sdb") "/dev/sdb" := by
  obtain ⟨layout, hbuild⟩ := built_twoPools
  refine ⟨layout, hbuild, (assigned_iff threeDisks_tree parse_threeDisks hbuild (by simp [threeDisks])
    rfl rfl (by decide)).mpr ⟨fun _ => ?_, fun _ h => absurd h not_registered_plain⟩⟩
  exact ⟨plainVdev "/dev/sdb", by simp [Inputs.resolvedVdevs, twoPools, PoolStatus.vdevs], _,
    List.mem_singleton_self _, rfl⟩

/-- The cache of the other pool is listed as unassigned. -/
theorem not_assigned_cache : ∃ (i : Inputs) (roots : List Node) (layout : Layout) (root : Node),
    LsblkTree roots ∧ BlockDevices.parse roots = .ok i.devices ∧ build i 1 = some layout ∧
      root ∈ roots ∧ root.facts.kind = some "disk" ∧ root.knameOf = some "/dev/sdc" ∧
      ¬ Assigned i layout root "/dev/sdc" := by
  obtain ⟨layout, hbuild⟩ := built_twoPools
  have hroot : plainDisk "/dev/sdc" ∈ threeDisks := by simp [threeDisks]
  refine ⟨twoPools, threeDisks, layout, plainDisk "/dev/sdc", threeDisks_tree, parse_threeDisks, hbuild,
    hroot, rfl, rfl, fun h => ?_⟩
  have hpooled : twoPools.Pooled (plainDisk "/dev/sdc") :=
    ⟨plainVdev "/dev/sdc", by simp [Inputs.leaves, Inputs.poolLeaves, twoPools, plainVdev,
      ConfigNode.leaves], _, .root, rfl⟩
  have hcounted : ¬ twoPools.Counted "/dev/sdc" := by
    rintro ⟨vdev, hvdev, leaf, hleaf, hdisk⟩
    have hvdevs : twoPools.resolvedVdevs =
        ["/dev/sda", "/dev/sda", "/dev/sdb"].map plainVdev := rfl
    rw [hvdevs] at hvdev
    obtain ⟨name, hname, rfl⟩ := List.mem_map.mp hvdev
    cases List.mem_singleton.mp hleaf
    revert hdisk
    exact (by decide : ∀ name ∈ ["/dev/sda", "/dev/sda", "/dev/sdb"],
      twoPools.diskOf (plainVdev name) ≠ some "/dev/sdc") name hname
  have hesp : ¬ twoPools.EspOn "/dev/sdc" := fun hon =>
    not_registered_plain (registered_of_espOn threeDisks_tree parse_threeDisks hroot rfl hon)
  have hlisted := (mem_lists threeDisks_tree parse_threeDisks hbuild hroot rfl rfl (by decide)).1.mpr
    ⟨hcounted, hesp⟩
  exact (h.unassigned.mp hlisted).1 hpooled

end Bmac.Adapters
