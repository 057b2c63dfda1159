import Bmac.Bmacd.DiskWork

/-!
# No disk in use is offered or erased

A snapshot is `Taken` when its layout is built from a tree of devices and the pools' status. Its disks
without a reason to be in use, its candidates, and the disks that `finish` erases aren't in use
(`disks_safe`). A candidate isn't chosen by an open addition or replacement, nor a member of the removal
in progress; it may be the old disk of an open replacement (`candidate_is_old`).
-/

namespace Bmac.Bmacd.DiskWork

open Bmac.Base Bmac.Core Bmac.Adapters Bmac.Storage Prog

/-- The snapshot's layout is that of these devices. -/
structure Snapshot.Taken (s : Snapshot) (i : Inputs) (roots : List Node) : Prop where
  tree : LsblkTree roots
  parsed : BlockDevices.parse roots = .ok i.devices
  built : ∃ depth, build i depth = some s.layout

/-- The disk `k` isn't in use. -/
def FreeDisk (i : Inputs) (roots : List Node) (k : String) : Prop :=
  ∃ root ∈ roots, root.knameOf = some k ∧ i.Free root

/-- Nothing in the journal has the disk for a new member, or is to release it. -/
structure Unchosen (journal : Journal.State) (identity : DiskIdentity) : Prop where
  additions : ∀ a ∈ journal.additions, identity ∉ a.members
  replacements : ∀ e ∈ journal.replacements, e.1 ≠ identity
  removals : ∀ r ∈ journal.removals, r.isRequested = true → ∀ m ∈ r.members, m.identity ≠ some identity

variable {s : Snapshot} {i : Inputs} {roots : List Node} {pool : String} {work : Work}
  {tr : List (Base.Event Call Reply)}

theorem Snapshot.Taken.free (h : s.Taken i roots) {row : DiskRow} (hrow : row ∈ s.layout.allDisks)
    (hnone : row.inUseReasons = []) : FreeDisk i roots row.disk := by
  obtain ⟨depth, hbuild⟩ := h.built
  exact free_of_row h.tree h.parsed hbuild hrow hnone

theorem Snapshot.Taken.sections (h : s.Taken i roots) {row : DiskRow} :
    (row ∈ s.layout.physicallyRemovableDisks → row ∈ s.layout.allDisks ∧ row.inUseReasons = []) ∧
      (row ∈ s.layout.unassignedDisks → row ∈ s.layout.allDisks) := by
  obtain ⟨depth, hbuild⟩ := h.built
  obtain ⟨rows, -, hlayout⟩ := Option.bind_eq_some_iff.mp hbuild
  rw [← Option.some.inj hlayout]
  constructor
  · intro hmem
    obtain ⟨hrow, hempty⟩ := List.mem_filter.mp hmem
    exact ⟨hrow, List.isEmpty_iff.mp hempty⟩
  · intro hmem
    exact (List.mem_filter.mp (List.mem_filter.mp hmem).1).1

/-! ## Candidates -/

theorem mem_candidates {c : Candidate} (h : c ∈ s.candidates) :
    c.row ∈ s.layout.unassignedDisks ∧ c.row.inUseReasons = [] ∧ s.diskNamed c.row.disk = some c.disk ∧
      c.disk.identity = some c.identity ∧ c.identity ∉ s.journaledDisks := by
  obtain ⟨row, hrow, hc⟩ := List.mem_filterMap.mp h
  obtain ⟨hrow, hfree⟩ := List.mem_filter.mp hrow
  obtain ⟨disk, hdisk, h1⟩ := Option.bind_eq_some_iff.mp hc
  obtain ⟨identity, hidentity, h2⟩ := Option.bind_eq_some_iff.mp h1
  obtain ⟨byId, -, h3⟩ := Option.bind_eq_some_iff.mp h2
  split at h3
  · rename_i husable
    cases h3
    rw [Bool.and_eq_true] at hfree
    exact ⟨hrow, List.isEmpty_iff.mp hfree.1, hdisk, hidentity, husable.2.2.2.1⟩
  · cases h3

theorem removal_in_progress {journal : Journal.State} (hvalid : journal.validate = .ok ())
    {r : Journal.Removal} (hr : r ∈ journal.removals) (hopen : r.isRequested = true) :
    journal.removalInProgress = some r := by
  have hcount : journal.removals.countP (·.isRequested) ≤ 1 := by
    by_contra hmany
    have hthrow : 1 < journal.removals.countP (·.isRequested) := by omega
    unfold Journal.State.validate at hvalid
    by_cases hschema : journal.schema = Journal.schemaVersion
    · rw [if_neg (by simpa using hschema), if_pos hthrow] at hvalid
      cases hvalid
    · rw [if_pos hschema] at hvalid
      cases hvalid
  cases hfind : journal.removalInProgress with
  | none =>
    have hnot := List.find?_eq_none.mp hfind r hr
    exact absurd hopen hnot
  | some first =>
    have hlen : (journal.removals.filter (·.isRequested)).length ≤ 1 := by
      rwa [← List.countP_eq_length_filter]
    have hfirst : first ∈ journal.removals.filter (·.isRequested) :=
      List.mem_filter.mpr ⟨List.mem_of_find?_eq_some hfind, List.find?_some hfind⟩
    have hmem : r ∈ journal.removals.filter (·.isRequested) := List.mem_filter.mpr ⟨hr, hopen⟩
    rcases hl : journal.removals.filter (·.isRequested) with _ | ⟨one, _ | ⟨two, rest⟩⟩
    · rw [hl] at hmem
      exact absurd hmem List.not_mem_nil
    · rw [hl] at hmem hfirst
      rw [List.mem_singleton.mp hmem, List.mem_singleton.mp hfirst]
    · rw [hl] at hlen
      simp at hlen

variable {identity : DiskIdentity}

theorem unchosen_of_journaled (hvalid : s.journal.validate = .ok ())
    (h : identity ∉ s.journaledDisks) : Unchosen s.journal identity := by
  unfold Snapshot.journaledDisks at h
  simp only [List.mem_append, not_or] at h
  obtain ⟨⟨hadd, hreplace⟩, hremove⟩ := h
  constructor
  · intro a ha hmem
    exact hadd (List.mem_flatMap.mpr ⟨a, ha, hmem⟩)
  · intro e he heq
    exact hreplace (List.mem_map.mpr ⟨e, he, heq⟩)
  · intro r hr hopen m hm heq
    refine hremove (List.mem_filterMap.mpr ⟨m, ?_, heq⟩)
    rw [removal_in_progress hvalid hr hopen]
    simpa using hm

/-! ## What `finish` erases -/

def Wipes : Call → Prop
  | .wipeMetadata _ => True
  | _ => False

/-- The snapshot says that the disk with this identity may be erased. -/
def Erasable (s : Snapshot) (identity : DiskIdentity) : Prop :=
  ∃ listed, s.diskWith identity = some listed ∧ s.holdsMember listed = false ∧
    ((s.row listed).map (·.inUseReasons)).getD [] = []

theorem calls_resolve (identity : DiskIdentity) : Calls (fun c => ¬ Wipes c) (resolve identity) := by
  refine calls_bind (calls_ask id) fun disks => ?_
  split <;> trivial

theorem resolve_ok {disk : InventoryDisk}
    (h : Runs (resolve identity) tr (.ok disk)) : disk.identity = some identity := by
  obtain ⟨disks, tr', rfl, hrest⟩ := runs_ask_bind.mp h
  split at hrest
  · rename_i one hone
    obtain ⟨-, heq⟩ := runs_pure.mp hrest
    cases heq
    have hmem : disk ∈ List.filter (·.identity = some identity) disks := by
      rw [hone]
      exact List.mem_singleton_self disk
    simpa using (List.mem_filter.mp hmem).2
  · obtain ⟨-, heq⟩ := runs_fail.mp hrest
    cases heq
  · obtain ⟨-, heq⟩ := runs_fail.mp hrest
    cases heq

/-- What is erased may be erased as the snapshot says. -/
theorem release_wipes {identities : List DiskIdentity} {y : Except Capture.Stop (List DiskIdentity)}
    (h : Runs (release s identities) tr y) {e : Base.Event Call Reply} (he : e ∈ tr) (hw : Wipes e.1) :
    ∃ disk identity, e.1 = .wipeMetadata disk ∧ disk.identity = some identity ∧ Erasable s identity := by
  induction identities generalizing tr y with
  | nil =>
    obtain ⟨rfl, -⟩ := runs_pure.mp h
    exact absurd he List.not_mem_nil
  | cons identity rest ih =>
    unfold release at h
    split at h
    · exact ih h he
    · rename_i listed hlisted
      split at h
      · rcases runs_bind.mp h with ⟨tr1, tr2, kept, rfl, hrest, hret⟩ | ⟨stop, hrest, -⟩
        · obtain ⟨rfl, -⟩ := runs_pure.mp hret
          rw [List.append_nil] at he
          exact ih hrest he
        · exact ih hrest he
      · rename_i hfree
        simp only [not_or, not_not, Bool.not_eq_true] at hfree
        rcases runs_bind.mp h with ⟨tr1, tr2, disk, rfl, hresolve, hwipe⟩ | ⟨stop, hresolve, -⟩
        · have hone : Calls (fun c => c = .wipeMetadata disk) (orFail (Host.wipeMetadata disk)) :=
            calls_orFail (calls_ask rfl)
          have herased : ∀ c : Call, c = .wipeMetadata disk → ∃ disk identity,
              c = .wipeMetadata disk ∧ disk.identity = some identity ∧ Erasable s identity :=
            fun c hc => ⟨disk, identity, hc, resolve_ok hresolve, listed, hlisted, hfree.1, hfree.2⟩
          rcases List.mem_append.mp he with he | he
          · exact absurd hw ((calls_resolve identity).of_runs hresolve e he)
          rcases runs_bind.mp hwipe with ⟨tr3, tr4, u, rfl, hrun, hrest⟩ | ⟨stop, hrun, -⟩
          · rcases List.mem_append.mp he with he | he
            · exact herased e.1 (hone.of_runs hrun e he)
            · exact ih hrest he
          · exact herased e.1 (hone.of_runs hrun e he)
        · exact absurd hw ((calls_resolve identity).of_runs hresolve e he)

theorem calls_close {mappers : List String} : Calls (fun c => ¬ Wipes c) (close pool work mappers) := by
  refine calls_bind (calls_orFail (calls_ask id)) fun s => ?_
  refine calls_bind (calls_forEach fun mapper => ?_) fun _ => ?_
  · unfold closeMapper
    split
    · trivial
    · refine calls_bind (calls_ask id) fun mapped => ?_
      split
      · exact calls_orFail (calls_ask id)
      · trivial
  · split
    · trivial
    · refine calls_bind (calls_orFail (calls_ask id)) fun _ => ?_
      exact calls_forEach fun mapper => calls_ask id

/-- The end of a work erases nothing. -/
theorem calls_end (work : Work) (kept : List DiskIdentity) : Calls (fun c => ¬ Wipes c) (do
    if kept.isEmpty then
      match work with
      | .removal r => orFail (Host.setRemoval r.id .retired)
      | .replacement disk _ => orFail (Host.clearReplacement disk) : Program Unit) := by
  split
  · cases work <;> exact calls_orFail (calls_ask id)
  · trivial

/-- What `finish` erases may be erased as one of its snapshots says. -/
theorem finish_wipes {y : Except Capture.Stop Unit} (h : Runs (finish pool work) tr y)
    {e : Base.Event Call Reply} (he : e ∈ tr) (hw : Wipes e.1) :
    ∃ s disk identity, ⟨.snapshot, Except.ok s⟩ ∈ tr ∧ e.1 = .wipeMetadata disk ∧
      disk.identity = some identity ∧ Erasable s identity := by
  rcases runs_bind.mp h with ⟨tr1, tr2, u, rfl, hclose, h2⟩ | ⟨stop, hclose, -⟩
  · rcases List.mem_append.mp he with he1 | he2
    · exact absurd hw (calls_close.of_runs hclose e he1)
    have hlook : Calls (fun c => ¬ Wipes c) (orFail Host.snapshot) := calls_orFail (calls_ask id)
    rcases runs_bind.mp h2 with ⟨tr3, tr4, s, rfl, hs, h3⟩ | ⟨stop, hs, -⟩
    · rcases List.mem_append.mp he2 with he3 | he4
      · exact absurd hw (hlook.of_runs hs e he3)
      obtain ⟨answer, rfl, hanswer⟩ := runs_ask.mp (runs_orFail_ok hs)
      cases hanswer
      have hdone : ∀ {tr' y'}, Runs (release s (work.parts pool).2) tr' y' → e ∈ tr' →
          ∃ s' disk identity, ⟨.snapshot, Except.ok s'⟩ ∈
              tr1 ++ ([⟨.snapshot, Except.ok s⟩] ++ tr4) ∧
            e.1 = .wipeMetadata disk ∧ disk.identity = some identity ∧ Erasable s' identity := by
        intro tr' y' hrelease hin
        obtain ⟨disk, identity, heq, hidentity, herasable⟩ := release_wipes hrelease hin hw
        exact ⟨s, disk, identity, by simp, heq, hidentity, herasable⟩
      rcases runs_bind.mp h3 with ⟨tr5, tr6, kept, rfl, hrelease, hrest⟩ | ⟨stop, hrelease, -⟩
      · rcases List.mem_append.mp he4 with he5 | he6
        · exact hdone hrelease he5
        · exact absurd hw ((calls_end work kept).of_runs hrest e he6)
      · exact hdone hrelease he4
    · exact absurd hw (hlook.of_runs hs e he2)
  · exact absurd hw (calls_close.of_runs hclose e he)

/-! ## Disks that aren't in use -/

/-- The snapshot is of some tree of devices, and each of its disks has its row. -/
def Snapshot.Sound (s : Snapshot) (i : Inputs) (roots : List Node) : Prop :=
  s.Taken i roots ∧ ∀ disk ∈ s.disks, (s.row disk).isSome

theorem mem_of_diskWith {disk : InventoryDisk}
    (h : s.diskWith identity = some disk) : disk ∈ s.disks := by
  unfold Snapshot.diskWith at h
  split at h
  · rename_i one hone
    cases h
    have hmem : disk ∈ s.disks.filter (·.identity = some identity) := by
      rw [hone]
      exact List.mem_singleton_self disk
    exact (List.mem_filter.mp hmem).1
  · cases h

/-- What the operations of a host offer and erase. -/
structure Safe (s : Snapshot) (i : Inputs) (roots : List Node) : Prop where
  reasonless : ∀ row ∈ s.layout.allDisks, row.inUseReasons = [] → FreeDisk i roots row.disk
  removable : ∀ row ∈ s.layout.physicallyRemovableDisks, FreeDisk i roots row.disk
  candidates : ∀ c ∈ s.candidates, FreeDisk i roots c.row.disk ∧ c.disk.isDevice c.row.disk = true ∧
    c.disk.identity = some c.identity ∧ Unchosen s.journal c.identity

theorem safe_of_taken (h : s.Taken i roots) (hvalid : s.journal.validate = .ok ()) : Safe s i roots where
  reasonless _ hrow hnone := h.free hrow hnone
  removable _ hrow := by
    obtain ⟨hall, hnone⟩ := h.sections.1 hrow
    exact h.free hall hnone
  candidates c hc := by
    obtain ⟨hrow, hnone, hdisk, hidentity, hjournal⟩ := mem_candidates hc
    have hdevice : c.disk.isDevice c.row.disk = true :=
      List.find?_some (p := fun d : InventoryDisk => d.isDevice c.row.disk) hdisk
    exact ⟨h.free (h.sections.2 hrow) hnone, hdevice, hidentity, unchosen_of_journaled hvalid hjournal⟩

/-- No disk in use is offered, and none is erased by a run of `finish`: its identity is that of a disk
that one of the run's snapshots says isn't in use. -/
theorem disks_safe (h : s.Taken i roots) (hvalid : s.journal.validate = .ok ()) : Safe s i roots ∧
    ∀ pool work tr y, Runs (finish pool work) tr y →
      (∀ s', ⟨.snapshot, Except.ok s'⟩ ∈ tr → ∃ i' roots', s'.Sound i' roots') →
      ∀ disk answer, ⟨.wipeMetadata disk, answer⟩ ∈ tr →
        ∃ s' i' roots' identity listed row, ⟨.snapshot, Except.ok s'⟩ ∈ tr ∧ s'.Sound i' roots' ∧
          disk.identity = some identity ∧ s'.diskWith identity = some listed ∧
          s'.row listed = some row ∧ FreeDisk i' roots' row.disk := by
  refine ⟨safe_of_taken h hvalid, fun pool work tr y hrun hsound disk answer hmem => ?_⟩
  obtain ⟨s', disk', identity, hs', heq, hidentity, listed, hlisted, -, hnone⟩ :=
    finish_wipes hrun hmem trivial
  obtain rfl := Call.wipeMetadata.inj heq
  obtain ⟨i', roots', htaken, hrows⟩ := hsound s' hs'
  obtain ⟨row, hrow⟩ := Option.isSome_iff_exists.mp (hrows listed (mem_of_diskWith hlisted))
  rw [hrow] at hnone
  exact ⟨s', i', roots', identity, listed, row, hs', ⟨htaken, hrows⟩, hidentity, hlisted, hrow,
    htaken.free (List.mem_of_find?_eq_some hrow) hnone⟩

/-! ## A host with five disks -/

def diskNode (name serial : String) (children : List Node) : Node :=
  .mk { name := name, kname := name, kind := "disk", serial := serial } children

def partNode (name : String) (children : List Node) : Node := .mk { name := name, kname := name, kind := "part" } children

def md0 : Node := .mk { name := "md0", kname := "/dev/md0", kind := "raid1", mountpoints := [some "/srv"] } []

/-- One disk boots the host and has the pool, two share a mirror, one holds swap, and one is left over. -/
def hostTree : List Node :=
  [diskNode "/dev/sda" "S1"
      [.mk { name := "/dev/sda1", kname := "/dev/sda1", kind := "part", uuid := "5A3C-11F0" } [],
        partNode "/dev/sda2" []],
    diskNode "/dev/sdb" "S2" [partNode "/dev/sdb1" [md0]],
    diskNode "/dev/sdc" "S3" [partNode "/dev/sdc1" [md0]],
    diskNode "/dev/sdd" "S4" [.mk { name := "/dev/sdd1", kname := "/dev/sdd1", kind := "part", uuid := "6f0c" } []],
    diskNode "/dev/sde" "S5" [partNode "/dev/sde1" []]]

theorem host_lsblk : LsblkTree hostTree :=
  lsblkTree_of_sights rfl (by decide) (by decide) (by decide) (by decide)

def hostPool : PoolStatus :=
  ⟨"rpool", [], [⟨.data, [.mk "mirror-0" (some "ONLINE") [.mk "/dev/disk/by-id/ata-S1-part2" (some "ONLINE") []]]⟩]⟩

def hostInputs : Inputs where
  status := hostPool
  devices := match BlockDevices.parse hostTree with
    | .ok devices => devices
    | .error _ => []
  bootUuids := ["5A3C-11F0"]
  crypttab := "swap UUID=6f0c /dev/urandom swap"
  allPools := [hostPool]
  realpath path := if path = "/dev/disk/by-id/ata-S1-part2" then "/dev/sda2" else path
  upper := id

theorem host_parsed : BlockDevices.parse hostTree = .ok hostInputs.devices := by
  have hok : (BlockDevices.parse hostTree).isOk = true := by decide +kernel
  unfold hostInputs
  cases h : BlockDevices.parse hostTree with
  | ok devices => rfl
  | error e =>
    rw [h] at hok
    cases hok

theorem host_built : (build hostInputs 4).isSome = true := by decide +kernel

/-- Another disk, `S6`, was chosen to replace the one that is left over. -/
def hostReplacement : DiskIdentity × Journal.Replacement :=
  (.serial "S6", ⟨"/dev/sde1", some (.serial "S5"), none, "mirror-0", 0⟩)

def leftOver : InventoryDisk := ⟨"sde", "/dev/sde", some (.serial "S5"), 2 ^ 40, false, ["ata-S5"], []⟩

def hostSnapshot : Snapshot where
  layout := (build hostInputs 4).get host_built
  disks := [⟨"sda", "/dev/sda", some (.serial "S1"), 2 ^ 40, false, ["ata-S1"], []⟩,
    ⟨"sdb", "/dev/sdb", some (.serial "S2"), 2 ^ 40, false, ["ata-S2"], []⟩,
    ⟨"sdc", "/dev/sdc", some (.serial "S3"), 2 ^ 40, false, ["ata-S3"], []⟩,
    ⟨"sdd", "/dev/sdd", some (.serial "S4"), 2 ^ 40, false, ["ata-S4"], []⟩, leftOver]
  journal := { replacements := [hostReplacement] }

theorem hostSnapshot_taken : hostSnapshot.Taken hostInputs hostTree :=
  ⟨host_lsblk, host_parsed, 4, (Option.some_get host_built).symm⟩

theorem hostSnapshot_sound : hostSnapshot.Sound hostInputs hostTree :=
  ⟨hostSnapshot_taken, by decide +kernel⟩

def hostAnswer (_ : List (Base.Event Call Reply)) : (c : Call) → Reply c
  | .snapshot => .ok hostSnapshot
  | .mapped _ => false
  | .deleteHeader _ => ()
  | .disks => hostSnapshot.disks
  | .close _ | .unregister _ | .wipeMetadata _ | .setRemoval .. | .clearReplacement _ => .ok ()

def hostFinish : List (Base.Event Call Reply) × Except Capture.Stop Unit :=
  play hostAnswer (finish "rpool" (.replacement hostReplacement.1 hostReplacement.2)) []

theorem hostFinish_wipes : ∃ disk answer, ⟨.wipeMetadata disk, answer⟩ ∈ hostFinish.1 ∧ disk.path = "/dev/sde" := by
  have hany : hostFinish.1.any (fun e => match e.1 with
      | .wipeMetadata disk => disk.path = "/dev/sde"
      | _ => false) = true := by decide +kernel
  obtain ⟨⟨call, answer⟩, hmem, hcall⟩ := List.any_eq_true.mp hany
  cases call with
  | wipeMetadata disk => exact ⟨disk, answer, hmem, of_decide_eq_true hcall⟩
  | _ => cases hcall

/-- Only the disk that is left over is free, a candidate, and erased. -/
theorem disks_safe_host : (Safe hostSnapshot hostInputs hostTree ∧
    hostSnapshot.layout.allDisks.map (fun row => (row.disk, row.inUseReasons)) =
      [("/dev/sda", ["member of an imported ZFS pool", "registered Proxmox boot ESP"]),
        ("/dev/sdb", ["mounted filesystem or active swap", "active raid1 holder"]),
        ("/dev/sdc", ["mounted filesystem or active swap", "active raid1 holder"]),
        ("/dev/sdd", ["configured in /etc/crypttab"]), ("/dev/sde", [])] ∧
    hostSnapshot.candidates.map (·.identity) = [.serial "S5"]) ∧
    ∃ (disk : InventoryDisk) (s : Snapshot) (i : Inputs) (roots : List Node) (identity : DiskIdentity)
        (listed : InventoryDisk) (row : DiskRow), disk.path = "/dev/sde" ∧
      ⟨.snapshot, Except.ok s⟩ ∈ hostFinish.1 ∧ s.Sound i roots ∧ disk.identity = some identity ∧
        s.diskWith identity = some listed ∧ s.row listed = some row ∧ FreeDisk i roots row.disk := by
  obtain ⟨hsafe, hfinish⟩ := disks_safe hostSnapshot_taken rfl
  obtain ⟨disk, answer, hwipes, hpath⟩ := hostFinish_wipes
  have hsound : ∀ s', ⟨.snapshot, Except.ok s'⟩ ∈ hostFinish.1 → ∃ i' roots', s'.Sound i' roots' := by
    intro s' hs'
    obtain ⟨_, hanswer⟩ := play_answered hs'
    cases hanswer
    exact ⟨hostInputs, hostTree, hostSnapshot_sound⟩
  obtain ⟨s, i, roots, identity, listed, row, hall⟩ :=
    hfinish "rpool" _ _ _ (runs_play hostAnswer []) hsound disk answer hwipes
  exact ⟨⟨hsafe, by decide +kernel, by decide +kernel⟩, disk, s, i, roots, identity, listed, row, hpath, hall⟩

/-- A candidate may be the old disk of an open replacement. -/
theorem candidate_is_old : ¬ ∀ (s : Snapshot) (i : Inputs) (roots : List Node), s.Taken i roots →
    s.journal.validate = .ok () → ∀ c ∈ s.candidates, ∀ e ∈ s.journal.replacements,
      e.1 ≠ c.identity ∧ e.2.old ≠ some c.identity := by
  intro h
  have hidentities : hostSnapshot.candidates.map (·.identity) = [.serial "S5"] := by decide +kernel
  have hmem : DiskIdentity.serial "S5" ∈ hostSnapshot.candidates.map (·.identity) := by
    rw [hidentities]
    exact List.mem_singleton_self _
  obtain ⟨c, hc, hidentity⟩ := List.mem_map.mp hmem
  have hold := (h hostSnapshot hostInputs hostTree hostSnapshot_taken rfl c hc _
    (List.mem_singleton_self _)).2
  rw [hidentity] at hold
  exact hold rfl

end Bmac.Bmacd.DiskWork
