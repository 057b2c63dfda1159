import Bmac.Backup.Manifest
import Bmac.Base.Checks

/-!
# Planning a restore

`bmacd/src/backup/restore.rs` over `bmac-backup/src/restore.rs`: `preflight` places each volume of a PIT
in a storage with its block size, and `sizeUp` chooses how the volume comes, asks the appliance how much
that is, and checks that there is room. What the host and the appliance answer is in `Host`; the code
asks for the snapshots of a pool once.

Each dataset is checked by itself, as a `u64`, and datasets of one pool have the same room:
`sizeUp_fits_iff` says for which volumes the pools have room all the same.
-/

namespace Bmac.Bmacd.RestorePlan

open Bmac.Base Bmac.Core Bmac.Backup

/-- A Proxmox ZFS storage on this host. -/
structure Storage where
  id : String
  dataset : String
  block : Nat
  deriving DecidableEq

/-- The text before the first `/`. -/
def poolOf (dataset : String) : String := String.ofList (dataset.toList.takeWhile (· ≠ '/'))

def Storage.pool (storage : Storage) : String := poolOf storage.dataset

structure LocalSnapshot where
  /-- `dataset@name`. -/
  name : String
  guid : SnapshotGuid

def LocalSnapshot.pool (snapshot : LocalSnapshot) : String :=
  String.ofList (snapshot.name.toList.takeWhile fun c => c ≠ '/' ∧ c ≠ '@')

/-- An earlier PIT of the same VM, and the volume's GUID in it. -/
structure Base where
  pitUuid : Uuid
  takenS : Int
  guid : SnapshotGuid

/-- How one volume is brought to the PIT, cheapest first. -/
inductive Method where
  /-- A clone of the PIT's own snapshot. -/
  | «local» (snapshot : String)
  /-- The appliance's incremental from an older snapshot. -/
  | incremental (base : String) (baseGuid : SnapshotGuid) (basePit : Uuid)
  | full
  deriving DecidableEq

def Method.fromAppliance : Method → Bool
  | «local» _ => false
  | incremental .. | full => true

/-- `Reverse((taken_s, pit_uuid))`. -/
def newerFirst (a b : Base) : Prop :=
  b.takenS < a.takenS ∨ b.takenS = a.takenS ∧ b.pitUuid ≤ a.pitUuid

instance : DecidableRel newerFirst := fun _ _ => by
  unfold newerFirst
  infer_instance

/-- The cheapest method for `volume`, restored into `pool`. -/
def choose (volume : Volume) (pool : String) (snapshots : List LocalSnapshot) (bases : List Base) :
    Method :=
  let here := snapshots.filter (·.pool = pool)
  match here.find? (·.guid = volume.snapshotGuid) with
  | some snapshot => .local snapshot.name
  | none =>
    let found := (bases.insertionSort newerFirst).findSome? fun base =>
      (here.find? (·.guid = base.guid)).map fun snapshot =>
        Method.incremental snapshot.name base.guid base.pitUuid
    found.getD .full

structure PeerVolume where
  volumeUuid : Uuid
  guid : SnapshotGuid

structure PeerPit where
  pitUuid : Uuid
  parent : Option Uuid

structure GrantedBase where
  pitUuid : Uuid
  parent : Option Uuid
  takenS : Int
  volumes : List PeerVolume

/-- What a restore grant lets the cluster read. -/
structure GrantedIndex where
  bases : List GrantedBase

theorem length_unseen_lt {bases : List GrantedBase} {seen : List Uuid} {base : GrantedBase}
    (hbase : base ∈ bases) (hseen : base.pitUuid ∉ seen) :
    (bases.filter fun b => b.pitUuid ∉ base.pitUuid :: seen).length <
      (bases.filter fun b => b.pitUuid ∉ seen).length := by
  have hfilter : (bases.filter fun b => b.pitUuid ∉ base.pitUuid :: seen) =
      (bases.filter fun b => b.pitUuid ∉ seen).filter (·.pitUuid ≠ base.pitUuid) := by
    rw [List.filter_filter]
    refine List.filter_congr fun b _ => ?_
    simp
  rw [hfilter, List.length_filter_lt_length_iff_exists]
  exact ⟨base, List.mem_filter.mpr ⟨hbase, by simpa using hseen⟩, by simp⟩

/-- The bases from `next` on, up the parents, until one was `seen`. -/
def basesFrom (bases : List GrantedBase) (volumeUuid : Uuid) (seen : List Uuid) (next : Option Uuid) :
    List Base :=
  match next with
  | none => []
  | some id =>
    if id ∈ seen then []
    else match _found : bases.find? (·.pitUuid = id) with
    | none => []
    | some base =>
      ((base.volumes.find? (·.volumeUuid = volumeUuid)).map fun v =>
        Base.mk base.pitUuid base.takenS v.guid).toList ++
        basesFrom bases volumeUuid (id :: seen) base.parent
termination_by (bases.filter fun b => b.pitUuid ∉ seen).length
decreasing_by
  rename_i hseen
  obtain rfl : base.pitUuid = id := by simpa using List.find?_some _found
  exact length_unseen_lt (List.mem_of_find?_eq_some _found) hseen

/-- The PIT's ancestors among the appliance's earlier PITs, with the volume's GUID in each. -/
def basesFor (index : GrantedIndex) (pit : PeerPit) (volumeUuid : Uuid) : List Base :=
  basesFrom index.bases volumeUuid [] pit.parent

structure ExportRequest where
  clusterUuid : String
  pitUuid : Uuid
  volumeUuid : Uuid
  fromGuid : Option SnapshotGuid
  resumeToken : Option String
  estimate : Bool
  grant : Option String

/-- What the host and the appliance answer. -/
structure Host where
  thisHost : String
  storages : Except String (List Storage)
  /-- Every snapshot in a pool. -/
  snapshots : String → Except String (List LocalSnapshot)
  /-- Bytes free for new data under a dataset. -/
  available : String → Except String Nat
  bridges : Except String (List String)
  /-- The size of an export. -/
  estimate : ExportRequest → Except String Nat
  /-- `Uuid::from_str`. -/
  parseUuid : String → Option Uuid
  humanBytes : Nat → String

structure Plan where
  clusterUuid : String
  grant : String
  pit : PeerPit
  manifest : Manifest

/-- A volume's part in the plan. -/
structure Planned where
  volume : Volume
  storage : Storage
  method : Method
  /-- What the appliance sends; 0 for a clone. -/
  bytes : Nat

section

variable (host : Host) (plan : Plan) (index : GrantedIndex)

def notUuid : String := "the manifest's volume ID isn't a UUID"

def request (planned : Planned) : Except String ExportRequest := do
  let volumeUuid ← ofOption (host.parseUuid planned.volume.volumeUuid) notUuid
  return {
    clusterUuid := plan.clusterUuid
    pitUuid := plan.pit.pitUuid
    volumeUuid
    fromGuid := match planned.method with
      | .incremental _ baseGuid _ => some baseGuid
      | _ => none
    resumeToken := none
    estimate := false
    grant := some plan.grant }

/-- A volume with its method, its size still unknown. -/
def withMethod (placed : Volume × Storage) : Except String Planned := do
  let (volume, storage) := placed
  let snapshots ← host.snapshots storage.pool
  let volumeUuid ← ofOption (host.parseUuid volume.volumeUuid) notUuid
  return ⟨volume, storage, choose volume storage.pool snapshots (basesFor index plan.pit volumeUuid), 0⟩

def withBytes (planned : Planned) : Except String Planned := do
  if planned.method.fromAppliance then
    let bytes ← host.estimate (← request host plan planned)
    return { planned with bytes }
  else return planned

def measured (placed : List (Volume × Storage)) : Except String (List Planned) := do
  let out ← placed.mapM (withMethod host plan index)
  out.mapM (withBytes host plan)

/-- What is written under each dataset; the sums wrap. -/
def needed (out : List Planned) : Dict Nat :=
  out.foldl (fun d p =>
    d.insert p.storage.dataset (((d.get? p.storage.dataset).getD 0 + p.bytes) % 2 ^ 64)) []

def checkSpace (out : List Planned) : Except String Unit :=
  (needed out).forM fun (dataset, bytes) => do
    let free ← host.available dataset
    if free < bytes then
      throw s!"{dataset} has {host.humanBytes free} free, and the restore writes {host.humanBytes bytes}"

/-- Each volume's method in the storage chosen for it, the stream sizes, and a check that the storages
have the space. -/
def sizeUp (placed : List (Volume × Storage)) : Except String (List Planned) := do
  let out ← measured host plan index placed
  checkSpace host out
  return out

def bridgeOf (value : String) : Option String :=
  (Text.split ',' value).findSome? (Text.stripStart "bridge=")

def preflight : Except String (List Planned) := do
  let storages ← host.storages
  let found := plan.manifest.volumes.map fun volume =>
    (volume, storages.find? (·.block = volume.volblocksize))
  let unplaced := found.filterMap fun (volume, storage) =>
    if storage.isNone then
      some (s!"{volume.slot}: {host.thisHost} has no ZFS storage with " ++
        s!"{host.humanBytes volume.volblocksize} blocks, and a zvol's block size can't change")
    else none
  let bridges ← host.bridges
  let unbridged := plan.manifest.config.filterMap fun (key, value) =>
    match bridgeOf value with
    | some bridge =>
      if (Text.stripStart "net" key).isSome ∧ !bridges.contains bridge then
        some s!"{key}: {host.thisHost} has no bridge {bridge}"
      else none
    | none => none
  let problems := unplaced ++ unbridged
  if problems ≠ [] then
    throw (s!"{host.thisHost} can't take this restore: " ++ Text.join "; " problems)
  sizeUp host plan index (found.filterMap fun (volume, storage) => storage.map (volume, ·))

end

/-! ## The room in the pools -/

def writtenTo (out : List Planned) (dataset : String) : Nat :=
  ((out.filter (·.storage.dataset = dataset)).map (·.bytes)).sum

/-- What is written in a pool, whatever storages of it are used. -/
def written (out : List Planned) (pool : String) : Nat :=
  ((out.filter (·.storage.pool = pool)).map (·.bytes)).sum

def Shares (host : Host) (free : String → Nat) : Prop :=
  ∀ dataset n, host.available dataset = .ok n → n = free (poolOf dataset)

/-- The pool has room for what is written in it. -/
def Fits (free : String → Nat) (out : List Planned) (pool : String) : Prop :=
  written out pool ≤ free pool ∧ written out pool < 2 ^ 64

/-- Everything that the appliance sends into the pool goes to one dataset, and a `u64` counts it. -/
def Alone (out : List Planned) (pool : String) : Prop :=
  (∀ p ∈ out, ∀ q ∈ out, p.storage.pool = pool → q.storage.pool = pool → p.bytes ≠ 0 → q.bytes ≠ 0 →
    p.storage.dataset = q.storage.dataset) ∧ written out pool < 2 ^ 64

/-- The free bytes are known and enough for each dataset by itself, as a `u64`, and in some pool not for
all of them. -/
def Between (host : Host) (free : String → Nat) (out : List Planned) : Prop :=
  (∀ p ∈ out, (host.available p.storage.dataset).isOk = true ∧
    writtenTo out p.storage.dataset % 2 ^ 64 ≤ free p.storage.pool) ∧
    ∃ pool, free pool < written out pool ∨ 2 ^ 64 ≤ written out pool

def Host.withFree (host : Host) (free : String → Nat) : Host :=
  { host with available := fun dataset => .ok (free (poolOf dataset)) }

variable {host : Host} {plan : Plan} {index : GrantedIndex} {out : List Planned} {free : String → Nat}
  {placed : List (Volume × Storage)} {pool dataset : String}

theorem writtenTo_cons (p : Planned) (out : List Planned) (dataset : String) :
    writtenTo (p :: out) dataset =
      (if p.storage.dataset = dataset then p.bytes else 0) + writtenTo out dataset := by
  unfold writtenTo
  by_cases hp : p.storage.dataset = dataset
  · simp [hp]
  · simp [hp]

theorem writtenTo_eq_zero (h : dataset ∉ out.map (·.storage.dataset)) : writtenTo out dataset = 0 := by
  have hnil : out.filter (·.storage.dataset = dataset) = [] := by
    refine List.filter_eq_nil_iff.mpr fun p hp hsame => h ?_
    exact List.mem_map.mpr ⟨p, hp, by simpa using hsame⟩
  rw [writtenTo, hnil]
  rfl

theorem get?_foldl_needed (out : List Planned) (d : Dict Nat) (dataset : String) :
    (out.foldl (fun d p =>
        d.insert p.storage.dataset (((d.get? p.storage.dataset).getD 0 + p.bytes) % 2 ^ 64)) d).get?
          dataset =
      if dataset ∈ out.map (·.storage.dataset) then
        some (((d.get? dataset).getD 0 + writtenTo out dataset) % 2 ^ 64)
      else d.get? dataset := by
  induction out generalizing d with
  | nil => simp
  | cons p out ih =>
    rw [List.foldl_cons, ih, writtenTo_cons]
    by_cases hp : p.storage.dataset = dataset
    · subst hp
      rw [Dict.get?_insert]
      by_cases hmem : p.storage.dataset ∈ out.map (·.storage.dataset)
      · simp [hmem, Nat.add_assoc]
      · simp [hmem, writtenTo_eq_zero hmem]
    · rw [Dict.get?_insert_of_ne _ _ (Ne.symm hp)]
      simp [hp, Ne.symm hp]

theorem get?_needed : (needed out).get? dataset =
    if dataset ∈ out.map (·.storage.dataset) then some (writtenTo out dataset % 2 ^ 64) else none := by
  rw [needed, get?_foldl_needed]
  simp [Dict.get?]

theorem sorted_needed : (needed out).Sorted := by
  unfold needed
  refine List.foldlRecOn out _ List.Pairwise.nil fun d hd p _ => hd.insert _ _

theorem checkSpace_eq_ok : checkSpace host out = .ok () ↔ ∀ p ∈ out, ∃ free,
    host.available p.storage.dataset = .ok free ∧
      writtenTo out p.storage.dataset % 2 ^ 64 ≤ free := by
  rw [checkSpace, forM_eq_ok_iff]
  constructor
  · intro h p hp
    have hget := @get?_needed out p.storage.dataset
    rw [if_pos (List.mem_map.mpr ⟨p, hp, rfl⟩)] at hget
    obtain ⟨free, hfree, hcheck⟩ := bind_eq_ok.mp (h _ (Dict.mem_of_get? hget))
    obtain ⟨hroom, -⟩ := last_check_eq_ok.mp hcheck
    exact ⟨free, hfree, by omega⟩
  · rintro h ⟨dataset, bytes⟩ hmem
    have hget := Dict.get?_of_mem sorted_needed hmem
    rw [get?_needed] at hget
    split at hget
    · rename_i hds
      obtain ⟨p, hp, rfl⟩ := List.mem_map.mp hds
      cases hget
      obtain ⟨free, hfree, hroom⟩ := h p hp
      exact bind_eq_ok.mpr ⟨free, hfree, last_check_eq_ok.mpr ⟨by omega, rfl⟩⟩
    · cases hget

theorem sizeUp_eq_ok : sizeUp host plan index placed = .ok out ↔
    measured host plan index placed = .ok out ∧ checkSpace host out = .ok () := by
  simp only [sizeUp, bind_eq_ok, pure_eq_ok]
  constructor
  · rintro ⟨_, hout, _, hcheck, rfl⟩
    exact ⟨hout, hcheck⟩
  · rintro ⟨hout, hcheck⟩
    exact ⟨out, hout, (), hcheck, rfl⟩

theorem written_cons (p : Planned) (out : List Planned) (pool : String) :
    written (p :: out) pool = (if p.storage.pool = pool then p.bytes else 0) + written out pool := by
  unfold written
  by_cases hp : p.storage.pool = pool
  · simp [hp]
  · simp [hp]

/-- Where the other datasets of its pool get nothing, a dataset is written what the pool is. -/
theorem written_eq (h : ∀ q ∈ out, q.storage.pool = poolOf dataset → q.bytes ≠ 0 →
    q.storage.dataset = dataset) : written out (poolOf dataset) = writtenTo out dataset := by
  induction out with
  | nil => rfl
  | cons p out ih =>
    rw [written_cons, writtenTo_cons, ih fun q hq => h q (List.mem_cons_of_mem _ hq)]
    congr 1
    by_cases hsame : p.storage.dataset = dataset
    · rw [if_pos hsame, if_pos (by rw [Storage.pool, hsame])]
    · rw [if_neg hsame]
      split
      · rename_i hpool
        by_contra hbytes
        exact hsame (h p (List.mem_cons_self ..) hpool hbytes)
      · rfl

theorem writtenTo_add_le {q : Planned} (hq : q ∈ out) (hpool : q.storage.pool = poolOf dataset)
    (hne : q.storage.dataset ≠ dataset) : writtenTo out dataset + q.bytes ≤ written out (poolOf dataset) := by
  have hle : ∀ out : List Planned, writtenTo out dataset ≤ written out (poolOf dataset) := by
    intro out
    induction out with
    | nil => exact Nat.le_refl _
    | cons p out ih =>
      rw [written_cons, writtenTo_cons]
      by_cases hsame : p.storage.dataset = dataset
      · rw [if_pos hsame, if_pos (by rw [Storage.pool, hsame])]
        omega
      · rw [if_neg hsame]
        omega
  induction out with
  | nil => exact absurd hq List.not_mem_nil
  | cons p out ih =>
    rw [written_cons, writtenTo_cons]
    rcases List.mem_cons.mp hq with rfl | hq
    · rw [if_neg hne, if_pos hpool]
      have hrest := hle out
      omega
    · have hrest := ih hq
      by_cases hsame : p.storage.dataset = dataset
      · rw [if_pos hsame, if_pos (by rw [Storage.pool, hsame])]
        omega
      · rw [if_neg hsame]
        omega

theorem fits_of_alone (hshares : Shares host free) (h : checkSpace host out = .ok ())
    (halone : Alone out pool) : Fits free out pool := by
  refine ⟨?_, halone.2⟩
  by_cases hsent : ∃ p ∈ out, p.storage.pool = pool ∧ p.bytes ≠ 0
  · obtain ⟨p, hp, rfl, hbytes⟩ := hsent
    have hwritten : written out p.storage.pool = writtenTo out p.storage.dataset :=
      written_eq fun q hq hpool hbytes' => halone.1 q hq p hp hpool rfl hbytes' hbytes
    obtain ⟨n, hn, hroom⟩ := checkSpace_eq_ok.mp h p hp
    have hfree : n = free p.storage.pool := hshares _ _ hn
    rwa [← hwritten, Nat.mod_eq_of_lt halone.2, hfree] at hroom
  · have hzero : written out pool = 0 := by
      refine List.sum_eq_zero fun n hn => ?_
      obtain ⟨p, hp, rfl⟩ := List.mem_map.mp hn
      obtain ⟨hmem, hpool⟩ := List.mem_filter.mp hp
      by_contra hbytes
      exact hsent ⟨p, hmem, by simpa using hpool, hbytes⟩
    rw [hzero]
    exact Nat.zero_le _

theorem shares_withFree (host : Host) (free : String → Nat) : Shares (host.withFree free) free :=
  fun _ _ hn => (Except.ok.inj hn).symm

theorem checkSpace_shares (hshares : Shares host free) : checkSpace host out = .ok () ↔
    ∀ p ∈ out, (host.available p.storage.dataset).isOk = true ∧
      writtenTo out p.storage.dataset % 2 ^ 64 ≤ free p.storage.pool := by
  rw [checkSpace_eq_ok]
  refine forall₂_congr fun p _ => ?_
  constructor
  · rintro ⟨n, hn, hroom⟩
    rw [hshares _ _ hn] at hroom
    exact ⟨by rw [hn]; rfl, hroom⟩
  · rintro ⟨hanswered, hroom⟩
    cases hn : host.available p.storage.dataset with
    | error e => rw [hn] at hanswered; cases hanswered
    | ok n => exact ⟨n, rfl, by rwa [hshares _ _ hn]⟩

theorem checkSpace_withFree : checkSpace (host.withFree free) out = .ok () ↔
    ∀ p ∈ out, writtenTo out p.storage.dataset % 2 ^ 64 ≤ free p.storage.pool := by
  rw [checkSpace_shares (shares_withFree host free)]
  exact forall₂_congr fun p _ => and_iff_right rfl

theorem exists_overfull (h : ¬ Alone out pool) : ∃ free : String → Nat, (∀ pool, free pool < 2 ^ 64) ∧
    checkSpace (host.withFree free) out = .ok () ∧ ¬ Fits free out pool := by
  have hwrapped : ∀ n : Nat, n % 2 ^ 64 ≤ 2 ^ 64 - 1 := fun n => by omega
  by_cases hbound : written out pool < 2 ^ 64
  · obtain ⟨p, hp, q, hq, hpPool, hqPool, hpBytes, hqBytes, hne⟩ : ∃ p ∈ out, ∃ q ∈ out,
        p.storage.pool = pool ∧ q.storage.pool = pool ∧ p.bytes ≠ 0 ∧ q.bytes ≠ 0 ∧
          p.storage.dataset ≠ q.storage.dataset := by
      by_contra hnone
      push Not at hnone
      exact h ⟨hnone, hbound⟩
    -- whichever dataset it is, one of the two is another
    have hless : ∀ dataset, poolOf dataset = pool → writtenTo out dataset < written out pool := by
      intro dataset hdataset
      by_cases hsame : p.storage.dataset = dataset
      · have hle := writtenTo_add_le hq (hqPool.trans hdataset.symm) (hsame ▸ hne.symm)
        rw [hdataset] at hle
        omega
      · have hle := writtenTo_add_le hp (hpPool.trans hdataset.symm) hsame
        rw [hdataset] at hle
        omega
    refine ⟨fun other => if other = pool then written out pool - 1 else 2 ^ 64 - 1, fun other => ?_,
      checkSpace_withFree.mpr fun r _ => ?_, fun hfits => ?_⟩
    · dsimp only
      split <;> omega
    · split
      · rename_i hr
        have hsum := hless _ hr
        have hmod := Nat.mod_le (writtenTo out r.storage.dataset) (2 ^ 64)
        omega
      · exact hwrapped _
    · have hroom := hfits.1
      dsimp only at hroom
      rw [if_pos rfl] at hroom
      have hsum := hless _ hpPool
      omega
  · exact ⟨fun _ => 2 ^ 64 - 1, fun _ => by norm_num, checkSpace_withFree.mpr fun r _ => hwrapped _,
      fun hfits => hbound hfits.2⟩

theorem measured_withFree : measured (host.withFree free) plan index placed = measured host plan index placed :=
  rfl

/-- Whatever is free, the plans that are accepted fit their pools if and only if everything sent into a
pool goes to one dataset, with a number of bytes that a `u64` counts. With what is free, unless that is
enough for each dataset by itself and not for all of a pool. -/
theorem sizeUp_fits_iff (hout : measured host plan index placed = .ok out) :
    ((∀ free : String → Nat, (∀ pool, free pool < 2 ^ 64) →
        sizeUp (host.withFree free) plan index placed = .ok out → ∀ pool, Fits free out pool) ↔
      ∀ pool, Alone out pool) ∧
    ∀ free : String → Nat, Shares host free →
      ((sizeUp host plan index placed = .ok out → ∀ pool, Fits free out pool) ↔
        ¬ Between host free out) := by
  have hsize : ∀ free, sizeUp (host.withFree free) plan index placed = .ok out ↔
      checkSpace (host.withFree free) out = .ok () := fun free => by
    rw [sizeUp_eq_ok, measured_withFree, and_iff_right hout]
  refine ⟨⟨fun h pool => ?_, fun h free _ hok pool => ?_⟩, fun free hshares => ?_⟩
  · by_contra halone
    obtain ⟨free, hfree, hcheck, hoverfull⟩ := @exists_overfull host _ _ halone
    exact hoverfull (h free hfree ((hsize free).mpr hcheck) pool)
  · exact fits_of_alone (shares_withFree host free) ((hsize free).mp hok) (h pool)
  · rw [sizeUp_eq_ok, and_iff_right hout, checkSpace_shares hshares, Between, not_and_or, not_exists,
      imp_iff_not_or]
    refine or_congr_right (forall_congr' fun pool => ?_)
    unfold Fits
    omega

/-! ## A VM with two disks of different block sizes -/

def gib : Nat := 2 ^ 30

def diskOf (slot : String) (id : Uuid) (guid : SnapshotGuid) (volblocksize : Nat) : Volume :=
  ⟨id.text, slot, .disk, s!"rpool/data/vm-100-{slot}", guid, 64 * gib, volblocksize, false⟩

/-- Two storages of `rpool`, which has 100 GiB free; the appliance sends `size` bytes for each disk that
`rpool` has no snapshot of. -/
def twoStorages (size : Nat) (snapshots : List LocalSnapshot) : Host where
  thisHost := "mox1"
  storages := .ok [⟨"local-zfs", "rpool/data", 16384⟩, ⟨"bmac-zfs-64k", "rpool/data-64k", 65536⟩]
  snapshots _ := .ok snapshots
  available _ := .ok (100 * gib)
  bridges := .ok []
  estimate _ := .ok size
  parseUuid text := if text = (0xd0 : Uuid).text then some 0xd0 else some 0xd1
  humanBytes := toString

def twoDisks : Plan where
  clusterUuid := "cluster"
  grant := "grant"
  pit := ⟨3, none⟩
  manifest :=
    { schemaVersion := 1, clusterUuid := "cluster", vmUuid := "vm", vmid := 100, pitUuid := "pit"
      branchUuid := "branch", parentPitUuid := none, snapshot := ⟨"bmac-pit", 0⟩, takenAtS := 0
      consistency := .crash, evidence := .null, multiPool := false, versions := ⟨"9", "2", "3"⟩
      configText := "", config := [], configSha256 := "", firmware := ⟨"ovmf", none, false⟩
      volumes := [diskOf "scsi0" 0xd0 16 16384, diskOf "scsi1" 0xd1 17 65536]
      registry := .null, prerequisites := [], sha256 := "" }

def twoPlaced : List (Volume × Storage) :=
  [(diskOf "scsi0" 0xd0 16 16384, ⟨"local-zfs", "rpool/data", 16384⟩),
    (diskOf "scsi1" 0xd1 17 65536, ⟨"bmac-zfs-64k", "rpool/data-64k", 65536⟩)]

/-- `scsi0` with `first` and its bytes, and all of `scsi1`. -/
def twoPlanned (first : Method) (bytes bytes' : Nat) : List Planned :=
  [⟨diskOf "scsi0" 0xd0 16 16384, ⟨"local-zfs", "rpool/data", 16384⟩, first, bytes⟩,
    ⟨diskOf "scsi1" 0xd1 17 65536, ⟨"bmac-zfs-64k", "rpool/data-64k", 65536⟩, .full, bytes'⟩]

/-- `rpool` has the PIT's snapshot of `scsi0`. -/
def scsi0Snapshot : LocalSnapshot := ⟨"rpool/data/vm-100-scsi0@bmac-pit", 16⟩

theorem basesFrom_none (bases : List GrantedBase) (volumeUuid : Uuid) (seen : List Uuid) :
    basesFrom bases volumeUuid seen none = [] := by
  rw [basesFrom]

theorem bases_twoDisks (volumeUuid : Uuid) : basesFor ⟨[]⟩ twoDisks.pit volumeUuid = [] := by
  rw [basesFor, show twoDisks.pit.parent = none from rfl, basesFrom_none]

/-- `scsi0` and `scsi1` are each sent. -/
theorem measured_sent (size : Nat) : measured (twoStorages size []) twoDisks ⟨[]⟩ twoPlaced =
    .ok (twoPlanned .full size size) := by
  have hmethod : twoPlaced.mapM (withMethod (twoStorages size []) twoDisks ⟨[]⟩) =
      .ok (twoPlanned .full 0 0) := by
    refine mapM_eq_ok_iff.mpr (.cons ?_ (.cons ?_ .nil))
    · show Except.ok _ = Except.ok _
      rw [bases_twoDisks]
      rfl
    · show Except.ok _ = Except.ok _
      rw [bases_twoDisks]
      rfl
  have hbytes : (twoPlanned .full 0 0).mapM (withBytes (twoStorages size []) twoDisks) =
      .ok (twoPlanned .full size size) :=
    mapM_eq_ok_iff.mpr (.cons rfl (.cons rfl .nil))
  rw [measured, hmethod, ok_bind, hbytes]

/-- `scsi0` is cloned, and `scsi1` is sent. -/
theorem measured_cloned (size : Nat) :
    measured (twoStorages size [scsi0Snapshot]) twoDisks ⟨[]⟩ twoPlaced =
      .ok (twoPlanned (.local scsi0Snapshot.name) 0 size) := by
  have hmethod : twoPlaced.mapM (withMethod (twoStorages size [scsi0Snapshot]) twoDisks ⟨[]⟩) =
      .ok (twoPlanned (.local scsi0Snapshot.name) 0 0) := by
    refine mapM_eq_ok_iff.mpr (.cons ?_ (.cons ?_ .nil))
    · show Except.ok _ = Except.ok _
      rw [bases_twoDisks]
      rfl
    · show Except.ok _ = Except.ok _
      rw [bases_twoDisks]
      rfl
  have hbytes : (twoPlanned (.local scsi0Snapshot.name) 0 0).mapM
      (withBytes (twoStorages size [scsi0Snapshot]) twoDisks) =
      .ok (twoPlanned (.local scsi0Snapshot.name) 0 size) :=
    mapM_eq_ok_iff.mpr (.cons rfl (.cons rfl .nil))
  rw [measured, hmethod, ok_bind, hbytes]

theorem shares_twoStorages (size : Nat) (snapshots : List LocalSnapshot) :
    Shares (twoStorages size snapshots) fun _ => 100 * gib := by
  intro dataset n hn
  exact (Except.ok.inj hn).symm

theorem written_twoPlanned (first : Method) (bytes bytes' : Nat) (pool : String) :
    written (twoPlanned first bytes bytes') pool = if pool = "rpool" then bytes + bytes' else 0 := by
  have hdata : (⟨"local-zfs", "rpool/data", 16384⟩ : Storage).pool = "rpool" := by decide
  have hdata64 : (⟨"bmac-zfs-64k", "rpool/data-64k", 65536⟩ : Storage).pool = "rpool" := by decide
  rw [twoPlanned, written_cons, written_cons, hdata, hdata64]
  by_cases hpool : pool = "rpool"
  · simp [hpool, written]
  · simp [hpool, Ne.symm hpool, written]

/-- Nothing but `scsi1` is sent into `rpool`. -/
theorem alone_cloned (pool : String) :
    Alone (twoPlanned (.local scsi0Snapshot.name) 0 (90 * gib)) pool := by
  refine ⟨fun p hp q hq _ _ hpBytes hqBytes => ?_, ?_⟩
  · have hsecond : ∀ r ∈ twoPlanned (.local scsi0Snapshot.name) 0 (90 * gib), r.bytes ≠ 0 →
        r.storage.dataset = "rpool/data-64k" := by
      intro r hr hbytes
      rcases List.mem_cons.mp hr with rfl | hr
      · exact absurd rfl hbytes
      · rw [List.mem_singleton.mp hr]
    rw [hsecond p hp hpBytes, hsecond q hq hqBytes]
  · rw [written_twoPlanned, gib]
    split <;> omega

/-- With `scsi0` cloned, `scsi1` has its 90 GiB; and both fit with 40 GiB each. -/
theorem sizeUp_fits_two :
    Fits (fun _ => 100 * gib) (twoPlanned (.local scsi0Snapshot.name) 0 (90 * gib)) "rpool" ∧
    Fits (fun _ => 100 * gib) (twoPlanned .full (40 * gib) (40 * gib)) "rpool" := by
  constructor
  · refine (sizeUp_fits_iff (measured_cloned (90 * gib))).1.mpr alone_cloned (fun _ => 100 * gib)
      (fun _ => by decide) (sizeUp_eq_ok.mpr ⟨measured_cloned _, ?_⟩) "rpool"
    exact checkSpace_withFree.mpr (by decide)
  · refine ((sizeUp_fits_iff (measured_sent (40 * gib))).2 _ (shares_twoStorages _ _)).mpr ?_
      (sizeUp_eq_ok.mpr ⟨measured_sent _, (checkSpace_shares (shares_twoStorages _ _)).mpr ?_⟩) "rpool"
    · rintro ⟨-, pool, hroom⟩
      rw [written_twoPlanned, gib] at hroom
      dsimp only at hroom
      split at hroom <;> omega
    · exact fun p hp => ⟨rfl, (by decide : ∀ p ∈ twoPlanned .full (40 * gib) (40 * gib),
        writtenTo (twoPlanned .full (40 * gib) (40 * gib)) p.storage.dataset % 2 ^ 64 ≤ 100 * gib) p hp⟩

/-- Each dataset has room for its 60 GiB, and the pool doesn't for both. -/
theorem sizeUp_overfull : ∃ (host : Host) (free : String → Nat) (plan : Plan) (out : List Planned),
    Shares host free ∧ preflight host plan ⟨[]⟩ = .ok out ∧ ¬ Fits free out "rpool" := by
  refine ⟨twoStorages (60 * gib) [], fun _ => 100 * gib, twoDisks, twoPlanned .full (60 * gib) (60 * gib),
    shares_twoStorages _ _, ?_, ?_⟩
  · exact sizeUp_eq_ok.mpr ⟨measured_sent _, (checkSpace_shares (shares_twoStorages _ _)).mpr fun p hp =>
      ⟨rfl, (by decide : ∀ p ∈ twoPlanned .full (60 * gib) (60 * gib),
        writtenTo (twoPlanned .full (60 * gib) (60 * gib)) p.storage.dataset % 2 ^ 64 ≤ 100 * gib) p hp⟩⟩
  · rw [Fits, written_twoPlanned, if_pos rfl, gib]
    omega

end Bmac.Bmacd.RestorePlan
