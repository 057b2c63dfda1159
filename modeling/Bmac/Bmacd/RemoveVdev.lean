import Bmac.Adapters.Layout
import Bmac.Base.Checks
import Bmac.Bmacd.Operations
import Bmac.Storage.Journal

/-!
# Removing a vdev

`bmacd/src/native/disks/remove.rs`: which vdevs may leave the pool (`removable`), and whether the rest of
the pool has room for what a vdev holds (`fits`). The amount to keep free is what the operator entered,
in GiB, as a `u64` of bytes. `fits` compares with what the whole pool has available, so the room on the
removed vdev itself counts, and a vdev whose size isn't recorded counts as empty; `fits_keeps_iff` says
of which vdevs and amounts its answer is right all the same.
-/

namespace Bmac.Bmacd.RemoveVdev

open Bmac.Base Bmac.Core
open Bmac.Adapters hiding VdevClass
open Bmac.Storage (VdevClass VdevType)

/-- v2 `MIN_FREE_FLOOR_GIB`. -/
def minFreeFloorGib : Nat := 50

def gibBytes : Nat := 2 ^ 30

/-- `gib * GIB`, which wraps. -/
def minFree (gib : Nat) : Nat := gib * gibBytes % 2 ^ 64

/-- A data vdev of the layout. -/
structure DataVdev where
  name : String
  kind : String
  state : Option String
  removing : Bool
  replacing : Bool
  allocated : Option Nat
  free : Option Nat
  /-- A member's disk holds a registered ESP. -/
  holdsEsp : Bool
  members : List Member

/-- A log, cache, spare, special, or dedup vdev of the layout. -/
structure AuxiliaryVdev where
  name : String
  kind : String
  state : Option String
  removing : Bool
  replacing : Bool
  members : List Member

/-- The pool at one moment. -/
structure Snapshot where
  /-- What new data and a vdev removal can use. -/
  datasetAvailable : Option Nat
  vdevs : List DataVdev
  auxiliaryVdevs : Dict (List AuxiliaryVdev)

/-- A top-level vdev of any class. -/
structure Top where
  name : String
  «class» : VdevClass
  /-- `none` for types BMAC doesn't build, such as dRAID. -/
  kind : Option VdevType
  state : Option String
  removing : Bool
  replacing : Bool
  holdsEsp : Bool
  allocated : Option Nat
  members : List Member

def kindOf (text : String) : Option VdevType :=
  if text = "disk" then some .single
  else if text = "mirror" then some .mirror
  else if text = "raidz1" ∨ text = "raidz" then some .raidz1
  else if text = "raidz2" then some .raidz2
  else if text = "raidz3" then some .raidz3
  else none

def classOf («section» : String) : Option VdevClass :=
  if «section» = "special" then some .special
  else if «section» = "logs" then some .log
  else if «section» = "cache" then some .cache
  else if «section» = "spares" then some .spare
  else none

def isRaidz : VdevType → Bool
  | .raidz1 | .raidz2 | .raidz3 => true
  | .single | .mirror => false

def online (member : Member) : Bool := member.state = some "ONLINE"

def DataVdev.top (v : DataVdev) : Top :=
  ⟨v.name, .data, kindOf v.kind, v.state, v.removing, v.replacing, v.holdsEsp, v.allocated, v.members⟩

def AuxiliaryVdev.top («class» : VdevClass) (v : AuxiliaryVdev) : Top :=
  ⟨v.name, «class», kindOf v.kind, v.state, v.removing, v.replacing, false, none, v.members⟩

def Snapshot.tops (s : Snapshot) : List Top :=
  s.vdevs.map (·.top) ++ s.auxiliaryVdevs.flatMap fun e =>
    match classOf e.1 with
    | some «class» => e.2.map (·.top «class»)
    | none => []

def Snapshot.top (s : Snapshot) (name : String) : Option Top := s.tops.find? (·.name = name)

/-- Whether ZFS can remove this vdev and BMAC lets it; why not otherwise. -/
def removable (s : Snapshot) (top : Top) : Except String Unit :=
  if top.removing then .error "it is being removed already"
  else match top.class with
  | .log | .cache | .spare => .ok ()
  | .data | .special =>
    if top.holdsEsp then .error "it is the boot vdev"
    else if s.tops.any fun t => t.kind.any isRaidz then
      .error "the pool has raidz, so ZFS can't remove a data or special vdev from it"
    else if top.class = .data ∧ (s.tops.filter (·.class = .data)).length < 2 then
      .error "it is the pool's only data vdev"
    else if !top.members.any fun m => online m && m.identity.isSome then
      .error "no member is online, so there is no copy of its data to move"
    else match top.members.find? fun m => m.disk.isSome && m.identity.isNone with
    | some m => .error s!"{m.path} has no WWN or serial, so its disk couldn't be tracked afterwards"
    | none => .ok ()

def needsPreparation : VdevClass → Bool
  | .data | .special => true
  | .log | .cache | .spare => false

abbrev Refused := String × String

/-- `Value::as_u64`, or the number a text has. -/
def asU64 : Value → Option Nat
  | .number text => if Text.startsWith '+' text then none else parseU64 text
  | .string text => parseU64 text
  | _ => none

def textOf (values : Dict Value) (id : String) : String :=
  match values.get? id with
  | some (.string text) => text
  | _ => ""

section

-- `shown` is a number of bytes for people
variable (shown : Nat → String)

/-- Whether the rest of the pool can take the vdev's data and still keep `minFree` free. -/
def fits (s : Snapshot) (top : Top) (minFree : Nat) : Except String Unit :=
  if !needsPreparation top.class then .ok ()
  else
    let available := s.datasetAvailable.getD 0
    let allocated := top.allocated.getD 0
    let room := available - minFree
    if room < allocated then
      .error (s!"it holds {shown allocated}, and the rest of the pool has room for {shown room} " ++
        s!"while keeping {shown minFree} free")
    else .ok ()

/-- The vdev and the amount the operator entered, when they can be used. -/
def check (s : Snapshot) (values : Dict Value) : Except Refused (String × Nat) := do
  let name := textOf values "vdev"
  let top ← ofOption (s.top name) ("vdev", "Choose a vdev.")
  let gib ← ofOption ((values.get? "min_free_gib").bind asU64)
    ("min_free_gib", "Enter a whole number of GiB.")
  if gib < minFreeFloorGib then
    throw ("min_free_gib", s!"Keep at least {minFreeFloorGib} GiB free.")
  (removable s top).mapError fun why => ("vdev", s!"Can't remove it: {why}.")
  (fits shown s top (minFree gib)).mapError fun why => ("vdev", s!"It doesn't fit: {why}.")
  return (name, gib)

end

/-! ## The pool behind a snapshot -/

/-- What each vdev really holds and has free. The root dataset has what the data vdevs have. -/
structure Pool (s : Snapshot) where
  allocated : String → Nat
  free : String → Nat
  recorded : ∀ v ∈ s.vdevs, ∀ n, v.allocated = some n → allocated v.name = n
  available : s.datasetAvailable = some ((s.vdevs.map fun v => free v.name).sum)

namespace Pool

variable {s : Snapshot} (pool : Pool s) (name : String)

def freeBeside : Nat := ((s.vdevs.filter (·.name ≠ name)).map fun v => pool.free v.name).sum

def freeOn : Nat := ((s.vdevs.filter (·.name = name)).map fun v => pool.free v.name).sum

/-- The vdevs that stay can take the data, and keep as much free as was asked. -/
def Keeps (gib : Nat) : Prop :=
  pool.allocated name + gib * gibBytes ≤ pool.freeBeside name ∧ gib * gibBytes < 2 ^ 64

/-- The removed vdev's own free bytes make no difference to any whole number of GiB: not even the least
amount is granted; or they don't complete one more GiB of the room beside; or, where no size is
recorded and every amount is granted, the greatest one has room. -/
def Unmoved (top : Top) : Prop :=
  if top.allocated.getD 0 = 0 then
    pool.allocated top.name + (2 ^ 34 - 1) * gibBytes ≤ pool.freeBeside top.name
  else s.datasetAvailable.getD 0 < top.allocated.getD 0 + minFreeFloorGib * gibBytes ∨
    pool.allocated top.name ≤ pool.freeBeside top.name ∧
      pool.freeOn top.name + (pool.freeBeside top.name - pool.allocated top.name) % gibBytes < gibBytes

/-- The amount is between what the vdevs that stay can keep and what they could with the removed vdev's
own free bytes. -/
def Between (top : Top) (gib : Nat) : Prop :=
  pool.freeBeside top.name < pool.allocated top.name + gib * gibBytes ∧
    (top.allocated.getD 0 ≠ 0 →
      pool.allocated top.name + gib * gibBytes ≤ pool.freeBeside top.name + pool.freeOn top.name)

end Pool

/-- The amounts, a `u64` of GiB, that `check` goes on with. -/
def Accepted (gib : Nat) : Prop := minFreeFloorGib ≤ gib ∧ gib < 2 ^ 64

theorem sum_filter_split {α : Type} (l : List α) (p : α → Bool) (f : α → Nat) :
    (l.map f).sum = ((l.filter p).map f).sum + ((l.filter (!p ·)).map f).sum := by
  induction l with
  | nil => rfl
  | cons a l ih => cases hp : p a <;> simp [hp, ih] <;> omega

theorem Pool.available_eq {s : Snapshot} (pool : Pool s) (name : String) :
    s.datasetAvailable.getD 0 = pool.freeOn name + pool.freeBeside name := by
  rw [pool.available, Option.getD_some, sum_filter_split _ (·.name = name)]
  simp [freeOn, freeBeside]

variable {shown : Nat → String} {s : Snapshot} {top : Top} {name : String}

theorem fits_eq_ok (h : needsPreparation top.class) (minFree : Nat) :
    fits shown s top minFree = .ok () ↔
      top.allocated.getD 0 ≤ s.datasetAvailable.getD 0 - minFree := by
  unfold fits
  rw [if_neg (by simp [h])]
  by_cases hroom : s.datasetAvailable.getD 0 - minFree < top.allocated.getD 0
  · simp [hroom]
  · simp [hroom, Nat.not_lt.mp hroom]

/-- A special vdev's size isn't recorded, so it always fits. -/
theorem fits_special (h : s.top name = some top) (hclass : top.class = .special) (minFree : Nat) :
    fits shown s top minFree = .ok () := by
  have hnone : top.allocated = none := by
    rcases List.mem_append.mp (List.mem_of_find?_eq_some h) with hmem | hmem
    · obtain ⟨v, -, rfl⟩ := List.mem_map.mp hmem
      exact absurd hclass (by simp [DataVdev.top])
    · obtain ⟨e, -, hmem⟩ := List.mem_flatMap.mp hmem
      split at hmem
      · obtain ⟨v, -, rfl⟩ := List.mem_map.mp hmem
        rfl
      · exact absurd hmem List.not_mem_nil
  rw [fits_eq_ok (by rw [hclass]; rfl), hnone]
  exact Nat.zero_le _

variable {gib : Nat}

/-- What `fits` does promise of a data vdev whose size is recorded. -/
theorem fits_recorded (pool : Pool s) {v : DataVdev} {n : Nat} (hv : v ∈ s.vdevs)
    (hn : v.allocated = some n) (hne : n ≠ 0) (hgib : gib < 2 ^ 34)
    (h : fits shown s v.top (minFree gib) = .ok ()) :
    pool.allocated v.name + gib * gibBytes ≤ s.datasetAvailable.getD 0 := by
  rw [fits_eq_ok rfl] at h
  have hrecorded : v.top.allocated.getD 0 = n := by rw [DataVdev.top, hn, Option.getD_some]
  have hbytes : minFree gib = gib * gibBytes := by
    refine Nat.mod_eq_of_lt ?_
    unfold gibBytes
    omega
  rw [hrecorded, hbytes] at h
  rw [pool.recorded v hv n hn]
  omega

theorem minFree_eq (h : gib < 2 ^ 34) : minFree gib = gib * gibBytes := by
  refine Nat.mod_eq_of_lt ?_
  unfold gibBytes
  omega

theorem Pool.allocated_eq (pool : Pool s) (h : s.top name = some top) (hne : top.allocated.getD 0 ≠ 0) :
    pool.allocated top.name = top.allocated.getD 0 := by
  rcases List.mem_append.mp (List.mem_of_find?_eq_some h) with hmem | hmem
  · obtain ⟨v, hv, rfl⟩ := List.mem_map.mp hmem
    cases hrecorded : v.allocated with
    | none => exact absurd (by simp [DataVdev.top, hrecorded]) hne
    | some n => exact (pool.recorded v hv n hrecorded).trans (by simp [DataVdev.top, hrecorded])
  · obtain ⟨e, -, hmem⟩ := List.mem_flatMap.mp hmem
    split at hmem
    · obtain ⟨v, -, rfl⟩ := List.mem_map.mp hmem
      exact absurd rfl hne
    · exact absurd hmem List.not_mem_nil

section Amounts

variable (pool : Pool s) (hclass : needsPreparation top.class) (htop : s.top name = some top)

include hclass

include htop in
/-- `fits` is wrong of the amounts that are between. -/
theorem fits_keeps_amount_iff (hgib : gib < 2 ^ 34) :
    (fits shown s top (minFree gib) = .ok () → pool.Keeps top.name gib) ↔ ¬ pool.Between top gib := by
  have hsum := pool.available_eq top.name
  have hrecorded := pool.allocated_eq htop
  rw [fits_eq_ok hclass, minFree_eq hgib]
  unfold Pool.Keeps Pool.Between gibBytes
  by_cases hzero : top.allocated.getD 0 = 0
  · simp only [hzero, ne_eq, not_true_eq_false, false_implies, and_true]
    omega
  · have hrecorded := hrecorded hzero
    simp only [hzero, ne_eq, not_false_eq_true, true_implies]
    omega

/-- With 2^34 GiB, which wrap to nothing, a vdev fits wherever it fits at all. -/
theorem fits_keeps_all_iff :
    (∀ gib, Accepted gib → fits shown s top (minFree gib) = .ok () → pool.Keeps top.name gib) ↔
      s.datasetAvailable.getD 0 < top.allocated.getD 0 := by
  constructor
  · intro h
    by_contra hroom
    have hwrapped : fits shown s top (minFree (2 ^ 34)) = .ok () := by
      rw [fits_eq_ok hclass, show minFree (2 ^ 34) = 0 from rfl]
      omega
    have hkeeps := (h (2 ^ 34) (by unfold Accepted minFreeFloorGib; omega) hwrapped).2
    unfold gibBytes at hkeeps
    omega
  · intro hshort gib _ hfits
    rw [fits_eq_ok hclass] at hfits
    omega

include htop in
theorem fits_keeps_whole_iff (havailable : s.datasetAvailable.getD 0 < 2 ^ 64) :
    (∀ gib, Accepted gib → gib < 2 ^ 34 → fits shown s top (minFree gib) = .ok () →
        pool.Keeps top.name gib) ↔ pool.Unmoved top := by
  have hsum := pool.available_eq top.name
  have hamount : ∀ gib, gib < 2 ^ 34 → ((fits shown s top (minFree gib) = .ok () →
      pool.Keeps top.name gib) ↔ ¬ pool.Between top gib) :=
    fun gib hgib => fits_keeps_amount_iff pool hclass htop hgib
  unfold Pool.Unmoved
  split
  · rename_i hzero
    constructor
    · intro h
      have hgreatest := (hamount (2 ^ 34 - 1) (by omega)).mp (h _ (by unfold Accepted minFreeFloorGib; omega)
        (by omega))
      unfold Pool.Between at hgreatest
      simp only [hzero, ne_eq, not_true_eq_false, false_implies, and_true] at hgreatest
      omega
    · intro hroom gib _ hgib
      refine (hamount gib hgib).mpr fun hbetween => ?_
      have hless := hbetween.1
      unfold gibBytes at hroom hless
      omega
  · rename_i hne
    have hrecorded := pool.allocated_eq htop hne
    rw [hrecorded, hsum]
    constructor
    · intro h
      by_contra hmoved
      -- the most that is granted
      have hmost := (hamount ((s.datasetAvailable.getD 0 - top.allocated.getD 0) / gibBytes)
        (by unfold gibBytes; omega)).mp (h _ (by unfold Accepted; unfold minFreeFloorGib gibBytes at *; omega)
        (by unfold gibBytes; omega))
      unfold Pool.Between at hmost
      simp only [hne, ne_eq, not_false_eq_true, true_implies, hrecorded, hsum] at hmost
      unfold minFreeFloorGib gibBytes at *
      omega
    · intro hunmoved gib haccepted hgib
      refine (hamount gib hgib).mpr fun hbetween => ?_
      have hless := hbetween.1
      have hown := hbetween.2 hne
      rw [hrecorded] at hless hown
      unfold Accepted at haccepted
      unfold minFreeFloorGib gibBytes at *
      omega

end Amounts

/-- Of every amount `fits` is right if and only if it refuses the vdev with whatever amount; of every
amount whose bytes don't wrap, if and only if the removed vdev's own free bytes make no difference to
a whole number of GiB; and of one such amount, if and only if that isn't between what the vdevs that stay
can keep and what they could with those bytes. -/
theorem fits_keeps_iff (pool : Pool s) (havailable : s.datasetAvailable.getD 0 < 2 ^ 64)
    (htop : s.top name = some top) (hclass : needsPreparation top.class) :
    ((∀ gib, Accepted gib → fits shown s top (minFree gib) = .ok () → pool.Keeps top.name gib) ↔
      s.datasetAvailable.getD 0 < top.allocated.getD 0) ∧
    ((∀ gib, Accepted gib → gib < 2 ^ 34 → fits shown s top (minFree gib) = .ok () →
        pool.Keeps top.name gib) ↔ pool.Unmoved top) ∧
    ∀ gib < 2 ^ 34, (fits shown s top (minFree gib) = .ok () → pool.Keeps top.name gib) ↔
      ¬ pool.Between top gib :=
  ⟨fits_keeps_all_iff pool hclass, fits_keeps_whole_iff pool hclass htop havailable,
    fun _ hgib => fits_keeps_amount_iff pool hclass htop hgib⟩

/-! ## A pool of two mirrors

`mirror-0` holds 100 GiB and `mirror-1` 400 GiB; `mirror-0` has `free` bytes free, and `mirror-1` `free'`. -/

def memberOn (disk serial : String) : Member :=
  { path := disk, state := some "ONLINE", device := disk, luks := false, mapper := none
    backing := some disk, disk := some disk, serial := some serial, identity := some (.serial serial)
    model := none, diskSize := none, group := none }

def mirrorOf (name disk serial disk' serial' : String) (allocated free : Nat) : DataVdev :=
  { name := name, kind := "mirror", state := some "ONLINE", removing := false, replacing := false
    allocated := some allocated, free := some free, holdsEsp := false
    members := [memberOn disk serial, memberOn disk' serial'] }

def twoMirrors (free free' : Nat) : Snapshot :=
  { datasetAvailable := some (free + free')
    vdevs := [mirrorOf "mirror-0" "sda" "A" "sdb" "B" (100 * gibBytes) free,
      mirrorOf "mirror-1" "sdc" "C" "sdd" "D" (400 * gibBytes) free']
    auxiliaryVdevs := [] }

def twoMirrorsPool (free free' : Nat) : Pool (twoMirrors free free') where
  allocated name := if name = "mirror-0" then 100 * gibBytes else 400 * gibBytes
  free name := if name = "mirror-0" then free else free'
  recorded v hv n hn := by
    have hname : ¬ "mirror-1" = "mirror-0" := by decide
    rcases List.mem_cons.mp hv with rfl | hv
    · exact (if_pos rfl).trans (Option.some.inj hn)
    · cases List.mem_singleton.mp hv
      exact (if_neg hname).trans (Option.some.inj hn)
  available := by simp [twoMirrors, mirrorOf]

/-- `mirror-0`, as a vdev of any class. -/
def mirror0 (free : Nat) : Top := (mirrorOf "mirror-0" "sda" "A" "sdb" "B" (100 * gibBytes) free).top

theorem top_mirror0 (free free' : Nat) :
    (twoMirrors free free').top "mirror-0" = some (mirror0 free) := rfl

theorem allocated_mirror0 (free : Nat) : (mirror0 free).allocated = some (100 * gibBytes) := rfl

theorem available_twoMirrors (free free' : Nat) :
    (twoMirrors free free').datasetAvailable.getD 0 = free + free' := rfl

theorem fits_mirror0 {free free' : Nat} (hgib : gib < 2 ^ 34)
    (hroom : (100 + gib) * gibBytes ≤ free + free') :
    fits toString (twoMirrors free free') (mirror0 free) (minFree gib) = .ok () := by
  have hkept : 100 * gibBytes ≤ free + free' - gib * gibBytes := by
    refine Nat.le_sub_of_add_le ?_
    rwa [← Nat.add_mul]
  have hiff := @fits_eq_ok toString (twoMirrors free free') (mirror0 free) rfl (minFree gib)
  rw [minFree_eq hgib] at hiff ⊢
  rw [allocated_mirror0, Option.getD_some, available_twoMirrors] at hiff
  exact hiff.mpr hkept

/-- With half a GiB free on `mirror-0` and 300 GiB on `mirror-1`, 200 GiB can be kept; with 30 and 40 GiB
`mirror-0` never leaves; and with 10 and 300 GiB, 50 can be kept. -/
theorem fits_keeps_roomy :
    (twoMirrorsPool (gibBytes / 2) (300 * gibBytes)).Keeps "mirror-0" 200 ∧
    (∀ gib, Accepted gib →
      fits toString (twoMirrors (30 * gibBytes) (40 * gibBytes)) (mirror0 (30 * gibBytes)) (minFree gib) =
        .ok () → (twoMirrorsPool (30 * gibBytes) (40 * gibBytes)).Keeps "mirror-0" gib) ∧
    (twoMirrorsPool (10 * gibBytes) (300 * gibBytes)).Keeps "mirror-0" 50 := by
  refine ⟨?_, ?_, ?_⟩
  · have hiff := @fits_keeps_iff toString _ _ _ (twoMirrorsPool (gibBytes / 2) (300 * gibBytes))
      (by decide) (top_mirror0 ..) rfl
    exact hiff.2.1.mpr (by unfold Pool.Unmoved; decide) 200 (by unfold Accepted; decide) (by decide)
      (fits_mirror0 (by decide) (by decide))
  · have hiff := @fits_keeps_iff toString _ _ _ (twoMirrorsPool (30 * gibBytes) (40 * gibBytes))
      (by decide) (top_mirror0 ..) rfl
    exact hiff.1.mpr (by decide)
  · have hiff := @fits_keeps_iff toString _ _ _ (twoMirrorsPool (10 * gibBytes) (300 * gibBytes))
      (by decide) (top_mirror0 ..) rfl
    exact (hiff.2.2 50 (by decide)).mpr (by unfold Pool.Between; decide)
      (fits_mirror0 (by decide) (by decide))

/-- `mirror-0` may leave though its data and the 50 GiB to keep don't fit on `mirror-1`. -/
theorem fits_own_room : ∃ (s : Snapshot) (pool : Pool s) (values : Dict Value) (top : Top),
    check toString s values = .ok ("mirror-0", 50) ∧ s.top "mirror-0" = some top ∧
      top.class = .data ∧ fits toString s top (minFree 50) = .ok () ∧
      ¬ pool.Keeps "mirror-0" 50 := by
  refine ⟨twoMirrors (150 * gibBytes) (30 * gibBytes),
    twoMirrorsPool (150 * gibBytes) (30 * gibBytes),
    [("min_free_gib", .number "50"), ("vdev", .string "mirror-0")],
    (mirrorOf "mirror-0" "sda" "A" "sdb" "B" (100 * gibBytes) (150 * gibBytes)).top, rfl, rfl, rfl,
    (fits_eq_ok rfl _).mpr (by decide), ?_⟩
  unfold Pool.Keeps
  decide

end Bmac.Bmacd.RemoveVdev
