import Bmac.Storage.Geometry

/-!
# Capacity

`bmac-storage/src/capacity.rs`: the 10% reserve of a pool, how far a disk may grow on every host that has
a copy (`growthAllowance`), and whether a new copy fits (`Placement`). `growth_safe_maximal` says that the
growth fits in exact fractions and that a MiB more wouldn't. A sparse disk whose guest can already write
more than there is room for may grow by nothing, and doesn't fit all the same; nor does anything where the
reserve is used.
-/

namespace Bmac.Storage

open Bmac.Base.Checked Bmac.Core

def poolReservePercent : Nat := 10

def mib : Nat := 2 ^ 20

/-- A pool's space as ZFS reports it, in `u64`s. -/
structure PoolSpace where
  used : Nat
  available : Nat
  used_lt : used < 2 ^ 64
  available_lt : available < 2 ^ 64

namespace PoolSpace

variable (s : PoolSpace)

def total : Nat := saturate (s.used + s.available)

/-- 10% of the total, rounded up. -/
def reserve : Option Nat := do
  let share ← fits 128 (s.total * poolReservePercent)
  return saturate (← divCeil share 100)

/-- What is available less the reserve; zero when the reserve is already used. -/
def headroom : Option Nat := do return s.available - (← s.reserve)

end PoolSpace

/-- How a zvol takes pool space. -/
inductive ZvolAllocation where
  /-- What the guest has free inside the disk can be written without growth. -/
  | sparse (guestFree : Nat)
  | reserved (refreservation : Nat)

structure HostPool where
  host : HostSlot
  space : PoolSpace
  geometry : PoolGeometry

inductive CapacityError where
  | noHosts
  | emptyVolume
  | emptyPool (host : HostSlot)
  | reservationBelowSize (volsize refreservation : Nat)

/-- One host's part of a growth decision. -/
structure GrowthRow where
  host : HostSlot
  total : Nat
  available : Nat
  reserve : Nat
  headroom : Nat
  /-- Pool bytes charged per byte of growth. -/
  charge : Ratio
  allowed : Nat

structure Growth where
  hosts : List GrowthRow
  /-- The most the disk may grow by on every host, in whole MiB. -/
  allowed : Nat

/-- The charge for a byte of growth, and the growth that one host allows. -/
def hostAllowance (allocation : ZvolAllocation) (volsize headroom : Nat) (charge : Ratio) :
    Option (Ratio × Nat) :=
  match allocation with
  | .reserved refreservation => do
    let charge := charge.max (← Ratio.new refreservation volsize)
    return (charge, ← charge.divFloor headroom)
  | .sparse guestFree => do return (charge, (← charge.divFloor headroom) - guestFree)

def growthRow (allocation : ZvolAllocation) (volsize : Nat) (block : BlockSize) (pool : HostPool) :
    Option (Except CapacityError GrowthRow) := do
  if pool.space.total = 0 then return .error (.emptyPool pool.host)
  else
    let headroom ← pool.space.headroom
    let (charge, allowed) ← hostAllowance allocation volsize headroom (← pool.geometry.chargePerByte block)
    return .ok ⟨pool.host, pool.space.total, pool.space.available, ← pool.space.reserve, headroom, charge,
      allowed⟩

def growthRows (allocation : ZvolAllocation) (volsize : Nat) (block : BlockSize) :
    List HostPool → Option (Except CapacityError (List GrowthRow))
  | [] => some (.ok [])
  | pool :: rest => do
    match ← growthRow allocation volsize block pool with
    | .error e => return .error e
    | .ok row => return (← growthRows allocation volsize block rest).map (row :: ·)

def growthAllowance (allocation : ZvolAllocation) (volsize : Nat) (block : BlockSize)
    (hosts : List HostPool) : Option (Except CapacityError Growth) := do
  if hosts = [] then return .error .noHosts
  if volsize = 0 then return .error .emptyVolume
  match allocation with
  | .reserved refreservation =>
    if refreservation < volsize then return .error (.reservationBelowSize volsize refreservation)
  | .sparse _ => pure ()
  return (← growthRows allocation volsize block hosts).map fun rows =>
    ⟨rows, (rows.map (·.allowed)).min?.getD 0 / mib * mib⟩

/-- What a new copy of a zvol needs on a host before it is placed there. -/
structure Placement where
  available : Nat
  needed : Nat
  reserve : Nat

def Placement.check (space : PoolSpace) (needed : Nat) : Option Placement := do
  return ⟨space.available, needed, ← space.reserve⟩

def Placement.fits (p : Placement) : Bool := (minus p.available p.needed).any (p.reserve ≤ ·)

/-! ## Exact space -/

theorem saturate_lt (n : Nat) : saturate n < 2 ^ 64 := by
  unfold saturate
  omega

theorem saturate_le (n : Nat) : saturate n ≤ n := min_le_left _ _

theorem saturate_eq {n : Nat} (h : n < 2 ^ 64) : saturate n = n := min_eq_left (by omega)

namespace PoolSpace

def exactReserve (s : PoolSpace) : Nat := (s.total * poolReservePercent) ⌈/⌉ 100

def exactHeadroom (s : PoolSpace) : Nat := s.available - s.exactReserve

theorem reserve_eq (s : PoolSpace) : s.reserve = some s.exactReserve := by
  have htotal : s.total < 2 ^ 64 := saturate_lt _
  have hle : s.exactReserve ≤ s.total :=
    ceilDiv_le_of_le_mul (by decide) (by unfold poolReservePercent; omega)
  simp only [reserve, fits_eq (show s.total * poolReservePercent < 2 ^ 128 by unfold poolReservePercent; omega),
    divCeil_eq (show 0 < 100 by decide), Option.bind_eq_bind, Option.bind_some, Option.pure_def]
  exact congrArg some (saturate_eq (lt_of_le_of_lt hle htotal))

theorem headroom_eq (s : PoolSpace) : s.headroom = some s.exactHeadroom := by
  simp only [headroom, reserve_eq, Option.bind_eq_bind, Option.bind_some, Option.pure_def, exactHeadroom]

theorem exactHeadroom_lt (s : PoolSpace) : s.exactHeadroom < 2 ^ 64 :=
  lt_of_le_of_lt (Nat.sub_le _ _) s.available_lt

end PoolSpace

/-- What the guest can write without growth. -/
def ZvolAllocation.guestFree : ZvolAllocation → Nat
  | sparse guestFree => guestFree
  | reserved _ => 0

/-- Pool bytes for a byte of growth: a full zvol is charged at least what it reserves now. -/
def ZvolAllocation.exactCharge (allocation : ZvolAllocation) (volsize : Nat) (block : BlockSize)
    (geometry : PoolGeometry) : ℚ :=
  match allocation with
  | sparse _ => geometry.exactCharge block
  | reserved refreservation => max (geometry.exactCharge block) (refreservation / volsize)

section

variable {allocation : ZvolAllocation} {volsize headroom : Nat} {block : BlockSize}
  {geometry : PoolGeometry} {charge : Ratio}

/-- The charges up to `headroom`, as far as a `u64` reaches, less what the guest can write already. -/
theorem hostAllowance_eq (hvol : 0 < volsize) (hvol' : volsize < 2 ^ 64)
    (hsize : ∀ refreservation, allocation = .reserved refreservation → volsize ≤ refreservation)
    (hcharge : charge.toRat = geometry.exactCharge block) (hpos : 0 < charge.num)
    (hden : charge.den < 2 ^ 64) (hhead : headroom < 2 ^ 64) :
    ∃ charge' q, hostAllowance allocation volsize headroom charge =
        some (charge', saturate q - allocation.guestFree) ∧
      ∀ n : Nat, n ≤ q ↔ allocation.exactCharge volsize block geometry * n ≤ headroom := by
  cases allocation with
  | sparse guestFree =>
    obtain ⟨q, hq, hspec⟩ := Ratio.divFloor_eq hpos hhead hden
    refine ⟨charge, q, ?_, fun n => ?_⟩
    · simp only [hostAllowance, hq, Option.bind_eq_bind, Option.bind_some, Option.pure_def]
      rfl
    · rw [hspec, hcharge]
      rfl
  | reserved refreservation =>
    have hle := hsize refreservation rfl
    obtain ⟨r, hr, his⟩ := Ratio.new_eq (show 0 < refreservation from hvol.trans_le hle) hvol
    have hmaxpos : 0 < (charge.max r).num ∧ (charge.max r).den < 2 ^ 64 := by
      rcases Ratio.max_cases charge r with h | h <;> rw [h]
      · exact ⟨hpos, hden⟩
      · exact ⟨his.pos, lt_of_le_of_lt his.den_le hvol'⟩
    obtain ⟨q, hq, hspec⟩ := Ratio.divFloor_eq hmaxpos.1 hhead hmaxpos.2
    refine ⟨charge.max r, q, ?_, fun n => ?_⟩
    · simp only [hostAllowance, hr, hq, Option.bind_eq_bind, Option.bind_some, Option.pure_def]
      rfl
    · rw [hspec, Ratio.toRat_max, hcharge, his.toRat]
      rfl

end

section

variable {α β : Type} {R : α → β → Prop} {as : List α} {bs : List β}

theorem exists_of_forall₂_left (h : List.Forall₂ R as bs) {a : α} (ha : a ∈ as) : ∃ b ∈ bs, R a b := by
  induction h with
  | nil => cases ha
  | @cons a' b as bs hab _ ih =>
    rcases List.mem_cons.mp ha with rfl | ha
    · exact ⟨b, List.mem_cons_self, hab⟩
    · obtain ⟨b', hb', hR⟩ := ih ha
      exact ⟨b', List.mem_cons_of_mem b hb', hR⟩

theorem exists_of_forall₂_right (h : List.Forall₂ R as bs) {b : β} (hb : b ∈ bs) : ∃ a ∈ as, R a b :=
  exists_of_forall₂_left h.flip hb

end

section

variable (allocation : ZvolAllocation) (volsize : Nat) (block : BlockSize)

/-- What a host allows: as many bytes as its headroom has charges, less what the guest can write. -/
def Allows (pool : HostPool) (row : GrowthRow) : Prop :=
  ∃ q, row.allowed = saturate q - allocation.guestFree ∧
    ∀ n : Nat, n ≤ q ↔ allocation.exactCharge volsize block pool.geometry * n ≤ pool.space.exactHeadroom

variable {allocation volsize block} {hosts : List HostPool}

theorem growthRow_eq (hvol : 0 < volsize) (hvol' : volsize < 2 ^ 64)
    (hsize : ∀ refreservation, allocation = .reserved refreservation → volsize ≤ refreservation)
    {pool : HostPool} (hpool : pool.geometry.Accepted) : ∃ answer,
    growthRow allocation volsize block pool = some answer ∧
      ∀ row, answer = .ok row → Allows allocation volsize block pool row := by
  obtain ⟨charge, hcharge, hrat, hpos, -, hden⟩ := PoolGeometry.chargePerByte_eq hpool block
  obtain ⟨charge', q, hallow, hspec⟩ := hostAllowance_eq hvol hvol' hsize hrat
    hpos hden pool.space.exactHeadroom_lt
  by_cases htotal : pool.space.total = 0
  · exact ⟨_, if_pos htotal, fun row h => by cases h⟩
  · refine ⟨.ok ⟨pool.host, pool.space.total, pool.space.available, pool.space.exactReserve,
      pool.space.exactHeadroom, charge', saturate q - allocation.guestFree⟩, ?_, ?_⟩
    · unfold growthRow
      rw [if_neg htotal]
      simp only [PoolSpace.headroom_eq, PoolSpace.reserve_eq, hcharge, hallow, Option.bind_eq_bind,
        Option.bind_some, Option.pure_def]
    · intro row h
      cases h
      exact ⟨q, rfl, hspec⟩

theorem growthRows_eq (hvol : 0 < volsize) (hvol' : volsize < 2 ^ 64)
    (hsize : ∀ refreservation, allocation = .reserved refreservation → volsize ≤ refreservation)
    (hhosts : ∀ pool ∈ hosts, pool.geometry.Accepted) : ∃ answer,
    growthRows allocation volsize block hosts = some answer ∧
      ∀ rows, answer = .ok rows → List.Forall₂ (Allows allocation volsize block) hosts rows := by
  induction hosts with
  | nil => exact ⟨.ok [], rfl, fun rows h => by cases h; exact .nil⟩
  | cons pool hosts ih =>
    obtain ⟨answer, hrow, hallows⟩ := @growthRow_eq allocation volsize block hvol hvol'
      hsize _ (hhosts pool List.mem_cons_self)
    obtain ⟨rest, hrest, hforall⟩ := ih fun p hp => hhosts p (List.mem_cons_of_mem _ hp)
    cases answer with
    | error e =>
      exact ⟨.error e, by simp only [growthRows, hrow, Option.bind_eq_bind, Option.bind_some,
        Option.pure_def], fun rows h => by cases h⟩
    | ok row =>
      refine ⟨rest.map (row :: ·), by simp only [growthRows, hrow, hrest, Option.bind_eq_bind,
        Option.bind_some, Option.pure_def], fun rows h => ?_⟩
      cases rest with
      | error e => cases h
      | ok rows' =>
        cases h
        exact .cons (hallows row rfl) (hforall rows' rfl)

/-- What an allowed growth says of the hosts' space, in exact fractions. -/
structure ExactGrowth (allocation : ZvolAllocation) (volsize : Nat) (block : BlockSize)
    (hosts : List HostPool) (allowed : Nat) : Prop where
  whole : mib ∣ allowed
  /-- Its charge fits, unless that of what the guest can write already doesn't. -/
  safe : ∀ pool ∈ hosts,
    allocation.exactCharge volsize block pool.geometry * (allowed + allocation.guestFree : Nat) ≤
        pool.space.exactHeadroom ∨
      allowed = 0 ∧ pool.space.exactHeadroom <
        allocation.exactCharge volsize block pool.geometry * allocation.guestFree
  /-- A MiB more doesn't fit, unless a `u64` counts no further. -/
  maximal : (∃ pool ∈ hosts, pool.space.exactHeadroom <
        allocation.exactCharge volsize block pool.geometry * (allowed + mib + allocation.guestFree : Nat)) ∨
      ∀ pool ∈ hosts,
        allocation.exactCharge volsize block pool.geometry * (2 ^ 64 : Nat) ≤ pool.space.exactHeadroom
  placed : ∀ pool ∈ hosts, pool.space.exactReserve ≤ pool.space.available → ∃ needed placement,
    pool.geometry.spaceNeeded allowed block = some needed ∧
      Placement.check pool.space needed = some placement ∧ placement.fits = true

theorem exactCharge_le (allocation : ZvolAllocation) (volsize : Nat) (block : BlockSize)
    (geometry : PoolGeometry) :
    geometry.exactCharge block ≤ allocation.exactCharge volsize block geometry := by
  cases allocation with
  | sparse guestFree => exact le_rfl
  | reserved refreservation => exact le_max_left _ _

theorem fits_of_charge {pool : HostPool} (h : pool.geometry.Accepted) {allowed : Nat}
    (hlt : allowed < 2 ^ 64)
    (hcharge : pool.geometry.exactCharge block * allowed ≤ pool.space.exactHeadroom)
    (hreserve : pool.space.exactReserve ≤ pool.space.available) : ∃ needed placement,
    pool.geometry.spaceNeeded allowed block = some needed ∧
      Placement.check pool.space needed = some placement ∧ placement.fits = true := by
  obtain ⟨charge, hc, hrat, -, hnum, -⟩ := PoolGeometry.chargePerByte_eq h block
  obtain ⟨q, hq, hspec⟩ := Ratio.mulCeil_eq hlt hnum
  have hneeded : saturate q ≤ pool.space.exactHeadroom := by
    refine (saturate_le q).trans ((hspec _).mpr ?_)
    rw [hrat]
    exact hcharge
  refine ⟨saturate q, ⟨pool.space.available, saturate q, pool.space.exactReserve⟩, ?_, ?_, ?_⟩
  · simp only [PoolGeometry.spaceNeeded, hc, hq, Option.bind_eq_bind, Option.bind_some]
  · simp only [Placement.check, PoolSpace.reserve_eq, Option.bind_eq_bind, Option.bind_some,
      Option.pure_def]
  · unfold PoolSpace.exactHeadroom at hneeded
    rw [Placement.fits, minus_eq (show saturate q ≤ pool.space.available by omega), Option.any_some,
      decide_eq_true_iff]
    show pool.space.exactReserve ≤ pool.space.available - saturate q
    omega

theorem exactGrowth_of_rows {rows : List GrowthRow} (hhosts : hosts ≠ [])
    (haccepted : ∀ pool ∈ hosts, pool.geometry.Accepted)
    (hrows : List.Forall₂ (Allows allocation volsize block) hosts rows) :
    ExactGrowth allocation volsize block hosts ((rows.map (·.allowed)).min?.getD 0 / mib * mib) := by
  obtain ⟨m, hm⟩ : ∃ m, (rows.map (·.allowed)).min? = some m := by
    have hne : rows.map (·.allowed) ≠ [] := by
      rw [← List.length_pos_iff, List.length_map, ← hrows.length_eq]
      exact List.length_pos_iff.mpr hhosts
    exact Option.ne_none_iff_exists'.mp fun hnone => hne (List.min?_eq_none_iff.mp hnone)
  obtain ⟨hmem, hmin⟩ := List.min?_eq_some_iff.mp hm
  obtain ⟨row, hrow, hallowed⟩ := List.mem_map.mp hmem
  rw [hm, Option.getD_some]
  obtain ⟨allowed, hdef⟩ : ∃ allowed, allowed = m / mib * mib := ⟨_, rfl⟩
  rw [← hdef]
  have hle : allowed ≤ m := by
    rw [hdef]
    exact Nat.div_mul_le_self m mib
  have hnext : m < allowed + mib := by
    unfold mib at hdef ⊢
    omega
  have hhost : ∀ pool ∈ hosts, ∃ q, allowed ≤ saturate q - allocation.guestFree ∧ ∀ n : Nat, n ≤ q ↔
      allocation.exactCharge volsize block pool.geometry * n ≤ pool.space.exactHeadroom := by
    intro pool hpool
    obtain ⟨row', hrow', q, hq, hspec⟩ := exists_of_forall₂_left hrows hpool
    exact ⟨q, hq ▸ hle.trans (hmin _ (List.mem_map_of_mem hrow')), hspec⟩
  have hsafe : ∀ pool ∈ hosts,
      allocation.exactCharge volsize block pool.geometry * (allowed + allocation.guestFree : Nat) ≤
          pool.space.exactHeadroom ∨
        allowed = 0 ∧ pool.space.exactHeadroom <
          allocation.exactCharge volsize block pool.geometry * allocation.guestFree := by
    intro pool hpool
    obtain ⟨q, hq, hspec⟩ := hhost pool hpool
    have hsat := saturate_le q
    by_cases hfree : allocation.guestFree ≤ q
    · exact .inl ((hspec _).mp (by omega))
    · exact .inr ⟨by omega, lt_of_not_ge fun h => hfree ((hspec _).mpr h)⟩
  refine ⟨hdef ▸ Nat.dvd_mul_left mib _, hsafe, ?_, ?_⟩
  · obtain ⟨first, hfirst, q, hq, hspec⟩ := exists_of_forall₂_right hrows hrow
    have hover {pool : HostPool} {q' : Nat} (hq' : q' ≤ m + allocation.guestFree) (hspec' : ∀ n : Nat,
        n ≤ q' ↔ allocation.exactCharge volsize block pool.geometry * n ≤ pool.space.exactHeadroom) :
        pool.space.exactHeadroom < allocation.exactCharge volsize block pool.geometry *
          (allowed + mib + allocation.guestFree : Nat) :=
      lt_of_not_ge fun h => by
        have := (hspec' _).mpr h
        omega
    -- the host whose row is the least one, or else any host that counts further than a `u64`
    by_cases hsmall : q < 2 ^ 64
    · rw [saturate_eq hsmall] at hq
      exact .inl ⟨first, hfirst, hover (by omega) hspec⟩
    · by_cases hall : ∀ pool ∈ hosts, allocation.exactCharge volsize block pool.geometry *
          (2 ^ 64 : Nat) ≤ pool.space.exactHeadroom
      · exact .inr hall
      · push Not at hall
        obtain ⟨pool, hpool, hlt⟩ := hall
        obtain ⟨row', hrow', q', -, hspec'⟩ := exists_of_forall₂_left hrows hpool
        have hq' : ¬ 2 ^ 64 ≤ q' := fun h => absurd ((hspec' _).mp h) (not_le.mpr hlt)
        have hfull : saturate q = 2 ^ 64 - 1 := min_eq_right (by omega)
        exact .inl ⟨pool, hpool, hover (by omega) hspec'⟩
  · intro pool hpool hreserve
    obtain ⟨q, hq, hspec⟩ := hhost pool hpool
    have hsat := saturate_lt q
    have hcharge : allocation.exactCharge volsize block pool.geometry * allowed ≤
        pool.space.exactHeadroom := (hspec _).mp (by have := saturate_le q; omega)
    refine fits_of_charge (haccepted pool hpool) (by omega) (le_trans ?_ hcharge) hreserve
    exact mul_le_mul_of_nonneg_right (exactCharge_le allocation volsize block pool.geometry)
      (Nat.cast_nonneg allowed)

/-- The growth allowance never overflows, and one that is given is exact. -/
theorem growth_safe_maximal (allocation : ZvolAllocation) (volsize : Nat) (block : BlockSize)
    (hosts : List HostPool) (hvol : volsize < 2 ^ 64)
    (haccepted : ∀ pool ∈ hosts, pool.geometry.Accepted) : ∃ answer,
    growthAllowance allocation volsize block hosts = some answer ∧ ∀ growth, answer = .ok growth →
      ExactGrowth allocation volsize block hosts growth.allowed := by
  by_cases hempty : hosts = []
  · exact ⟨.error .noHosts, by simp [growthAllowance, hempty], fun growth h => by cases h⟩
  by_cases hzero : volsize = 0
  · exact ⟨.error .emptyVolume, by simp [growthAllowance, hempty, hzero], fun growth h => by cases h⟩
  by_cases hsize : ∀ refreservation, allocation = .reserved refreservation → volsize ≤ refreservation
  · obtain ⟨answer, hrows, hforall⟩ := @growthRows_eq allocation volsize block hosts
      (Nat.pos_of_ne_zero hzero) hvol hsize haccepted
    refine ⟨answer.map fun rows => ⟨rows, (rows.map (·.allowed)).min?.getD 0 / mib * mib⟩, ?_, ?_⟩
    · cases allocation with
      | sparse guestFree =>
        simp [growthAllowance, hempty, hzero, hrows]
      | reserved refreservation =>
        have hnot : ¬ refreservation < volsize := by
          have := hsize refreservation rfl
          omega
        simp [growthAllowance, hempty, hzero, hrows, hnot]
    · intro growth h
      cases answer with
      | error e => cases h
      | ok rows =>
        cases h
        exact exactGrowth_of_rows hempty haccepted (hforall rows rfl)
  · push Not at hsize
    obtain ⟨refreservation, rfl, hlt⟩ := hsize
    exact ⟨.error (.reservationBelowSize volsize refreservation),
      by simp [growthAllowance, hempty, hzero, hlt], fun growth h => by cases h⟩

end

/-! ## One pool -/

/-- A terabyte on one mirror of two 4 KiB-sector disks, a tenth of it left beside the reserve. -/
def mirrorPool : HostPool where
  host := ⟨1, HostSlot.range_one⟩
  space := ⟨800 * 2 ^ 30, 200 * 2 ^ 30, by decide, by decide⟩
  geometry := ⟨[⟨.mirror, 2, 12⟩]⟩

def block16K : BlockSize := ⟨16 * 1024, by decide⟩

theorem mirrorPool_accepted : ∀ pool ∈ [mirrorPool], pool.geometry.Accepted := by
  intro pool hpool g hg
  obtain rfl := List.mem_singleton.mp hpool
  obtain rfl := List.mem_singleton.mp hg
  exact ⟨by decide, by decide, by decide⟩

/-- A disk that can take half of what is left grows by the rest. -/
theorem growth_safe_maximal_mirror : ∃ answer,
    growthAllowance (.sparse (50 * 2 ^ 30)) (60 * 2 ^ 30) block16K [mirrorPool] = some answer ∧
      ∀ growth, answer = .ok growth →
        ExactGrowth (.sparse (50 * 2 ^ 30)) (60 * 2 ^ 30) block16K [mirrorPool] growth.allowed :=
  growth_safe_maximal (.sparse (50 * 2 ^ 30)) (60 * 2 ^ 30) block16K [mirrorPool] (by decide)
    mirrorPool_accepted

theorem mirrorPool_charge_le : ((150 * 2 ^ 30 : Nat) : ℚ) <
    mirrorPool.geometry.exactCharge block16K * (200 * 2 ^ 30 : Nat) := by
  decide +kernel

/-- The guest of a sparse disk may have more free than there is room for: the disk doesn't grow, and what
the guest can write doesn't fit all the same. -/
theorem growth_not_always_safe : ∃ growth,
    growthAllowance (.sparse (200 * 2 ^ 30)) (250 * 2 ^ 30) block16K [mirrorPool] = some (.ok growth) ∧
      ¬ ∀ pool ∈ [mirrorPool], (ZvolAllocation.sparse (200 * 2 ^ 30)).exactCharge (250 * 2 ^ 30) block16K
          pool.geometry * (growth.allowed + 200 * 2 ^ 30 : Nat) ≤ pool.space.exactHeadroom := by
  obtain ⟨growth, hgrowth⟩ : ∃ growth, growthAllowance (.sparse (200 * 2 ^ 30)) (250 * 2 ^ 30) block16K
      [mirrorPool] = some (.ok growth) := ⟨_, rfl⟩
  refine ⟨growth, hgrowth, fun h => ?_⟩
  have hpool := h mirrorPool List.mem_cons_self
  have hle : (mirrorPool.space.exactHeadroom : ℚ) ≤ (150 * 2 ^ 30 : Nat) := by decide +kernel
  have hcharge : mirrorPool.geometry.exactCharge block16K * (200 * 2 ^ 30 : Nat) ≤
      mirrorPool.geometry.exactCharge block16K * (growth.allowed + 200 * 2 ^ 30 : Nat) := by
    refine mul_le_mul_of_nonneg_left ?_ (by decide +kernel)
    exact_mod_cast Nat.le_add_left _ _
  exact absurd (mirrorPool_charge_le.trans_le (hcharge.trans hpool)) (not_lt.mpr hle)

end Bmac.Storage
