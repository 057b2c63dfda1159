import Bmac.Base.Checked
import Bmac.Storage.Journal

/-!
# Raw space

`bmac-storage/src/geometry.rs`: how much raw space a block takes on each vdev type, in exact fractions of
`u64`s. A function is `none` where the source would overflow, divide by zero or fail an assertion;
`chargePerByte_eq` says that it never does for a vdev that BMAC can build, and what the fraction is.
-/

namespace Bmac.Storage

open Bmac.Base.Checked

/-- `unwrap_or(u64::MAX)`. -/
def saturate (n : Nat) : Nat := min n (2 ^ 64 - 1)

/-- A fraction in lowest terms. -/
structure Ratio where
  num : Nat
  den : Nat
  pos : 0 < den

namespace Ratio

def one : Ratio := ⟨1, 1, by decide⟩

def reduce (num den : Nat) (h : 0 < den) : Ratio where
  num := num / max (num.gcd den) 1
  den := den / max (num.gcd den) 1
  pos := Nat.div_pos (max_le (Nat.gcd_le_right num h) h) (by omega)

/-- Asserts that the denominator isn't zero. -/
def new (num den : Nat) : Option Ratio :=
  if h : 0 < den then some (reduce num den h) else none

/-- From `u128`s, when the reduced fraction fits `u64`s. -/
def wide (num den : Nat) : Option Ratio := do
  let r ← new num den
  let _ ← fits 64 r.num
  let _ ← fits 64 r.den
  return r

/-- `value × self`, rounded up. -/
def mulCeil (r : Ratio) (value : Nat) : Option Nat := do
  let n ← fits 128 (value * r.num)
  return saturate (← divCeil n r.den)

/-- `value ÷ self`, rounded down; zero when the ratio is zero. -/
def divFloor (r : Ratio) (value : Nat) : Option Nat :=
  if r.num = 0 then some 0
  else do
    let n ← fits 128 (value * r.den)
    return saturate (n / r.num)

def times (r s : Ratio) : Option Ratio := do
  wide (← fits 128 (r.num * s.num)) (← fits 128 (r.den * s.den))

def «over» (r s : Ratio) : Option Ratio := do
  wide (← fits 128 (r.num * s.den)) (← fits 128 (r.den * s.num))

def le (r s : Ratio) : Bool := r.num * s.den ≤ s.num * r.den

/-- `Ord::max`: the second of two that are equal. -/
def max (r s : Ratio) : Ratio := if r.le s then s else r

/-- `Iterator::max`. -/
def largest : List Ratio → Option Ratio
  | [] => none
  | r :: rest => some (rest.foldl max r)

end Ratio

/-! ## Blocks and vdevs -/

/-- A zvol block size. -/
structure BlockSize where
  bytes : Nat
  valid : bytes.isPowerOfTwo ∧ 512 ≤ bytes ∧ bytes ≤ 128 * 1024

def reportingBytes : Nat := 128 * 1024

/-- One 128-byte block pointer per data block. -/
def BlockSize.metadataAllowance (block : BlockSize) : Option Ratio := Ratio.new 128 block.bytes

def VdevType.parity : VdevType → Option Nat
  | .raidz1 => some 1
  | .raidz2 => some 2
  | .raidz3 => some 3
  | .single | .mirror => none

/-- The allocation shape of one top-level vdev; `width` is a `u32`, `ashift` a `u8`. -/
structure Geometry where
  kind : VdevType
  width : Nat
  ashift : Nat

namespace Geometry

variable (g : Geometry)

/-- A shift by 64 or more overflows. -/
def sector : Option Nat := if g.ashift < 64 then some (2 ^ g.ashift) else none

/-- Data sectors of a block. -/
def dataSectors (bytes : Nat) : Option Nat := do
  return max (← divCeil bytes (← g.sector)) 1

/-- Sectors a block takes, as in `vdev_raidz_asize()`. -/
def allocatedSectors (bytes : Nat) : Option Nat := do
  let d ← g.dataSectors bytes
  match g.kind with
  | .single => return d
  | .mirror => fits 64 (d * g.width)
  | kind =>
    let p := kind.parity.getD 0
    let parity ← fits 64 (p * (← divCeil d (← minus g.width p)))
    fits 64 ((← divCeil (← fits 64 (d + parity)) (p + 1)) * (p + 1))

/-- `E(B)`: data sectors over allocated sectors. -/
def efficiency (bytes : Nat) : Option Ratio := do
  let d ← g.dataSectors bytes
  Ratio.new d (← g.allocatedSectors bytes)

/-- `I(b) = E(128 KiB) / E(b)`. -/
def inflation (block : BlockSize) : Option Ratio := do
  (← g.efficiency reportingBytes).«over» (← g.efficiency block.bytes)

end Geometry

/-- The data vdevs of one pool. -/
structure PoolGeometry where
  data : List Geometry

namespace PoolGeometry

variable (pool : PoolGeometry)

def inflation (block : BlockSize) : Option Ratio := do
  return (Ratio.largest (← pool.data.mapM (·.inflation block))).getD .one

/-- `I(b) × (1 + m(b))`: pool bytes charged per logical zvol byte. -/
def chargePerByte (block : BlockSize) : Option Ratio := do
  let m ← block.metadataAllowance
  (← pool.inflation block).times (← Ratio.new (← fits 64 (m.den + m.num)) m.den)

def spaceNeeded (volsize : Nat) (block : BlockSize) : Option Nat := do
  (← pool.chargePerByte block).mulCeil volsize

end PoolGeometry

/-! ## The exact fractions -/

namespace Ratio

variable {r s : Ratio}

def toRat (r : Ratio) : ℚ := r.num / r.den

theorem den_pos (r : Ratio) : (0 : ℚ) < r.den := by exact_mod_cast r.pos

theorem toRat_reduce (num den : Nat) (h : 0 < den) : (reduce num den h).toRat = num / den := by
  have hg : 0 < num.gcd den := Nat.gcd_pos_of_pos_right num h
  have hmax : Max.max (num.gcd den) 1 = num.gcd den := max_eq_left hg
  have hq : ((num.gcd den : Nat) : ℚ) ≠ 0 := by exact_mod_cast hg.ne'
  simp only [toRat, reduce, hmax]
  rw [Nat.cast_div (Nat.gcd_dvd_left num den) hq, Nat.cast_div (Nat.gcd_dvd_right num den) hq,
    div_div_div_cancel_right₀ hq]

theorem reduce_num_pos {num den : Nat} (h : 0 < den) (hnum : 0 < num) : 0 < (reduce num den h).num :=
  Nat.div_pos (max_le (Nat.gcd_le_left den hnum) hnum) (by omega)

/-- The numerator of a fraction is at most that of any other way to write it. -/
theorem reduce_le (num den : Nat) (h : 0 < den) :
    (reduce num den h).num ≤ num ∧ (reduce num den h).den ≤ den :=
  ⟨Nat.div_le_self _ _, Nat.div_le_self _ _⟩

/-- What `new`, `times` and `over` give where nothing overflows. -/
structure Is (r : Ratio) (num den : Nat) : Prop where
  toRat : r.toRat = num / den
  pos : 0 < r.num
  num_le : r.num ≤ num
  den_le : r.den ≤ den

theorem new_eq {num den : Nat} (hnum : 0 < num) (hden : 0 < den) :
    ∃ r, new num den = some r ∧ r.Is num den :=
  ⟨reduce num den hden, dif_pos hden, toRat_reduce num den hden, reduce_num_pos hden hnum,
    (reduce_le num den hden).1, (reduce_le num den hden).2⟩

theorem wide_eq {num den : Nat} (hnum : 0 < num) (hden : 0 < den) (hn : num < 2 ^ 64)
    (hd : den < 2 ^ 64) : ∃ r, wide num den = some r ∧ r.Is num den := by
  obtain ⟨r, hr, his⟩ := new_eq hnum hden
  refine ⟨r, ?_, his⟩
  simp only [wide, hr, Option.bind_eq_bind, Option.bind_some,
    fits_eq (lt_of_le_of_lt his.num_le hn), fits_eq (lt_of_le_of_lt his.den_le hd), Option.pure_def]

theorem times_eq (hr : 0 < r.num) (hs : 0 < s.num) (hn : r.num * s.num < 2 ^ 64)
    (hd : r.den * s.den < 2 ^ 64) :
    ∃ t, r.times s = some t ∧ t.Is (r.num * s.num) (r.den * s.den) ∧ t.toRat = r.toRat * s.toRat := by
  obtain ⟨t, ht, his⟩ := wide_eq (Nat.mul_pos hr hs) (Nat.mul_pos r.pos s.pos) hn hd
  refine ⟨t, ?_, his, ?_⟩
  · rw [times, fits_eq (by omega), fits_eq (by omega)]
    exact ht
  · rw [his.toRat, Ratio.toRat, Ratio.toRat, div_mul_div_comm]
    push_cast
    rfl

theorem over_eq (hr : 0 < r.num) (hs : 0 < s.num) (hn : r.num * s.den < 2 ^ 64)
    (hd : r.den * s.num < 2 ^ 64) :
    ∃ t, r.«over» s = some t ∧ t.Is (r.num * s.den) (r.den * s.num) ∧
      t.toRat = r.toRat / s.toRat := by
  obtain ⟨t, ht, his⟩ := wide_eq (Nat.mul_pos hr s.pos) (Nat.mul_pos r.pos hs) hn hd
  refine ⟨t, ?_, his, ?_⟩
  · rw [«over», fits_eq (by omega), fits_eq (by omega)]
    exact ht
  · rw [his.toRat, Ratio.toRat, Ratio.toRat, div_div_div_eq]
    push_cast
    rfl

theorem le_iff : r.le s = true ↔ r.toRat ≤ s.toRat := by
  rw [le, decide_eq_true_iff, toRat, toRat, div_le_div_iff₀ r.den_pos s.den_pos]
  exact_mod_cast Iff.rfl

theorem toRat_max : (r.max s).toRat = Max.max r.toRat s.toRat := by
  unfold max
  split
  · rename_i h
    exact (max_eq_right (le_iff.mp h)).symm
  · rename_i h
    exact (max_eq_left (le_of_not_ge fun hle => h (le_iff.mpr hle))).symm

theorem max_cases (r s : Ratio) : r.max s = r ∨ r.max s = s := by
  unfold max
  split
  · exact .inr rfl
  · exact .inl rfl

theorem toRat_foldl_max (rest : List Ratio) (r : Ratio) :
    (rest.foldl max r).toRat = (rest.map toRat).foldl Max.max r.toRat := by
  induction rest generalizing r with
  | nil => rfl
  | cons s rest ih => rw [List.foldl_cons, ih, toRat_max, List.map_cons, List.foldl_cons]

theorem foldl_max_mem (rest : List Ratio) (r : Ratio) : rest.foldl max r ∈ r :: rest := by
  induction rest generalizing r with
  | nil => exact List.mem_singleton_self r
  | cons s rest ih =>
    have hmem := ih (r.max s)
    rw [List.foldl_cons]
    rcases List.mem_cons.mp hmem with heq | hmem
    · rw [heq]
      rcases max_cases r s with h | h <;> simp [h]
    · exact List.mem_cons_of_mem _ (List.mem_cons_of_mem _ hmem)

/-- The largest of some fractions, as `List.max?` has it. -/
theorem toRat_largest (rs : List Ratio) :
    ((largest rs).getD .one).toRat = ((rs.map toRat).max?).getD 1 := by
  cases rs with
  | nil => simp [largest, one, toRat]
  | cons r rest =>
    simp only [largest, Option.getD_some, List.map_cons, List.max?_cons', toRat_foldl_max]

theorem largest_mem (rs : List Ratio) : (largest rs).getD .one = .one ∨ (largest rs).getD .one ∈ rs := by
  cases rs with
  | nil => exact .inl rfl
  | cons r rest => exact .inr (foldl_max_mem rest r)

/-- `value ÷ r`, rounded down: the multiples of `r` up to `value`, as far as a `u64` reaches. -/
theorem divFloor_eq (hr : 0 < r.num) {value : Nat} (hv : value < 2 ^ 64) (hd : r.den < 2 ^ 64) :
    ∃ q, r.divFloor value = some (saturate q) ∧ ∀ n : Nat, n ≤ q ↔ r.toRat * n ≤ value := by
  refine ⟨value * r.den / r.num, ?_, fun n => le_div_iff hr r.pos⟩
  have hfits : value * r.den < 2 ^ 128 := by
    calc value * r.den < 2 ^ 64 * 2 ^ 64 := Nat.mul_lt_mul'' hv hd
      _ = 2 ^ 128 := by norm_num
  simp only [divFloor, if_neg hr.ne', fits_eq hfits, Option.bind_eq_bind, Option.bind_some,
    Option.pure_def]

/-- `value × r`, rounded up. -/
theorem mulCeil_eq {value : Nat} (hv : value < 2 ^ 64) (hn : r.num < 2 ^ 64) :
    ∃ q, r.mulCeil value = some (saturate q) ∧ ∀ n : Nat, q ≤ n ↔ r.toRat * value ≤ n := by
  refine ⟨(value * r.num) ⌈/⌉ r.den, ?_, fun n => mul_ceilDiv_le_iff r.pos⟩
  have hfits : value * r.num < 2 ^ 128 := by
    calc value * r.num < 2 ^ 64 * 2 ^ 64 := Nat.mul_lt_mul'' hv hn
      _ = 2 ^ 128 := by norm_num
  simp only [mulCeil, fits_eq hfits, divCeil_eq r.pos, Option.bind_eq_bind, Option.bind_some,
    Option.pure_def]

end Ratio

namespace Geometry

/-- A vdev that `new` accepts, with an `ashift` that BMAC builds. -/
structure Accepted (g : Geometry) : Prop where
  parity : g.kind.parity.getD 0 < g.width
  width : g.width < 2 ^ 32
  ashift : 9 ≤ g.ashift ∧ g.ashift ≤ 16

def data (g : Geometry) (bytes : Nat) : Nat := max (bytes ⌈/⌉ 2 ^ g.ashift) 1

def raidz (d width p : Nat) : Nat := ((d + p * (d ⌈/⌉ (width - p))) ⌈/⌉ (p + 1)) * (p + 1)

def allocated (g : Geometry) (bytes : Nat) : Nat :=
  match g.kind with
  | .single => g.data bytes
  | .mirror => g.data bytes * g.width
  | kind => raidz (g.data bytes) g.width (kind.parity.getD 0)

def exactEfficiency (g : Geometry) (bytes : Nat) : ℚ := g.data bytes / g.allocated bytes

def exactInflation (g : Geometry) (block : BlockSize) : ℚ :=
  g.exactEfficiency reportingBytes / g.exactEfficiency block.bytes

variable {g : Geometry} {bytes : Nat}

theorem data_pos : 0 < g.data bytes := lt_of_lt_of_le Nat.one_pos (le_max_right _ _)

theorem data_le (h : g.Accepted) (hb : bytes ≤ reportingBytes) : g.data bytes ≤ 256 := by
  have hsector : 2 ^ 9 ≤ 2 ^ g.ashift := Nat.pow_le_pow_right (by decide) h.ashift.1
  refine max_le (ceilDiv_le_of_le_mul (by positivity) ?_) (by decide)
  calc bytes ≤ 2 ^ 9 * 256 := hb
    _ ≤ 2 ^ g.ashift * 256 := Nat.mul_le_mul_right 256 hsector

theorem dataSectors_eq (h : g.Accepted) : g.dataSectors bytes = some (g.data bytes) := by
  have hshift : g.ashift < 64 := by
    have := h.ashift
    omega
  simp only [dataSectors, sector, if_pos hshift, Option.bind_eq_bind, Option.bind_some,
    divCeil_eq (show 0 < 2 ^ g.ashift by positivity), Option.pure_def, data]

theorem raidz_bounds {d width p : Nat} (hp : p < width) (hp3 : p ≤ 3) (hd : d ≤ 256) :
    d ≤ raidz d width p ∧ p * (d ⌈/⌉ (width - p)) ≤ 768 ∧ raidz d width p < 2 ^ 12 := by
  have hparity : p * (d ⌈/⌉ (width - p)) ≤ 768 := by
    calc p * (d ⌈/⌉ (width - p)) ≤ 3 * 256 :=
          Nat.mul_le_mul hp3 ((ceilDiv_le_self d (by omega)).trans hd)
      _ = 768 := by norm_num
  have hrow : 0 < p + 1 := Nat.succ_pos p
  have hup := ceilDiv_mul_lt (d + p * (d ⌈/⌉ (width - p))) hrow
  have hdown := le_ceilDiv_mul (d + p * (d ⌈/⌉ (width - p))) hrow
  refine ⟨?_, hparity, ?_⟩
  · show d ≤ _ ⌈/⌉ (p + 1) * (p + 1)
    omega
  · show _ ⌈/⌉ (p + 1) * (p + 1) < 2 ^ 12
    omega

theorem parity_le (kind : VdevType) : kind.parity.getD 0 ≤ 3 := by cases kind <;> decide

theorem allocatedSectors_raidz (h : g.Accepted) (hb : bytes ≤ reportingBytes) :
    (do
      let p := g.kind.parity.getD 0
      let parity ← fits 64 (p * (← divCeil (g.data bytes) (← minus g.width p)))
      fits 64 ((← divCeil (← fits 64 (g.data bytes + parity)) (p + 1)) * (p + 1))) =
        some (raidz (g.data bytes) g.width (g.kind.parity.getD 0)) := by
  have hp := h.parity
  have hd := data_le h hb
  obtain ⟨-, hparity, hall⟩ := raidz_bounds hp (parity_le g.kind) hd
  simp only [minus_eq hp.le, Option.bind_eq_bind, Option.bind_some,
    divCeil_eq (show 0 < g.width - g.kind.parity.getD 0 by omega)]
  rw [fits_eq (show _ < 2 ^ 64 by omega)]
  simp only [Option.bind_some]
  rw [fits_eq (show _ < 2 ^ 64 by omega)]
  simp only [Option.bind_some, divCeil_eq (Nat.succ_pos _)]
  exact fits_eq (lt_trans hall (by norm_num))

theorem allocatedSectors_eq (h : g.Accepted) (hb : bytes ≤ reportingBytes) :
    g.allocatedSectors bytes = some (g.allocated bytes) := by
  have hd := data_le h hb
  have hraidz := allocatedSectors_raidz h hb
  have hmirror : fits 64 (g.data bytes * g.width) = some (g.data bytes * g.width) := by
    refine fits_eq ?_
    calc g.data bytes * g.width ≤ 256 * 2 ^ 32 := Nat.mul_le_mul hd h.width.le
      _ < 2 ^ 64 := by norm_num
  unfold allocatedSectors allocated
  rw [dataSectors_eq h]
  simp only [Option.bind_eq_bind, Option.bind_some, Option.pure_def]
  cases hk : g.kind with
  | single => rfl
  | mirror => exact hmirror
  | raidz1 => rw [hk] at hraidz; exact hraidz
  | raidz2 => rw [hk] at hraidz; exact hraidz
  | raidz3 => rw [hk] at hraidz; exact hraidz

theorem data_le_allocated (h : g.Accepted) (hb : bytes ≤ reportingBytes) :
    g.data bytes ≤ g.allocated bytes := by
  have hp := h.parity
  have hraidz := (raidz_bounds hp (parity_le g.kind) (data_le h hb)).1
  unfold allocated
  cases hk : g.kind with
  | single => exact le_rfl
  | mirror => exact Nat.le_mul_of_pos_right _ (lt_of_le_of_lt (Nat.zero_le _) hp)
  | raidz1 => rw [hk] at hraidz; exact hraidz
  | raidz2 => rw [hk] at hraidz; exact hraidz
  | raidz3 => rw [hk] at hraidz; exact hraidz

theorem allocated_pos (h : g.Accepted) (hb : bytes ≤ reportingBytes) : 0 < g.allocated bytes :=
  lt_of_lt_of_le data_pos (data_le_allocated h hb)

/-- In lowest terms the fraction of a mirror is that of one sector, whatever the block. -/
theorem reduced_den_lt (h : g.Accepted) (hb : bytes ≤ reportingBytes) :
    (Ratio.reduce (g.data bytes) (g.allocated bytes) (allocated_pos h hb)).den < 2 ^ 32 := by
  have hle := (Ratio.reduce_le (g.data bytes) (g.allocated bytes) (allocated_pos h hb)).2
  have hraidz := (raidz_bounds h.parity (parity_le g.kind) (data_le h hb)).2.2
  have hd := data_le h hb
  have hother (ha : g.allocated bytes < 2 ^ 32) := lt_of_le_of_lt hle ha
  cases hk : g.kind with
  | single => exact hother (by unfold allocated; rw [hk]; exact lt_of_le_of_lt hd (by norm_num))
  | mirror =>
    have hall : g.allocated bytes = g.data bytes * g.width := by unfold allocated; rw [hk]
    have hgcd : (g.data bytes).gcd (g.allocated bytes) = g.data bytes := by
      rw [hall]
      exact Nat.gcd_mul_right_right _ _
    show g.allocated bytes / max ((g.data bytes).gcd (g.allocated bytes)) 1 < 2 ^ 32
    rw [hgcd, max_eq_left (show 1 ≤ g.data bytes from data_pos), hall, Nat.mul_div_cancel_left _ data_pos]
    exact h.width
  | raidz1 => rw [hk] at hraidz; exact hother (by unfold allocated; rw [hk]; exact hraidz.trans (by norm_num))
  | raidz2 => rw [hk] at hraidz; exact hother (by unfold allocated; rw [hk]; exact hraidz.trans (by norm_num))
  | raidz3 => rw [hk] at hraidz; exact hother (by unfold allocated; rw [hk]; exact hraidz.trans (by norm_num))

theorem efficiency_eq (h : g.Accepted) (hb : bytes ≤ reportingBytes) : ∃ r,
    g.efficiency bytes = some r ∧ r.toRat = g.exactEfficiency bytes ∧ 0 < r.num ∧ r.num ≤ 256 ∧
      r.den < 2 ^ 32 := by
  have hpos := allocated_pos h hb
  refine ⟨Ratio.reduce (g.data bytes) (g.allocated bytes) hpos, ?_, Ratio.toRat_reduce _ _ hpos,
    Ratio.reduce_num_pos hpos data_pos, (Ratio.reduce_le _ _ hpos).1.trans (data_le h hb),
    reduced_den_lt h hb⟩
  rw [efficiency, dataSectors_eq h, allocatedSectors_eq h hb]
  exact dif_pos hpos

theorem inflation_eq (h : g.Accepted) (block : BlockSize) : ∃ r, g.inflation block = some r ∧
    r.toRat = g.exactInflation block ∧ 0 < r.num ∧ r.num < 2 ^ 40 ∧ r.den < 2 ^ 40 := by
  obtain ⟨r, hr, hrat, hpos, hnum, hden⟩ := efficiency_eq h (le_refl reportingBytes)
  obtain ⟨s, hs, hsat, hspos, hsnum, hsden⟩ := efficiency_eq h block.valid.2.2
  have hn : r.num * s.den < 2 ^ 40 := by
    calc r.num * s.den ≤ 256 * s.den := Nat.mul_le_mul_right _ hnum
      _ < 2 ^ 40 := by omega
  have hd : r.den * s.num < 2 ^ 40 := by
    calc r.den * s.num ≤ r.den * 256 := Nat.mul_le_mul_left _ hsnum
      _ < 2 ^ 40 := by omega
  obtain ⟨t, ht, his, htrat⟩ := Ratio.over_eq hpos hspos (hn.trans (by norm_num)) (hd.trans (by norm_num))
  refine ⟨t, ?_, by rw [htrat, hrat, hsat, exactInflation], his.pos, lt_of_le_of_lt his.num_le hn,
    lt_of_le_of_lt his.den_le hd⟩
  rw [inflation, hr, hs]
  exact ht

end Geometry

namespace PoolGeometry

variable {pool : PoolGeometry}

def Accepted (pool : PoolGeometry) : Prop := ∀ g ∈ pool.data, g.Accepted

def exactInflation (pool : PoolGeometry) (block : BlockSize) : ℚ :=
  ((pool.data.map (·.exactInflation block)).max?).getD 1

/-- `I(b) × (1 + m(b))`. -/
def exactCharge (pool : PoolGeometry) (block : BlockSize) : ℚ :=
  pool.exactInflation block * (1 + 128 / block.bytes)

theorem inflations_eq {data : List Geometry} (h : ∀ g ∈ data, g.Accepted) (block : BlockSize) : ∃ rs,
    data.mapM (·.inflation block) = some rs ∧ rs.map Ratio.toRat = data.map (·.exactInflation block) ∧
      ∀ r ∈ rs, 0 < r.num ∧ r.num < 2 ^ 40 ∧ r.den < 2 ^ 40 := by
  induction data with
  | nil => exact ⟨[], rfl, rfl, by simp⟩
  | cons g data ih =>
    obtain ⟨r, hr, hrat, hbounds⟩ := Geometry.inflation_eq (h g List.mem_cons_self) block
    obtain ⟨rs, hrs, hrats, hall⟩ := ih fun g' hg' => h g' (List.mem_cons_of_mem _ hg')
    refine ⟨r :: rs, by simp [List.mapM_cons, hr, hrs], by simp [hrat, hrats], ?_⟩
    exact List.forall_mem_cons.mpr ⟨hbounds, hall⟩

theorem inflation_eq (h : pool.Accepted) (block : BlockSize) : ∃ r, pool.inflation block = some r ∧
    r.toRat = pool.exactInflation block ∧ 0 < r.num ∧ r.num < 2 ^ 40 ∧ r.den < 2 ^ 40 := by
  obtain ⟨rs, hrs, hrats, hall⟩ := inflations_eq h block
  refine ⟨(Ratio.largest rs).getD .one, by simp [inflation, hrs], ?_, ?_⟩
  · rw [Ratio.toRat_largest, hrats, exactInflation]
  · rcases Ratio.largest_mem rs with hone | hmem
    · rw [hone]
      decide
    · exact hall _ hmem

/-- The charge never overflows for vdevs that BMAC can build, and it is the exact one. -/
theorem chargePerByte_eq (h : pool.Accepted) (block : BlockSize) : ∃ r,
    pool.chargePerByte block = some r ∧ r.toRat = pool.exactCharge block ∧ 0 < r.num ∧
      r.num < 2 ^ 64 ∧ r.den < 2 ^ 64 := by
  have hbytes : 0 < block.bytes := lt_of_lt_of_le (by decide) block.valid.2.1
  have hmax := block.valid.2.2
  obtain ⟨m, hm, hmis⟩ := Ratio.new_eq (show 0 < 128 by decide) hbytes
  obtain ⟨r, hr, hrat, hpos, hnum, hden⟩ := inflation_eq h block
  have hmnum := hmis.num_le
  have hmden := hmis.den_le
  obtain ⟨s, hs, hsis⟩ := Ratio.new_eq (show 0 < m.den + m.num from Nat.add_pos_left m.pos m.num) m.pos
  have hsnum : s.num < 2 ^ 18 := by
    have := hsis.num_le
    omega
  have hsden : s.den < 2 ^ 18 := by
    have := hsis.den_le
    omega
  have hn : r.num * s.num < 2 ^ 64 := by
    calc r.num * s.num < 2 ^ 40 * 2 ^ 18 := Nat.mul_lt_mul'' hnum hsnum
      _ < 2 ^ 64 := by norm_num
  have hd : r.den * s.den < 2 ^ 64 := by
    calc r.den * s.den < 2 ^ 40 * 2 ^ 18 := Nat.mul_lt_mul'' hden hsden
      _ < 2 ^ 64 := by norm_num
  obtain ⟨t, ht, htis, htrat⟩ := Ratio.times_eq hpos hsis.pos hn hd
  refine ⟨t, ?_, ?_, htis.pos, lt_of_le_of_lt htis.num_le hn, lt_of_le_of_lt htis.den_le hd⟩
  · simp only [chargePerByte, BlockSize.metadataAllowance, hm, hr, Option.bind_eq_bind,
      Option.bind_some, fits_eq (show m.den + m.num < 2 ^ 64 by omega), hs]
    exact ht
  · have hmrat : (m.num : ℚ) / m.den = 128 / block.bytes := by
      have := hmis.toRat
      rw [Ratio.toRat] at this
      exact_mod_cast this
    have hone : s.toRat = 1 + 128 / block.bytes := by
      rw [hsis.toRat, ← hmrat]
      push_cast
      rw [add_div, div_self m.den_pos.ne']
    rw [htrat, hrat, hone, exactCharge]

end PoolGeometry

end Bmac.Storage
