import Bmac.Storage.Geometry

/-!
# Block sizes

The rest of `bmac-storage/src/geometry.rs`: what a vdev holds at a block size, the space that a volume
needs there, and the block size that BMAC suggests. A larger block never takes more space per byte
(`inflation_anti`), which is what the suggestion and the estimates rest on.
-/

namespace Bmac.Storage

open Bmac.Base.Checked

namespace Ratio

/-- `value × self`, rounded down. -/
def mulFloor (r : Ratio) (value : Nat) : Option Nat := do
  let n ← fits 128 (value * r.num)
  return saturate (n / r.den)

/-- `value × r`, rounded down, for a fraction of the value. -/
theorem mulFloor_eq {r : Ratio} {value : Nat} (hv : value < 2 ^ 64) (hn : r.num < 2 ^ 64)
    (hone : r.toRat ≤ 1) : ∃ q, r.mulFloor value = some q ∧ (q : ℚ) ≤ r.toRat * value ∧ q ≤ value := by
  have hle : r.num ≤ r.den := by
    rw [toRat, div_le_one r.den_pos] at hone
    exact_mod_cast hone
  have hfits : value * r.num < 2 ^ 128 := by
    calc value * r.num < 2 ^ 64 * 2 ^ 64 := Nat.mul_lt_mul'' hv hn
      _ = 2 ^ 128 := by norm_num
  have hq : value * r.num / r.den ≤ value := by
    refine Nat.div_le_of_le_mul ?_
    rw [Nat.mul_comm r.den]
    exact Nat.mul_le_mul_left value hle
  have hsat : saturate (value * r.num / r.den) = value * r.num / r.den := by
    unfold saturate
    omega
  refine ⟨value * r.num / r.den, ?_, ?_, hq⟩
  · simp only [mulFloor, fits_eq hfits, Option.bind_eq_bind, Option.bind_some, Option.pure_def, hsat]
  · calc ((value * r.num / r.den : Nat) : ℚ) ≤ ((value * r.num : Nat) : ℚ) / r.den := Nat.cast_div_le
      _ = r.toRat * value := by rw [toRat]; push_cast; ring

end Ratio

namespace BlockSize

def k16 : BlockSize := ⟨16384, ⟨14, by decide⟩, by decide, by decide⟩

def reporting : BlockSize := ⟨reportingBytes, ⟨17, by decide⟩, by decide, by decide⟩

end BlockSize

namespace Geometry

variable (g : Geometry)

def idealEfficiency : Option Ratio :=
  match g.kind with
  | .single => some .one
  | .mirror => Ratio.new 1 g.width
  | kind => do Ratio.new (← minus g.width (kind.parity.getD 0)) g.width

def reportedBytes (smallestMember : Nat) : Option Nat :=
  match g.kind with
  | .single | .mirror => some smallestMember
  | _ => do (← g.efficiency reportingBytes).mulFloor (← fits 64 (smallestMember * g.width))

/-- The nominal size: data disks times the smallest member. -/
def nominalBytes (smallestMember : Nat) : Option Nat :=
  match g.kind with
  | .single | .mirror => some smallestMember
  | kind => do fits 64 (smallestMember * (← minus g.width (kind.parity.getD 0)))

def vmBytes (smallestMember : Nat) (block : BlockSize) : Option Nat := do
  (← g.inflation block).divFloor (← g.reportedBytes smallestMember)

end Geometry

/-! ## The suggestion -/

def suggestedMaxInflation : Ratio := ⟨21, 20, by decide⟩

def worst (hosts : List PoolGeometry) (block : BlockSize) : Option Ratio := do
  return (Ratio.largest (← hosts.mapM (·.inflation block))).getD .one

/-- `Iterator::find`. -/
def firstWithin (hosts : List PoolGeometry) : List BlockSize → Option (Option BlockSize)
  | [] => some none
  | block :: rest => do
    if (← worst hosts block).le suggestedMaxInflation then return some block
    firstWithin hosts rest

/-- The first of two that are equal. -/
def lessInflated (a b : BlockSize × Ratio) : BlockSize × Ratio := if a.2.le b.2 then a else b

/-- `Iterator::min_by_key`. -/
def leastInflated (hosts : List PoolGeometry) (sizes : List BlockSize) : Option (Option BlockSize) := do
  match ← sizes.mapM fun block => do return (block, ← worst hosts block) with
  | [] => return none
  | first :: rest => return some (rest.foldl lessInflated first).1

/-- The smallest offered size whose inflation is within the limit on every host, or the one with the least
inflation. -/
def suggestedBlockSize (hosts : List PoolGeometry) (offered : List BlockSize) : Option (Option BlockSize) := do
  let sizes := offered.insertionSort fun a b => a.bytes ≤ b.bytes
  match ← firstWithin hosts sizes with
  | some block => return some block
  | none => leastInflated hosts sizes

/-! ## Rows of a raidz -/

section

variable {d e width p : Nat}

theorem raidz_add (hp : p < width) : Geometry.raidz (d + e) width p ≤
    Geometry.raidz d width p + Geometry.raidz e width p := by
  have hdata : 0 < width - p := by omega
  unfold Geometry.raidz
  rw [← Nat.add_mul]
  refine Nat.mul_le_mul_right _ (le_trans ?_ (ceilDiv_add_le _ _ (Nat.succ_pos p)))
  refine ceilDiv_mono ?_ (Nat.succ_pos p)
  have hparity := Nat.mul_le_mul_left p (ceilDiv_add_le d e hdata)
  rw [Nat.mul_add] at hparity
  omega

/-- `k` blocks next to each other take no less than one of their size. -/
theorem raidz_mul (hp : p < width) (k d : Nat) :
    Geometry.raidz (k * d) width p ≤ k * Geometry.raidz d width p := by
  induction k with
  | zero => simp [Geometry.raidz]
  | succ k ih =>
    rw [Nat.succ_mul, Nat.succ_mul]
    exact (raidz_add hp).trans (Nat.add_le_add_right ih _)

/-- A block takes at least its share of parity. -/
theorem raidz_ideal (hp : p < width) (d : Nat) : d * width ≤ (width - p) * Geometry.raidz d width p := by
  have hdata : 0 < width - p := by omega
  have hrow := le_ceilDiv_mul d hdata
  have hrows := le_ceilDiv_mul (d + p * (d ⌈/⌉ (width - p))) (Nat.succ_pos p)
  calc d * width = (width - p) * d + p * d := by
        rw [← Nat.add_mul, Nat.sub_add_cancel hp.le, Nat.mul_comm]
    _ ≤ (width - p) * d + p * ((d ⌈/⌉ (width - p)) * (width - p)) := by
        exact Nat.add_le_add_left (Nat.mul_le_mul_left p hrow) _
    _ = (width - p) * (d + p * (d ⌈/⌉ (width - p))) := by ring
    _ ≤ (width - p) * Geometry.raidz d width p := Nat.mul_le_mul_left _ hrows

end

namespace Geometry

variable {g : Geometry} {b b' : BlockSize}

theorem data_pow (g : Geometry) (i : Nat) : g.data (2 ^ i) = 2 ^ (i - g.ashift) := by
  unfold data
  rcases le_total g.ashift i with hle | hle
  · have hsplit : 2 ^ i = 2 ^ (i - g.ashift) * 2 ^ g.ashift := by rw [← pow_add, Nat.sub_add_cancel hle]
    have hceil : 2 ^ i ⌈/⌉ 2 ^ g.ashift = 2 ^ (i - g.ashift) := by
      refine le_antisymm (ceilDiv_le_of_le_mul (by positivity) (by rw [hsplit, Nat.mul_comm])) ?_
      have hup := le_ceilDiv_mul (2 ^ i) (show 0 < 2 ^ g.ashift by positivity)
      rw [hsplit] at hup ⊢
      exact Nat.le_of_mul_le_mul_right hup (by positivity)
    rw [hceil]
    exact max_eq_left Nat.one_le_two_pow
  · have hceil : 2 ^ i ⌈/⌉ 2 ^ g.ashift ≤ 1 :=
      ceilDiv_le_of_le_mul (by positivity) (by simpa using Nat.pow_le_pow_right (by decide) hle)
    rw [max_eq_right hceil, Nat.sub_eq_zero_of_le hle, pow_zero]

/-- A larger block has a multiple of a smaller one's data sectors. -/
theorem data_mul (g : Geometry) (h : b.bytes ≤ b'.bytes) : ∃ k, 0 < k ∧ g.data b'.bytes = k * g.data b.bytes := by
  obtain ⟨⟨i, hi⟩, -⟩ := b.valid
  obtain ⟨⟨j, hj⟩, -⟩ := b'.valid
  have hij : i ≤ j := by
    rw [hi, hj] at h
    exact (Nat.pow_le_pow_iff_right (by decide)).mp h
  refine ⟨2 ^ ((j - g.ashift) - (i - g.ashift)), by positivity, ?_⟩
  rw [hi, hj, data_pow, data_pow, ← pow_add]
  congr 1
  omega

theorem allocated_mul (h : g.Accepted) {k bytes bytes' : Nat} (hk : g.data bytes' = k * g.data bytes) :
    g.allocated bytes' ≤ k * g.allocated bytes := by
  have hraidz := raidz_mul h.parity k (g.data bytes)
  unfold allocated
  rw [hk]
  cases hkind : g.kind with
  | single => exact le_rfl
  | mirror => exact (Nat.mul_assoc ..).le
  | raidz1 => rwa [hkind] at hraidz
  | raidz2 => rwa [hkind] at hraidz
  | raidz3 => rwa [hkind] at hraidz

theorem efficiency_pos (h : g.Accepted) (b : BlockSize) : 0 < g.exactEfficiency b.bytes :=
  div_pos (by exact_mod_cast data_pos) (by exact_mod_cast allocated_pos h b.valid.2.2)

theorem efficiency_mono (h : g.Accepted) (hb : b.bytes ≤ b'.bytes) :
    g.exactEfficiency b.bytes ≤ g.exactEfficiency b'.bytes := by
  obtain ⟨k, hpos, hk⟩ := data_mul g hb
  have hall := allocated_mul h hk
  unfold exactEfficiency
  rw [div_le_div_iff₀ (by exact_mod_cast allocated_pos h b.valid.2.2)
    (by exact_mod_cast allocated_pos h b'.valid.2.2), hk]
  have hmul := Nat.mul_le_mul_left (g.data b.bytes) hall
  calc (g.data b.bytes : ℚ) * g.allocated b'.bytes ≤ g.data b.bytes * (k * g.allocated b.bytes : Nat) := by
        exact_mod_cast hmul
    _ = ((k * g.data b.bytes : Nat) : ℚ) * g.allocated b.bytes := by push_cast; ring

theorem inflation_anti (h : g.Accepted) (hb : b.bytes ≤ b'.bytes) :
    g.exactInflation b' ≤ g.exactInflation b :=
  div_le_div_of_nonneg_left (efficiency_pos h .reporting).le (efficiency_pos h b) (efficiency_mono h hb)

theorem one_le_inflation (h : g.Accepted) (b : BlockSize) : 1 ≤ g.exactInflation b := by
  have hself : g.exactInflation .reporting = 1 := div_self (efficiency_pos h .reporting).ne'
  exact hself ▸ inflation_anti h b.valid.2.2

/-- The best efficiency, exactly. -/
def exactIdeal (g : Geometry) : ℚ :=
  match g.kind with
  | .single => 1
  | .mirror => 1 / g.width
  | kind => ((g.width - kind.parity.getD 0 : Nat) : ℚ) / g.width

theorem raidz_le_ideal {d width p : Nat} (hp : p < width) (hpos : 0 < raidz d width p) :
    (d : ℚ) / raidz d width p ≤ ((width - p : Nat) : ℚ) / width := by
  have hwidth : (0 : ℚ) < width := by exact_mod_cast Nat.zero_lt_of_lt hp
  rw [div_le_div_iff₀ (by exact_mod_cast hpos) hwidth]
  exact_mod_cast raidz_ideal hp d

theorem efficiency_le_ideal (h : g.Accepted) {bytes : Nat} (hb : bytes ≤ reportingBytes) :
    g.exactEfficiency bytes ≤ g.exactIdeal := by
  have hpos := allocated_pos h hb
  have hp := h.parity
  have hdata : (0 : ℚ) < g.data bytes := by exact_mod_cast data_pos
  unfold exactEfficiency exactIdeal
  unfold allocated at hpos ⊢
  cases hkind : g.kind with
  | single => exact (div_self hdata.ne').le
  | mirror =>
    push_cast
    rw [div_mul_eq_div_div, div_self hdata.ne']
  | raidz1 => rw [hkind] at hpos hp; exact raidz_le_ideal hp hpos
  | raidz2 => rw [hkind] at hpos hp; exact raidz_le_ideal hp hpos
  | raidz3 => rw [hkind] at hpos hp; exact raidz_le_ideal hp hpos

theorem idealEfficiency_eq (h : g.Accepted) : ∃ r, g.idealEfficiency = some r ∧ r.toRat = g.exactIdeal := by
  have hp := h.parity
  have hwidth : 0 < g.width := Nat.zero_lt_of_lt hp
  have hraidz : ∃ r, (do Ratio.new (← minus g.width (g.kind.parity.getD 0)) g.width) = some r ∧
      r.toRat = ((g.width - g.kind.parity.getD 0 : Nat) : ℚ) / g.width := by
    obtain ⟨r, hr, his⟩ := Ratio.new_eq (show 0 < g.width - g.kind.parity.getD 0 by omega) hwidth
    exact ⟨r, by simp only [minus_eq hp.le, Option.bind_eq_bind, Option.bind_some, hr], his.toRat⟩
  unfold idealEfficiency exactIdeal
  cases hkind : g.kind with
  | single => exact ⟨.one, rfl, by simp [Ratio.toRat, Ratio.one]⟩
  | mirror =>
    obtain ⟨r, hr, his⟩ := Ratio.new_eq (show 0 < 1 by decide) hwidth
    exact ⟨r, hr, by simpa using his.toRat⟩
  | raidz1 => rw [hkind] at hraidz; exact hraidz
  | raidz2 => rw [hkind] at hraidz; exact hraidz
  | raidz3 => rw [hkind] at hraidz; exact hraidz

theorem ideal_le_one (h : g.Accepted) : g.exactIdeal ≤ 1 := by
  have hwidth : (1 : ℚ) ≤ g.width := by exact_mod_cast Nat.one_le_of_lt h.parity
  have hraidz : ((g.width - g.kind.parity.getD 0 : Nat) : ℚ) / g.width ≤ 1 := by
    rw [div_le_one (by linarith)]
    exact_mod_cast Nat.sub_le _ _
  unfold exactIdeal
  cases hkind : g.kind with
  | single => exact le_rfl
  | mirror => exact (div_le_one (by linarith)).mpr hwidth
  | raidz1 => rwa [hkind] at hraidz
  | raidz2 => rwa [hkind] at hraidz
  | raidz3 => rwa [hkind] at hraidz

section

variable {smallest : Nat} (h : g.Accepted) (hfits : smallest * g.width < 2 ^ 64)

include h hfits

theorem reported_le_nominal : ∃ reported nominal, g.reportedBytes smallest = some reported ∧
    g.nominalBytes smallest = some nominal ∧ reported ≤ nominal ∧ nominal < 2 ^ 64 := by
  have hp := h.parity
  have hsmall : smallest < 2 ^ 64 :=
    lt_of_le_of_lt (Nat.le_mul_of_pos_right smallest (Nat.zero_lt_of_lt hp)) hfits
  have hdisks : smallest * (g.width - g.kind.parity.getD 0) < 2 ^ 64 :=
    lt_of_le_of_lt (Nat.mul_le_mul_left smallest (Nat.sub_le _ _)) hfits
  obtain ⟨e, he, herat, -, hnum, -⟩ := efficiency_eq h (le_refl reportingBytes)
  have hideal := efficiency_le_ideal h (le_refl reportingBytes)
  obtain ⟨q, hq, hqle, -⟩ := Ratio.mulFloor_eq hfits (lt_of_le_of_lt hnum (by norm_num))
    (herat ▸ hideal.trans (ideal_le_one h))
  have hraidz (hi : g.exactIdeal = ((g.width - g.kind.parity.getD 0 : Nat) : ℚ) / g.width) :
      q ≤ smallest * (g.width - g.kind.parity.getD 0) := by
    have hwidth : (0 : ℚ) < g.width := by exact_mod_cast Nat.zero_lt_of_lt hp
    have hle : (q : ℚ) ≤ (smallest * (g.width - g.kind.parity.getD 0) : Nat) := by
      calc (q : ℚ) ≤ e.toRat * (smallest * g.width : Nat) := hqle
        _ ≤ g.exactIdeal * (smallest * g.width : Nat) := by
          rw [herat]
          exact mul_le_mul_of_nonneg_right hideal (Nat.cast_nonneg _)
        _ = (smallest * (g.width - g.kind.parity.getD 0) : Nat) := by
          rw [hi]
          push_cast
          field_simp
    exact_mod_cast hle
  have hmembers : ∃ reported nominal,
      (do (← g.efficiency reportingBytes).mulFloor (← fits 64 (smallest * g.width))) = some reported ∧
      (do fits 64 (smallest * (← minus g.width (g.kind.parity.getD 0)))) = some nominal ∧
      reported = q ∧ nominal = smallest * (g.width - g.kind.parity.getD 0) := by
    refine ⟨q, _, ?_, ?_, rfl, rfl⟩
    · simp only [he, fits_eq hfits, Option.bind_eq_bind, Option.bind_some, hq]
    · simp only [minus_eq hp.le, Option.bind_eq_bind, Option.bind_some, fits_eq hdisks]
  obtain ⟨reported, nominal, hr, hn, rfl, rfl⟩ := hmembers
  unfold reportedBytes nominalBytes
  unfold exactIdeal at hraidz
  cases hkind : g.kind with
  | single => exact ⟨smallest, smallest, rfl, rfl, le_rfl, hsmall⟩
  | mirror => exact ⟨smallest, smallest, rfl, rfl, le_rfl, hsmall⟩
  | raidz1 => rw [hkind] at hn hraidz hdisks; exact ⟨_, _, hr, hn, hraidz rfl, hdisks⟩
  | raidz2 => rw [hkind] at hn hraidz hdisks; exact ⟨_, _, hr, hn, hraidz rfl, hdisks⟩
  | raidz3 => rw [hkind] at hn hraidz hdisks; exact ⟨_, _, hr, hn, hraidz rfl, hdisks⟩

theorem vmBytes_eq (b : BlockSize) : ∃ reported vm, g.reportedBytes smallest = some reported ∧
    g.vmBytes smallest b = some vm ∧ ∀ n : Nat, n ≤ vm ↔ g.exactInflation b * n ≤ reported := by
  obtain ⟨reported, nominal, hr, -, hle, hlt⟩ := reported_le_nominal h hfits
  obtain ⟨i, hi, hirat, hpos, -, hden⟩ := inflation_eq h b
  obtain ⟨q, hq, hall⟩ := Ratio.divFloor_eq hpos (lt_of_le_of_lt hle hlt) (hden.trans (by norm_num))
  rw [hirat] at hall
  have hqle : q ≤ reported := by
    have hself := (hall q).mp le_rfl
    have hone : (q : ℚ) ≤ g.exactInflation b * q := le_mul_of_one_le_left (Nat.cast_nonneg q) (one_le_inflation h b)
    exact_mod_cast hone.trans hself
  have hsat : saturate q = q := by
    unfold saturate
    omega
  refine ⟨reported, q, hr, ?_, hall⟩
  simp only [vmBytes, hi, hr, Option.bind_eq_bind, Option.bind_some, hq, hsat]

/-- No figure of a vdev promises more than the one above it: not the VM data at a smaller block size more than
at a larger one, that data not more than what ZFS reports, that not more than the data disks have. And no
block size is more efficient than the geometry can be. -/
theorem figures_ordered (hb : b.bytes ≤ b'.bytes) : ∃ e e' ideal vm vm' reported nominal,
    (g.efficiency b.bytes = some e ∧ g.efficiency b'.bytes = some e' ∧ g.idealEfficiency = some ideal) ∧
    (e.toRat ≤ e'.toRat ∧ e'.toRat ≤ ideal.toRat) ∧
    (g.vmBytes smallest b = some vm ∧ g.vmBytes smallest b' = some vm' ∧
      g.reportedBytes smallest = some reported ∧ g.nominalBytes smallest = some nominal) ∧
    vm ≤ vm' ∧ vm' ≤ reported ∧ reported ≤ nominal := by
  obtain ⟨e, he, herat, -⟩ := efficiency_eq h b.valid.2.2
  obtain ⟨e', he', herat', -⟩ := efficiency_eq h b'.valid.2.2
  obtain ⟨ideal, hideal, hirat⟩ := idealEfficiency_eq h
  obtain ⟨reported, nominal, hr, hn, hle, -⟩ := reported_le_nominal h hfits
  obtain ⟨_, vm, hr₁, hvm, hall⟩ := vmBytes_eq h hfits b
  obtain ⟨_, vm', hr₂, hvm', hall'⟩ := vmBytes_eq h hfits b'
  obtain rfl := Option.some.inj (hr.symm.trans hr₁)
  obtain rfl := Option.some.inj (hr.symm.trans hr₂)
  refine ⟨e, e', ideal, vm, vm', reported, nominal, ⟨he, he', hideal⟩, ⟨?_, ?_⟩, ⟨hvm, hvm', hr, hn⟩, ?_, ?_, hle⟩
  · rw [herat, herat']
    exact efficiency_mono h hb
  · rw [herat', hirat]
    exact efficiency_le_ideal h b'.valid.2.2
  · have hless : g.exactInflation b' * vm ≤ g.exactInflation b * vm :=
      mul_le_mul_of_nonneg_right (inflation_anti h hb) (Nat.cast_nonneg vm)
    exact (hall' vm).mpr (hless.trans ((hall vm).mp le_rfl))
  · have hself := (hall' vm').mp le_rfl
    have hone : (vm' : ℚ) ≤ g.exactInflation b' * vm' :=
      le_mul_of_one_le_left (Nat.cast_nonneg vm') (one_le_inflation h b')
    exact_mod_cast hone.trans hself

end

/-- A raidz1 of four disks. -/
def fourDisks : Geometry := ⟨.raidz1, 4, 12⟩

theorem accepted_fourDisks : fourDisks.Accepted := ⟨by decide, by decide, by decide⟩

/-- Of 1 TB disks, at 16 and 128 KiB. -/
theorem figures_ordered_fourDisks : ∃ e e' ideal vm vm' reported nominal,
    (fourDisks.efficiency BlockSize.k16.bytes = some e ∧
      fourDisks.efficiency BlockSize.reporting.bytes = some e' ∧ fourDisks.idealEfficiency = some ideal) ∧
    (e.toRat ≤ e'.toRat ∧ e'.toRat ≤ ideal.toRat) ∧
    (fourDisks.vmBytes (10 ^ 12) .k16 = some vm ∧ fourDisks.vmBytes (10 ^ 12) .reporting = some vm' ∧
      fourDisks.reportedBytes (10 ^ 12) = some reported ∧ fourDisks.nominalBytes (10 ^ 12) = some nominal) ∧
    vm ≤ vm' ∧ vm' ≤ reported ∧ reported ≤ nominal :=
  have hfits : 10 ^ 12 * fourDisks.width < 2 ^ 64 := by decide
  have hbytes : BlockSize.k16.bytes ≤ BlockSize.reporting.bytes := by decide
  figures_ordered accepted_fourDisks hfits hbytes

end Geometry

/-! ## What is suggested -/

section

variable {hosts : List PoolGeometry} {b b' : BlockSize} {offered sizes : List BlockSize}
  {values : List ℚ}

theorem getD_max?_le {c : ℚ} (hone : 1 ≤ c) (h : ∀ x ∈ values, x ≤ c) : values.max?.getD 1 ≤ c := by
  cases hmax : values.max? with
  | none => exact hone
  | some top => exact h top (List.max?_mem hmax)

theorem one_le_getD_max? (h : ∀ x ∈ values, 1 ≤ x) : 1 ≤ values.max?.getD 1 := by
  cases hmax : values.max? with
  | none => exact le_rfl
  | some top => exact h top (List.max?_mem hmax)

theorem le_getD_max? {x : ℚ} (h : x ∈ values) : x ≤ values.max?.getD 1 := by
  cases hmax : values.max? with
  | none =>
    rw [List.max?_eq_none_iff] at hmax
    rw [hmax] at h
    cases h
  | some top => exact (List.max?_le_iff hmax).mp le_rfl x h

/-- Where no value grows, neither does the largest. -/
theorem getD_max?_map_mono {α : Type} {l : List α} {f f' : α → ℚ} (hone : ∀ a ∈ l, 1 ≤ f' a)
    (h : ∀ a ∈ l, f a ≤ f' a) : (l.map f).max?.getD 1 ≤ (l.map f').max?.getD 1 := by
  refine getD_max?_le (one_le_getD_max? ?_) ?_
  · simpa using hone
  · intro x hx
    obtain ⟨a, ha, rfl⟩ := List.mem_map.mp hx
    exact (h a ha).trans (le_getD_max? (List.mem_map_of_mem ha))

namespace PoolGeometry

variable {pool : PoolGeometry}

theorem one_le_inflation (h : pool.Accepted) (b : BlockSize) : 1 ≤ pool.exactInflation b := by
  refine one_le_getD_max? fun x hx => ?_
  obtain ⟨g, hg, rfl⟩ := List.mem_map.mp hx
  exact Geometry.one_le_inflation (h g hg) b

theorem inflation_anti (h : pool.Accepted) (hb : b.bytes ≤ b'.bytes) :
    pool.exactInflation b' ≤ pool.exactInflation b :=
  getD_max?_map_mono (fun g hg => Geometry.one_le_inflation (h g hg) b)
    fun g hg => Geometry.inflation_anti (h g hg) hb

end PoolGeometry

def exactWorst (hosts : List PoolGeometry) (block : BlockSize) : ℚ :=
  ((hosts.map (·.exactInflation block)).max?).getD 1

variable (h : ∀ host ∈ hosts, host.Accepted)

include h

theorem worst_anti (hb : b.bytes ≤ b'.bytes) : exactWorst hosts b' ≤ exactWorst hosts b :=
  getD_max?_map_mono (fun host hhost => PoolGeometry.one_le_inflation (h host hhost) b)
    fun host hhost => PoolGeometry.inflation_anti (h host hhost) hb

theorem worst_eq (block : BlockSize) : ∃ r, worst hosts block = some r ∧ r.toRat = exactWorst hosts block := by
  have hall : ∃ rs, hosts.mapM (·.inflation block) = some rs ∧
      rs.map Ratio.toRat = hosts.map (·.exactInflation block) := by
    induction hosts with
    | nil => exact ⟨[], rfl, rfl⟩
    | cons host hosts ih =>
      obtain ⟨r, hr, hrat, -⟩ := PoolGeometry.inflation_eq (h host List.mem_cons_self) block
      obtain ⟨rs, hrs, hrats⟩ := ih fun other hother => h other (List.mem_cons_of_mem _ hother)
      exact ⟨r :: rs, by simp [List.mapM_cons, hr, hrs], by simp [hrat, hrats]⟩
  obtain ⟨rs, hrs, hrats⟩ := hall
  refine ⟨(Ratio.largest rs).getD .one, by simp [worst, hrs], ?_⟩
  rw [Ratio.toRat_largest, hrats, exactWorst]

theorem firstWithin_eq (sizes : List BlockSize) :
    firstWithin hosts sizes = some (sizes.find? fun b => exactWorst hosts b ≤ 21 / 20) := by
  induction sizes with
  | nil => rfl
  | cons b rest ih =>
    obtain ⟨r, hr, hrat⟩ := worst_eq h b
    have hle : r.le suggestedMaxInflation = decide (exactWorst hosts b ≤ 21 / 20) := by
      rw [Bool.eq_iff_iff, decide_eq_true_iff, Ratio.le_iff, hrat]
      norm_num [suggestedMaxInflation, Ratio.toRat]
    rw [firstWithin, hr, Option.bind_eq_bind, Option.bind_some, hle, ih]
    by_cases hwithin : exactWorst hosts b ≤ 21 / 20
    · rw [List.find?_cons_of_pos (by simpa using hwithin)]
      simp [hwithin]
    · rw [List.find?_cons_of_neg (by simpa using hwithin)]
      simp [hwithin]

omit h in
/-- What the fold of `min_by_key` ends with, on keys in ascending order of the sizes. -/
theorem foldl_lessInflated {rest : List (BlockSize × Ratio)} {best : BlockSize × Ratio}
    (hsorted : (best :: rest).Pairwise fun a b => a.1.bytes ≤ b.1.bytes) :
    rest.foldl lessInflated best ∈ best :: rest ∧ ∀ other ∈ best :: rest,
      (rest.foldl lessInflated best).2.toRat ≤ other.2.toRat ∧
        (other.2.toRat = (rest.foldl lessInflated best).2.toRat →
          (rest.foldl lessInflated best).1.bytes ≤ other.1.bytes) := by
  induction rest generalizing best with
  | nil => simp
  | cons next rest ih =>
    obtain ⟨hbest, hrest⟩ := List.pairwise_cons.mp hsorted
    obtain ⟨hnext, htail⟩ := List.pairwise_cons.mp hrest
    rw [List.foldl_cons, lessInflated]
    split
    · rename_i hle
      have hkeep : (best :: rest).Pairwise fun a b => a.1.bytes ≤ b.1.bytes :=
        List.pairwise_cons.mpr ⟨fun x hx => hbest x (List.mem_cons_of_mem _ hx), htail⟩
      obtain ⟨hmem, hall⟩ := ih hkeep
      have hkept := hall best List.mem_cons_self
      refine ⟨?_, List.forall_mem_cons.mpr ⟨hkept, List.forall_mem_cons.mpr ⟨⟨?_, fun heq => ?_⟩, ?_⟩⟩⟩
      · rcases List.mem_cons.mp hmem with heq | hmem
        · rw [heq]
          exact List.mem_cons_self
        · exact List.mem_cons_of_mem _ (List.mem_cons_of_mem _ hmem)
      · exact hkept.1.trans (Ratio.le_iff.mp hle)
      · have hsame : best.2.toRat = (rest.foldl lessInflated best).2.toRat :=
          le_antisymm ((Ratio.le_iff.mp hle).trans_eq heq) hkept.1
        exact (hkept.2 hsame).trans (hbest next List.mem_cons_self)
      · exact fun other hother => hall other (List.mem_cons_of_mem _ hother)
    · rename_i hgt
      obtain ⟨hmem, hall⟩ := ih hrest
      have hless : next.2.toRat < best.2.toRat := lt_of_not_ge fun hge => hgt (Ratio.le_iff.mpr hge)
      have hkept := (hall next List.mem_cons_self).1
      refine ⟨List.mem_cons_of_mem _ hmem, List.forall_mem_cons.mpr ⟨⟨hkept.trans hless.le, fun heq => ?_⟩, hall⟩⟩
      exact absurd (heq.le.trans hkept) (not_le.mpr hless)

theorem leastInflated_eq (hsorted : sizes.Pairwise fun a b => a.bytes ≤ b.bytes) : ∃ best,
    leastInflated hosts sizes = some best ∧ (best = none ↔ sizes = []) ∧ ∀ b, best = some b → b ∈ sizes ∧
      ∀ b' ∈ sizes, exactWorst hosts b ≤ exactWorst hosts b' ∧
        (exactWorst hosts b' = exactWorst hosts b → b.bytes ≤ b'.bytes) := by
  choose key hkey hrat using worst_eq h
  have hkeyed : (sizes.mapM fun block => do return (block, ← worst hosts block)) =
      some (sizes.map fun block => (block, key block)) := by
    simp only [hkey, Option.bind_eq_bind, Option.bind_some, Option.pure_def]
    exact List.mapM_pure
  unfold leastInflated
  rw [hkeyed, Option.bind_eq_bind, Option.bind_some]
  cases sizes with
  | nil => exact ⟨none, rfl, by simp, fun b hb => by cases hb⟩
  | cons first rest =>
    have hpairs : ((first :: rest).map fun block => (block, key block)).Pairwise
        fun a b => a.1.bytes ≤ b.1.bytes := List.pairwise_map.mpr hsorted
    obtain ⟨hmem, hall⟩ := foldl_lessInflated hpairs
    obtain ⟨b, hb, heq⟩ := List.mem_map.mp (show _ ∈ (first :: rest).map fun block => (block, key block) from hmem)
    refine ⟨some b, ?_, by simp, ?_⟩
    · simp only [List.map_cons, Option.pure_def, ← heq]
    · rintro _ ⟨⟩
      refine ⟨hb, fun b' hb' => ?_⟩
      have hmem' : (b', key b') ∈ (first :: rest).map fun block => (block, key block) := List.mem_map_of_mem hb'
      have hother := hall _ hmem'
      rw [← heq] at hother
      simpa only [hrat] using hother

/-- The suggestion: where sizes within the limit are offered, the smallest of them, and then every larger one is
within it too; otherwise the smallest of the least inflated. Nothing on the way overflows. -/
theorem suggestion (offered : List BlockSize) : ∃ best, suggestedBlockSize hosts offered = some best ∧
    (best = none ↔ offered = []) ∧ ∀ b, best = some b → b ∈ offered ∧
      (exactWorst hosts b ≤ 21 / 20 → ∀ b' ∈ offered, exactWorst hosts b' ≤ 21 / 20 ↔ b.bytes ≤ b'.bytes) ∧
      (21 / 20 < exactWorst hosts b → ∀ b' ∈ offered, exactWorst hosts b ≤ exactWorst hosts b' ∧
        (exactWorst hosts b' = exactWorst hosts b → b.bytes ≤ b'.bytes)) := by
  have hperm := List.perm_insertionSort (fun a b : BlockSize => a.bytes ≤ b.bytes) offered
  have hsorted : (offered.insertionSort fun a b => a.bytes ≤ b.bytes).Pairwise fun a b => a.bytes ≤ b.bytes := by
    have htotal : Std.Total fun a b : BlockSize => a.bytes ≤ b.bytes := ⟨fun a b => le_total _ _⟩
    have htrans : IsTrans BlockSize fun a b => a.bytes ≤ b.bytes := ⟨fun _ _ _ => le_trans⟩
    exact List.pairwise_insertionSort _ _
  unfold suggestedBlockSize
  simp only [firstWithin_eq h, Option.bind_eq_bind, Option.bind_some]
  generalize offered.insertionSort (fun a b => a.bytes ≤ b.bytes) = sizes at hperm hsorted
  cases hfind : sizes.find? fun b => exactWorst hosts b ≤ 21 / 20 with
  | some b =>
    have hmem := List.mem_of_find?_eq_some hfind
    have hwithin : exactWorst hosts b ≤ 21 / 20 := by simpa using List.find?_some hfind
    refine ⟨some b, rfl, ?_, ?_⟩
    · have hne : offered ≠ [] := List.ne_nil_of_mem (hperm.mem_iff.mp hmem)
      simp [hne]
    · rintro _ ⟨⟩
      refine ⟨hperm.mem_iff.mp hmem, fun _ b' hb' => ⟨fun hb'within => ?_, fun hle => ?_⟩, fun hgt => ?_⟩
      · obtain ⟨-, before, after, hsplit, hbefore⟩ := List.find?_eq_some_iff_append.mp hfind
        rw [hsplit] at hsorted
        have hin := hperm.mem_iff.mpr hb'
        rw [hsplit, List.mem_append, List.mem_cons] at hin
        rcases hin with hin | rfl | hin
        · have hout := hbefore b' hin
          simp [hb'within] at hout
        · exact le_rfl
        · exact (List.pairwise_cons.mp (List.pairwise_append.mp hsorted).2.1).1 b' hin
      · exact (worst_anti h hle).trans hwithin
      · exact absurd hwithin (not_le.mpr hgt)
  | none =>
    obtain ⟨best, hbest, hnone, hall⟩ := leastInflated_eq h hsorted
    refine ⟨best, hbest, ?_, ?_⟩
    · rw [hnone, ← List.length_eq_zero_iff, hperm.length_eq, List.length_eq_zero_iff]
    · intro b hb
      obtain ⟨hmem, hleast⟩ := hall b hb
      have hout := List.find?_eq_none.mp hfind b hmem
      refine ⟨hperm.mem_iff.mp hmem, fun hwithin => absurd hwithin (by simpa using hout), fun _ b' hb' => ?_⟩
      exact hleast b' (hperm.mem_iff.mpr hb')

end

/-- One host with four disks, and the smallest and the largest size offered. -/
theorem suggestion_fourDisks : ∃ best,
    suggestedBlockSize [⟨[Geometry.fourDisks]⟩] [.reporting, .k16] = some best ∧
    (best = none ↔ [BlockSize.reporting, .k16] = []) ∧ ∀ b, best = some b → b ∈ [BlockSize.reporting, .k16] ∧
      (exactWorst [⟨[Geometry.fourDisks]⟩] b ≤ 21 / 20 → ∀ b' ∈ [BlockSize.reporting, .k16],
        exactWorst [⟨[Geometry.fourDisks]⟩] b' ≤ 21 / 20 ↔ b.bytes ≤ b'.bytes) ∧
      (21 / 20 < exactWorst [⟨[Geometry.fourDisks]⟩] b → ∀ b' ∈ [BlockSize.reporting, .k16],
        exactWorst [⟨[Geometry.fourDisks]⟩] b ≤ exactWorst [⟨[Geometry.fourDisks]⟩] b' ∧
          (exactWorst [⟨[Geometry.fourDisks]⟩] b' = exactWorst [⟨[Geometry.fourDisks]⟩] b →
            b.bytes ≤ b'.bytes)) := by
  refine suggestion ?_ _
  simp only [List.mem_singleton, forall_eq]
  intro g hg
  exact List.mem_singleton.mp hg ▸ Geometry.accepted_fourDisks

/-! ## The space that a volume needs -/

/-- What ZFS reports for one block on a vdev: its sectors, scaled as the vdev's size is. -/
def Geometry.reportedSpace (g : Geometry) (block : BlockSize) : ℚ :=
  g.allocated block.bytes * 2 ^ g.ashift * g.exactEfficiency reportingBytes

section

variable {g : Geometry} {pool : PoolGeometry} {block : BlockSize} {ashift : Nat}

theorem reportedSpace_eq (h : g.Accepted) (block : BlockSize) :
    g.reportedSpace block = max (block.bytes : ℚ) (2 ^ g.ashift) * g.exactInflation block := by
  have hall : (g.allocated block.bytes : ℚ) ≠ 0 := by exact_mod_cast (Geometry.allocated_pos h block.valid.2.2).ne'
  have hdata : (g.data block.bytes : ℚ) ≠ 0 := by
    exact_mod_cast (show g.data block.bytes ≠ 0 from Geometry.data_pos.ne')
  have hsectors : (g.data block.bytes : ℚ) * 2 ^ g.ashift = max (block.bytes : ℚ) (2 ^ g.ashift) := by
    obtain ⟨⟨i, hi⟩, -⟩ := block.valid
    rw [hi, Geometry.data_pow]
    rcases le_total g.ashift i with hle | hle
    · have hpow : (2 : ℚ) ^ g.ashift ≤ 2 ^ i := pow_le_pow_right₀ (by norm_num) hle
      push_cast
      rw [max_eq_left hpow, ← pow_add, Nat.sub_add_cancel hle]
    · have hpow : (2 : ℚ) ^ i ≤ 2 ^ g.ashift := pow_le_pow_right₀ (by norm_num) hle
      push_cast
      rw [max_eq_right hpow, Nat.sub_eq_zero_of_le hle, pow_zero, one_mul]
  rw [← hsectors, Geometry.reportedSpace, Geometry.exactInflation, Geometry.exactEfficiency,
    Geometry.exactEfficiency]
  field_simp

theorem inflation_le (hg : g ∈ pool.data) : g.exactInflation block ≤ pool.exactInflation block :=
  le_getD_max? (List.mem_map_of_mem hg)

theorem exists_most_inflated (hne : pool.data ≠ []) (block : BlockSize) :
    ∃ g ∈ pool.data, g.exactInflation block = pool.exactInflation block := by
  unfold PoolGeometry.exactInflation
  cases hmax : (pool.data.map (·.exactInflation block)).max? with
  | none => simp [List.max?_eq_none_iff, hne] at hmax
  | some top =>
    obtain ⟨g, hg, heq⟩ := List.mem_map.mp (List.max?_mem hmax)
    exact ⟨g, hg, heq⟩

theorem spaceNeeded_eq (h : pool.Accepted) (block : BlockSize) {volsize : Nat} (hv : volsize < 2 ^ 64) :
    ∃ q, pool.spaceNeeded volsize block = some (saturate q) ∧
      ∀ n : Nat, q ≤ n ↔ pool.exactCharge block * volsize ≤ n := by
  obtain ⟨c, hc, hrat, -, hnum, -⟩ := PoolGeometry.chargePerByte_eq h block
  obtain ⟨q, hq, hall⟩ := Ratio.mulCeil_eq hv hnum
  refine ⟨q, ?_, hrat ▸ hall⟩
  simp only [PoolGeometry.spaceNeeded, hc, Option.bind_eq_bind, Option.bind_some, hq]

/-- Blocks of the pool's vdevs take no more than their bytes, as inflated on the worst vdev. -/
theorem sum_reportedSpace_le (h : pool.Accepted) (hashift : ∀ g ∈ pool.data, g.ashift = ashift)
    (hsector : 2 ^ ashift ≤ block.bytes) {blocks : List Geometry} (hblocks : ∀ g ∈ blocks, g ∈ pool.data) :
    (blocks.map (·.reportedSpace block)).sum ≤ pool.exactInflation block * (block.bytes * blocks.length : Nat) := by
  induction blocks with
  | nil => simp
  | cons g blocks ih =>
    obtain ⟨hg, hrest⟩ := List.forall_mem_cons.mp hblocks
    have hbytes : g.reportedSpace block ≤ block.bytes * pool.exactInflation block := by
      rw [reportedSpace_eq (h g hg), hashift g hg, max_eq_left (by exact_mod_cast hsector)]
      exact mul_le_mul_of_nonneg_left (inflation_le hg) (Nat.cast_nonneg _)
    rw [List.map_cons, List.sum_cons]
    calc g.reportedSpace block + (blocks.map (·.reportedSpace block)).sum
        ≤ block.bytes * pool.exactInflation block +
          pool.exactInflation block * (block.bytes * blocks.length : Nat) := add_le_add hbytes (ih hrest)
      _ = pool.exactInflation block * (block.bytes * (g :: blocks).length : Nat) := by
          rw [List.length_cons]
          push_cast
          ring

theorem inflation_lt (h : pool.Accepted) (block : BlockSize) : pool.exactInflation block < 2 ^ 40 := by
  obtain ⟨r, -, hrat, -, hnum, -⟩ := PoolGeometry.inflation_eq h block
  have hden : (1 : ℚ) ≤ r.den := by exact_mod_cast r.pos
  rw [← hrat, Ratio.toRat]
  calc (r.num : ℚ) / r.den ≤ r.num := div_le_self (Nat.cast_nonneg _) hden
    _ < 2 ^ 40 := by exact_mod_cast hnum

theorem two_mul_le_sector (hlarge : block.bytes < 2 ^ ashift) : 2 * block.bytes ≤ 2 ^ ashift := by
  obtain ⟨⟨i, hi⟩, -⟩ := block.valid
  rw [hi] at hlarge ⊢
  have hlt : i < ashift := (Nat.pow_lt_pow_iff_right (by decide)).mp hlarge
  calc 2 * 2 ^ i = 2 ^ (i + 1) := (pow_succ' 2 i).symm
    _ ≤ 2 ^ ashift := Nat.pow_le_pow_right (by decide) hlt

theorem needed_lt_reportedSpace (h : pool.Accepted) (hg : g ∈ pool.data)
    (hworst : g.exactInflation block = pool.exactInflation block) (hlarge : block.bytes < 2 ^ g.ashift) {q : Nat}
    (hq : ∀ n : Nat, q ≤ n ↔ pool.exactCharge block * block.bytes ≤ n) :
    q < 2 ^ 64 - 1 ∧ (q : ℚ) < g.reportedSpace block := by
  have hbytes : (512 : ℚ) ≤ block.bytes := by exact_mod_cast block.valid.2.1
  have hmax : (block.bytes : ℚ) ≤ 2 ^ 17 := by exact_mod_cast block.valid.2.2
  have hone := PoolGeometry.one_le_inflation h block
  have hlt := inflation_lt h block
  have hcharge : pool.exactCharge block * block.bytes = pool.exactInflation block * (block.bytes + 128) := by
    rw [PoolGeometry.exactCharge]
    field_simp
  have hround : (q : ℚ) < pool.exactInflation block * (block.bytes + 128) + 1 := by
    by_contra hge
    have hpos : 1 ≤ q := by
      have : (1 : ℚ) ≤ q := by nlinarith
      exact_mod_cast this
    have hless := (hq (q - 1)).mpr (by rw [hcharge, Nat.cast_sub hpos]; push_cast; linarith)
    omega
  have hspace : 2 * (block.bytes : ℚ) * pool.exactInflation block ≤ g.reportedSpace block := by
    rw [reportedSpace_eq (h g hg), hworst]
    have hsector : 2 * (block.bytes : ℚ) ≤ 2 ^ g.ashift := by exact_mod_cast two_mul_le_sector hlarge
    exact mul_le_mul_of_nonneg_right (hsector.trans (le_max_right _ _)) (by linarith)
  have hsmall : (q : ℚ) < 2 ^ 63 := by nlinarith
  refine ⟨?_, by nlinarith⟩
  have hnat : q < 2 ^ 63 := by exact_mod_cast hsmall
  omega

/-- The estimate covers a full volume however its blocks lie on the vdevs, exactly when no sector is larger than
a block. -/
theorem space_suffices (h : pool.Accepted) (hashift : ∀ g ∈ pool.data, g.ashift = ashift)
    (hne : pool.data ≠ []) (block : BlockSize) :
    (∀ volsize (blocks : List Geometry), volsize < 2 ^ 64 → volsize = block.bytes * blocks.length →
      (∀ g ∈ blocks, g ∈ pool.data) → ∃ needed, pool.spaceNeeded volsize block = some needed ∧
        (needed = 2 ^ 64 - 1 ∨ (blocks.map (·.reportedSpace block)).sum ≤ needed)) ↔
      2 ^ ashift ≤ block.bytes := by
  have hone := PoolGeometry.one_le_inflation h block
  have hcharge (volsize : Nat) : pool.exactInflation block * volsize ≤ pool.exactCharge block * volsize := by
    have hmeta : (0 : ℚ) ≤ 128 / block.bytes := by positivity
    refine mul_le_mul_of_nonneg_right ?_ (Nat.cast_nonneg _)
    exact le_mul_of_one_le_right (by linarith) (by linarith)
  constructor
  · intro hcovers
    by_contra hlarge
    obtain ⟨g, hg, hworst⟩ := exists_most_inflated hne block
    have hmax : block.bytes < 2 ^ 64 := lt_of_le_of_lt block.valid.2.2 (by norm_num)
    obtain ⟨needed, hneeded, hcovered⟩ := hcovers block.bytes [g] hmax (by simp) (by simpa using hg)
    obtain ⟨q, hq, hall⟩ := spaceNeeded_eq h block hmax
    obtain rfl := Option.some.inj (hneeded.symm.trans hq)
    obtain ⟨hfits, hless⟩ := needed_lt_reportedSpace h hg hworst (by rw [hashift g hg]; omega) hall
    have hsat : saturate q = q := min_eq_left hfits.le
    rw [hsat, List.map_cons, List.map_nil, List.sum_singleton] at hcovered
    rcases hcovered with heq | hle
    · omega
    · exact absurd hle (not_le.mpr hless)
  · intro hsector volsize blocks hv hvol hblocks
    obtain ⟨q, hq, hall⟩ := spaceNeeded_eq h block hv
    have hsum := sum_reportedSpace_le h hashift hsector hblocks
    rw [← hvol] at hsum
    have hcovered : (blocks.map (·.reportedSpace block)).sum ≤ q :=
      (hsum.trans (hcharge volsize)).trans ((hall q).mp le_rfl)
    refine ⟨_, hq, ?_⟩
    unfold saturate
    rcases Nat.lt_or_ge q (2 ^ 64 - 1) with hlt | hge
    · rw [min_eq_left hlt.le]
      exact .inr hcovered
    · exact .inl (min_eq_right hge)

end

/-- Four disks, 16 KiB blocks. -/
theorem space_suffices_fourDisks :
    (∀ volsize (blocks : List Geometry), volsize < 2 ^ 64 → volsize = BlockSize.k16.bytes * blocks.length →
      (∀ g ∈ blocks, g ∈ (⟨[.fourDisks]⟩ : PoolGeometry).data) →
        ∃ needed, (⟨[.fourDisks]⟩ : PoolGeometry).spaceNeeded volsize .k16 = some needed ∧
          (needed = 2 ^ 64 - 1 ∨ (blocks.map (·.reportedSpace .k16)).sum ≤ needed)) ↔
      2 ^ 12 ≤ BlockSize.k16.bytes := by
  have haccepted : (⟨[.fourDisks]⟩ : PoolGeometry).Accepted := by
    intro g hg
    exact List.mem_singleton.mp hg ▸ Geometry.accepted_fourDisks
  have hashift : ∀ g ∈ (⟨[.fourDisks]⟩ : PoolGeometry).data, g.ashift = 12 := by
    intro g hg
    rw [List.mem_singleton.mp hg]
    rfl
  exact space_suffices haccepted hashift (List.cons_ne_nil _ _) .k16

end Bmac.Storage
