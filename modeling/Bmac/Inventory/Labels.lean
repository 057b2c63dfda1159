import Bmac.Inventory.Nvlist

/-!
# Labels on a device

`label_slots`, `read_label` and `zero_labels` of `bmac-inventory/src/zfs.rs` on a device whose reads and
writes succeed. A device and where it starts in its disk are below 2^63 bytes together, so no sum of the
source leaves a `u64`. Clearing leaves no label that is read (`labels_cleared`), and copies that a grown
partition leaves inside it are still looked at (`grown_slots`).
-/

namespace Bmac.Inventory

open Bmac.Base.Bytes Bmac.Core

def labelSize : Nat := 256 * 1024

def nvlistOffset : Nat := 16 * 1024

def nvlistSize : Nat := 112 * 1024 - 40

def tailScan : Nat := 64 * 1024 * 1024

def gib : Nat := 1024 * 1024 * 1024

/-- A size without what is after its last whole label. -/
def aligned (size : Nat) : Nat := size - size % labelSize

def labelOffsets (size : Nat) : List Nat :=
  if aligned size < 4 * labelSize then
    if 2 * labelSize ≤ aligned size then [0, labelSize] else []
  else [0, labelSize, aligned size - 2 * labelSize, aligned size - labelSize]

/-- The values of a loop that goes from `x` in steps while it isn't past `last`. -/
def every (step : Nat) (hstep : 0 < step) (last x : Nat) : List Nat :=
  if x ≤ last then x :: every step hstep last (x + step) else []
termination_by last + 1 - x

theorem labelSize_pos : 0 < labelSize := by decide

theorem gib_pos : 0 < gib := by decide

/-- The slots near the end. The loop's `offset + LABEL_SIZE <= aligned` is that of its last offset. -/
def tailSlots (size : Nat) : List Nat :=
  every labelSize labelSize_pos (aligned size - labelSize) (max (aligned size - tailScan) (2 * labelSize))

/-- The end slots of a partition that ended on a whole GiB of the disk. -/
def gibSlots (size start : Nat) : List Nat :=
  (every gib gib_pos (start + aligned size) ((start / gib + 1) * gib)).flatMap fun stop =>
    let oldSize := stop - start
    if oldSize % labelSize = 0 ∧ 4 * labelSize ≤ oldSize then (labelOffsets oldSize).drop 2 else []

def labelSlots (size start : Nat) : List Nat :=
  let more := if 4 * labelSize ≤ aligned size then tailSlots size ++ gibSlots size start else []
  (labelOffsets size ++ more).dedup.mergeSort

/-! ## Devices -/

structure Device where
  size : Nat
  byte : Nat → UInt8

/-- `read_exact` after a seek. -/
def Device.read (d : Device) (offset count : Nat) : Option (List UInt8) :=
  if offset + count ≤ d.size then some ((List.range count).map fun i => d.byte (offset + i)) else none

/-- Zeros from an offset on. -/
def Device.zero (d : Device) (offset count : Nat) : Device :=
  { d with byte := fun x => if offset ≤ x ∧ x < offset + count then 0 else d.byte x }

/-- `decode_nvlist` with the rounds that it needs (`nvlist_ends`). -/
def decoded (buf : List UInt8) : Option (Dict NvValue) := (decodeNvlist (buf.length + 1) buf).toOption

def hasGuid (pairs : Dict NvValue) : Bool := (pairs.get? "guid").isSome || (pairs.get? "pool_guid").isSome

def labelAt (d : Device) (offset : Nat) : Option (Dict NvValue) := do
  let start ← d.read (offset + nvlistOffset) 4
  if start.head? ≠ some xdr then none
  let rest ← d.read (offset + nvlistOffset + 4) (nvlistSize - 4)
  (decoded (start ++ rest)).filter hasGuid

inductive ZfsPoolState where
  | active | exported | destroyed | spare | l2cache | uninitialized | unavail | potentiallyActive | unknown
  deriving DecidableEq

def state : Option Nat → ZfsPoolState
  | some 0 => .active
  | some 1 => .exported
  | some 2 => .destroyed
  | some 3 => .spare
  | some 4 => .l2cache
  | some 5 => .uninitialized
  | some 6 => .unavail
  | some 7 => .potentiallyActive
  | _ => .unknown

structure ZfsLabel where
  device : String
  pool : Option String
  poolGuid : Option String
  vdevGuid : Option String
  state : ZfsPoolState
  txg : Option Nat
  hostname : Option String
  copies : Nat

def textOf (pairs : Dict NvValue) (key : String) : Option String :=
  match pairs.get? key with
  | some (.str s) => some s
  | _ => none

def numberOf (pairs : Dict NvValue) (key : String) : Option Nat :=
  match pairs.get? key with
  | some (.u64 n) => some n.toNat
  | _ => none

def txg (pairs : Dict NvValue) : Nat := (numberOf pairs "txg").getD 0

/-- `max_by_key`: the last one of the largest. -/
def newest : List (Dict NvValue) → Option (Dict NvValue)
  | [] => none
  | pairs :: rest =>
    match newest rest with
    | none => some pairs
    | some found => if txg pairs ≤ txg found then some found else some pairs

def copies (d : Device) (start : Nat) : List (Dict NvValue) := (labelSlots d.size start).filterMap (labelAt d)

def readLabel (path : String) (d : Device) (start : Nat) : Option ZfsLabel := do
  let found ← newest (copies d start)
  return {
    device := path
    pool := textOf found "name"
    poolGuid := (numberOf found "pool_guid").map Nat.repr
    vdevGuid := (numberOf found "guid").map Nat.repr
    state := state (numberOf found "state")
    txg := numberOf found "txg"
    hostname := textOf found "hostname"
    copies := (copies d start).length }

/-- The slots that `zero_labels` writes. -/
def clearedSlots (d : Device) (start : Nat) : List Nat :=
  (labelSlots d.size start).filter fun offset =>
    (labelOffsets d.size).contains offset || (labelAt d offset).isSome

def zeroLabels (d : Device) (start : Nat) : Device :=
  (clearedSlots d start).foldl (fun d offset => d.zero offset labelSize) d

/-! ## Slots -/

theorem mem_every {step last x y : Nat} {hstep : 0 < step} :
    y ∈ every step hstep last x ↔ y ≤ last ∧ ∃ k, y = x + k * step := by
  obtain ⟨n, hn⟩ : ∃ n, last + 1 - x ≤ n := ⟨_, le_rfl⟩
  induction n generalizing x with
  | zero =>
    rw [every, if_neg (by omega)]
    refine iff_of_false List.not_mem_nil ?_
    rintro ⟨hle, k, rfl⟩
    omega
  | succ n ih =>
    rw [every]
    split
    · rename_i hle
      rw [List.mem_cons, ih (by omega)]
      constructor
      · rintro (rfl | ⟨hle, k, rfl⟩)
        · exact ⟨hle, 0, by omega⟩
        · exact ⟨hle, k + 1, by rw [Nat.succ_mul]; omega⟩
      · rintro ⟨hle, k, rfl⟩
        cases k with
        | zero => exact .inl (by omega)
        | succ k => exact .inr ⟨hle, k, by rw [Nat.succ_mul]; omega⟩
    · refine iff_of_false List.not_mem_nil ?_
      rintro ⟨hle, k, rfl⟩
      omega

theorem aligned_le (size : Nat) : aligned size ≤ size := Nat.sub_le _ _

theorem aligned_dvd (size : Nat) : labelSize ∣ aligned size := Nat.dvd_sub_mod size

variable {size slot : Nat} {d : Device}

theorem aligned_of_dvd (h : labelSize ∣ size) : aligned size = size := by
  rw [aligned, Nat.mod_eq_zero_of_dvd h, Nat.sub_zero]

/-- A whole label of a device. -/
def Inside (size slot : Nat) : Prop := labelSize ∣ slot ∧ slot + labelSize ≤ aligned size

theorem inside_offsets (h : slot ∈ labelOffsets size) : Inside size slot := by
  have hdvd := aligned_dvd size
  unfold labelOffsets at h
  unfold Inside
  unfold labelSize at *
  split at h
  · split at h
    · simp only [List.mem_cons, List.not_mem_nil, or_false] at h
      omega
    · cases h
  · simp only [List.mem_cons, List.not_mem_nil, or_false] at h
    omega

theorem mem_tailSlots (h : 4 * labelSize ≤ aligned size) : slot ∈ tailSlots size ↔
    Inside size slot ∧ max (aligned size - tailScan) (2 * labelSize) ≤ slot := by
  have hdvd := aligned_dvd size
  rw [tailSlots, mem_every, Inside]
  unfold tailScan
  unfold labelSize at *
  constructor
  · rintro ⟨hle, k, rfl⟩
    omega
  · rintro ⟨⟨hslot, hle⟩, hfirst⟩
    refine ⟨by omega, (slot - max (aligned size - 64 * 1024 * 1024) (2 * (256 * 1024))) / (256 * 1024), ?_⟩
    omega

variable {start : Nat}

theorem mem_gibSlots : slot ∈ gibSlots size start ↔
    ∃ oldSize, oldSize ≤ aligned size ∧ gib ∣ start + oldSize ∧ labelSize ∣ oldSize ∧
      4 * labelSize ≤ oldSize ∧ (slot = oldSize - 2 * labelSize ∨ slot = oldSize - labelSize) := by
  have hends (oldSize : Nat) : (slot ∈ if oldSize % labelSize = 0 ∧ 4 * labelSize ≤ oldSize then
      (labelOffsets oldSize).drop 2 else []) ↔ (labelSize ∣ oldSize ∧ 4 * labelSize ≤ oldSize) ∧
        (slot = oldSize - 2 * labelSize ∨ slot = oldSize - labelSize) := by
    split
    · rename_i h
      have hdvd := Nat.dvd_of_mod_eq_zero h.1
      rw [labelOffsets, aligned_of_dvd hdvd, if_neg (by omega)]
      simp [hdvd, h.2]
    · rename_i h
      rw [← Nat.dvd_iff_mod_eq_zero] at h
      simp [h]
  simp only [gibSlots, List.mem_flatMap, mem_every, hends]
  constructor
  · rintro ⟨stop, ⟨hle, k, rfl⟩, ⟨hdvd, hleast⟩, hslot⟩
    refine ⟨_, ?_, ?_, hdvd, hleast, hslot⟩
    · unfold gib at *
      omega
    · unfold gib at *
      omega
  · rintro ⟨oldSize, hle, hgib, hdvd, hleast, hslot⟩
    refine ⟨start + oldSize, ⟨by omega, (start + oldSize) / gib - (start / gib + 1), ?_⟩, ?_⟩
    · unfold labelSize at hleast
      unfold gib at *
      omega
    · rw [Nat.add_sub_cancel_left]
      exact ⟨⟨hdvd, hleast⟩, hslot⟩

theorem mem_labelSlots : slot ∈ labelSlots size start ↔ slot ∈ labelOffsets size ∨
    (4 * labelSize ≤ aligned size ∧ (slot ∈ tailSlots size ∨ slot ∈ gibSlots size start)) := by
  rw [labelSlots, List.mem_mergeSort, List.mem_dedup, List.mem_append]
  split
  · rename_i h
    rw [List.mem_append]
    exact or_congr_right (by simp [h])
  · rename_i h
    simp [h]

theorem inside_slots (h : slot ∈ labelSlots size start) : Inside size slot := by
  rcases mem_labelSlots.mp h with h | ⟨hsize, h | h⟩
  · exact inside_offsets h
  · exact ((mem_tailSlots hsize).mp h).1
  · obtain ⟨oldSize, hle, -, hdvd, hleast, hslot⟩ := mem_gibSlots.mp h
    unfold Inside
    unfold labelSize at *
    omega

/-! ## Clearing -/

theorem size_zeros (slots : List Nat) (d : Device) :
    (slots.foldl (fun d offset => d.zero offset labelSize) d).size = d.size := by
  induction slots generalizing d with
  | nil => rfl
  | cons slot slots ih => exact ih _

theorem byte_zeros (slots : List Nat) (d : Device) (x : Nat) :
    (slots.foldl (fun d offset => d.zero offset labelSize) d).byte x =
      if ∃ slot ∈ slots, slot ≤ x ∧ x < slot + labelSize then 0 else d.byte x := by
  induction slots generalizing d with
  | nil => simp
  | cons slot slots ih =>
    rw [List.foldl_cons, ih]
    by_cases hrest : ∃ t ∈ slots, t ≤ x ∧ x < t + labelSize
    · obtain ⟨t, ht, hx⟩ := hrest
      rw [if_pos ⟨t, ht, hx⟩, if_pos ⟨t, List.mem_cons_of_mem slot ht, hx⟩]
    · rw [if_neg hrest]
      by_cases hslot : slot ≤ x ∧ x < slot + labelSize
      · rw [if_pos ⟨slot, List.mem_cons_self, hslot⟩]
        exact if_pos hslot
      · rw [if_neg]
        · exact if_neg hslot
        · rintro ⟨t, ht, hx⟩
          rcases List.mem_cons.mp ht with rfl | ht
          · exact hslot hx
          · exact hrest ⟨t, ht, hx⟩

theorem slot_eq {s t x : Nat} (hs : labelSize ∣ s) (ht : labelSize ∣ t) (hsx : s ≤ x ∧ x < s + labelSize)
    (htx : t ≤ x ∧ x < t + labelSize) : s = t := by
  unfold labelSize at *
  omega

theorem read_congr {d' : Device} {offset count : Nat} (hsize : d'.size = d.size)
    (h : ∀ i < count, d'.byte (offset + i) = d.byte (offset + i)) : d'.read offset count = d.read offset count := by
  unfold Device.read
  rw [hsize, List.map_congr_left fun i hi => h i (List.mem_range.mp hi)]

theorem labelAt_congr {d' : Device} (hsize : d'.size = d.size)
    (h : ∀ x, slot ≤ x → x < slot + labelSize → d'.byte x = d.byte x) : labelAt d' slot = labelAt d slot := by
  unfold labelAt
  rw [read_congr hsize fun i hi => h _ (by omega) (by unfold nvlistOffset labelSize; omega),
    read_congr hsize fun i hi => h _ (by omega) (by unfold nvlistSize at hi; unfold nvlistOffset labelSize; omega)]

theorem labelAt_zeros (h : ∀ x, slot ≤ x → x < slot + labelSize → d.byte x = 0) :
    labelAt d slot = none := by
  have hbyte : d.byte (slot + nvlistOffset) = 0 := h _ (by omega) (by unfold nvlistOffset labelSize; omega)
  unfold labelAt
  cases hread : d.read (slot + nvlistOffset) 4 with
  | none => rfl
  | some start =>
    have hhead : start.head? = some 0 := by
      unfold Device.read at hread
      split at hread
      · obtain rfl := Option.some.inj hread
        show some (d.byte (slot + nvlistOffset)) = some 0
        rw [hbyte]
      · cases hread
    show (if start.head? ≠ some xdr then none else _) = none
    rw [if_pos]
    rw [hhead]
    decide

section

variable (d : Device) (start : Nat)

theorem size_zeroLabels : (zeroLabels d start).size = d.size := size_zeros _ d

theorem byte_zeroLabels (x : Nat) : (zeroLabels d start).byte x =
    if ∃ slot ∈ clearedSlots d start, slot ≤ x ∧ x < slot + labelSize then 0 else d.byte x := byte_zeros _ d x

theorem mem_clearedSlots : slot ∈ clearedSlots d start ↔ slot ∈ labelSlots d.size start ∧
    (slot ∈ labelOffsets d.size ∨ (labelAt d slot).isSome = true) := by
  rw [clearedSlots, List.mem_filter, Bool.or_eq_true, List.contains_iff_mem]

/-- No slot holds a copy after clearing: the cleared ones are zeros, and the others held none. -/
theorem labelAt_zeroLabels (h : slot ∈ labelSlots d.size start) :
    labelAt (zeroLabels d start) slot = none := by
  by_cases hcleared : slot ∈ clearedSlots d start
  · refine labelAt_zeros fun x hlow hhigh => ?_
    rw [byte_zeroLabels, if_pos ⟨slot, hcleared, hlow, hhigh⟩]
  · have hsame : labelAt (zeroLabels d start) slot = labelAt d slot := by
      refine labelAt_congr (size_zeroLabels d start) fun x hlow hhigh => ?_
      rw [byte_zeroLabels, if_neg]
      rintro ⟨t, ht, hx⟩
      have htslot := (mem_clearedSlots d start).mp ht
      rw [slot_eq (inside_slots h).1 (inside_slots htslot.1).1 ⟨hlow, hhigh⟩ hx] at hcleared
      exact hcleared ht
    rw [hsame]
    rw [mem_clearedSlots, not_and] at hcleared
    simpa using (not_or.mp (hcleared h)).2

/-- After clearing no label is read. Only whole labels of the device are written: the standard ones, and
those in which a copy was found. -/
theorem labels_cleared (path : String) : readLabel path (zeroLabels d start) start = none ∧
    (zeroLabels d start).size = d.size ∧ ∀ x, (zeroLabels d start).byte x ≠ d.byte x →
      ∃ slot, (slot ≤ x ∧ x < slot + labelSize) ∧ slot + labelSize ≤ d.size ∧
        (slot ∈ labelOffsets d.size ∨ slot ∈ labelSlots d.size start ∧ (labelAt d slot).isSome = true) := by
  refine ⟨?_, size_zeroLabels d start, fun x hx => ?_⟩
  · have hnone : copies (zeroLabels d start) start = [] := by
      refine List.filterMap_eq_nil_iff.mpr fun slot hslot => labelAt_zeroLabels d start ?_
      rwa [size_zeroLabels] at hslot
    unfold readLabel
    rw [hnone]
    rfl
  · rw [byte_zeroLabels] at hx
    split at hx
    · rename_i hslot
      obtain ⟨slot, hcleared, hin⟩ := hslot
      obtain ⟨hslot, hwhy⟩ := (mem_clearedSlots d start).mp hcleared
      exact ⟨slot, hin, (inside_slots hslot).2.trans (aligned_le d.size), hwhy.imp_right fun h => ⟨hslot, h⟩⟩
    · exact absurd rfl hx

end

/-! ## Partitions that grow -/

/-- The labels of a partition before it grew are looked at if it grew by little or ended on a whole GiB. -/
theorem grown_slots {oldSize : Nat} (hgrown : oldSize ≤ size)
    (hslot : slot ∈ labelOffsets oldSize) (hwhere : aligned size + 2 * labelSize ≤ aligned oldSize + tailScan ∨
      gib ∣ start + oldSize ∧ labelSize ∣ oldSize) : slot ∈ labelSlots size start := by
  have hle : aligned oldSize ≤ aligned size := by
    unfold aligned labelSize
    omega
  have hfront (h : slot = 0 ∨ slot = labelSize) (hsize : 2 * labelSize ≤ aligned size) :
      slot ∈ labelOffsets size := by
    unfold labelOffsets
    split
    · simpa [hsize] using h
    · rcases h with rfl | rfl <;> simp
  have hdvd := aligned_dvd oldSize
  rw [mem_labelSlots]
  rw [labelOffsets] at hslot
  split at hslot
  · split at hslot
    · exact .inl (hfront (by simpa using hslot) (by omega))
    · cases hslot
  · rename_i hsize
    simp only [List.mem_cons, List.not_mem_nil, or_false, ← or_assoc] at hslot
    rw [or_assoc] at hslot
    rcases hslot with hslot | hslot
    · exact .inl (hfront hslot (by unfold labelSize at *; omega))
    · refine .inr ⟨by omega, ?_⟩
      rcases hwhere with hnear | ⟨hgib, hwhole⟩
      · refine .inl ((mem_tailSlots (by omega)).mpr ?_)
        unfold Inside
        unfold tailScan at *
        unfold labelSize at *
        omega
      · rw [aligned_of_dvd hwhole] at hsize hslot hle
        exact .inr (mem_gibSlots.mpr ⟨oldSize, hle, hgib, hwhole, by omega, hslot⟩)

theorem newest_isSome {copies : List (Dict NvValue)} {pairs : Dict NvValue} (h : pairs ∈ copies) :
    newest copies ≠ none := by
  cases copies with
  | nil => cases h
  | cons first rest =>
    rw [newest]
    split
    · exact Option.some_ne_none _
    · split <;> exact Option.some_ne_none _

/-- A copy that a grown partition left inside it is found, and is gone after clearing. -/
theorem grown_copies {d : Device} {oldSize start slot : Nat} (path : String) (hgrown : oldSize ≤ d.size)
    (hslot : slot ∈ labelOffsets oldSize)
    (hwhere : aligned d.size + 2 * labelSize ≤ aligned oldSize + tailScan ∨
      gib ∣ start + oldSize ∧ labelSize ∣ oldSize) :
    (labelAt d slot ≠ none → readLabel path d start ≠ none) ∧ labelAt (zeroLabels d start) slot = none := by
  have hmem : slot ∈ labelSlots d.size start := grown_slots hgrown hslot hwhere
  refine ⟨fun hcopy => ?_, labelAt_zeroLabels d start hmem⟩
  obtain ⟨pairs, hpairs⟩ := Option.ne_none_iff_exists'.mp hcopy
  have hcopies : pairs ∈ copies d start := List.mem_filterMap.mpr ⟨slot, hmem, hpairs⟩
  have hnewest := newest_isSome hcopies
  obtain ⟨found, hfound⟩ := Option.ne_none_iff_exists'.mp hnewest
  unfold readLabel
  rw [hfound]
  exact Option.some_ne_none _

theorem length_le_putPairs (pairs : List (String × NvValue)) : pairs.length ≤ (putPairs pairs).length := by
  induction pairs with
  | nil => exact Nat.zero_le _
  | cons pair pairs ih =>
    have hpair := length_putPair pair.1 pair.2 (embedded pair.2)
    rw [putPairs_cons, List.length_append, List.length_cons]
    omega

theorem bytes_append (byte : Nat → UInt8) (m n : Nat) :
    (List.range m).map byte ++ (List.range n).map (fun i => byte (m + i)) = (List.range (m + n)).map byte := by
  rw [List.range_add, List.map_append, List.map_map]
  rfl

theorem bytes_written (byte : Nat → UInt8) {l : List UInt8} {n : Nat}
    (h : ∀ i, (hi : i < l.length) → byte i = l[i]) (hle : l.length ≤ n) :
    ∃ trailing, (List.range n).map byte = l ++ trailing := by
  have hdata : (List.range l.length).map byte = l := by
    refine List.ext_getElem (by simp) fun i hi hi' => ?_
    rw [List.getElem_map, List.getElem_range]
    exact h i hi'
  obtain ⟨m, rfl⟩ := Nat.le.dest hle
  exact ⟨_, by rw [← bytes_append, hdata]⟩

theorem labelAt_of_reads {start rest : List UInt8}
    (hstart : d.read (slot + nvlistOffset) 4 = some start) (hhead : start.head? = some xdr)
    (hrest : d.read (slot + nvlistOffset + 4) (nvlistSize - 4) = some rest) :
    labelAt d slot = (decoded (start ++ rest)).filter hasGuid := by
  unfold labelAt
  rw [hstart]
  dsimp only [Option.bind_eq_bind, Option.bind_some]
  rw [if_neg (not_not.mpr hhead), hrest]
  rfl

theorem labelAt_xdr (hinside : slot + nvlistOffset + nvlistSize ≤ d.size)
    (hxdr : d.byte (slot + nvlistOffset) = xdr) : labelAt d slot =
      (decoded ((List.range nvlistSize).map fun i => d.byte (slot + nvlistOffset + i))).filter hasGuid := by
  have hlarge : 4 ≤ nvlistSize := by decide
  have hstart : d.read (slot + nvlistOffset) 4 =
      some ((List.range 4).map fun i => d.byte (slot + nvlistOffset + i)) := if_pos (by omega)
  have hrest : d.read (slot + nvlistOffset + 4) (nvlistSize - 4) =
      some ((List.range (nvlistSize - 4)).map fun i => d.byte (slot + nvlistOffset + (4 + i))) := by
    rw [Device.read, if_pos (by omega)]
    simp only [Nat.add_assoc]
  have hhead : ((List.range 4).map fun i => d.byte (slot + nvlistOffset + i)).head? = some xdr :=
    congrArg some hxdr
  rw [labelAt_of_reads hstart hhead hrest, bytes_append fun i => d.byte (slot + nvlistOffset + i),
    Nat.add_sub_of_le hlarge]

/-- A list written into a slot is found there, whatever follows it. -/
theorem labelAt_written {pairs : List (String × NvValue)}
    (hinside : slot + nvlistOffset + nvlistSize ≤ d.size)
    (hwritten : ∀ i, (hi : i < (encodeNvlist pairs).length) →
      d.byte (slot + nvlistOffset + i) = (encodeNvlist pairs)[i])
    (hlen : (encodeNvlist pairs).length ≤ nvlistSize) (hnamed : ∀ pair ∈ pairs, Named pair)
    (hguid : (lastFirst pairs).lookup "guid" ≠ none) : labelAt d slot ≠ none := by
  obtain ⟨trailing, hbytes⟩ := bytes_written (fun i => d.byte (slot + nvlistOffset + i)) hwritten hlen
  have hlength : (encodeNvlist pairs ++ trailing).length = nvlistSize := by
    rw [← hbytes, List.length_map, List.length_range]
  have hsmall : nvlistSize < 2 ^ 31 := by decide
  obtain ⟨found, -, hget, hfound⟩ := nvlist_read_back hnamed (by omega) trailing (by omega)
  have hrounds : pairs.length < (encodeNvlist pairs ++ trailing).length + 1 := by
    have hle := length_le_putPairs pairs
    have hlist := length_putList (putPairs pairs)
    rw [List.length_append, encodeNvlist, List.length_append]
    omega
  have hdecoded : decoded (encodeNvlist pairs ++ trailing) = some found := by
    rw [decoded, hfound _ hrounds]
    rfl
  have hxdr : d.byte (slot + nvlistOffset) = xdr :=
    hwritten 0 (by rw [encodeNvlist, List.length_append]; exact Nat.succ_pos _)
  have hkept : hasGuid found = true := by
    rw [hasGuid, hget, Option.isSome_iff_ne_none.mpr hguid, Bool.true_or]
  rw [labelAt_xdr hinside hxdr, hbytes, hdecoded, Option.filter_some, if_pos hkept]
  exact Option.some_ne_none found

def holding (size slot : Nat) (pairs : List (String × NvValue)) : Device where
  size := size
  byte x := (encodeNvlist pairs).getD (x - (slot + nvlistOffset)) 0

theorem byte_holding (size slot : Nat) (pairs : List (String × NvValue)) (x : Nat) :
    (holding size slot pairs).byte x = (encodeNvlist pairs).getD (x - (slot + nvlistOffset)) 0 := by
  rw [holding]

/-- The last slot of a partition that went from 513 MiB to 2 GiB of its disk. -/
def lastSlot : Nat := 1535 * (1024 * 1024) - labelSize

/-- The partition was encrypted in place and grown to 3 GiB, and keeps the copy of its old end. -/
theorem grown_copies_gib :
    readLabel "sdb3" (holding (3 * gib) lastSlot smallLabel) (513 * (1024 * 1024)) ≠ none ∧
      labelAt (zeroLabels (holding (3 * gib) lastSlot smallLabel) (513 * (1024 * 1024))) lastSlot = none := by
  have hcopy : labelAt (holding (3 * gib) lastSlot smallLabel) lastSlot ≠ none := by
    refine labelAt_written (by decide) (fun i hi => ?_) (by rw [length_smallLabel]; decide) named_smallLabel
      (by decide)
    rw [byte_holding, Nat.add_sub_cancel_left, List.getD_eq_getElem?_getD, List.getElem?_eq_getElem hi,
      Option.getD_some]
  have hfound := @grown_copies (holding (3 * gib) lastSlot smallLabel) (1535 * (1024 * 1024))
    (513 * (1024 * 1024)) lastSlot "sdb3" (by decide) (by decide) (.inr (by decide))
  exact ⟨hfound.1 hcopy, hfound.2⟩

end Bmac.Inventory
