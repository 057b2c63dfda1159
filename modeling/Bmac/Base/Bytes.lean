import Mathlib.Tactic

/-!
# Numbers and ranges in bytes

Numbers of a fixed width with their largest byte first, and the bytes between two positions.
-/

namespace Bmac.Base.Bytes

/-- The low `width` bytes of a number. -/
def be : Nat → Nat → List UInt8
  | 0, _ => []
  | width + 1, n => be width (n / 256) ++ [UInt8.ofNat n]

def number (bytes : List UInt8) : Nat := bytes.foldl (fun n b => 256 * n + b.toNat) 0

/-- Two's complement of `width` bits. -/
def signed (width n : Nat) : Int := if n < 2 ^ (width - 1) then n else (n : Int) - 2 ^ width

/-- The bytes from `start` up to `stop`, if there are such. -/
def slice (bytes : List UInt8) (start stop : Nat) : Option (List UInt8) :=
  if start ≤ stop ∧ stop ≤ bytes.length then some ((bytes.drop start).take (stop - start)) else none

theorem be_succ (width n : Nat) : be (width + 1) n = be width (n / 256) ++ [UInt8.ofNat n] := rfl

@[simp] theorem length_be (width n : Nat) : (be width n).length = width := by
  induction width generalizing n with
  | zero => rfl
  | succ width ih => rw [be_succ, List.length_append, ih, List.length_singleton]

theorem number_snoc (bytes : List UInt8) (b : UInt8) : number (bytes ++ [b]) = 256 * number bytes + b.toNat := by
  rw [number, List.foldl_append]
  rfl

/-- A number is read back, up to what its bytes hold. -/
theorem number_be (width n : Nat) : number (be width n) = n % 256 ^ width := by
  induction width generalizing n with
  | zero => exact (Nat.mod_one n).symm
  | succ width ih =>
    have hbyte : (UInt8.ofNat n).toNat = n % 256 := UInt8.toNat_ofNat'
    rw [be_succ, number_snoc, ih, hbyte, Nat.pow_succ, Nat.mul_comm (256 ^ width), Nat.mod_mul]
    omega

theorem number_be_of_lt {width n : Nat} (h : n < 256 ^ width) : number (be width n) = n := by
  rw [number_be, Nat.mod_eq_of_lt h]

theorem number_lt (bytes : List UInt8) : number bytes < 256 ^ bytes.length := by
  induction bytes using List.reverseRecOn with
  | nil => decide
  | append_singleton bytes b ih =>
    have := b.toNat_lt
    rw [number_snoc, List.length_append, List.length_singleton, Nat.pow_succ]
    omega

theorem signed_of_lt {width n : Nat} (h : n < 2 ^ (width - 1)) : signed width n = n := if_pos h

theorem length_of_slice {bytes part : List UInt8} {start stop : Nat} (h : slice bytes start stop = some part) :
    part.length = stop - start ∧ start ≤ stop ∧ stop ≤ bytes.length := by
  unfold slice at h
  split at h
  · rename_i hrange
    cases h
    refine ⟨?_, hrange⟩
    rw [List.length_take, List.length_drop]
    omega
  · cases h

def Holds (bytes : List UInt8) (pos : Nat) (part : List UInt8) : Prop :=
  pos ≤ bytes.length ∧ part <+: bytes.drop pos

section

variable {bytes part a b : List UInt8} {pos : Nat}

theorem Holds.mk (before part after : List UInt8) : Holds (before ++ (part ++ after)) before.length part := by
  refine ⟨by simp, ?_⟩
  rw [List.drop_left]
  exact List.prefix_append _ _

theorem Holds.length (h : Holds bytes pos part) : pos + part.length ≤ bytes.length := by
  have hlen := h.2.length_le
  rw [List.length_drop] at hlen
  have := h.1
  omega

theorem Holds.left (h : Holds bytes pos (a ++ b)) : Holds bytes pos a :=
  ⟨h.1, (List.prefix_append a b).trans h.2⟩

theorem Holds.right (h : Holds bytes pos (a ++ b)) : Holds bytes (pos + a.length) b := by
  have hlen := h.length
  obtain ⟨-, t, ht⟩ := h
  refine ⟨by rw [List.length_append] at hlen; omega, t, ?_⟩
  rw [← List.drop_drop, ← ht, List.append_assoc, List.drop_left]

theorem Holds.slice (h : Holds bytes pos part) : slice bytes pos (pos + part.length) = some part := by
  have hlen := h.length
  obtain ⟨-, t, ht⟩ := h
  rw [Bytes.slice, if_pos ⟨by omega, hlen⟩, ← ht, Nat.add_sub_cancel_left, List.take_left]

end

end Bmac.Base.Bytes
