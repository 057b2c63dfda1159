import Mathlib.Algebra.Order.Floor.Div
import Mathlib.Tactic

/-!
# Checked arithmetic

Natural numbers of a fixed width: an operation whose result doesn't fit, or that has none, is `none`.
Then what a quotient that is rounded up or down says of the exact one.
-/

namespace Bmac.Base.Checked

/-- A result that must fit `width` bits. -/
def fits (width n : Nat) : Option Nat := if n < 2 ^ width then some n else none

def minus (a b : Nat) : Option Nat := if b ≤ a then some (a - b) else none

def divCeil (a b : Nat) : Option Nat := if b = 0 then none else some (a ⌈/⌉ b)

theorem fits_eq {width n : Nat} (h : n < 2 ^ width) : fits width n = some n := if_pos h

variable {b a : Nat}

theorem minus_eq (h : b ≤ a) : minus a b = some (a - b) := if_pos h

theorem divCeil_eq (h : 0 < b) : divCeil a b = some (a ⌈/⌉ b) := if_neg h.ne'

theorem le_ceilDiv_mul (a : Nat) (h : 0 < b) : a ≤ (a ⌈/⌉ b) * b := by
  have hle : a ≤ b * (a ⌈/⌉ b) := (ceilDiv_le_iff_le_mul h).mp le_rfl
  rwa [mul_comm] at hle

theorem ceilDiv_le_of_le_mul {c : Nat} (h : 0 < b) (hle : a ≤ b * c) : a ⌈/⌉ b ≤ c :=
  (ceilDiv_le_iff_le_mul h).mpr hle

/-- Rounding up to a multiple of `b` adds less than `b`. -/
theorem ceilDiv_mul_lt (a : Nat) (h : 0 < b) : (a ⌈/⌉ b) * b < a + b := by
  have hfloor : (a + b - 1) / b * b ≤ a + b - 1 := Nat.div_mul_le_self _ _
  rw [Nat.ceilDiv_eq_add_pred_div]
  omega

theorem ceilDiv_mono {c : Nat} (hle : a ≤ b) (h : 0 < c) : a ⌈/⌉ c ≤ b ⌈/⌉ c :=
  ceilDiv_le_of_le_mul h (hle.trans ((ceilDiv_le_iff_le_mul h).mp le_rfl))

/-- Rounding up a sum is no more than rounding up its parts. -/
theorem ceilDiv_add_le (a b : Nat) {c : Nat} (h : 0 < c) : (a + b) ⌈/⌉ c ≤ a ⌈/⌉ c + b ⌈/⌉ c := by
  refine ceilDiv_le_of_le_mul h ?_
  rw [Nat.mul_add]
  exact Nat.add_le_add ((ceilDiv_le_iff_le_mul h).mp le_rfl) ((ceilDiv_le_iff_le_mul h).mp le_rfl)

theorem ceilDiv_le_self (a : Nat) (h : 0 < b) : a ⌈/⌉ b ≤ a :=
  ceilDiv_le_of_le_mul h (Nat.le_mul_of_pos_left a h)

section

variable {num den n q : Nat} (hnum : 0 < num) (hden : 0 < den)

include hnum hden

omit hnum in
theorem mul_le_mul_iff_rat : q * num ≤ n * den ↔ (num / den : ℚ) * q ≤ n := by
  have hd : (0 : ℚ) < den := by exact_mod_cast hden
  rw [div_mul_eq_mul_div, div_le_iff₀ hd, mul_comm (num : ℚ)]
  exact_mod_cast Iff.rfl

/-- `n` divided by a fraction and rounded down: the multiples of the fraction up to `n`. -/
theorem le_div_iff : q ≤ n * den / num ↔ (num / den : ℚ) * q ≤ n := by
  rw [Nat.le_div_iff_mul_le hnum, mul_le_mul_iff_rat hden]

omit hnum in
/-- A multiple of a fraction, rounded up. -/
theorem mul_ceilDiv_le_iff : (q * num) ⌈/⌉ den ≤ n ↔ (num / den : ℚ) * q ≤ n := by
  rw [ceilDiv_le_iff_le_mul hden, Nat.mul_comm den, mul_le_mul_iff_rat hden]

end

end Bmac.Base.Checked
