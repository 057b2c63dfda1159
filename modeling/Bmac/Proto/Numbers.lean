import Bmac.Core.Text
import Mathlib.Data.List.TakeWhile

/-!
# Numbers

`f64` as its decimals write it: a finite number is a decimal, not rounded. `str::parse::<f64>` reads
the infinities and NaN as well, and a decimal that is too large is an infinity.
-/

namespace Bmac.Proto

open Bmac.Core

/-- The number `mantissa * 10 ^ exponent`. -/
structure Decimal where
  mantissa : Int
  exponent : Int
  deriving DecidableEq

namespace Decimal

def value (d : Decimal) : ℚ := d.mantissa * (10 : ℚ) ^ d.exponent

def neg (d : Decimal) : Decimal := ⟨-d.mantissa, d.exponent⟩

/-- As JSON may write it. -/
def text (d : Decimal) : String := s!"{d.mantissa}e{d.exponent}"

end Decimal

inductive F64 where
  | nan
  | infinite (negative : Bool)
  | finite (d : Decimal)
  deriving DecidableEq

def digitsNumber (cs : List Char) : Option Nat :=
  if cs ≠ [] ∧ cs.all Text.isDigit then some (Text.decimal cs) else none

def parseExponent : List Char → Option Int
  | [] => some 0
  | c :: cs =>
    if c = 'e' ∨ c = 'E' then
      match cs with
      | '-' :: cs => (digitsNumber cs).map fun n => -Int.ofNat n
      | '+' :: cs => (digitsNumber cs).map Int.ofNat
      | cs => (digitsNumber cs).map Int.ofNat
    else none

/-- Digits with a point among them or beside them, and an exponent. -/
def parseUnsigned (cs : List Char) : Option Decimal :=
  let whole := cs.takeWhile Text.isDigit
  let rest := cs.dropWhile Text.isDigit
  let (part, rest) :=
    match rest with
    | '.' :: rest => (rest.takeWhile Text.isDigit, rest.dropWhile Text.isDigit)
    | rest => ([], rest)
  if whole.isEmpty && part.isEmpty then none
  else (parseExponent rest).map fun e => ⟨Text.decimal (whole ++ part), e - part.length⟩

def parseDecimal (cs : List Char) : Option Decimal :=
  match cs with
  | '-' :: cs => (parseUnsigned cs).map (·.neg)
  | '+' :: cs => parseUnsigned cs
  | cs => parseUnsigned cs

/-- A decimal from this on is read as an infinity. -/
def overflow : ℚ := 2 ^ 1024 - 2 ^ 970

/-- `f64::from_str`. -/
def parseF64 (text : String) : Option F64 :=
  let (negative, cs) :=
    match text.toList with
    | '-' :: cs => (true, cs)
    | '+' :: cs => (false, cs)
    | cs => (false, cs)
  let word := cs.map Char.toLower
  if word = "inf".toList ∨ word = "infinity".toList then some (.infinite negative)
  else if word = "nan".toList then some .nan
  else
    (parseUnsigned cs).map fun d =>
      if overflow ≤ d.value then .infinite negative else .finite (if negative then d.neg else d)

namespace F64

/-- `fract() == 0.0`. -/
def isWhole : F64 → Bool
  | finite d => d.value.den = 1
  | _ => false

/-- `<` of a finite number. -/
def below : F64 → ℚ → Bool
  | finite d, bound => d.value < bound
  | infinite negative, _ => negative
  | nan, _ => false

/-- `>` of a finite number. -/
def above : F64 → ℚ → Bool
  | finite d, bound => bound < d.value
  | infinite negative, _ => !negative
  | nan, _ => false

end F64

example : parseF64 "+2.50E1" = some (.finite ⟨250, -1⟩) := by decide +kernel

/-! ## What is printed is read -/

theorem takeWhile_repr {c : Char} (hc : Text.isDigit c = false) (n : Nat) (cs : List Char) :
    (n.repr.toList ++ c :: cs).takeWhile Text.isDigit = n.repr.toList ∧
      (n.repr.toList ++ c :: cs).dropWhile Text.isDigit = c :: cs := by
  constructor
  · rw [List.takeWhile_append_of_pos fun _ hmem => Text.isDigit_of_mem_repr hmem,
      List.takeWhile_cons_of_neg (by simp [hc]), List.append_nil]
  · rw [List.dropWhile_append_of_pos fun _ hmem => Text.isDigit_of_mem_repr hmem,
      List.dropWhile_cons_of_neg (by simp [hc])]

theorem digitsNumber_repr (n : Nat) : digitsNumber n.repr.toList = some n := by
  unfold digitsNumber
  rw [if_pos, Text.decimal_repr]
  exact ⟨Text.repr_ne_nil n, List.all_eq_true.mpr fun c hc => Text.isDigit_of_mem_repr hc⟩

theorem head_repr (n : Nat) : ∃ c cs, n.repr.toList = c :: cs ∧ Text.isDigit c = true := by
  cases hrepr : n.repr.toList with
  | nil => exact absurd hrepr (Text.repr_ne_nil n)
  | cons c cs => exact ⟨c, cs, rfl, Text.isDigit_of_mem_repr (hrepr ▸ List.mem_cons_self)⟩

/-- A digit is no sign. -/
theorem match_sign {α : Type} {c : Char} {rest : List Char} (hc : Text.isDigit c = true)
    (minus plus neither : List Char → α) :
    (match c :: rest with
      | '-' :: cs => minus cs
      | '+' :: cs => plus cs
      | cs => neither cs) = neither (c :: rest) := by
  split
  · rename_i hminus
    obtain rfl := (List.cons.inj hminus).1
    cases hc
  · rename_i hplus
    obtain rfl := (List.cons.inj hplus).1
    cases hc
  · rfl

theorem toList_ofNat (n : Nat) : (toString (Int.ofNat n)).toList = n.repr.toList := rfl

theorem toList_negSucc (n : Nat) :
    (toString (Int.negSucc n)).toList = '-' :: (n + 1).repr.toList := by
  rw [show toString (Int.negSucc n) = "-" ++ (n + 1).repr from rfl, String.toList_append]
  rfl

theorem parseExponent_text (e : Int) : parseExponent ('e' :: (toString e).toList) = some e := by
  unfold parseExponent
  dsimp only
  rw [if_pos (.inl rfl)]
  cases e with
  | ofNat n =>
    obtain ⟨c, cs, hrepr, hc⟩ := head_repr n
    rw [toList_ofNat, hrepr]
    refine (match_sign hc _ _ _).trans ?_
    rw [← hrepr, digitsNumber_repr]
    rfl
  | negSucc n =>
    rw [toList_negSucc]
    change (digitsNumber (n + 1).repr.toList).map _ = _
    rw [digitsNumber_repr]
    rfl

theorem parseUnsigned_text (n : Nat) (e : Int) :
    parseUnsigned (n.repr.toList ++ 'e' :: (toString e).toList) = some ⟨n, e⟩ := by
  obtain ⟨htake, hdrop⟩ := takeWhile_repr (show Text.isDigit 'e' = false from rfl) n (toString e).toList
  have hne : (n.repr.toList).isEmpty = false := by
    rw [List.isEmpty_eq_false_iff]
    exact Text.repr_ne_nil n
  unfold parseUnsigned
  rw [htake, hdrop]
  change (if (n.repr.toList.isEmpty && true) = true then none else
    (parseExponent ('e' :: (toString e).toList)).map fun e =>
      (⟨Text.decimal (n.repr.toList ++ []), e - (0 : Nat)⟩ : Decimal)) = _
  rw [hne, if_neg (by decide), parseExponent_text, List.append_nil, Text.decimal_repr]
  simp

theorem parseUnsigned_repr (n : Nat) : parseUnsigned n.repr.toList = some ⟨n, 0⟩ := by
  have hdigits : ∀ c ∈ n.repr.toList, Text.isDigit c = true := fun _ hmem => Text.isDigit_of_mem_repr hmem
  have hne : (n.repr.toList).isEmpty = false := by
    rw [List.isEmpty_eq_false_iff]
    exact Text.repr_ne_nil n
  unfold parseUnsigned
  rw [List.takeWhile_eq_self_iff.mpr hdigits, List.dropWhile_eq_nil_iff.mpr hdigits]
  change (if (n.repr.toList.isEmpty && true) = true then none else
    (parseExponent []).map fun e => (⟨Text.decimal (n.repr.toList ++ []), e - (0 : Nat)⟩ : Decimal)) = _
  rw [hne, if_neg (by decide), List.append_nil, Text.decimal_repr]
  rfl

theorem parseDecimal_toString (i : Int) : parseDecimal (toString i).toList = some ⟨i, 0⟩ := by
  unfold parseDecimal
  cases i with
  | ofNat n =>
    obtain ⟨c, cs, hrepr, hc⟩ := head_repr n
    rw [toList_ofNat, hrepr]
    refine (match_sign hc _ _ _).trans ?_
    rw [← hrepr]
    exact parseUnsigned_repr n
  | negSucc n =>
    rw [toList_negSucc]
    change (parseUnsigned (n + 1).repr.toList).map _ = _
    rw [parseUnsigned_repr]
    rfl

/-- A printed number is read again. -/
theorem parseDecimal_text (d : Decimal) : parseDecimal d.text.toList = some d := by
  obtain ⟨m, e⟩ := d
  have htext : (Decimal.text ⟨m, e⟩).toList = (toString m).toList ++ 'e' :: (toString e).toList := by
    unfold Decimal.text
    simp [toString]
  rw [htext]
  unfold parseDecimal
  cases m with
  | ofNat n =>
    obtain ⟨c, cs, hrepr, hc⟩ := head_repr n
    rw [toList_ofNat, hrepr, List.cons_append]
    refine (match_sign hc _ _ _).trans ?_
    rw [← List.cons_append, ← hrepr]
    exact parseUnsigned_text n e
  | negSucc n =>
    rw [toList_negSucc, List.cons_append]
    change (parseUnsigned ((n + 1).repr.toList ++ _)).map _ = _
    rw [parseUnsigned_text]
    rfl

end Bmac.Proto
