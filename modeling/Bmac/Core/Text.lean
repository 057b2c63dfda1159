import Mathlib.Tactic

/-!
# Text

The string operations of the sources that Lean's library has no counterpart of, as functions on
the lists of characters. A `str`'s length is its number of UTF-8 bytes.
-/

namespace Bmac.Core

namespace Text

/-- By the text's own characters; a search for an instance may find one that goes through all characters first. -/
instance (priority := 1100) decidableBall {p : Char → Prop} [DecidablePred p] (cs : List Char) :
    Decidable (∀ c ∈ cs, p c) := List.decidableBAll p cs

/-- `str::len`. -/
def len (s : String) : Nat := (s.toList.map Char.utf8Size).sum

/-- `str::strip_prefix`. -/
def stripStart (start s : String) : Option String :=
  (start.toList.isPrefixOf? s.toList).map String.ofList

/-- `str::strip_suffix`. -/
def stripEnd (ending s : String) : Option String :=
  (ending.toList.reverse.isPrefixOf? s.toList.reverse).map fun cs => String.ofList cs.reverse

/-- `str::split` at a character. -/
def split (sep : Char) (s : String) : List String := (s.toList.splitOn sep).map String.ofList

/-- `[str]::join`. -/
def join (sep : String) (parts : List String) : String := sep.intercalate parts

def startsWith (c : Char) (s : String) : Bool := s.toList.head? == some c

def endsWith (c : Char) (s : String) : Bool := s.toList.getLast? == some c

/-- The text before the first occurrence of `pat`, and the rest from it on. -/
def splitBefore (pat : List Char) : List Char → Option (List Char × List Char)
  | [] => if pat = [] then some ([], []) else none
  | c :: cs =>
    if pat.isPrefixOf (c :: cs) then some ([], c :: cs)
    else (splitBefore pat cs).map fun (before, rest) => (c :: before, rest)

theorem splitBefore_nil (sep : Char) : splitBefore [sep] [] = none := rfl

theorem splitBefore_cons (sep c : Char) (cs : List Char) : splitBefore [sep] (c :: cs) =
    if [sep].isPrefixOf (c :: cs) then some ([], c :: cs)
    else (splitBefore [sep] cs).map fun (before, rest) => (c :: before, rest) := rfl

/-- `str::replace` by characters, after `skip` more of them; `pat` isn't empty. -/
def replaceFrom (pat new : List Char) : Nat → List Char → List Char
  | _, [] => []
  | skip + 1, _ :: cs => replaceFrom pat new skip cs
  | 0, c :: cs =>
    if pat.isPrefixOf (c :: cs) then new ++ replaceFrom pat new (pat.length - 1) cs
    else c :: replaceFrom pat new 0 cs

def replace (pat new s : String) : String :=
  String.ofList (replaceFrom pat.toList new.toList 0 s.toList)

/-- The characters that fit in `size` bytes of UTF-8. -/
def fit : Nat → List Char → List Char
  | _, [] => []
  | size, c :: cs => if c.utf8Size ≤ size then c :: fit (size - c.utf8Size) cs else []

/-- Unicode's `White_Space`. -/
def isWhitespace (c : Char) : Bool :=
  let n := c.toNat
  (0x9 ≤ n && n ≤ 0xd) || n = 0x20 || n = 0x85 || n = 0xa0 || n = 0x1680 ||
  (0x2000 ≤ n && n ≤ 0x200a) || n = 0x2028 || n = 0x2029 || n = 0x202f || n = 0x205f || n = 0x3000

def trim (s : String) : String :=
  String.ofList ((s.toList.dropWhile isWhitespace).reverse.dropWhile isWhitespace).reverse

def isDigit (c : Char) : Bool := '0' ≤ c && c ≤ '9'

def isLower (c : Char) : Bool := 'a' ≤ c && c ≤ 'z'

def isUpper (c : Char) : Bool := 'A' ≤ c && c ≤ 'Z'

def isAlphanumeric (c : Char) : Bool := isDigit c || isLower c || isUpper c

def toLower (s : String) : String := s.map Char.toLower

def decimal (cs : List Char) : Nat := cs.foldl (fun n c => 10 * n + (c.toNat - 48)) 0

def digit (n : Nat) : Char := Char.ofNat (48 + n % 10)

/-- The low `width` decimal digits of `n`. -/
def digits : Nat → Nat → List Char
  | 0, _ => []
  | width + 1, n => digits width (n / 10) ++ [digit n]

/-- A number of at least `width` digits. -/
def padded (width n : Nat) : List Char :=
  List.replicate (width - n.repr.length) '0' ++ n.repr.toList

/-- `str::split_once`. -/
def splitOnce (sep : Char) (s : String) : Option (String × String) :=
  (splitBefore [sep] s.toList).map fun (before, rest) =>
    (String.ofList before, String.ofList rest.tail)

/-- `str::rsplit_once`. -/
def rsplitOnce (sep : Char) (s : String) : Option (String × String) :=
  (splitBefore [sep] s.toList.reverse).map fun (after, rest) =>
    (String.ofList rest.tail.reverse, String.ofList after.reverse)

/-- A signed number as `from_str` reads it, if it is in the type's range. -/
def parseInt (s : String) : Option Int :=
  let number (cs : List Char) : Option Nat :=
    if cs ≠ [] ∧ cs.all isDigit then some (decimal cs) else none
  match s.toList with
  | '-' :: cs => (number cs).map fun n => -n
  | '+' :: cs => (number cs).map fun n => n
  | cs => (number cs).map fun n => n

/-- `u16::from_str` and its like for numbers below `bound`. -/
def parseUnsigned (bound : Nat) (s : String) : Option Nat :=
  let digits := match s.toList with
    | '+' :: digits => digits
    | digits => digits
  if digits ≠ [] ∧ digits.all isDigit ∧ decimal digits < bound then some (decimal digits) else none

/-- A positive decimal number without a leading zero. -/
def positiveDecimal (s : String) : Bool :=
  !s.toList.isEmpty && !startsWith '0' s && s.toList.all isDigit

def hexDigit (n : Nat) : Char := if n < 10 then Char.ofNat (48 + n) else Char.ofNat (87 + n)

/-- The low `width` hex digits of `n`. -/
def hex (width n : Nat) : String :=
  String.ofList ((List.range width).reverse.map fun i => hexDigit (n / 16 ^ i % 16))

/-- `char::is_control`. -/
def isControl (c : Char) : Bool := c.toNat < 0x20 || (0x7f ≤ c.toNat && c.toNat ≤ 0x9f)

variable {c sep : Char} {cs : List Char} {s : String}

theorem isDigit_iff : isDigit c = true ↔ 48 ≤ c.toNat ∧ c.toNat ≤ 57 := by
  simp only [isDigit, Bool.and_eq_true, decide_eq_true_eq, Char.le_def, UInt32.le_iff_toNat_le]
  rfl

theorem isLower_iff : isLower c = true ↔ 97 ≤ c.toNat ∧ c.toNat ≤ 122 := by
  simp only [isLower, Bool.and_eq_true, decide_eq_true_eq, Char.le_def, UInt32.le_iff_toNat_le]
  rfl

theorem isUpper_iff : isUpper c = true ↔ 65 ≤ c.toNat ∧ c.toNat ≤ 90 := by
  simp only [isUpper, Bool.and_eq_true, decide_eq_true_eq, Char.le_def, UInt32.le_iff_toNat_le]
  rfl

theorem isAlphanumeric_iff : isAlphanumeric c = true ↔ (48 ≤ c.toNat ∧ c.toNat ≤ 57) ∨
    (97 ≤ c.toNat ∧ c.toNat ≤ 122) ∨ (65 ≤ c.toNat ∧ c.toNat ≤ 90) := by
  rw [isAlphanumeric, Bool.or_eq_true, Bool.or_eq_true, isDigit_iff, isLower_iff, isUpper_iff, or_assoc]

theorem decimal_repr (n : Nat) : decimal n.repr.toList = n := by
  rw [Nat.toList_repr]
  exact Nat.ofDigitChars_ten_toDigits

variable {n : Nat}

theorem isDigit_of_mem_repr (h : c ∈ n.repr.toList) : isDigit c = true := by
  rw [Nat.toList_repr] at h
  have hd : c.isDigit = true := Nat.isDigit_of_mem_toDigits (by omega) (by omega) h
  simp only [Char.isDigit, Bool.and_eq_true, decide_eq_true_eq] at hd
  simp only [isDigit, Bool.and_eq_true, decide_eq_true_eq]
  exact hd

theorem repr_ne_nil (n : Nat) : n.repr.toList ≠ [] := by
  rw [Nat.toList_repr]
  exact Nat.toDigits_ne_nil

/-- A number that isn't zero has no leading zero. -/
theorem head_repr (h : n ≠ 0) : n.repr.toList.head? ≠ some '0' := by
  rw [Nat.toList_repr]
  induction n using Nat.strong_induction_on with
  | _ n ih =>
    by_cases hn : n < 10
    · rw [Nat.toDigits_of_lt_base hn]
      have hdigit : ∀ k < 10, k ≠ 0 → k.digitChar ≠ '0' := by decide
      simpa using hdigit n hn h
    · rw [Nat.toDigits_of_base_le (by omega) (by omega),
        List.head?_append_of_ne_nil _ Nat.toDigits_ne_nil]
      exact ih (n / 10) (by omega) (by omega)

theorem decimal_snoc (cs : List Char) (c : Char) :
    decimal (cs ++ [c]) = 10 * decimal cs + (c.toNat - 48) := by
  simp [decimal, List.foldl_append]

theorem digitChar_of_isDigit (h : isDigit c = true) :
    c.toNat - 48 < 10 ∧ (c.toNat - 48).digitChar = c := by
  simp only [isDigit, Bool.and_eq_true, decide_eq_true_eq] at h
  obtain ⟨hl, hu⟩ := h
  have h1 : 48 ≤ c.toNat := hl
  have h2 : c.toNat ≤ 57 := hu
  have hchars : ∀ n < 10, n.digitChar = Char.ofNat (48 + n) := by decide
  refine ⟨by omega, ?_⟩
  rw [hchars _ (by omega), Nat.add_sub_cancel' h1, Char.ofNat_toNat]

/-- Digits without a leading zero are those of their number. -/
theorem repr_decimal (hne : cs ≠ []) (hdigits : ∀ c ∈ cs, isDigit c = true)
    (hhead : cs = ['0'] ∨ cs.head? ≠ some '0') : (decimal cs).repr.toList = cs := by
  rw [Nat.toList_repr]
  induction cs using List.reverseRecOn with
  | nil => exact absurd rfl hne
  | append_singleton cs c ih =>
    obtain ⟨hlt, hchar⟩ := digitChar_of_isDigit (hdigits c (by simp))
    rw [decimal_snoc]
    by_cases hcs : cs = []
    · subst hcs
      rw [show decimal [] = 0 from rfl, Nat.mul_zero, Nat.zero_add, Nat.toDigits_of_lt_base hlt, hchar]
      rfl
    · have hfirst : cs.head? ≠ some '0' := by
        rcases hhead with hzero | hhead
        · cases cs with
          | nil => exact absurd rfl hcs
          | cons a rest => simp at hzero
        · rwa [List.head?_append_of_ne_nil _ hcs] at hhead
      have hrest : Nat.toDigits 10 (decimal cs) = cs :=
        ih hcs (fun a ha => hdigits a (by simp [ha])) (.inr hfirst)
      have hpos : 0 < decimal cs := by
        rcases Nat.eq_zero_or_pos (decimal cs) with hz | hpos
        · rw [hz, Nat.toDigits_zero] at hrest
          rw [← hrest] at hfirst
          exact absurd rfl hfirst
        · exact hpos
      rw [← Nat.toDigits_append_toDigits (by omega) hpos hlt, hrest, Nat.toDigits_of_lt_base hlt, hchar]

theorem repr_append_inj (hc : isDigit c = false) {m : Nat} {u v : List Char}
    (h : m.repr.toList ++ c :: u = n.repr.toList ++ c :: v) : m = n ∧ u = v := by
  have hcut (k : Nat) (t : List Char) :
      (k.repr.toList ++ c :: t).takeWhile isDigit = k.repr.toList := by
    rw [List.takeWhile_append_of_pos fun _ hmem => isDigit_of_mem_repr hmem,
      List.takeWhile_cons_of_neg (by simp [hc]), List.append_nil]
  have hdigits : m.repr.toList = n.repr.toList := by rw [← hcut m u, h, hcut]
  rw [hdigits] at h
  refine ⟨?_, (List.cons.inj (List.append_cancel_left h)).2⟩
  rw [← decimal_repr m, hdigits, decimal_repr]

theorem decimal_zeros (k : Nat) (cs : List Char) :
    decimal (List.replicate k '0' ++ cs) = decimal cs := by
  induction k with
  | zero => rfl
  | succ k ih => rw [List.replicate_succ, List.cons_append, ← ih]; rfl

@[simp] theorem decimal_padded (width n : Nat) : decimal (padded width n) = n := by
  rw [padded, decimal_zeros, decimal_repr]

theorem isDigit_of_mem_padded {width n : Nat} {c : Char} (h : c ∈ padded width n) : isDigit c = true := by
  rcases List.mem_append.mp h with hzero | hdigit
  · rw [List.eq_of_mem_replicate hzero]
    rfl
  · exact isDigit_of_mem_repr hdigit

theorem padded_ne_nil (width n : Nat) : padded width n ≠ [] :=
  List.append_ne_nil_of_right_ne_nil _ (repr_ne_nil n)

theorem length_padded {width : Nat} (hwidth : 0 < width) (h : n < 10 ^ width) :
    (padded width n).length = width := by
  have hle : n.repr.toList.length ≤ width := by
    rw [Nat.toList_repr]
    exact (Nat.length_toDigits_le_iff (by omega) hwidth).mpr h
  unfold padded
  rw [List.length_append, List.length_replicate, ← String.length_toList]
  omega

/-- A number is read whatever zeros are before it. -/
theorem parseInt_padded (width n : Nat) : parseInt (String.ofList (padded width n)) = some (n : Int) := by
  have hne := padded_ne_nil width n
  have hall : (padded width n).all isDigit = true :=
    List.all_eq_true.mpr fun c hc => isDigit_of_mem_padded hc
  have hvalue := decimal_padded width n
  generalize padded width n = cs at hne hall hvalue
  unfold parseInt
  rw [String.toList_ofList]
  split
  · simp [isDigit] at hall
  · simp [isDigit] at hall
  · simp [hne, hall, hvalue]

theorem parseUnsigned_eq_some {bound : Nat} : parseUnsigned bound s = some n ↔
    ∃ digits, (s.toList = digits ∨ s.toList = '+' :: digits) ∧ digits ≠ [] ∧ (∀ c ∈ digits, isDigit c = true) ∧
      decimal digits = n ∧ n < bound := by
  unfold parseUnsigned
  constructor
  · intro h
    dsimp only at h
    obtain ⟨⟨hne, hall, hlt⟩, hn⟩ := Option.ite_none_right_eq_some.mp h
    obtain rfl := Option.some.inj hn
    refine ⟨_, ?_, hne, List.all_eq_true.mp hall, rfl, hlt⟩
    split
    · rename_i heq
      exact .inr heq
    · exact .inl rfl
  · rintro ⟨digits, hs | hs, hne, hall, rfl, hlt⟩
    · have hplus : ∀ cs, digits ≠ '+' :: cs := by
        rintro cs rfl
        exact absurd (hall '+' List.mem_cons_self) (by decide)
      rw [hs]
      dsimp only
      split
      · exact absurd rfl (hplus _)
      · exact if_pos ⟨hne, List.all_eq_true.mpr hall, hlt⟩
    · rw [hs]
      exact if_pos ⟨hne, List.all_eq_true.mpr hall, hlt⟩

/-- A text of ASCII characters has a byte for each. -/
theorem len_eq_length (h : ∀ c ∈ s.toList, c.toNat < 128) : len s = s.length := by
  have hone : s.toList.map Char.utf8Size = s.toList.map fun _ => 1 := by
    refine List.map_congr_left fun c hc => ?_
    have hle : c.val ≤ 0x7f := by
      have := h c hc
      rw [UInt32.le_iff_toNat_le]
      exact Nat.le_of_lt_succ this
    simp [Char.utf8Size, hle]
  rw [len, hone, ← String.length_toList]
  simp

/-! ## Splitting -/

theorem splitBefore_of_not_mem {sep : Char} {before rest : List Char} (h : sep ∉ before) :
    splitBefore [sep] (before ++ sep :: rest) = some (before, sep :: rest) := by
  induction before with
  | nil => simp [splitBefore_cons]
  | cons c before ih =>
    have hc : sep ≠ c := fun heq => h (heq ▸ List.mem_cons_self)
    rw [List.cons_append, splitBefore_cons, ih fun hmem => h (List.mem_cons_of_mem c hmem)]
    simp [hc]

theorem splitBefore_eq_none (h : sep ∉ cs) : splitBefore [sep] cs = none := by
  induction cs with
  | nil => rfl
  | cons c cs ih =>
    have hc : sep ≠ c := fun heq => h (heq ▸ List.mem_cons_self)
    rw [splitBefore_cons, ih fun hmem => h (List.mem_cons_of_mem c hmem)]
    simp [hc]

theorem splitBefore_some {before rest : List Char}
    (h : splitBefore [sep] cs = some (before, rest)) : cs = before ++ rest ∧ rest.head? = some sep := by
  induction cs generalizing before with
  | nil => simp [splitBefore_nil] at h
  | cons c cs ih =>
    rw [splitBefore_cons] at h
    split at h
    · rename_i hsep
      cases h
      simp only [List.isPrefixOf_cons_cons, Bool.and_eq_true, beq_iff_eq] at hsep
      exact ⟨rfl, by rw [hsep.1]; rfl⟩
    · obtain ⟨⟨before', rest'⟩, hsplit, heq⟩ := Option.map_eq_some_iff.mp h
      cases heq
      obtain ⟨hcs, hhead⟩ := ih hsplit
      exact ⟨by rw [hcs]; rfl, hhead⟩

theorem splitBefore_eq_some {before rest : List Char} :
    splitBefore [sep] cs = some (before, rest) ↔
      ∃ after, rest = sep :: after ∧ cs = before ++ sep :: after ∧ sep ∉ before := by
  constructor
  · intro h
    induction cs generalizing before with
    | nil => simp [splitBefore_nil] at h
    | cons c cs ih =>
      rw [splitBefore_cons] at h
      split at h
      · rename_i hsep
        cases h
        simp only [List.isPrefixOf_cons_cons, Bool.and_eq_true, beq_iff_eq] at hsep
        exact ⟨cs, by rw [hsep.1], by rw [hsep.1]; rfl, List.not_mem_nil⟩
      · rename_i hsep
        obtain ⟨⟨before', rest'⟩, hsplit, heq⟩ := Option.map_eq_some_iff.mp h
        cases heq
        obtain ⟨after, hrest, hcs, hnot⟩ := ih hsplit
        refine ⟨after, hrest, by rw [hcs]; rfl, ?_⟩
        rintro hmem
        rcases List.mem_cons.mp hmem with rfl | hmem
        · exact hsep (by simp [List.isPrefixOf])
        · exact hnot hmem
  · rintro ⟨after, rfl, rfl, hnot⟩
    exact splitBefore_of_not_mem hnot

/-- A text is split once at the first separator, -/
theorem splitOnce_eq_some {a b : String} : splitOnce sep s = some (a, b) ↔
    s.toList = a.toList ++ sep :: b.toList ∧ sep ∉ a.toList := by
  unfold splitOnce
  rw [Option.map_eq_some_iff]
  constructor
  · rintro ⟨⟨before, rest⟩, hsplit, heq⟩
    obtain ⟨rfl, rfl⟩ := Prod.mk.inj heq
    obtain ⟨after, rfl, hs, hnot⟩ := splitBefore_eq_some.mp hsplit
    rw [String.toList_ofList, String.toList_ofList]
    exact ⟨hs, hnot⟩
  · rintro ⟨hs, hnot⟩
    refine ⟨(a.toList, sep :: b.toList), splitBefore_eq_some.mpr ⟨_, rfl, hs, hnot⟩, ?_⟩
    simp only [List.tail_cons, String.ofList_toList]

/-- and from its end at the last one. -/
theorem rsplitOnce_eq_some {a b : String} : rsplitOnce sep s = some (a, b) ↔
    s.toList = a.toList ++ sep :: b.toList ∧ sep ∉ b.toList := by
  unfold rsplitOnce
  rw [Option.map_eq_some_iff]
  constructor
  · rintro ⟨⟨after, rest⟩, hsplit, heq⟩
    obtain ⟨rfl, rfl⟩ := Prod.mk.inj heq
    obtain ⟨before, rfl, hs, hnot⟩ := splitBefore_eq_some.mp hsplit
    have hs' := congrArg List.reverse hs
    simp only [List.reverse_reverse, List.reverse_append, List.reverse_cons, List.append_assoc,
      List.singleton_append] at hs'
    simp only [String.toList_ofList, List.tail_cons, List.mem_reverse]
    exact ⟨hs', hnot⟩
  · rintro ⟨hs, hnot⟩
    refine ⟨(b.toList.reverse, sep :: a.toList.reverse), splitBefore_eq_some.mpr ⟨_, rfl, ?_, ?_⟩, ?_⟩
    · rw [hs]
      simp
    · simpa using hnot
    · simp only [List.tail_cons, List.reverse_reverse, String.ofList_toList]

theorem splitOnce_eq_none (h : sep ∉ s.toList) : splitOnce sep s = none := by
  rw [splitOnce, splitBefore_eq_none h, Option.map_none]

theorem rsplitOnce_eq_none (h : sep ∉ s.toList) : rsplitOnce sep s = none := by
  rw [rsplitOnce, splitBefore_eq_none (by simpa using h), Option.map_none]

theorem exists_splitOnce (h : sep ∈ s.toList) : ∃ a b, splitOnce sep s = some (a, b) := by
  obtain ⟨before, after, heq, hnot⟩ := List.eq_append_cons_of_mem h
  refine ⟨String.ofList before, String.ofList after, splitOnce_eq_some.mpr ?_⟩
  rw [String.toList_ofList, String.toList_ofList]
  exact ⟨heq, hnot⟩

theorem exists_rsplitOnce (h : sep ∈ s.toList) : ∃ a b, rsplitOnce sep s = some (a, b) := by
  obtain ⟨after, before, heq, hnot⟩ := List.eq_append_cons_of_mem (List.mem_reverse.mpr h)
  refine ⟨String.ofList before.reverse, String.ofList after.reverse, rsplitOnce_eq_some.mpr ?_⟩
  rw [String.toList_ofList, String.toList_ofList, ← List.reverse_reverse s.toList, heq]
  exact ⟨by simp, mt List.mem_reverse.mp hnot⟩

theorem stripStart_eq_some {start rest : String} :
    stripStart start s = some rest ↔ s.toList = start.toList ++ rest.toList := by
  unfold stripStart
  rw [Option.map_eq_some_iff]
  constructor
  · rintro ⟨cs, hcs, rfl⟩
    rw [List.isPrefixOf?_eq_some_iff_append_eq] at hcs
    rw [String.toList_ofList, hcs]
  · intro h
    exact ⟨rest.toList, List.isPrefixOf?_eq_some_iff_append_eq.mpr h.symm, String.ofList_toList⟩

theorem stripEnd_eq_some {ending rest : String} :
    stripEnd ending s = some rest ↔ s.toList = rest.toList ++ ending.toList := by
  unfold stripEnd
  rw [Option.map_eq_some_iff]
  constructor
  · rintro ⟨cs, hcs, rfl⟩
    rw [List.isPrefixOf?_eq_some_iff_append_eq] at hcs
    rw [String.toList_ofList, ← List.reverse_inj, ← hcs]
    simp
  · intro h
    refine ⟨rest.toList.reverse, List.isPrefixOf?_eq_some_iff_append_eq.mpr ?_, ?_⟩
    · rw [h, List.reverse_append]
    · rw [List.reverse_reverse, String.ofList_toList]

/-- What is joined at a character is split there, where no part has it. -/
theorem split_join {glue : String} (hglue : glue.toList = [sep]) {parts : List String}
    (hne : parts ≠ []) (h : ∀ p ∈ parts, sep ∉ p.toList) : split sep (join glue parts) = parts := by
  have hmap : parts.map String.toList ≠ [] := by simpa using hne
  have hparts : ∀ l ∈ parts.map String.toList, sep ∉ l := by simpa using h
  rw [split, join, String.toList_intercalate, hglue, List.splitOn_intercalate sep hparts hmap, List.map_map]
  simp [Function.comp_def]

theorem not_of_mem_splitOnP {p : Char → Bool} {l part : List Char} (h : part ∈ l.splitOnP p) :
    ∀ c ∈ part, p c = false := by
  induction l generalizing part with
  | nil =>
    rw [List.splitOnP_nil, List.mem_singleton] at h
    rw [h]
    exact fun _ hc => nomatch hc
  | cons d l ih =>
    rw [List.splitOnP_cons_eq_if_modifyHead] at h
    split at h
    · rcases List.mem_cons.mp h with rfl | h
      · exact fun _ hc => nomatch hc
      · exact ih h
    · rename_i hd
      cases hparts : l.splitOnP p with
      | nil => exact absurd hparts (List.splitOnP_ne_nil p l)
      | cons first parts =>
        rw [hparts, List.modifyHead_cons] at h
        rw [hparts] at ih
        rcases List.mem_cons.mp h with rfl | h
        · intro c hc
          rcases List.mem_cons.mp hc with rfl | hc
          · simpa using hd
          · exact ih List.mem_cons_self c hc
        · exact ih (List.mem_cons_of_mem _ h)

theorem not_mem_of_mem_split {part : String} (h : part ∈ split sep s) : sep ∉ part.toList := by
  obtain ⟨cs, hcs, rfl⟩ := List.mem_map.mp h
  rw [String.toList_ofList]
  intro hmem
  simpa using not_of_mem_splitOnP hcs sep hmem

end Text

end Bmac.Core
