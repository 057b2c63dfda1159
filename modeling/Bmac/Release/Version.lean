import Mathlib.Data.List.TakeWhile
import Bmac.Base.Lines
import Bmac.Base.Padded
import Bmac.Core.Text

/-!
# Version order

`bmac-release/src/version.rs`, the order in which dpkg sorts versions. A position in a text is what is
left of the text there; the loops take the number of rounds that they may go. A part's `key` puts its
runs as numbers one after the other, and the walk over two parts compares their keys as if zeros went on
after the end of each.
-/

namespace Bmac.Release

open Bmac.Base Bmac.Core
open Std (OrientedCmp ReflCmp TransCmp)

/-- A BMAC version as its package's version: its first hyphen becomes a tilde. -/
def debianVersion (version : String) : String :=
  match Text.splitOnce '-' version with
  | some (release, pre) => release ++ "~" ++ pre
  | none => version

/-- `u8::is_ascii_digit`. -/
def isDigit (c : UInt8) : Bool := 48 ≤ c && c ≤ 57

/-- `u8::is_ascii_alphabetic`. -/
def isAlphabetic (c : UInt8) : Bool := (65 ≤ c && c ≤ 90) || (97 ≤ c && c ≤ 122)

/-- Where a byte sorts, and the end of a run. A tilde is 126. -/
def order : Option UInt8 → Int
  | none => 0
  | some c => if c = 126 then -1 else if isAlphabetic c then c.toNat else c.toNat + 256

/-- The digits at the start without leading zeros, and what follows them. -/
def digits (s : List UInt8) : List UInt8 × List UInt8 :=
  let s := s.dropWhile (· == 48)
  (s.takeWhile isDigit, s.dropWhile isDigit)

/-- The next byte, if it isn't a digit. -/
def text (s : List UInt8) : Option UInt8 := s.head?.filter fun c => !isDigit c

/-- `compare_part`'s inner loop: an order in which it returns, or where it stops. -/
def compareText : Nat → List UInt8 → List UInt8 → Option (Except Ordering (List UInt8 × List UInt8))
  | 0, _, _ => none
  | rounds + 1, a, b =>
    let ca := text a
    let cb := text b
    if ca = none ∧ cb = none then some (.ok (a, b))
    else if order ca ≠ order cb then some (.error (compare (order ca) (order cb)))
    else compareText rounds (if ca.isSome then a.tail else a) (if cb.isSome then b.tail else b)

/-- Digits without leading zeros, the more of them first. -/
def byValue (na nb : List UInt8) : Ordering := (compare na.length nb.length).then (compare na nb)

def comparePart : Nat → List UInt8 → List UInt8 → Option Ordering
  | 0, _, _ => none
  | rounds + 1, a, b =>
    if a = [] ∧ b = [] then some .eq
    else
      match compareText (rounds + 1) a b with
      | none => none
      | some (.error found) => some found
      | some (.ok (a, b)) =>
        if byValue (digits a).1 (digits b).1 ≠ .eq then some (byValue (digits a).1 (digits b).1)
        else comparePart rounds (digits a).2 (digits b).2

def splitEpoch (version : String) : Nat × String :=
  match Text.splitOnce ':' version with
  | some (e, r) => ((Text.parseUnsigned (2 ^ 64) e).getD 0, r)
  | none => (0, version)

def splitRevision (rest : String) : String × String :=
  match Text.rsplitOnce '-' rest with
  | some (upstream, revision) => (upstream, revision)
  | none => (rest, "")

def split (version : String) : Nat × String × String :=
  let (epoch, rest) := splitEpoch version
  (epoch, splitRevision rest)

def asBytes (s : String) : List UInt8 := Lines.utf8 s.toList

/-- `Ordering::then_with`, which needs what comes next only of equals. -/
def thenWith (first next : Option Ordering) : Option Ordering :=
  match first with
  | some .eq => next
  | found => found

def epoch (version : String) : Nat := (split version).1

def upstream (version : String) : String := (split version).2.1

def revision (version : String) : String := (split version).2.2

def compareVersions (rounds : Nat) (a b : String) : Option Ordering :=
  thenWith (thenWith (some (compare (epoch a) (epoch b)))
    (comparePart rounds (asBytes (upstream a)) (asBytes (upstream b))))
    (comparePart rounds (asBytes (revision a)) (asBytes (revision b)))

/-- `older` of `bmacd/src/updates/job.rs`. -/
def older (rounds : Nat) (version than : String) : Option Bool :=
  (compareVersions rounds (debianVersion version) (debianVersion than)).map (· == .lt)

/-! ## Runs -/

def value (ds : List UInt8) : Nat := ds.foldl (fun n c => 10 * n + (c.toNat - 48)) 0

def textRun (s : List UInt8) : List UInt8 := s.takeWhile fun c => !isDigit c

def afterText (s : List UInt8) : List UInt8 := s.dropWhile fun c => !isDigit c

/-- The digits after `textRun`. -/
def digitRun (s : List UInt8) : List UInt8 := (afterText s).takeWhile isDigit

/-- What follows the first run of each kind. -/
def afterRuns (s : List UInt8) : List UInt8 := (afterText s).dropWhile isDigit

theorem length_afterText (s : List UInt8) : (afterText s).length ≤ s.length :=
  (List.dropWhile_suffix _).length_le

theorem length_afterRuns (s : List UInt8) : (afterRuns s).length ≤ (afterText s).length :=
  (List.dropWhile_suffix _).length_le

variable {s : List UInt8} {d : String}

theorem length_afterRuns_lt (h : s ≠ []) : (afterRuns s).length < s.length := by
  obtain ⟨c, s, rfl⟩ := List.exists_cons_of_ne_nil h
  unfold afterRuns afterText
  cases hc : isDigit c with
  | true =>
    have hdrop := (List.dropWhile_suffix (l := s) isDigit).length_le
    rw [List.dropWhile_cons_of_neg (by simp [hc]), List.dropWhile_cons_of_pos hc, List.length_cons]
    omega
  | false =>
    have hdrop := length_afterRuns s
    have htext := length_afterText s
    rw [List.dropWhile_cons_of_pos (by simp [hc]), List.length_cons]
    unfold afterRuns afterText at hdrop
    unfold afterText at htext
    omega

/-- The alternating runs of a text, each run of digits as its number and a missing last one as zero. -/
def runs (s : List UInt8) : List (List UInt8 × Nat) :=
  (textRun s, value (digitRun s)) :: if _h : afterRuns s = [] then [] else runs (afterRuns s)
termination_by s.length
decreasing_by
  refine length_afterRuns_lt ?_
  rintro rfl
  exact _h rfl

/-- A text as numbers: the order of each byte of a run, a zero, and the number after it. -/
def key (s : List UInt8) : List Int := 
  (runs s).flatMap fun run => run.1.map (order ∘ some) ++ [0, (run.2 : Int)]

/-! ## Orders of bytes -/

variable {c : UInt8} {a b : List UInt8} {e : String}

theorem isAlphabetic_range (h : isAlphabetic c = true) : 65 ≤ c.toNat ∧ c.toNat ≤ 122 := by
  simp only [isAlphabetic, Bool.or_eq_true, Bool.and_eq_true, decide_eq_true_eq, UInt8.le_iff_toNat_le] at h
  rcases h with ⟨hlow, hhigh⟩ | ⟨hlow, hhigh⟩
  · exact ⟨hlow, hhigh.trans (by decide)⟩
  · exact ⟨Nat.le_trans (by decide) hlow, hhigh⟩

/-- The tilde, the letters and the other bytes have orders of their own. -/
theorem order_cases (c : UInt8) : (c = 126 ∧ order (some c) = -1) ∨
    (65 ≤ c.toNat ∧ c.toNat ≤ 122 ∧ order (some c) = c.toNat) ∨ order (some c) = c.toNat + 256 := by
  unfold order
  dsimp only
  split
  · rename_i h
    exact .inl ⟨h, rfl⟩
  · split
    · rename_i h
      obtain ⟨hlow, hhigh⟩ := isAlphabetic_range h
      exact .inr (.inl ⟨hlow, hhigh, rfl⟩)
    · exact .inr (.inr rfl)

theorem order_ne_zero (c : UInt8) : order (some c) ≠ 0 := by
  have := order_cases c
  omega

theorem order_injective : Function.Injective (order ∘ some) := by
  intro c d h
  simp only [Function.comp_apply] at h
  rcases order_cases c with ⟨rfl, hc⟩ | hc | hc <;> rcases order_cases d with ⟨rfl, hd⟩ | hd | hd
  · rfl
  all_goals
    rw [← UInt8.toNat_inj]
    omega

/-! ## Numbers of digits -/

theorem value_cons (c : UInt8) (ds : List UInt8) :
    value (c :: ds) = (c.toNat - 48) * 10 ^ ds.length + value ds := by
  have hfrom (n : Nat) : ds.foldl (fun n c => 10 * n + (c.toNat - 48)) n = n * 10 ^ ds.length + value ds := by
    induction ds generalizing n with
    | nil => simp [value]
    | cons d ds ih =>
      rw [value, List.foldl_cons, List.foldl_cons, ih, ih, List.length_cons, Nat.pow_succ]
      ring
  rw [value, List.foldl_cons, hfrom, Nat.mul_zero, Nat.zero_add]

theorem value_lt {ds : List UInt8} (h : ∀ c ∈ ds, isDigit c = true) : value ds < 10 ^ ds.length := by
  induction ds with
  | nil => decide
  | cons c ds ih =>
    have hc := h c List.mem_cons_self
    simp only [isDigit, Bool.and_eq_true, decide_eq_true_eq, UInt8.le_iff_toNat_le] at hc
    have hdigit : c.toNat - 48 ≤ 9 := by
      have : c.toNat ≤ 57 := hc.2
      omega
    have hrest := ih fun d hd => h d (List.mem_cons_of_mem c hd)
    have hmul := Nat.mul_le_mul_right (10 ^ ds.length) hdigit
    rw [value_cons, List.length_cons, Nat.pow_succ]
    omega

theorem compare_place {m n a b place : Nat} (ha : a < place) (hb : b < place) :
    compare (m * place + a) (n * place + b) = (compare m n).then (compare a b) := by
  rcases Nat.lt_trichotomy m n with hlt | rfl | hlt
  · have hmul := Nat.mul_le_mul_right place (Nat.succ_le_of_lt hlt)
    rw [Nat.succ_mul] at hmul
    rw [Nat.compare_eq_lt.mpr hlt, Nat.compare_eq_lt.mpr (by omega)]
    rfl
  · rw [Nat.compare_eq_eq.mpr rfl]
    show _ = compare a b
    rcases Nat.lt_trichotomy a b with hlt | rfl | hlt
    · rw [Nat.compare_eq_lt.mpr hlt, Nat.compare_eq_lt.mpr (by omega)]
    · rw [Nat.compare_eq_eq.mpr rfl, Nat.compare_eq_eq.mpr rfl]
    · rw [Nat.compare_eq_gt.mpr hlt, Nat.compare_eq_gt.mpr (by omega)]
  · have hmul := Nat.mul_le_mul_right place (Nat.succ_le_of_lt hlt)
    rw [Nat.succ_mul] at hmul
    rw [Nat.compare_eq_gt.mpr hlt, Nat.compare_eq_gt.mpr (by omega)]
    rfl

theorem isDigit_range (h : isDigit c = true) : 48 ≤ c.toNat ∧ c.toNat ≤ 57 := by
  simpa [isDigit, UInt8.le_iff_toNat_le] using h

theorem compare_digit {d : UInt8} (hc : isDigit c = true) (hd : isDigit d = true) :
    compare c d = compare (c.toNat - 48) (d.toNat - 48) := by
  have hc := isDigit_range hc
  have hd := isDigit_range hd
  rcases Nat.lt_trichotomy c.toNat d.toNat with hlt | heq | hlt
  · rw [Std.compare_eq_lt.mpr (UInt8.lt_iff_toNat_lt.mpr hlt), Nat.compare_eq_lt.mpr (by omega)]
  · rw [UInt8.toNat_inj.mp heq, Nat.compare_eq_eq.mpr rfl]
    exact ReflCmp.compare_self
  · rw [Std.compare_eq_gt.mpr (UInt8.lt_iff_toNat_lt.mpr hlt), Nat.compare_eq_gt.mpr (by omega)]

theorem compare_value (ha : ∀ c ∈ a, isDigit c = true) (hb : ∀ c ∈ b, isDigit c = true)
    (h : a.length = b.length) : compare a b = compare (value a) (value b) := by
  induction a generalizing b with
  | nil =>
    obtain rfl := List.length_eq_zero_iff.mp h.symm
    rfl
  | cons c a ih =>
    obtain ⟨d, b, rfl⟩ := List.exists_cons_of_length_eq_add_one h.symm
    have hlen : a.length = b.length := Nat.succ.inj h
    have ha' := fun e he => ha e (List.mem_cons_of_mem c he)
    have hb' := fun e he => hb e (List.mem_cons_of_mem d he)
    have hlist : compare (c :: a) (d :: b) = (compare c d).then (compare a b) := List.compareLex_cons_cons
    rw [hlist, value_cons, value_cons, hlen, compare_place (hlen ▸ value_lt ha') (value_lt hb'),
      ← ih ha' hb' hlen, compare_digit (ha c List.mem_cons_self) (hb d List.mem_cons_self)]

theorem le_value {c : UInt8} {ds : List UInt8} (hc : isDigit c = true) (hne : c ≠ 48) :
    10 ^ ds.length ≤ value (c :: ds) := by
  have hc := isDigit_range hc
  have hne : c.toNat ≠ 48 := fun h => hne (UInt8.toNat_inj.mp h)
  have hmul := Nat.mul_le_mul_right (10 ^ ds.length) (show 1 ≤ c.toNat - 48 by omega)
  rw [value_cons]
  omega

/-- Digits without a leading zero are more, the larger their number. -/
theorem value_lt_of_length (ha : ∀ c ∈ a, isDigit c = true)
    (hb : ∀ c ∈ b, isDigit c = true) (hhead : b.head? ≠ some 48) (h : a.length < b.length) : value a < value b := by
  cases b with
  | nil => exact absurd h (Nat.not_lt_zero _)
  | cons d b =>
    have hle := @le_value d b (hb d List.mem_cons_self) fun heq => hhead (congrArg some heq)
    have hpow : 10 ^ a.length ≤ 10 ^ b.length := Nat.pow_le_pow_right (by omega) (Nat.le_of_lt_succ h)
    exact Nat.lt_of_lt_of_le (value_lt ha) (hpow.trans hle)

theorem byValue_eq (ha : ∀ c ∈ a, isDigit c = true) (hb : ∀ c ∈ b, isDigit c = true)
    (ha' : a.head? ≠ some 48) (hb' : b.head? ≠ some 48) :
    byValue a b = compare (value a) (value b) := by
  unfold byValue
  rcases Nat.lt_trichotomy a.length b.length with hlt | heq | hlt
  · rw [Nat.compare_eq_lt.mpr hlt, Nat.compare_eq_lt.mpr (value_lt_of_length ha hb hb' hlt)]
    rfl
  · rw [Nat.compare_eq_eq.mpr heq, compare_value ha hb heq]
    rfl
  · rw [Nat.compare_eq_gt.mpr hlt, Nat.compare_eq_gt.mpr (value_lt_of_length hb ha ha' hlt)]
    rfl

/-! ## The digits at a position -/

theorem value_dropWhile_zero (ds : List UInt8) : value (ds.dropWhile (· == 48)) = value ds := by
  induction ds with
  | nil => rfl
  | cons c ds ih =>
    by_cases hc : c = 48
    · rw [List.dropWhile_cons_of_pos (by simp [hc]), ih, value_cons, hc]
      simp
    · rw [List.dropWhile_cons_of_neg (by simpa using hc)]

theorem head?_dropWhile_ne (s : List UInt8) : (s.dropWhile (· == 48)).head? ≠ some 48 := by
  intro h
  have := List.head?_dropWhile_not (· == 48) s
  simp [h] at this

theorem digits_eq (s : List UInt8) :
    digits s = ((s.takeWhile isDigit).dropWhile (· == 48), s.dropWhile isDigit) := by
  induction s with
  | nil => rfl
  | cons c s ih =>
    by_cases hc : c = 48
    · subst hc
      rw [List.takeWhile_cons_of_pos (by decide), List.dropWhile_cons_of_pos (by decide),
        List.dropWhile_cons_of_pos (by decide), ← ih]
      rfl
    · have hdrop : (c :: s).dropWhile (· == 48) = c :: s := List.dropWhile_cons_of_neg (by simpa using hc)
      rw [digits, hdrop]
      cases hd : isDigit c with
      | true =>
        have hhead : (c :: s.takeWhile isDigit).dropWhile (· == 48) = c :: s.takeWhile isDigit :=
          List.dropWhile_cons_of_neg (by simpa using hc)
        rw [List.takeWhile_cons_of_pos hd, hhead]
      | false =>
        rw [List.takeWhile_cons_of_neg (by simp [hd])]
        rfl

/-! ## Walking over two texts -/

def orders (s : List UInt8) : List Int := (textRun s).map (order ∘ some)

theorem zero_not_mem_orders (s : List UInt8) : (0 : Int) ∉ orders s := by
  intro h
  obtain ⟨c, -, hc⟩ := List.mem_map.mp h
  exact order_ne_zero c hc

theorem orders_inj : orders a = orders b ↔ textRun a = textRun b :=
  (List.map_injective_iff.mpr order_injective).eq_iff

theorem text_cases (s : List UInt8) : (text s = none ∧ orders s = [] ∧ afterText s = s) ∨
    ∃ c rest, s = c :: rest ∧ text s = some c ∧ orders s = order (some c) :: orders rest ∧
      afterText s = afterText rest := by
  cases s with
  | nil => exact .inl ⟨rfl, rfl, rfl⟩
  | cons c rest =>
    cases hc : isDigit c with
    | true =>
      refine .inl ⟨by simp [text, hc], ?_, List.dropWhile_cons_of_neg (by simp [hc])⟩
      rw [orders, textRun, List.takeWhile_cons_of_neg (by simp [hc]), List.map_nil]
    | false =>
      refine .inr ⟨c, rest, rfl, by simp [text, hc], ?_, List.dropWhile_cons_of_pos (by simp [hc])⟩
      rw [orders, textRun, List.takeWhile_cons_of_pos (by simp [hc])]
      rfl

/-- Where the inner loop ends. -/
def stopped (found : Ordering) (rest : List UInt8 × List UInt8) :
    Except Ordering (List UInt8 × List UInt8) :=
  if found = .eq then .ok rest else .error found

theorem compare_ne_eq {m n : Int} (h : m ≠ n) : compare m n ≠ .eq := fun heq => h (Int.compare_eq_eq.mp heq)

theorem stopped_then {found : Ordering} (h : found ≠ .eq) (next : Ordering) (rest : List UInt8 × List UInt8) :
    stopped (found.then next) rest = .error found := by
  cases found with
  | eq => exact absurd rfl h
  | lt => rfl
  | gt => rfl

theorem compareText_eq {rounds : Nat} (h : a.length + b.length < rounds) :
    compareText rounds a b = some (stopped (cmpPadded 0 (orders a) (orders b)) (afterText a, afterText b)) := by
  induction rounds generalizing a b with
  | zero => exact absurd h (Nat.not_lt_zero _)
  | succ rounds ih =>
    rw [compareText]
    rcases text_cases a with ⟨hta, hra, haa⟩ | ⟨c, a', rfl, hta, hra, haa⟩
    · rcases text_cases b with ⟨htb, hrb, hab⟩ | ⟨d, b', rfl, htb, hrb, hab⟩
      · rw [hta, htb, hra, hrb, haa, hab]
        rfl
      · have hne : order none ≠ order (some d) := (order_ne_zero d).symm
        rw [hta, htb, hra, hrb, if_neg (by simp), if_pos hne]
        exact congrArg some (stopped_then (compare_ne_eq hne) _ _).symm
    · rcases text_cases b with ⟨htb, hrb, hab⟩ | ⟨d, b', rfl, htb, hrb, hab⟩
      · have hne : order (some c) ≠ order none := order_ne_zero c
        rw [hta, htb, hra, hrb, if_neg (by simp), if_pos hne]
        exact congrArg some (stopped_then (compare_ne_eq hne) _ _).symm
      · rw [hta, htb, hra, hrb, if_neg (by simp), haa, hab, cmpPadded_cons]
        by_cases heq : order (some c) = order (some d)
        · have hlen : a'.length + b'.length < rounds := by
            simp only [List.length_cons] at h
            omega
          rw [if_neg (not_not.mpr heq), heq, Int.compare_eq_eq.mpr rfl]
          exact ih hlen
        · rw [if_pos heq, stopped_then (compare_ne_eq heq)]

/-! ## Keys -/

theorem runs_eq (s : List UInt8) : runs s =
    (textRun s, value (digitRun s)) :: if afterRuns s = [] then [] else runs (afterRuns s) := by
  rw [runs]
  split <;> rfl

theorem runs_ne_nil (s : List UInt8) : runs s ≠ [] := by
  rw [runs_eq]
  exact List.cons_ne_nil _ _

theorem key_eq (s : List UInt8) : key s =
    orders s ++ 0 :: (value (digitRun s) : Int) :: if afterRuns s = [] then [] else key (afterRuns s) := by
  rw [key, runs_eq, List.flatMap_cons]
  split <;> simp [orders, key]

theorem key_nil : key [] = [0, 0] := by
  rw [key_eq]
  rfl

/-- A text without runs is compared as one whose runs are empty. -/
theorem cmp_ended : cmpPadded 0 (if s = [] then [] else key s) (key s) = .eq := by
  split
  · rename_i h
    rw [h, key_nil]
    rfl
  · exact ReflCmp.compare_self

theorem compare_cast (m n : Nat) : compare (m : Int) (n : Int) = compare m n := by
  rcases Nat.lt_trichotomy m n with hlt | rfl | hlt
  · rw [Nat.compare_eq_lt.mpr hlt, Int.compare_eq_lt.mpr (by omega)]
  · rw [Nat.compare_eq_eq.mpr rfl, Int.compare_eq_eq.mpr rfl]
  · rw [Nat.compare_eq_gt.mpr hlt, Int.compare_eq_gt.mpr (by omega)]

theorem cmp_key (a b : List UInt8) : cmpPadded 0 (key a) (key b) =
    (cmpPadded 0 (orders a) (orders b)).then ((compare (value (digitRun a)) (value (digitRun b))).then
      (cmpPadded 0 (key (afterRuns a)) (key (afterRuns b)))) := by
  have hne (s : List UInt8) : ∀ x ∈ orders s, compare x 0 ≠ .eq :=
    fun x hx => compare_ne_eq fun heq => zero_not_mem_orders s (heq ▸ hx)
  rw [key_eq a, key_eq b, cmpPadded_terminated (hne a) (hne b), cmpPadded_cons, compare_cast,
    TransCmp.congr_left cmp_ended, TransCmp.congr_right cmp_ended]

theorem afterRuns_nil : afterRuns [] = [] := rfl

/-- What follows a run of digits doesn't start with one. -/
theorem textRun_afterRuns (h : afterRuns s ≠ []) : textRun (afterRuns s) ≠ [] := by
  obtain ⟨c, rest, hrest⟩ := List.exists_cons_of_ne_nil h
  have hhead := List.head?_dropWhile_not isDigit (afterText s)
  rw [show (afterText s).dropWhile isDigit = c :: rest from hrest] at hhead
  rw [hrest, textRun, List.takeWhile_cons_of_pos (by simpa using hhead)]
  exact List.cons_ne_nil _ _

theorem textRun_of_cmp (h : cmpPadded 0 (key a) (key b) = .eq) : textRun a = textRun b := by
  rw [cmp_key, Ordering.then_eq_eq, cmpPadded_eq_iff (zero_not_mem_orders a) (zero_not_mem_orders b)] at h
  exact orders_inj.mp h.1

theorem cmp_key_eq_of
    (h : afterRuns a ≠ [] → afterRuns b ≠ [] → (cmpPadded 0 (key (afterRuns a)) (key (afterRuns b)) = .eq ↔
      runs (afterRuns a) = runs (afterRuns b))) : cmpPadded 0 (key a) (key b) = .eq ↔ runs a = runs b := by
  rw [cmp_key, Ordering.then_eq_eq, Ordering.then_eq_eq, Nat.compare_eq_eq, runs_eq a, runs_eq b, List.cons.injEq,
    Prod.mk.injEq, and_assoc, cmpPadded_eq_iff (zero_not_mem_orders a) (zero_not_mem_orders b), orders_inj]
  refine and_congr_right fun _ => and_congr_right fun _ => ?_
  by_cases ha : afterRuns a = [] <;> by_cases hb : afterRuns b = []
  · rw [ha, hb, if_pos rfl]
    exact iff_of_true ReflCmp.compare_self rfl
  · rw [if_pos ha, if_neg hb]
    refine iff_of_false (fun heq => textRun_afterRuns hb ?_) (runs_ne_nil _).symm
    rw [← textRun_of_cmp heq, ha]
    rfl
  · rw [if_neg ha, if_pos hb]
    refine iff_of_false (fun heq => textRun_afterRuns ha ?_) (runs_ne_nil _)
    rw [textRun_of_cmp heq, hb]
    rfl
  · rw [if_neg ha, if_neg hb]
    exact h ha hb

/-- Keys are the same exactly if the runs are. -/
theorem cmp_key_eq : cmpPadded 0 (key a) (key b) = .eq ↔ runs a = runs b := by
  obtain ⟨n, hn⟩ : ∃ n, a.length ≤ n := ⟨_, le_rfl⟩
  induction n generalizing a b with
  | zero =>
    obtain rfl := List.length_eq_zero_iff.mp (Nat.le_zero.mp hn)
    exact cmp_key_eq_of fun hrest _ => absurd afterRuns_nil hrest
  | succ n ih =>
    refine cmp_key_eq_of fun hrest _ => ih ?_
    have hne : a ≠ [] := by
      rintro rfl
      exact hrest afterRuns_nil
    have := length_afterRuns_lt hne
    omega

theorem byValue_digits (a b : List UInt8) : byValue (digits (afterText a)).1 (digits (afterText b)).1 =
    compare (value (digitRun a)) (value (digitRun b)) := by
  have hdigit (s : List UInt8) : ∀ c ∈ (digitRun s).dropWhile (· == 48), isDigit c = true :=
    fun c hc => List.all_eq_true.mp List.all_takeWhile c ((List.dropWhile_sublist _).mem hc)
  have hvalue := byValue_eq (hdigit a) (hdigit b) (head?_dropWhile_ne _) (head?_dropWhile_ne _)
  rw [value_dropWhile_zero, value_dropWhile_zero] at hvalue
  rw [digits_eq, digits_eq]
  exact hvalue

theorem digits_after (s : List UInt8) : (digits (afterText s)).2 = afterRuns s := by
  rw [digits_eq]
  rfl

theorem comparePart_eq {rounds : Nat} {a b : List UInt8} (h : a.length + b.length < rounds) :
    comparePart rounds a b = some (cmpPadded 0 (key a) (key b)) := by
  induction rounds generalizing a b with
  | zero => exact absurd h (Nat.not_lt_zero _)
  | succ rounds ih =>
    rw [comparePart]
    by_cases hnil : a = [] ∧ b = []
    · obtain ⟨rfl, rfl⟩ := hnil
      rw [if_pos ⟨rfl, rfl⟩]
      exact congrArg some ReflCmp.compare_self.symm
    · have hlen : (afterRuns a).length + (afterRuns b).length < rounds := by
        have := length_afterText a
        have := length_afterText b
        have := length_afterRuns a
        have := length_afterRuns b
        rcases not_and_or.mp hnil with hne | hne
        · have := length_afterRuns_lt hne
          omega
        · have := length_afterRuns_lt hne
          omega
      rw [if_neg hnil, compareText_eq h, cmp_key]
      cases hfound : cmpPadded 0 (orders a) (orders b) with
      | lt => rfl
      | gt => rfl
      | eq =>
        show (if byValue (digits (afterText a)).1 (digits (afterText b)).1 ≠ .eq then some (byValue _ _)
          else comparePart rounds (digits (afterText a)).2 (digits (afterText b)).2) = _
        rw [byValue_digits, digits_after, digits_after]
        cases hvalue : compare (value (digitRun a)) (value (digitRun b)) with
        | lt => rfl
        | gt => rfl
        | eq => exact ih hlen

/-! ## The order of versions -/

def partOrder (part : String → String) (a b : String) : Ordering :=
  cmpPadded 0 (key (asBytes (part a))) (key (asBytes (part b)))

instance (part : String → String) : TransCmp (partOrder part) where
  eq_swap := cmpPadded_swap _ _
  isLE_trans := cmpPadded_trans

def versionOrder : String → String → Ordering :=
  compareLex (compareLex (compareOn epoch) (partOrder upstream)) (partOrder revision)

instance : TransCmp versionOrder := inferInstanceAs (TransCmp (compareLex _ _))

theorem thenWith_some (first next : Ordering) : thenWith (some first) (some next) = some (first.then next) := by
  cases first <;> rfl

theorem compareVersions_eq (a b : String) :
    ∃ steps, ∀ rounds ≥ steps, compareVersions rounds a b = some (versionOrder a b) := by
  refine ⟨(asBytes (upstream a)).length + (asBytes (upstream b)).length +
    ((asBytes (revision a)).length + (asBytes (revision b)).length) + 1, fun rounds hrounds => ?_⟩
  have hupstream := @comparePart_eq rounds (asBytes (upstream a)) (asBytes (upstream b)) (by omega)
  have hrevision := @comparePart_eq rounds (asBytes (revision a)) (asBytes (revision b)) (by omega)
  rw [compareVersions, hupstream, hrevision, thenWith_some, thenWith_some]
  rfl

/-- Versions are the same exactly if their epochs and the runs of their parts are. -/
theorem versionOrder_eq {a b : String} : versionOrder a b = .eq ↔ epoch a = epoch b ∧
    runs (asBytes (upstream a)) = runs (asBytes (upstream b)) ∧
    runs (asBytes (revision a)) = runs (asBytes (revision b)) := by
  rw [versionOrder, compareLex_eq_eq, compareLex_eq_eq, compareOn, Nat.compare_eq_eq, partOrder, partOrder,
    cmp_key_eq, cmp_key_eq, and_assoc]

/-- The loops end, and what they find is a total preorder. -/
theorem versions_ordered : ∃ order : String → String → Ordering,
    (∀ a b, ∃ steps, ∀ rounds ≥ steps, compareVersions rounds a b = some (order a b)) ∧
    (∀ a, order a a = .eq) ∧ (∀ a b, order b a = (order a b).swap) ∧
    (∀ a b c, order a b ≠ .gt → order b c ≠ .gt → order a c = (order a b).then (order b c)) ∧
    ∀ a b, order a b = .eq ↔ epoch a = epoch b ∧
      runs (asBytes (upstream a)) = runs (asBytes (upstream b)) ∧
      runs (asBytes (revision a)) = runs (asBytes (revision b)) := by
  refine ⟨versionOrder, compareVersions_eq, fun a => ReflCmp.compare_self, fun a b => OrientedCmp.eq_swap, ?_,
    fun a b => versionOrder_eq⟩
  intro a b c hab hbc
  cases h : versionOrder a b with
  | gt => exact absurd h hab
  | eq => exact TransCmp.congr_left h
  | lt =>
    cases h' : versionOrder b c with
    | gt => exact absurd h' hbc
    | eq => exact TransCmp.lt_of_lt_of_eq h h'
    | lt => exact TransCmp.lt_trans h h'

/-! ## Longer versions -/

theorem takeWhile_end {p : UInt8 → Bool} (h : p c = false) (s t : List UInt8) :
    (s ++ c :: t).takeWhile p = s.takeWhile p := by
  rw [List.takeWhile_append, List.takeWhile_cons_of_neg (by simp [h]), List.append_nil]
  split
  · rename_i hall
    exact ((List.takeWhile_prefix p).eq_of_length hall).symm
  · rfl

theorem dropWhile_end {p : UInt8 → Bool} (h : p c = false) (s t : List UInt8) :
    (s ++ c :: t).dropWhile p = s.dropWhile p ++ c :: t := by
  rw [List.dropWhile_append, List.dropWhile_cons_of_neg (by simp [h])]
  split
  · rename_i hnil
    rw [List.isEmpty_iff.mp hnil, List.nil_append]
  · rfl

/-- A text is compared with one that it starts with by the byte after that. -/
theorem cmp_key_append (hc : isDigit c = false) (s t : List UInt8) :
    cmpPadded 0 (key (s ++ c :: t)) (key s) = compare (order (some c)) 0 := by
  obtain ⟨n, hn⟩ : ∃ n, s.length < n := ⟨_, Nat.lt_succ_self _⟩
  induction n generalizing s with
  | zero => exact absurd hn (Nat.not_lt_zero _)
  | succ n ih =>
    rw [cmp_key]
    by_cases hs : afterText s = []
    · have hall : ∀ d ∈ s, (!isDigit d) = true := List.dropWhile_eq_nil_iff.mp hs
      have hlong : orders (s ++ c :: t) = orders s ++ order (some c) :: orders t := by
        rw [orders, textRun, List.takeWhile_append_of_pos hall, List.takeWhile_cons_of_pos (by simp [hc]), orders,
          textRun, List.takeWhile_eq_self_iff.mpr hall, List.map_append]
        rfl
      rw [hlong, cmpPadded_append, cmpPadded_cons_nil]
      cases hcmp : compare (order (some c)) 0 with
      | eq => exact absurd (Int.compare_eq_eq.mp hcmp) (order_ne_zero c)
      | lt => rfl
      | gt => rfl
    · have htext : textRun (s ++ c :: t) = textRun s := by
        unfold textRun
        rw [List.takeWhile_append, if_neg]
        intro hlen
        have hsplit := congrArg List.length (@List.takeWhile_append_dropWhile _ (fun d => !isDigit d) s)
        rw [List.length_append, hlen] at hsplit
        exact hs (List.length_eq_zero_iff.mp (Nat.left_eq_add.mp hsplit.symm))
      have hafter : afterText (s ++ c :: t) = afterText s ++ c :: t := by
        unfold afterText
        rw [List.dropWhile_append, if_neg]
        exact fun h => hs (List.isEmpty_iff.mp h)
      have hdigits : digitRun (s ++ c :: t) = digitRun s := by
        rw [digitRun, hafter, takeWhile_end hc]
        rfl
      have hrest : afterRuns (s ++ c :: t) = afterRuns s ++ c :: t := by
        rw [afterRuns, hafter, dropWhile_end hc]
        rfl
      have hlen : (afterRuns s).length < n := by
        have hne : s ≠ [] := by
          rintro rfl
          exact hs rfl
        have := length_afterRuns_lt hne
        omega
      have hsame : cmpPadded 0 (orders s) (orders s) = .eq := ReflCmp.compare_self
      rw [orders, htext, ← orders, hdigits, hrest, hsame, Nat.compare_eq_eq.mpr rfl]
      exact ih _ hlen

/-- A text that starts with this byte, and doesn't go on with a number. -/
structure StartsWith (e : String) (c : UInt8) : Prop where
  bytes : ∃ t, asBytes e = c :: t
  not_digit : isDigit c = false

theorem asBytes_append (s t : String) : asBytes (s ++ t) = asBytes s ++ asBytes t := by
  rw [asBytes, String.toList_append, Lines.utf8_append]
  rfl

theorem StartsWith.append (h : StartsWith e c) (f : String) : StartsWith (e ++ f) c := by
  obtain ⟨t, ht⟩ := h.bytes
  exact ⟨⟨t ++ asBytes f, by rw [asBytes_append, ht]; rfl⟩, h.not_digit⟩

theorem StartsWith.cmp (h : StartsWith e c) (s : String) :
    cmpPadded 0 (key (asBytes (s ++ e))) (key (asBytes s)) = compare (order (some c)) 0 := by
  obtain ⟨t, ht⟩ := h.bytes
  rw [asBytes_append, ht, cmp_key_append h.not_digit]

/-- What is added after a version's colon, or without one, leaves the epoch. -/
theorem splitEpoch_append (h : ':' ∈ d.toList ∨ ':' ∉ e.toList) :
    splitEpoch (d ++ e) = ((splitEpoch d).1, (splitEpoch d).2 ++ e) := by
  unfold splitEpoch
  by_cases hd : ':' ∈ d.toList
  · obtain ⟨x, y, hsplit⟩ := Text.exists_splitOnce hd
    obtain ⟨hlist, hnot⟩ := Text.splitOnce_eq_some.mp hsplit
    have hlong : Text.splitOnce ':' (d ++ e) = some (x, y ++ e) :=
      Text.splitOnce_eq_some.mpr ⟨by simp [hlist], hnot⟩
    rw [hsplit, hlong]
  · have hlong : ':' ∉ (d ++ e).toList := by simp [hd, h.resolve_left hd]
    rw [Text.splitOnce_eq_none hd, Text.splitOnce_eq_none hlong]

theorem not_mem_splitEpoch {c : Char} (h : c ∉ d.toList) : c ∉ (splitEpoch d).2.toList := by
  unfold splitEpoch
  split
  · rename_i x y hsplit
    rw [(Text.splitOnce_eq_some.mp hsplit).1, List.mem_append, List.mem_cons, not_or, not_or] at h
    exact h.2.2
  · exact h

theorem StartsWith.before {e1 e2 : String} (h : StartsWith e c) (hc : c ≠ 45)
    (heq : e.toList = e1.toList ++ '-' :: e2.toList) : StartsWith e1 c := by
  obtain ⟨t, ht⟩ := h.bytes
  have hbytes : asBytes e = asBytes e1 ++ 45 :: asBytes e2 := by
    rw [asBytes, heq, Lines.utf8_append]
    rfl
  rw [ht] at hbytes
  refine ⟨?_, h.not_digit⟩
  cases h1 : asBytes e1 with
  | nil =>
    rw [h1] at hbytes
    exact absurd (List.cons.inj hbytes).1 hc
  | cons d s =>
    rw [h1] at hbytes
    exact ⟨s, by rw [(List.cons.inj hbytes).1]⟩

theorem compare_order_then (c : UInt8) (next : Ordering) :
    (compare (order (some c)) 0).then next = compare (order (some c)) 0 := by
  cases hcmp : compare (order (some c)) 0 with
  | eq => exact absurd (Int.compare_eq_eq.mp hcmp) (order_ne_zero c)
  | lt => rfl
  | gt => rfl

/-- A hyphen in what is added starts a revision, and one before it ends the first version's upstream
part, so that this byte must be after the end of a text as the hyphen is. -/
theorem cmp_splitRevision {r : String} (h : StartsWith e c) (hc : c ≠ 45)
    (hr : '-' ∉ r.toList ∨ 0 < order (some c)) :
    (cmpPadded 0 (key (asBytes (splitRevision (r ++ e)).1)) (key (asBytes (splitRevision r).1))).then
      (cmpPadded 0 (key (asBytes (splitRevision (r ++ e)).2)) (key (asBytes (splitRevision r).2))) =
      compare (order (some c)) 0 := by
  unfold splitRevision
  by_cases hhyphen : '-' ∈ r.toList
  · obtain ⟨u, w, hsplit⟩ := Text.exists_rsplitOnce hhyphen
    obtain ⟨hlist, hnot⟩ := Text.rsplitOnce_eq_some.mp hsplit
    rw [hsplit]
    by_cases he : '-' ∈ e.toList
    · obtain ⟨e1, e2, hsplit'⟩ := Text.exists_rsplitOnce he
      obtain ⟨hlist', hnot'⟩ := Text.rsplitOnce_eq_some.mp hsplit'
      have hlong : Text.rsplitOnce '-' (r ++ e) = some (r ++ e1, e2) :=
        Text.rsplitOnce_eq_some.mpr ⟨by simp [hlist'], hnot'⟩
      have hstart : StartsWith ("-" ++ w ++ e1) 45 := (StartsWith.append ⟨⟨[], rfl⟩, rfl⟩ w).append e1
      have hr1 : r ++ e1 = u ++ ("-" ++ w ++ e1) := by
        rw [← String.toList_inj]
        simp [hlist]
      rw [hlong]
      dsimp only
      rw [hr1, hstart.cmp, Int.compare_eq_gt.mpr (hr.resolve_left (not_not.mpr hhyphen))]
      rfl
    · have hlong : Text.rsplitOnce '-' (r ++ e) = some (u, w ++ e) :=
        Text.rsplitOnce_eq_some.mpr ⟨by simp [hlist], by simp [hnot, he]⟩
      have hself : cmpPadded 0 (key (asBytes u)) (key (asBytes u)) = .eq := ReflCmp.compare_self
      rw [hlong]
      dsimp only
      rw [hself, h.cmp]
      rfl
  · rw [Text.rsplitOnce_eq_none hhyphen]
    by_cases he : '-' ∈ e.toList
    · obtain ⟨e1, e2, hsplit'⟩ := Text.exists_rsplitOnce he
      obtain ⟨hlist', hnot'⟩ := Text.rsplitOnce_eq_some.mp hsplit'
      have hlong : Text.rsplitOnce '-' (r ++ e) = some (r ++ e1, e2) :=
        Text.rsplitOnce_eq_some.mpr ⟨by simp [hlist'], hnot'⟩
      rw [hlong]
      dsimp only
      rw [(h.before hc hlist').cmp, compare_order_then]
    · rw [Text.rsplitOnce_eq_none (by simp [hhyphen, he])]
      dsimp only
      rw [h.cmp, compare_order_then]

theorem versionOrder_append (h : StartsWith e c) (hc : c ≠ 45)
    (hcolon : ':' ∈ d.toList ∨ ':' ∉ e.toList) (hr : '-' ∉ d.toList ∨ 0 < order (some c)) :
    versionOrder (d ++ e) d = compare (order (some c)) 0 := by
  have hsplit := splitEpoch_append hcolon
  have hepoch : compare (epoch (d ++ e)) (epoch d) = .eq := by
    rw [Nat.compare_eq_eq, epoch, split, hsplit]
    rfl
  have hparts := cmp_splitRevision h hc (hr.imp_left not_mem_splitEpoch)
  rw [← show (splitEpoch (d ++ e)).2 = (splitEpoch d).2 ++ e from congrArg Prod.snd hsplit] at hparts
  show ((compare (epoch (d ++ e)) (epoch d)).then (partOrder upstream (d ++ e) d)).then
    (partOrder revision (d ++ e) d) = _
  rw [hepoch]
  exact hparts

theorem debianVersion_append (v e : String) :
    debianVersion (v ++ e) = debianVersion v ++ if '-' ∈ v.toList then e else debianVersion e := by
  unfold debianVersion
  by_cases hv : '-' ∈ v.toList
  · obtain ⟨x, y, hsplit⟩ := Text.exists_splitOnce hv
    obtain ⟨hlist, hnot⟩ := Text.splitOnce_eq_some.mp hsplit
    have hlong : Text.splitOnce '-' (v ++ e) = some (x, y ++ e) :=
      Text.splitOnce_eq_some.mpr ⟨by simp [hlist], hnot⟩
    rw [hsplit, hlong, if_pos hv]
    exact String.append_assoc.symm
  · rw [Text.splitOnce_eq_none hv, if_neg hv]
    by_cases he : '-' ∈ e.toList
    · obtain ⟨x, y, hsplit⟩ := Text.exists_splitOnce he
      obtain ⟨hlist, hnot⟩ := Text.splitOnce_eq_some.mp hsplit
      have hlong : Text.splitOnce '-' (v ++ e) = some (v ++ x, y) :=
        Text.splitOnce_eq_some.mpr ⟨by simp [hlist], by simp [hv, hnot]⟩
      rw [hsplit, hlong]
      simp only [String.append_assoc]
    · rw [Text.splitOnce_eq_none he, Text.splitOnce_eq_none (by simp [hv, he])]

theorem colon_debianVersion (v : String) : ':' ∈ (debianVersion v).toList ↔ ':' ∈ v.toList := by
  unfold debianVersion
  split
  · rename_i x y hsplit
    rw [(Text.splitOnce_eq_some.mp hsplit).1]
    simp
  · rfl

theorem debianVersion_of_not_mem {v : String} (h : '-' ∉ v.toList) : debianVersion v = v := by
  rw [debianVersion, Text.splitOnce_eq_none h]

theorem pre_before {v pre : String} (hcolon : ':' ∈ v.toList ∨ ':' ∉ pre.toList) (hv : '-' ∉ v.toList) :
    versionOrder (debianVersion (v ++ "-" ++ pre)) (debianVersion v) = .lt := by
  have hlong : debianVersion (v ++ "-" ++ pre) = v ++ ("~" ++ pre) := by
    have hsplit : Text.splitOnce '-' (v ++ "-" ++ pre) = some (v, pre) :=
      Text.splitOnce_eq_some.mpr ⟨by simp, hv⟩
    rw [debianVersion, hsplit, ← String.append_assoc]
  have htilde : StartsWith ("~" ++ pre) 126 := StartsWith.append ⟨⟨[], rfl⟩, rfl⟩ pre
  rw [hlong, debianVersion_of_not_mem hv,
    versionOrder_append htilde (by decide) (hcolon.imp_right fun h => by simpa using h) (.inl hv)]
  rfl

theorem build_after {v build : String} (hcolon : ':' ∈ v.toList ∨ ':' ∉ build.toList) :
    versionOrder (debianVersion (v ++ "+" ++ build)) (debianVersion v) = .gt := by
  obtain ⟨rest, hlong, hrest⟩ : ∃ rest, debianVersion (v ++ "+" ++ build) = debianVersion v ++ ("+" ++ rest) ∧
      (':' ∈ rest.toList ↔ ':' ∈ build.toList) := by
    rw [String.append_assoc, debianVersion_append]
    split
    · exact ⟨build, rfl, Iff.rfl⟩
    · have hplus : '-' ∉ "+".toList := by decide
      rw [debianVersion_append, if_neg hplus, debianVersion_of_not_mem hplus]
      exact ⟨debianVersion build, rfl, colon_debianVersion build⟩
  have hplus : StartsWith ("+" ++ rest) 43 := StartsWith.append ⟨⟨[], rfl⟩, rfl⟩ rest
  have hcolon' : ':' ∈ (debianVersion v).toList ∨ ':' ∉ ("+" ++ rest).toList := by
    rw [colon_debianVersion]
    refine hcolon.imp_right fun h => ?_
    simpa using mt hrest.mp h
  rw [hlong, versionOrder_append hplus (by decide) hcolon' (.inr (by decide))]
  rfl

theorem older_eq (version than : String) : ∃ steps, ∀ rounds ≥ steps,
    older rounds version than = some (versionOrder (debianVersion version) (debianVersion than) == .lt) := by
  obtain ⟨steps, h⟩ := compareVersions_eq (debianVersion version) (debianVersion than)
  refine ⟨steps, fun rounds hrounds => ?_⟩
  rw [older, h rounds hrounds]
  rfl

/-- A prerelease is older than its release, and a version is older than a build of it, where no colon
comes first in what is added. -/
theorem releases_ordered (v added : String) (hcolon : ':' ∈ v.toList ∨ ':' ∉ added.toList) :
    ∃ steps, ∀ rounds ≥ steps,
      ('-' ∉ v.toList → older rounds (v ++ "-" ++ added) v = some true ∧
        older rounds v (v ++ "-" ++ added) = some false) ∧
      older rounds v (v ++ "+" ++ added) = some true ∧ older rounds (v ++ "+" ++ added) v = some false := by
  obtain ⟨steps1, h1⟩ := older_eq (v ++ "-" ++ added) v
  obtain ⟨steps2, h2⟩ := older_eq v (v ++ "-" ++ added)
  obtain ⟨steps3, h3⟩ := older_eq v (v ++ "+" ++ added)
  obtain ⟨steps4, h4⟩ := older_eq (v ++ "+" ++ added) v
  refine ⟨steps1 + steps2 + steps3 + steps4, fun rounds hrounds => ?_⟩
  rw [h1 rounds (by omega), h2 rounds (by omega), h3 rounds (by omega), h4 rounds (by omega)]
  have hswap {a b : String} {found : Ordering} (h : versionOrder a b = found) : versionOrder b a = found.swap := by
    have hreverse : versionOrder b a = (versionOrder a b).swap := OrientedCmp.eq_swap
    rw [hreverse, h]
  have hbuild := build_after hcolon
  rw [hbuild, hswap hbuild]
  refine ⟨fun hv => ?_, rfl, rfl⟩
  have hpre := pre_before hcolon hv
  rw [hpre, hswap hpre]
  exact ⟨rfl, rfl⟩

/-- The version in the source's words, and its build. -/
theorem releases_ordered_dev : ∃ steps, ∀ rounds ≥ steps,
    older rounds "3.0.0-dev.0" "3.0.0" = some true ∧ older rounds "3.0.0" "3.0.0+dev.0" = some true := by
  obtain ⟨steps, h⟩ := releases_ordered "3.0.0" "dev.0" (.inr (by decide))
  exact ⟨steps, fun rounds hrounds => ⟨((h rounds hrounds).1 (by decide)).1, (h rounds hrounds).2.1⟩⟩

end Bmac.Release
