import Mathlib.Data.List.TakeWhile
import Bmac.Backup.Manifest
import Bmac.Base.Split
import Bmac.Core.Civil

/-!
# PIT snapshot names

`bmac-backup/src/names.rs`: `bmac-pit-<UTC timestamp>-<6 hex>`. A name is written from an instant and a
number, and read by `jiff`'s `strptime` and one comparison with what `new` writes. `pit_names_bijective`
says that the two are inverse to each other on the instants of the years 0 to 9999 that `jiff` has.
-/

namespace Bmac.Backup

open Bmac.Core

/-! ## `strptime` -/

namespace Strptime

def isSpace (c : Char) : Bool := c = ' ' || c = '\t' || c = '\n' || c = '\x0c' || c = '\r'

/-- Up to `width` digits after any blanks. -/
def number (width : Nat) (cs : List Char) : Option (Nat × List Char) :=
  let cs := cs.dropWhile isSpace
  let found := (cs.take width).takeWhile Text.isDigit
  if found = [] then none else some (Text.decimal found, cs.drop found.length)

def field (least most : Nat) (cs : List Char) : Option (Nat × List Char) := do
  let (n, rest) ← number 2 cs
  if least ≤ n ∧ n ≤ most then return (n, rest) else none

/-- `%Y`, which may have a sign. -/
def year (cs : List Char) : Option (Int × List Char) :=
  match cs with
  | '-' :: cs => (number 4 cs).map fun (n, rest) => (-n, rest)
  | '+' :: cs => (number 4 cs).map fun (n, rest) => (n, rest)
  | cs => (number 4 cs).map fun (n, rest) => (n, rest)

def letter (c : Char) : List Char → Option (List Char)
  | [] => none
  | d :: rest => if d = c then some rest else none

/-- The instant of a `%Y%m%dT%H%M%SZ`. A leap second counts as the second before it. -/
def instant (cs : List Char) : Option Int := do
  let (year, cs) ← year cs
  let (month, cs) ← field 1 12 cs
  let (day, cs) ← field 1 31 cs
  let cs ← letter 'T' cs
  let (hour, cs) ← field 0 23 cs
  let (minute, cs) ← field 0 59 cs
  let (second, cs) ← field 0 60 cs
  let cs ← letter 'Z' cs
  let date := (Civil.mk year month day).date
  let taken := 86400 * date + 3600 * hour + 60 * minute + min second 59
  -- nothing follows, the calendar has the date, and `Timestamp` has the instant
  if cs = [] ∧ civil date = ⟨year, month, day⟩ ∧ inTimestamps (1000 * taken) then return taken else none

end Strptime

/-! ## Names -/

def pitPrefix : String := "bmac-pit-"

/-- Proxmox storage replication's snapshots. -/
def replicationPrefix : String := "__replicate_"

namespace PitName

/-- `%Y%m%dT%H%M%SZ` of an instant. -/
def stampOf (takenS : Int) : List Char :=
  let ofDay := (takenS % 86400).toNat
  (stamp (takenS / 86400) (ofDay / 3600) (ofDay / 60 % 60)).toList ++ (Text.digits 2 (ofDay % 60) ++ ['Z'])

/-- What `new` writes of an instant that `jiff` has. -/
def named (takenS : Int) (nonce : Nat) : PitName where
  text := String.ofList
    (pitPrefix.toList ++ (stampOf takenS ++ '-' :: (Text.hex 6 (nonce % 2 ^ 24)).toList))
  takenS := takenS

/-- The name for a PIT taken at `takenS`, with six hex digits from `nonce`. It panics for an instant that
`jiff` doesn't have. -/
def new (takenS : Int) (nonce : Nat) : Option PitName :=
  if inTimestamps (1000 * takenS) then some (named takenS nonce) else none

/-- The number that lower-case hex digits write. -/
def hexNumber (cs : List Char) : Nat :=
  cs.foldl (fun n c => 16 * n + if Text.isDigit c then c.toNat - 48 else c.toNat - 87) 0

def isNonceDigit (c : Char) : Bool := Text.isDigit c || 'a' ≤ c && c ≤ 'f'

def fromStr (text : String) : Option PitName := do
  let rest ← Text.stripStart pitPrefix text
  let (stamp, nonce) ← Text.splitOnce '-' rest
  if ¬(nonce.toList.length = 6 ∧ nonce.toList.all isNonceDigit) then none
  if ¬(stamp.toList.length = 16 ∧ stamp.toList.all (·.toNat < 128)) then none
  let taken ← Strptime.instant stamp.toList
  let name ← new taken (hexNumber nonce.toList)
  if name.text ≠ text then none
  return name

end PitName

/-! ## What is written is read -/

theorem isDigit_digit (n : Nat) : Text.isDigit (Text.digit n) = true := by
  have hn := Text.toNat_digit n
  have hmod : n % 10 < 10 := Nat.mod_lt _ (by decide)
  have hlow : (48 : Nat) ≤ (Text.digit n).toNat := by omega
  have hhigh : (Text.digit n).toNat ≤ 57 := by omega
  simp only [Text.isDigit, Bool.and_eq_true, decide_eq_true_eq]
  exact ⟨hlow, hhigh⟩

variable {n width : Nat} {c : Char}

theorem isDigit_of_mem_digits (h : c ∈ Text.digits width n) : Text.isDigit c = true := by
  induction width generalizing n with
  | zero => cases h
  | succ width ih =>
    rcases List.mem_append.mp h with h | h
    · exact ih h
    · rw [List.mem_singleton.mp h]
      exact isDigit_digit n

theorem decimal_digits (h : n < 10 ^ width) : Text.decimal (Text.digits width n) = n := by
  induction width generalizing n with
  | zero =>
    have hzero : n = 0 := by simpa using h
    rw [hzero]
    rfl
  | succ width ih =>
    rw [Nat.pow_succ] at h
    rw [Text.digits, Text.decimal_snoc, ih (by omega), Text.toNat_digit]
    omega

namespace Strptime

theorem isSpace_of_isDigit (h : Text.isDigit c = true) : isSpace c = false := by
  have hne (d : Char) (hd : Text.isDigit d = false) : c ≠ d := fun heq => by
    rw [heq, hd] at h
    cases h
  simp [isSpace, hne ' ' (by decide), hne '\t' (by decide), hne '\n' (by decide), hne '\x0c' (by decide),
    hne '\r' (by decide)]

/-- A field that is as wide as it may be is read up to its end. -/
theorem number_digits (hwidth : 0 < width) (h : n < 10 ^ width) (rest : List Char) :
    number width (Text.digits width n ++ rest) = some (n, rest) := by
  have hlen : (Text.digits width n).length = width := Text.length_digits width n
  have hne : Text.digits width n ≠ [] := List.ne_nil_of_length_pos (by omega)
  have hskip : (Text.digits width n ++ rest).dropWhile isSpace = Text.digits width n ++ rest := by
    obtain ⟨c, cs, hcs⟩ := List.exists_cons_of_ne_nil hne
    have hc : Text.isDigit c = true := isDigit_of_mem_digits (by rw [hcs]; exact List.mem_cons_self)
    rw [hcs, List.cons_append, List.dropWhile_cons_of_neg (by simp [isSpace_of_isDigit hc])]
  have hfound : ((Text.digits width n ++ rest).take width).takeWhile Text.isDigit =
      Text.digits width n := by
    rw [List.take_left' hlen, List.takeWhile_eq_self_iff]
    exact fun c hc => isDigit_of_mem_digits hc
  simp only [number, hskip, hfound, if_neg hne, decimal_digits h, List.drop_left]

theorem field_digits {least most : Nat} (hleast : least ≤ n) (hmost : n ≤ most) (h : n < 100)
    (rest : List Char) : field least most (Text.digits 2 n ++ rest) = some (n, rest) := by
  simp only [field, number_digits (show 0 < 2 by decide) h, Option.bind_eq_bind, Option.bind_some,
    if_pos (And.intro hleast hmost), Option.pure_def]

theorem year_digits (h : n < 10000) (rest : List Char) :
    year (Text.digits 4 n ++ rest) = some ((n : Int), rest) := by
  have hne : Text.digits 4 n ≠ [] := List.ne_nil_of_length_pos (by simp)
  obtain ⟨c, cs, hcs⟩ := List.exists_cons_of_ne_nil hne
  have hc : Text.isDigit c = true := isDigit_of_mem_digits (by rw [hcs]; exact List.mem_cons_self)
  have hnumber := number_digits (show 0 < 4 by decide) h rest
  unfold year
  split
  · rename_i hminus
    rw [hcs, List.cons_append] at hminus
    cases hminus
    cases hc
  · rename_i hplus
    rw [hcs, List.cons_append] at hplus
    cases hplus
    cases hc
  · rw [hnumber]
    rfl

end Strptime

/-- The instants of the years 0 to 9999 that `jiff` has, the last 26 hours of 9999 left out. -/
def InYears (takenS : Int) : Prop := -62167219200 ≤ takenS ∧ takenS ≤ 253402207200

namespace PitName

variable {takenS : Int} {nonce : Nat}

theorem inTimestamps_of_inYears (h : InYears takenS) : inTimestamps (1000 * takenS) = true := by
  unfold inTimestamps
  simp only [Bool.and_eq_true, decide_eq_true_eq]
  unfold InYears at h
  omega

theorem inDates_of_inTimestamps (h : inTimestamps (1000 * takenS) = true) :
    inDates (takenS / 86400) = true := by
  unfold inTimestamps at h
  unfold inDates
  simp only [Bool.and_eq_true, decide_eq_true_eq] at h ⊢
  omega

theorem civil_year_nonneg {date : Int} : 0 ≤ (civil date).year ↔ -719528 ≤ date := by
  obtain ⟨era, century, four, single, month, day, hparts, heq⟩ := civil_parts date
  obtain ⟨hc, hf, hs, hm, hd, hof, hsum⟩ := hparts
  rw [heq]
  dsimp only
  split <;> simp only <;> omega

theorem stampOf_eq (h : InYears takenS) : ∃ year month day hour minute second : Nat,
    civil (takenS / 86400) = ⟨year, month, day⟩ ∧ year < 10000 ∧ (1 ≤ month ∧ month ≤ 12) ∧
      (1 ≤ day ∧ day ≤ 31) ∧ hour ≤ 23 ∧ minute ≤ 59 ∧ second ≤ 59 ∧
      takenS = 86400 * (takenS / 86400) + 3600 * hour + 60 * minute + second ∧
      stampOf takenS = Text.digits 4 year ++ (Text.digits 2 month ++ (Text.digits 2 day ++
        'T' :: (Text.digits 2 hour ++ (Text.digits 2 minute ++ (Text.digits 2 second ++ ['Z']))))) := by
  obtain ⟨hyear, hmonth, hday⟩ := civil_range (inDates_of_inTimestamps (inTimestamps_of_inYears h))
  have hzero : 0 ≤ (civil (takenS / 86400)).year := civil_year_nonneg.mpr (by unfold InYears at h; omega)
  generalize hc : civil (takenS / 86400) = c at hyear hmonth hday hzero
  refine ⟨c.year.natAbs, c.month.natAbs, c.day.natAbs, (takenS % 86400).toNat / 3600,
    (takenS % 86400).toNat / 60 % 60, (takenS % 86400).toNat % 60, ?_, by omega, by omega, by omega,
    by omega, by omega, by omega, by omega, ?_⟩
  · rw [Int.natAbs_of_nonneg hzero, Int.natAbs_of_nonneg (by omega), Int.natAbs_of_nonneg (by omega)]
  · simp only [stampOf, stamp, String.toList_ofList, hc, yearText, if_neg (not_lt.mpr hzero),
      List.append_assoc, List.cons_append]

theorem instant_stampOf (h : InYears takenS) : Strptime.instant (stampOf takenS) = some takenS := by
  obtain ⟨year, month, day, hour, minute, second, hc, hyear, hmonth, hday, hhour, hminute, hsecond, hsum,
    htext⟩ := stampOf_eq h
  have hdate : (Civil.mk year month day).date = takenS / 86400 := by rw [← hc, date_civil]
  have hmin : min second 59 = second := min_eq_left hsecond
  rw [htext]
  simp only [Strptime.instant, Strptime.year_digits hyear, Option.bind_eq_bind, Option.bind_some,
    Strptime.field_digits hmonth.1 hmonth.2 (by omega), Strptime.field_digits hday.1 hday.2 (by omega),
    Strptime.letter, ↓reduceIte, Strptime.field_digits (Nat.zero_le hour) hhour (by omega),
    Strptime.field_digits (Nat.zero_le minute) hminute (by omega),
    Strptime.field_digits (Nat.zero_le second) (show second ≤ 60 by omega) (by omega), hdate, hc, hmin,
    ← hsum, inTimestamps_of_inYears h, and_self, Option.pure_def]

theorem length_stampOf (h : InYears takenS) : (stampOf takenS).length = 16 := by
  obtain ⟨year, month, day, hour, minute, second, -, -, -, -, -, -, -, -, htext⟩ := stampOf_eq h
  rw [htext]
  simp

theorem mem_stampOf (h : InYears takenS) (hc : c ∈ stampOf takenS) :
    Text.isDigit c = true ∨ c = 'T' ∨ c = 'Z' := by
  obtain ⟨year, month, day, hour, minute, second, -, -, -, -, -, -, -, -, htext⟩ := stampOf_eq h
  rw [htext] at hc
  simp only [List.mem_append, List.mem_cons, List.not_mem_nil, or_false] at hc
  rcases hc with hc | hc | hc | hc | hc | hc | hc | hc
  all_goals first | exact .inl (isDigit_of_mem_digits hc) | exact .inr (.inl hc) | exact .inr (.inr hc)

theorem not_mem_stampOf (h : InYears takenS) : '-' ∉ stampOf takenS := fun hmem => by
  rcases mem_stampOf h hmem with hdigit | heq | heq
  · exact absurd hdigit (by decide)
  · cases heq
  · cases heq

theorem isAscii_stampOf (h : InYears takenS) : (stampOf takenS).all (·.toNat < 128) = true := by
  refine List.all_eq_true.mpr fun c hc => decide_eq_true ?_
  rcases mem_stampOf h hc with hdigit | rfl | rfl
  · simp only [Text.isDigit, Bool.and_eq_true, decide_eq_true_eq] at hdigit
    have hle : c.toNat ≤ 57 := hdigit.2
    omega
  · decide
  · decide

/-! ## The six digits -/

theorem isNonceDigit_hexDigit : ∀ n < 16, isNonceDigit (Text.hexDigit n) = true := by decide

theorem value_hexDigit : ∀ n < 16, (if Text.isDigit (Text.hexDigit n) then (Text.hexDigit n).toNat - 48
    else (Text.hexDigit n).toNat - 87) = n := by decide

theorem hex_eq (n : Nat) : (Text.hex 6 n).toList = [Text.hexDigit (n / 16 ^ 5 % 16),
    Text.hexDigit (n / 16 ^ 4 % 16), Text.hexDigit (n / 16 ^ 3 % 16), Text.hexDigit (n / 16 ^ 2 % 16),
    Text.hexDigit (n / 16 ^ 1 % 16), Text.hexDigit (n / 16 ^ 0 % 16)] := by
  rw [Text.hex, String.toList_ofList]
  rfl

theorem isNonce_hex (n : Nat) :
    (Text.hex 6 n).toList.length = 6 ∧ (Text.hex 6 n).toList.all isNonceDigit = true := by
  have hdigit (k : Nat) : isNonceDigit (Text.hexDigit (k % 16)) = true :=
    isNonceDigit_hexDigit _ (Nat.mod_lt _ (by decide))
  rw [hex_eq]
  simp [hdigit]

theorem hexNumber_hex (h : n < 2 ^ 24) : hexNumber (Text.hex 6 n).toList = n := by
  have hvalue (k : Nat) := value_hexDigit (k % 16) (Nat.mod_lt k (by decide))
  rw [hex_eq]
  simp only [hexNumber, List.foldl_cons, List.foldl_nil, hvalue]
  omega

/-! ## Names and texts -/

theorem stripStart_ofList (start : String) (rest : List Char) :
    Text.stripStart start (String.ofList (start.toList ++ rest)) = some (String.ofList rest) := by
  rw [Text.stripStart, String.toList_ofList, Base.isPrefixOf?_eq_some.mpr rfl]
  rfl

theorem fromStr_named (h : InYears takenS) (nonce : Nat) :
    fromStr (named takenS nonce).text = some (named takenS nonce) := by
  have hnonce := isNonce_hex (nonce % 2 ^ 24)
  have hnumber : hexNumber (Text.hex 6 (nonce % 2 ^ 24)).toList = nonce % 2 ^ 24 :=
    hexNumber_hex (Nat.mod_lt _ (by decide))
  have hnamed : named takenS (nonce % 2 ^ 24) = named takenS nonce := by
    simp only [named, Nat.mod_mod]
  have htext : (named takenS nonce).text = String.ofList (pitPrefix.toList ++ (stampOf takenS ++
    '-' :: (Text.hex 6 (nonce % 2 ^ 24)).toList)) := rfl
  unfold fromStr
  rw [htext, stripStart_ofList]
  simp only [Option.bind_eq_bind, Option.bind_some, Text.splitOnce, String.toList_ofList,
    Text.splitBefore_of_not_mem (not_mem_stampOf h), Option.map_some, List.tail_cons, hnonce,
    length_stampOf h, isAscii_stampOf h, instant_stampOf h, hnumber, new, inTimestamps_of_inYears h,
    hnamed, and_self, not_true_eq_false, ↓reduceIte, Option.pure_def]
  exact if_neg (not_not.mpr htext)

theorem fromStr_eq_some {text : String} {name : PitName} (h : fromStr text = some name) :
    name.text = text ∧ ∃ rest stamp nonce, Text.stripStart pitPrefix text = some rest ∧
      Text.splitOnce '-' rest = some (stamp, nonce) ∧ stamp.toList.length = 16 ∧
      inTimestamps (1000 * name.takenS) = true ∧ name = named name.takenS (hexNumber nonce.toList) := by
  unfold fromStr at h
  obtain ⟨rest, hrest, h⟩ := Option.bind_eq_some_iff.mp h
  obtain ⟨⟨stamp, nonce⟩, hsplit, h⟩ := Option.bind_eq_some_iff.mp h
  dsimp only at h
  split at h
  · cases h
  split at h
  · cases h
  rename_i _ hstamp
  obtain ⟨taken, -, h⟩ := Option.bind_eq_some_iff.mp h
  obtain ⟨name', hnew, h⟩ := Option.bind_eq_some_iff.mp h
  split at h
  · cases h
  rename_i htext
  cases h
  unfold new at hnew
  split at hnew
  · rename_i hin
    obtain rfl := Option.some.inj hnew
    exact ⟨not_not.mp htext, rest, stamp, nonce, hrest, hsplit, (not_not.mp hstamp).1, hin, rfl⟩
  · cases hnew

/-- The stamp of a year before 0 starts with its sign. -/
theorem stampOf_neg (h : takenS / 86400 < -719528) : (stampOf takenS).head? = some '-' := by
  have hneg := not_le.mp fun hyear => not_le.mpr h (civil_year_nonneg.mp hyear)
  simp only [stampOf, stamp, String.toList_ofList, yearText, if_pos hneg, List.cons_append,
    List.head?_cons]

theorem inYears_of_fromStr {text : String} {name : PitName} (h : fromStr text = some name) :
    InYears name.takenS := by
  obtain ⟨htext, rest, stamp, nonce, hrest, hsplit, hlen, hin, hname⟩ := fromStr_eq_some h
  unfold inTimestamps at hin
  simp only [Bool.and_eq_true, decide_eq_true_eq] at hin
  by_cases hzero : name.takenS / 86400 < -719528
  · obtain ⟨cs, hcs⟩ := List.head?_eq_some_iff.mp (stampOf_neg hzero)
    have hlist : text = String.ofList (pitPrefix.toList ++ '-' ::
        (cs ++ '-' :: (Text.hex 6 (hexNumber nonce.toList % 2 ^ 24)).toList)) := by
      rw [← htext, hname, named, hcs]
      rfl
    rw [hlist, stripStart_ofList] at hrest
    cases hrest
    -- nothing is left before the first `-`
    have hfirst := @Text.splitBefore_of_not_mem '-' []
      (cs ++ '-' :: (Text.hex 6 (hexNumber nonce.toList % 2 ^ 24)).toList) List.not_mem_nil
    rw [List.nil_append] at hfirst
    rw [Text.splitOnce, String.toList_ofList, hfirst, Option.map_some, Option.some.injEq,
      Prod.mk.injEq] at hsplit
    rw [← hsplit.1] at hlen
    cases hlen
  · unfold InYears
    omega

end PitName

/-- Names are written of the instants of ten thousand years and any 24-bit number, and a text that is read
is the name of exactly one of them, never that of a replication snapshot. -/
theorem pit_names_bijective :
    (∀ takenS nonce, InYears takenS → ∃ name, PitName.new takenS nonce = some name ∧
      name.takenS = takenS ∧ PitName.fromStr name.text = some name) ∧
    (∀ takenS takenS' nonce nonce', InYears takenS → InYears takenS' →
      (PitName.new takenS nonce).map (·.text) = (PitName.new takenS' nonce').map (·.text) →
      takenS = takenS' ∧ nonce % 2 ^ 24 = nonce' % 2 ^ 24) ∧
    ∀ text name, PitName.fromStr text = some name → name.text = text ∧
      (InYears name.takenS ∧ ∃ nonce < 2 ^ 24, PitName.new name.takenS nonce = some name) ∧
      Text.stripStart replicationPrefix text = none := by
  refine ⟨?_, ?_, ?_⟩
  · intro takenS nonce h
    exact ⟨PitName.named takenS nonce, if_pos (PitName.inTimestamps_of_inYears h), rfl,
      PitName.fromStr_named h nonce⟩
  · intro takenS takenS' nonce nonce' h h' heq
    rw [PitName.new, PitName.new, if_pos (PitName.inTimestamps_of_inYears h),
      if_pos (PitName.inTimestamps_of_inYears h'), Option.map_some, Option.map_some] at heq
    have hlist := List.append_cancel_left (String.ofList_injective (Option.some.inj heq))
    have hlen : (PitName.stampOf takenS).length = (PitName.stampOf takenS').length := by
      rw [PitName.length_stampOf h, PitName.length_stampOf h']
    obtain ⟨hstamp, hhex⟩ := List.append_inj hlist hlen
    have hinstant := PitName.instant_stampOf h
    rw [hstamp, PitName.instant_stampOf h'] at hinstant
    refine ⟨(Option.some.inj hinstant).symm, ?_⟩
    rw [← PitName.hexNumber_hex (Nat.mod_lt nonce (show 0 < 2 ^ 24 by decide)),
      ← PitName.hexNumber_hex (Nat.mod_lt nonce' (show 0 < 2 ^ 24 by decide)),
      List.tail_eq_of_cons_eq hhex]
  · intro text name h
    obtain ⟨htext, rest, stamp, nonce, hrest, -, -, hin, hname⟩ := PitName.fromStr_eq_some h
    refine ⟨htext, ⟨PitName.inYears_of_fromStr h, ?_⟩, ?_⟩
    · refine ⟨PitName.hexNumber nonce.toList % 2 ^ 24, Nat.mod_lt _ (by decide), ?_⟩
      rw [PitName.new, if_pos hin]
      nth_rewrite 2 [hname]
      simp only [PitName.named, Nat.mod_mod]
    · obtain ⟨cs, hcs, -⟩ := Option.map_eq_some_iff.mp hrest
      have hlist := Base.isPrefixOf?_eq_some.mp hcs
      rw [Text.stripStart, hlist]
      rfl

/-- `jiff` ends 26 hours before the year 9999 does. -/
theorem new_panics_in_9999 : ∃ takenS nonce, (civil (takenS / 86400)).year = 9999 ∧
    PitName.new takenS nonce = none :=
  ⟨253402300799, 0, by decide, by decide⟩

end Bmac.Backup
