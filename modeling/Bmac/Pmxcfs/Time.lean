import Bmac.Core.Civil

/-!
# Times

`bmac-pmxcfs/src/time.rs`. Howard Hinnant's `civil_from_days`, and a second of UTC as text. A sum or
product that could leave `i64` is `none`. `civil_dates` says that the days are the calendar's, and that
what reads a text back gives its second.
-/

namespace Bmac.Pmxcfs

open Bmac.Base.Calendar Bmac.Core

/-- A result that must fit an `i64`. -/
def i64 (n : Int) : Option Int := if -2 ^ 63 ≤ n ∧ n < 2 ^ 63 then some n else none

/-- `as u32`. -/
def asU32 (n : Int) : Nat := (n % 2 ^ 32).toNat

/-- The year, month and day of a day. `/` of the source rounds to zero; `div_euclid` doesn't. -/
def civilFromDays (days : Int) : Option (Int × Nat × Nat) := do
  let z ← i64 (days + 719468)
  let era := z / 146097
  let doe := z % 146097
  let yoe := (doe - doe.tdiv 1460 + doe.tdiv 36524 - doe.tdiv 146096).tdiv 365
  let doy := doe - (365 * yoe + yoe.tdiv 4 - yoe.tdiv 100)
  let mp := (5 * doy + 2).tdiv 153
  let day := asU32 (doy - (153 * mp + 2).tdiv 5 + 1)
  let month := asU32 (if mp < 10 then mp + 3 else mp - 9)
  let eras ← i64 (era * 400)
  let year ← i64 (yoe + eras + if month ≤ 2 then 1 else 0)
  return (year, month, day)

/-- `{year:04}`. -/
def isoYear (year : Int) : List Char :=
  if year < 0 then '-' :: Text.padded 3 year.natAbs else Text.padded 4 year.natAbs

/-- `YYYY-MM-DDTHH:MM:SS+00:00`. -/
def isoText (year : Int) (month day hour minute second : Nat) : List Char :=
  isoYear year ++ ('-' :: Text.padded 2 month ++ ('-' :: Text.padded 2 day ++
    ('T' :: Text.padded 2 hour ++ (':' :: Text.padded 2 minute ++ (':' :: Text.padded 2 second ++
      "+00:00".toList)))))

def formatUtc (seconds : Int) : Option String := do
  let days := seconds / 86400
  let rest := (seconds % 86400).toNat
  let (year, month, day) ← civilFromDays days
  return String.ofList (isoText year month day (rest / 3600) (rest % 3600 / 60) (rest % 60))

/-! ## Days -/

theorem source_eq {doe century four single doy : Int} (h : DayOfEra doe century four single doy) :
    (doe - doe.tdiv 1460 + doe.tdiv 36524 - doe.tdiv 146096).tdiv 365 = 100 * century + 4 * four + single ∧
      doe - (365 * (100 * century + 4 * four + single) + (100 * century + 4 * four + single).tdiv 4 -
        (100 * century + 4 * four + single).tdiv 100) = doy := by
  have hyoe := h.yoe_eq
  obtain ⟨hfour, hhundred, -⟩ := h.leaps_eq (rfl : _ = 400 * 0 + 100 * century + 4 * four + single)
  simp only [Int.zero_add, Int.mul_zero] at hhundred hfour
  have hdoe := h.nonneg
  rw [Int.tdiv_eq_ediv_of_nonneg hdoe, Int.tdiv_eq_ediv_of_nonneg hdoe, Int.tdiv_eq_ediv_of_nonneg hdoe,
    Int.tdiv_eq_ediv_of_nonneg (DayOfEra.rest_nonneg hdoe), Int.tdiv_eq_ediv_of_nonneg h.year_nonneg,
    Int.tdiv_eq_ediv_of_nonneg h.year_nonneg, hfour, hhundred, hyoe]
  refine ⟨rfl, ?_⟩
  rw [h.hsum]
  ring

theorem i64_eq {n : Int} (h : -2 ^ 63 ≤ n) (h' : n < 2 ^ 63) : i64 n = some n := if_pos ⟨h, h'⟩

theorem asU32_eq {n : Int} (h : 0 ≤ n) (h' : n < 2 ^ 32) : asU32 n = n.toNat := by
  unfold asU32
  rw [Int.emod_eq_of_lt h h']

/-- The days whose sum with the days before 1970 fits. -/
def Days (days : Int) : Prop := -2 ^ 63 ≤ days ∧ days + 719468 < 2 ^ 63

theorem days_of_seconds {seconds : Int} (h : -2 ^ 63 ≤ seconds ∧ seconds < 2 ^ 63) : Days (seconds / 86400) := by
  unfold Days
  omega

def fields (d : Date) : Int × Nat × Nat := (d.year, d.month.toNat, d.day.toNat)

theorem fields_injective : Function.Injective fields := by
  intro d d' h
  obtain ⟨hyear, hrest⟩ := Prod.mk.inj h
  obtain ⟨hmonth, hday⟩ := Prod.mk.inj hrest
  have := d.month_range
  have := d'.month_range
  have := d.day_range
  have := d'.day_range
  exact Date.ext hyear (by omega) (by omega)

theorem civilFromDays_eq {days : Int} (h : Days days) :
    ∃ date : Date, civilFromDays days = some (fields date) ∧ date.number = days := by
  obtain ⟨hlow, hhigh⟩ := h
  obtain ⟨century, four, single, doy, mp, hparts, hmp, hcivil⟩ := civil_eq days
  obtain ⟨date, hdate, hnumber⟩ := exists_date_civil days
  refine ⟨date, ?_, hnumber⟩
  obtain ⟨era, hera⟩ : ∃ era, era = (days + 719468) / 146097 := ⟨_, rfl⟩
  obtain ⟨hyoe, hdoy⟩ := source_eq hparts
  have hfields : date.day = doy - (153 * mp + 2) / 5 + 1 ∧ date.month = (if mp < 10 then mp + 3 else mp - 9) ∧
      date.year = 400 * era + 100 * century + 4 * four + single + if mp < 10 then 0 else 1 := by
    rw [hcivil] at hdate
    dsimp only at hdate
    split at hdate
    · obtain ⟨hyear, hmonth, hday⟩ := Civil.mk.inj hdate
      exact ⟨hday.symm, by rw [if_pos (by assumption), ← hmonth], by rw [if_pos (by assumption), hera]; omega⟩
    · obtain ⟨hyear, hmonth, hday⟩ := Civil.mk.inj hdate
      exact ⟨hday.symm, by rw [if_neg (by assumption), ← hmonth], by rw [if_neg (by assumption), hera]; omega⟩
  obtain ⟨hday, hmonth, hyear⟩ := hfields
  obtain ⟨⟨hc0, hc⟩, ⟨hf0, hf⟩, ⟨hs0, hs⟩, ⟨hd0, hd⟩, -, -⟩ := hparts
  have hera0 : -2 ^ 54 ≤ era := by omega
  have hera1 : era < 2 ^ 54 := by omega
  have hmp0 : 0 ≤ mp ∧ mp ≤ 11 := by omega
  have hmpSource : (5 * doy + 2).tdiv 153 = mp := by rw [Int.tdiv_eq_ediv_of_nonneg (by omega), hmp]
  have hdaySource : asU32 (doy - (153 * mp + 2).tdiv 5 + 1) = date.day.toNat := by
    rw [Int.tdiv_eq_ediv_of_nonneg (by omega), ← hday]
    have := date.day_range
    have := monthLength_range date.year date.month
    exact asU32_eq (by omega) (by omega)
  have hmonthSource : asU32 (if mp < 10 then mp + 3 else mp - 9) = date.month.toNat := by
    rw [← hmonth]
    have := date.month_range
    exact asU32_eq (by omega) (by omega)
  have hyearSource : i64 (100 * century + 4 * four + single + era * 400 +
      if date.month.toNat ≤ 2 then 1 else 0) = some date.year := by
    have hsum : 100 * century + 4 * four + single + era * 400 + (if date.month.toNat ≤ 2 then 1 else 0) =
        date.year := by
      by_cases hten : mp < 10
      · rw [if_pos hten] at hmonth hyear
        rw [hyear, if_neg (by omega)]
        omega
      · rw [if_neg hten] at hmonth hyear
        rw [hyear, if_pos (by omega)]
        omega
    have hlow : -2 ^ 63 ≤ date.year := by omega
    have hhigh : date.year < 2 ^ 63 := by omega
    rw [hsum, i64_eq hlow hhigh]
  unfold civilFromDays
  rw [i64_eq (by omega) hhigh]
  simp only [Option.bind_eq_bind, Option.bind_some, ← hera]
  rw [hyoe, hdoy, hmpSource, hdaySource, hmonthSource, i64_eq (by omega) (by omega), Option.bind_some,
    hyearSource]
  rfl

theorem civilFromDays_succ {days : Int} {date : Date} (h : Days days) (h' : Days (days + 1))
    (hdate : civilFromDays days = some (fields date)) :
    civilFromDays (days + 1) = some (fields date.next) := by
  obtain ⟨found, hfound, hnumber⟩ := civilFromDays_eq h
  obtain rfl := fields_injective (Option.some.inj (hdate.symm.trans hfound))
  obtain ⟨after, hafter, hnumber'⟩ := civilFromDays_eq h'
  rw [hafter, Date.eq_next (hnumber'.trans (by rw [hnumber]))]

/-! ## Reading a time -/

def readField (sep : Char) : List Char → Option (Nat × List Char)
  | c :: high :: low :: rest =>
    if c = sep ∧ Text.isDigit high ∧ Text.isDigit low then some (Text.decimal [high, low], rest) else none
  | _ => none

/-- The second of a text `YYYY-MM-DDTHH:MM:SS+00:00`, however wide its year. -/
def readUtc (text : String) : Option Int := do
  let cs := text.toList
  let year ← Text.parseInt (String.ofList (cs.take (cs.length - 21)))
  let (month, cs) ← readField '-' (cs.drop (cs.length - 21))
  let (day, cs) ← readField '-' cs
  let (hour, cs) ← readField 'T' cs
  let (minute, cs) ← readField ':' cs
  let (second, cs) ← readField ':' cs
  if cs ≠ "+00:00".toList ∨ 24 ≤ hour ∨ 60 ≤ minute ∨ 60 ≤ second then none
  else if h : (1 ≤ (month : Int) ∧ (month : Int) ≤ 12) ∧ 1 ≤ (day : Int) ∧ (day : Int) ≤ monthLength year month then
    some (86400 * (Date.mk year month day h.1 h.2).number + 3600 * hour + 60 * minute + second)
  else none

theorem readField_padded {sep : Char} {n : Nat} (h : n < 100) (rest : List Char) :
    readField sep (sep :: Text.padded 2 n ++ rest) = some (n, rest) := by
  have hlength := Text.length_padded Nat.two_pos h
  have hdigit := fun c => @Text.isDigit_of_mem_padded 2 n c
  have hvalue := Text.decimal_padded 2 n
  generalize Text.padded 2 n = cs at hlength hdigit hvalue
  obtain ⟨high, low, rfl⟩ := List.length_eq_two.mp hlength
  rw [← hvalue]
  exact if_pos ⟨rfl, hdigit high (by simp), hdigit low (by simp)⟩

theorem parseInt_isoYear (year : Int) : Text.parseInt (String.ofList (isoYear year)) = some year := by
  unfold isoYear
  split
  · have hne := Text.padded_ne_nil 3 year.natAbs
    have hall : (Text.padded 3 year.natAbs).all Text.isDigit = true :=
      List.all_eq_true.mpr fun c hc => Text.isDigit_of_mem_padded hc
    unfold Text.parseInt
    rw [String.toList_ofList]
    simp only [hne, hall, ne_eq, not_false_eq_true, and_self, if_true, Text.decimal_padded]
    have hneg : -(year.natAbs : Int) = year := by omega
    exact congrArg some hneg
  · rw [Text.parseInt_padded]
    congr 1
    omega

theorem readUtc_isoText (date : Date) {hour minute second : Nat} (hhour : hour < 24) (hminute : minute < 60)
    (hsecond : second < 60) :
    readUtc (String.ofList (isoText date.year date.month.toNat date.day.toNat hour minute second)) =
      some (86400 * date.number + 3600 * hour + 60 * minute + second) := by
  obtain ⟨year, month, day, hmonth, hday⟩ := date
  have hmonthLength := monthLength_range year month
  obtain ⟨month, rfl⟩ := Int.eq_ofNat_of_zero_le (show 0 ≤ month by omega)
  obtain ⟨day, rfl⟩ := Int.eq_ofNat_of_zero_le (show 0 ≤ day by omega)
  simp only [Int.toNat_natCast]
  have hm : month < 100 := by omega
  have hd : day < 100 := by omega
  have hlength : ('-' :: Text.padded 2 month ++ ('-' :: Text.padded 2 day ++ ('T' :: Text.padded 2 hour ++
      (':' :: Text.padded 2 minute ++ (':' :: Text.padded 2 second ++ "+00:00".toList))))).length = 21 := by
    simp only [List.length_append, List.length_cons, Text.length_padded Nat.two_pos hm,
      Text.length_padded Nat.two_pos hd, Text.length_padded Nat.two_pos (show hour < 10 ^ 2 by omega),
      Text.length_padded Nat.two_pos (show minute < 10 ^ 2 by omega),
      Text.length_padded Nat.two_pos (show second < 10 ^ 2 by omega)]
    rfl
  have hyear : (isoText year month day hour minute second).length - 21 = (isoYear year).length := by
    rw [isoText, List.length_append, hlength, Nat.add_sub_cancel]
  unfold readUtc
  simp only [String.toList_ofList, hyear]
  rw [isoText, List.take_left, List.drop_left, parseInt_isoYear]
  simp only [Option.bind_eq_bind, Option.bind_some, readField_padded hm, readField_padded hd,
    readField_padded (show hour < 100 by omega), readField_padded (show minute < 100 by omega),
    readField_padded (show second < 100 by omega)]
  have hclock : ¬ ("+00:00".toList ≠ "+00:00".toList ∨ 24 ≤ hour ∨ 60 ≤ minute ∨ 60 ≤ second) := by
    rintro (h | h | h | h)
    · exact h rfl
    · omega
    · omega
    · omega
  rw [if_neg hclock, dif_pos ⟨hmonth, hday⟩]

theorem formatUtc_eq {seconds : Int} (h : -2 ^ 63 ≤ seconds ∧ seconds < 2 ^ 63) :
    ∃ text, formatUtc seconds = some text ∧ readUtc text = some seconds := by
  obtain ⟨date, hdate, hnumber⟩ := civilFromDays_eq (days_of_seconds h)
  refine ⟨_, ?_, (readUtc_isoText date (show (seconds % 86400).toNat / 3600 < 24 by omega)
    (show (seconds % 86400).toNat % 3600 / 60 < 60 by omega)
    (show (seconds % 86400).toNat % 60 < 60 by omega)).trans ?_⟩
  · unfold formatUtc
    dsimp only
    rw [hdate]
    rfl
  · rw [hnumber]
    congr 1
    omega

/-- Every day that the sum with the days before 1970 leaves in range has the calendar's date, from
1970-01-01 on and one day after the other, and every second's text is read as that second. -/
theorem civil_dates :
    civilFromDays 0 = some (fields Date.epoch) ∧
    (∀ days, Days days → ∃ date : Date, civilFromDays days = some (fields date) ∧ date.number = days) ∧
    (∀ days date, Days days → Days (days + 1) → civilFromDays days = some (fields date) →
      civilFromDays (days + 1) = some (fields date.next)) ∧
    ∀ seconds, -2 ^ 63 ≤ seconds ∧ seconds < 2 ^ 63 →
      ∃ text, formatUtc seconds = some text ∧ readUtc text = some seconds :=
  ⟨by decide, fun _ => civilFromDays_eq, fun _ _ => civilFromDays_succ, fun _ => formatUtc_eq⟩

/-- The leap day of 2000 and the day after it. -/
theorem civil_dates_leap :
    civilFromDays 11017 = some (2000, 3, 1) ∧ ∃ text, formatUtc 951782400 = some text ∧
      readUtc text = some 951782400 :=
  ⟨civil_dates.2.2.1 11016 ⟨2000, 2, 29, by decide, by decide⟩ (by unfold Days; decide) (by unfold Days; decide)
    (by decide), civil_dates.2.2.2 951782400 (by decide)⟩

end Bmac.Pmxcfs
