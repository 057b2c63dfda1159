import Bmac.Base.Calendar
import Bmac.Core.Text
import Bmac.Core.Zone

/-!
# Civil times

The Gregorian calendar as `jiff` has it, and the stamps that `strftime` writes of a minute. A date is
its number of days since 1970-01-01; `civil` gives its year, month and day, which are the calendar's
(`exists_date_civil`). A date and a time of day have one instant in a time zone, also where the zone's
clocks skip or repeat it.
-/

namespace Bmac.Core

open Bmac.Base.Calendar

/-- A date's year, month and day. -/
structure Civil where
  year : Int
  month : Int
  day : Int
  deriving DecidableEq, Repr

/-- The year, month and day of a date. Years are counted here from the first of March, so that a
leap day ends its year, its four years and its four centuries. -/
def civil (date : Int) : Civil :=
  let days := date + 719468
  let era := days / 146097
  let ofEra := days % 146097
  let century := min 3 (ofEra / 36524)
  let ofCentury := ofEra - 36524 * century
  let four := ofCentury / 1461
  let ofFour := ofCentury - 1461 * four
  let single := min 3 (ofFour / 365)
  let ofYear := ofFour - 365 * single
  let month := (5 * ofYear + 2) / 153
  let year := 400 * era + 100 * century + 4 * four + single
  let day := ofYear - (153 * month + 2) / 5 + 1
  if month < 10 then ⟨year, month + 3, day⟩ else ⟨year + 1, month - 9, day⟩

def marchDate (year month day : Int) : Int :=
  146097 * (year / 400) + 36524 * (year % 400 / 100) + 1461 * (year % 100 / 4) + 365 * (year % 4) +
    (153 * month + 2) / 5 + day - 719469

def Civil.date (c : Civil) : Int :=
  if 3 ≤ c.month then marchDate c.year (c.month - 3) c.day
  else marchDate (c.year - 1) (c.month + 9) c.day

/-- The parts of a date as `civil` counts them. -/
structure Parts (date era century four single month day : Int) : Prop where
  hcentury : 0 ≤ century ∧ century ≤ 3
  hfour : 0 ≤ four ∧ four ≤ 24
  hsingle : 0 ≤ single ∧ single ≤ 3
  hmonth : 0 ≤ month ∧ month ≤ 11
  hday : 1 ≤ day ∧ day ≤ 31
  hofYear : (153 * month + 2) / 5 + day ≤ 366
  hsum : date = 146097 * era + 36524 * century + 1461 * four + 365 * single +
    (153 * month + 2) / 5 + day - 719469

theorem civil_parts (date : Int) : ∃ era century four single month day : Int,
    Parts date era century four single month day ∧
    civil date =
      let year := 400 * era + 100 * century + 4 * four + single
      if month < 10 then ⟨year, month + 3, day⟩ else ⟨year + 1, month - 9, day⟩ := by
  unfold civil
  extract_lets days era ofEra century ofCentury four ofFour single ofYear month year day
  have hera : 0 ≤ ofEra ∧ ofEra < 146097 ∧ days = 146097 * era + ofEra := by omega
  have hcentury : 0 ≤ century ∧ century ≤ 3 ∧ 0 ≤ ofCentury ∧ ofCentury ≤ 36524 := by omega
  have hfour : 0 ≤ four ∧ four ≤ 24 ∧ 0 ≤ ofFour ∧ ofFour ≤ 1460 := by omega
  have hsingle : 0 ≤ single ∧ single ≤ 3 ∧ 0 ≤ ofYear ∧ ofYear ≤ 365 := by omega
  have hmonth : 0 ≤ month ∧ month ≤ 11 := by omega
  refine ⟨era, century, four, single, month, day, ⟨?_, ?_, ?_, hmonth, ?_, ?_, ?_⟩, rfl⟩ <;> omega

theorem Parts.marchDate_eq {date era century four single month day : Int}
    (h : Parts date era century four single month day) :
    marchDate (400 * era + 100 * century + 4 * four + single) month day = date := by
  have hc := h.hcentury
  have hf := h.hfour
  have hs := h.hsingle
  generalize hy : 400 * era + 100 * century + 4 * four + single = year
  have hera : year / 400 = era := by omega
  have hmod : year % 400 = 100 * century + (4 * four + single) := by omega
  have hcent : year % 400 / 100 = century := by omega
  have hmod' : year % 100 = 4 * four + single := by omega
  have hfour : year % 100 / 4 = four := by omega
  have hone : year % 4 = single := by omega
  unfold marchDate
  rw [hera, hcent, hfour, hone]
  exact h.hsum.symm

theorem date_civil (date : Int) : (civil date).date = date := by
  obtain ⟨era, century, four, single, month, day, hparts, heq⟩ := civil_parts date
  have hm := hparts.hmonth
  rw [heq]
  unfold Civil.date
  dsimp only
  split
  · have h3 : 3 ≤ month + 3 := by omega
    simp only [h3, ↓reduceIte, Int.add_sub_cancel]
    exact hparts.marchDate_eq
  · have h3 : ¬ 3 ≤ month - 9 := by omega
    simp only [h3, ↓reduceIte, Int.add_sub_cancel, Int.sub_add_cancel]
    exact hparts.marchDate_eq

theorem civil_injective : Function.Injective civil :=
  Function.LeftInverse.injective date_civil

/-! ## The calendar's days -/

/-- A day of an era, by its century, its four years, its year and its day of the year. The leap day ends
its year. -/
structure DayOfEra (doe century four single doy : Int) : Prop where
  hcentury : 0 ≤ century ∧ century ≤ 3
  hfour : 0 ≤ four ∧ four ≤ 24
  hsingle : 0 ≤ single ∧ single ≤ 3
  hday : 0 ≤ doy ∧ doy ≤ 365
  hleap : doy = 365 → single = 3 ∧ (four = 24 → century = 3)
  hsum : doe = 36524 * century + 1461 * four + 365 * single + doy

theorem dayOfEra {doe century four single : Int} (h0 : 0 ≤ doe) (h : doe < 146097)
    (hc : century = min 3 (doe / 36524)) (hf : four = (doe - 36524 * century) / 1461)
    (hs : single = min 3 ((doe - 36524 * century - 1461 * four) / 365)) :
    DayOfEra doe century four single (doe - 36524 * century - 1461 * four - 365 * single) := by
  have hcentury : 0 ≤ century ∧ century ≤ 3 ∧ 0 ≤ doe - 36524 * century ∧
      doe - 36524 * century ≤ 36524 ∧ (doe - 36524 * century = 36524 → century = 3) := by omega
  have hfour : 0 ≤ four ∧ four ≤ 24 ∧ 0 ≤ doe - 36524 * century - 1461 * four ∧
      doe - 36524 * century - 1461 * four ≤ 1460 := by omega
  exact ⟨⟨by omega, by omega⟩, ⟨by omega, by omega⟩, ⟨by omega, by omega⟩, ⟨by omega, by omega⟩,
    by omega, by omega⟩

namespace DayOfEra

variable {doe century four single doy : Int}

theorem nonneg (h : DayOfEra doe century four single doy) : 0 ≤ doe := by
  obtain ⟨⟨hc, -⟩, ⟨hf, -⟩, ⟨hs, -⟩, ⟨hd, -⟩, -, hsum⟩ := h
  omega

theorem year_nonneg (h : DayOfEra doe century four single doy) : 0 ≤ 100 * century + 4 * four + single := by
  obtain ⟨⟨hc, -⟩, ⟨hf, -⟩, ⟨hs, -⟩, -, -, -⟩ := h
  omega

theorem rest_nonneg (h : 0 ≤ doe) : 0 ≤ doe - doe / 1460 + doe / 36524 - doe / 146096 := by
  have hyears : doe / 1460 ≤ doe := by omega
  have hcenturies : doe / 146096 ≤ doe / 36524 := by omega
  omega

theorem yoe_eq (h : DayOfEra doe century four single doy) :
    (doe - doe / 1460 + doe / 36524 - doe / 146096) / 365 = 100 * century + 4 * four + single := by
  obtain ⟨⟨hc0, hc⟩, ⟨hf0, hf⟩, ⟨hs0, hs⟩, ⟨hd0, hd⟩, hleap, hsum⟩ := h
  -- only the era's last day is past four whole centuries of 36524 days
  have hcenturies : doe / 36524 - doe / 146096 = century := by
    rcases Int.lt_or_le (1461 * four + 365 * single + doy) 36524 with hlt | hge
    · have hquot : doe / 36524 = century := by omega
      have hzero : doe / 146096 = 0 := by omega
      omega
    · have hlast : doe = 146096 := by omega
      subst hlast
      omega
  have hfours : doe / 1460 = 25 * century + four ∨ doe / 1460 = 25 * century + four + 1 ∧
      1460 ≤ 24 * century + four + 365 * single + doy := by omega
  omega

theorem leaps_eq (h : DayOfEra doe century four single doy) {year era : Int}
    (hyear : year = 400 * era + 100 * century + 4 * four + single) :
    year / 4 = 100 * era + 25 * century + four ∧ year / 100 = 4 * era + century ∧ year / 400 = era := by
  obtain ⟨⟨hc0, hc⟩, ⟨hf0, hf⟩, ⟨hs0, hs⟩, -, -, -⟩ := h
  have hhundred : year / 100 = 4 * era + century := by omega
  refine ⟨by omega, hhundred, ?_⟩
  have hquot : year / 400 = year / 100 / 4 := by omega
  rw [hquot, hhundred]
  clear hyear hquot hhundred
  omega

theorem leap_of_last (h : DayOfEra doe century four single doy) (era : Int) (hlast : doy = 365) :
    Leap (400 * era + 100 * century + 4 * four + single + 1) := by
  obtain ⟨⟨hc0, hc⟩, ⟨hf0, hf⟩, -, -, hleap, -⟩ := h
  obtain ⟨rfl, hfour⟩ := hleap hlast
  unfold Leap
  constructor
  · omega
  · intro hcentury
    obtain rfl : four = 24 := by omega
    have := hfour rfl
    omega

end DayOfEra

theorem exists_date {year doy mp : Int} (hday : 0 ≤ doy ∧ doy ≤ 365) (hleap : doy = 365 → Leap (year + 1))
    (hmp : mp = (5 * doy + 2) / 153) :
    ∃ date : Date, date.day = doy - (153 * mp + 2) / 5 + 1 ∧
      date.month = (if mp < 10 then mp + 3 else mp - 9) ∧
      date.year = year + (if date.month ≤ 2 then 1 else 0) ∧
      date.number = 365 * (year - 1970) + (year / 4 - year / 100 + year / 400) - 418 + doy := by
  have hmp0 : 0 ≤ mp := by omega
  have hmp11 : mp ≤ 11 := by omega
  by_cases hmonth : mp < 10
  · have hlength : doy - (153 * mp + 2) / 5 + 1 ≤ monthLength year (mp + 3) := by
      unfold monthLength
      interval_cases mp <;> simp <;> omega
    refine ⟨⟨year, mp + 3, doy - (153 * mp + 2) / 5 + 1, by omega, by omega, hlength⟩, rfl,
      (if_pos hmonth).symm, ?_, ?_⟩
    · dsimp only
      rw [if_neg (by omega), Int.add_zero]
    · unfold Date.number
      dsimp only
      rw [monthStart_march year (by omega)]
      interval_cases mp <;> omega
  · have hlength : doy - (153 * mp + 2) / 5 + 1 ≤ monthLength (year + 1) (mp - 9) := by
      obtain rfl | rfl : mp = 10 ∨ mp = 11 := by omega
      · show _ ≤ (31 : Int)
        omega
      · show _ ≤ if Leap (year + 1) then (29 : Int) else 28
        split
        · omega
        · have hne : doy ≠ 365 := fun h => absurd (hleap h) (by assumption)
          omega
    refine ⟨⟨year + 1, mp - 9, doy - (153 * mp + 2) / 5 + 1, by omega, by omega, hlength⟩, rfl,
      (if_neg hmonth).symm, ?_, ?_⟩
    · dsimp only
      rw [if_pos (by omega)]
    · unfold Date.number monthStart yearStart
      dsimp only
      rw [if_pos (by omega)]
      obtain rfl | rfl : mp = 10 ∨ mp = 11 := by omega
      · omega
      · omega

/-- `civil` by the parts of its day. -/
theorem civil_eq (days : Int) : ∃ century four single doy mp : Int,
    DayOfEra ((days + 719468) % 146097) century four single doy ∧ mp = (5 * doy + 2) / 153 ∧
    civil days =
      let year := 400 * ((days + 719468) / 146097) + 100 * century + 4 * four + single
      let day := doy - (153 * mp + 2) / 5 + 1
      if mp < 10 then ⟨year, mp + 3, day⟩ else ⟨year + 1, mp - 9, day⟩ :=
  ⟨_, _, _, _, _, dayOfEra (by omega) (by omega) rfl rfl rfl, rfl, rfl⟩

/-- `civil` gives the calendar's dates. -/
theorem exists_date_civil (days : Int) :
    ∃ date : Date, civil days = ⟨date.year, date.month, date.day⟩ ∧ date.number = days := by
  obtain ⟨century, four, single, doy, mp, hparts, hmp, hcivil⟩ := civil_eq days
  obtain ⟨date, hday, hmonth, hyear, hnumber⟩ :=
    exists_date hparts.hday (hparts.leap_of_last ((days + 719468) / 146097)) hmp
  refine ⟨date, ?_, ?_⟩
  · rw [hcivil]
    have hmp0 : 0 ≤ mp ∧ mp ≤ 11 := by
      have := hparts.hday
      omega
    dsimp only
    split
    · rw [if_pos (by assumption)] at hmonth
      rw [if_neg (by omega), Int.add_zero] at hyear
      rw [hday, hmonth, hyear]
    · rw [if_neg (by assumption)] at hmonth
      rw [if_pos (by omega)] at hyear
      rw [hday, hmonth, hyear]
  · obtain ⟨h4, h100, h400⟩ := hparts.leaps_eq
      (rfl : _ = 400 * ((days + 719468) / 146097) + 100 * century + 4 * four + single)
    have hsum := hparts.hsum
    rw [hnumber, h4, h100, h400]
    clear hnumber hyear hmonth hday hparts hmp hcivil h4 h100 h400
    omega

/-! ## Ranges -/

/-- `Date::MIN` to `Date::MAX`: the years -9999 to 9999. -/
def inDates (date : Int) : Bool := -4371587 ≤ date && date ≤ 2932896

/-- What `Timestamp::from_millisecond` takes: whole seconds at both ends. A date's instant is a whole second
too, so the same bounds say whether it is within `Timestamp::MIN` to `Timestamp::MAX`. -/
def inTimestamps (ms : Int) : Bool := -377705023201000 ≤ ms && ms ≤ 253402207200000

theorem civil_range {date : Int} (h : inDates date = true) :
    (-9999 ≤ (civil date).year ∧ (civil date).year ≤ 9999) ∧
      (1 ≤ (civil date).month ∧ (civil date).month ≤ 12) ∧
      1 ≤ (civil date).day ∧ (civil date).day ≤ 31 := by
  obtain ⟨era, century, four, single, month, day, hparts, heq⟩ := civil_parts date
  obtain ⟨hc, hf, hs, hm, hd, hof, hsum⟩ := hparts
  unfold inDates at h
  simp only [Bool.and_eq_true, decide_eq_true_eq] at h
  rw [heq]
  dsimp only
  split
  · refine ⟨⟨?_, ?_⟩, ⟨?_, ?_⟩, hd⟩ <;> simp only <;> omega
  · refine ⟨⟨?_, ?_⟩, ⟨?_, ?_⟩, hd⟩ <;> simp only <;> omega

/-! ## Stamps -/

@[simp] theorem Text.length_digits (width n : Nat) : (Text.digits width n).length = width := by
  induction width generalizing n with
  | zero => rfl
  | succ width ih => simp [Text.digits, ih]

theorem Text.toNat_digit (n : Nat) : (Text.digit n).toNat = 48 + n % 10 := by
  unfold Text.digit
  have hn : n % 10 < 10 := Nat.mod_lt _ (by decide)
  interval_cases n % 10 <;> rfl

theorem Text.digit_inj {n m : Nat} (h : Text.digit n = Text.digit m) : n % 10 = m % 10 := by
  have hval := congrArg Char.toNat h
  rw [Text.toNat_digit, Text.toNat_digit] at hval
  omega

theorem Text.digits_inj {width n m : Nat} (hn : n < 10 ^ width) (hm : m < 10 ^ width)
    (h : Text.digits width n = Text.digits width m) : n = m := by
  induction width generalizing n m with
  | zero => omega
  | succ width ih =>
    rw [Nat.pow_succ] at hn hm
    unfold Text.digits at h
    obtain ⟨hhigh, hlow⟩ := List.append_inj' h rfl
    have hdiv : n / 10 = m / 10 := ih (by omega) (by omega) hhigh
    have hmod := Text.digit_inj (List.head_eq_of_cons_eq hlow)
    omega

/-- `%Y`, four characters wide at least, the sign of a year before 0 among them. -/
def yearText (year : Int) : List Char :=
  if year < 0 then '-' :: Text.digits (if year.natAbs < 1000 then 3 else 4) year.natAbs
  else Text.digits 4 year.natAbs

/-- `%Y%m%dT%H%M` of a date and a time of day. -/
def stamp (date : Int) (hour minute : Nat) : String :=
  let c := civil date
  String.ofList (yearText c.year ++ (Text.digits 2 c.month.natAbs ++ (Text.digits 2 c.day.natAbs ++
    'T' :: (Text.digits 2 hour ++ Text.digits 2 minute))))

theorem digits_ne_minus (n : Nat) (cs : List Char) : Text.digits 4 n ≠ '-' :: cs := by
  intro h
  have hhead : Text.digit (n / 10 / 10 / 10) = '-' := List.head_eq_of_cons_eq h
  have hval := congrArg Char.toNat hhead
  rw [Text.toNat_digit] at hval
  have hminus : '-'.toNat = 45 := rfl
  omega

theorem yearText_inj {y y' : Int} (h : -9999 ≤ y ∧ y ≤ 9999) (h' : -9999 ≤ y' ∧ y' ≤ 9999)
    (heq : yearText y = yearText y') : y = y' := by
  unfold yearText at heq
  by_cases hy : y < 0 <;> by_cases hy' : y' < 0 <;> simp only [hy, hy', ↓reduceIte] at heq
  · have hdigits := List.tail_eq_of_cons_eq heq
    -- three digits or four, so both are below 1000 or neither is
    have hlen := congrArg List.length hdigits
    rw [Text.length_digits, Text.length_digits] at hlen
    by_cases hlow : y.natAbs < 1000 <;> by_cases hlow' : y'.natAbs < 1000 <;>
      simp only [hlow, hlow', ↓reduceIte] at hdigits hlen
    · have := Text.digits_inj (by omega) (by omega) hdigits
      omega
    · omega
    · omega
    · have := Text.digits_inj (by omega) (by omega) hdigits
      omega
  · exact absurd heq.symm (digits_ne_minus _ _)
  · exact absurd heq (digits_ne_minus _ _)
  · have := Text.digits_inj (by omega) (by omega) heq
    omega

theorem stamp_inj {date date' : Int} {hour hour' minute minute' : Nat}
    (hd : inDates date = true) (hd' : inDates date' = true) (hh : hour < 100) (hh' : hour' < 100)
    (hm : minute < 100) (hm' : minute' < 100)
    (h : stamp date hour minute = stamp date' hour' minute') :
    date = date' ∧ hour = hour' ∧ minute = minute' := by
  obtain ⟨hy, hmo, hda⟩ := civil_range hd
  obtain ⟨hy', hmo', hda'⟩ := civil_range hd'
  have htext := String.ofList_injective h
  -- the fields after the year have fixed widths
  obtain ⟨hyear, htext⟩ := List.append_inj' htext (by simp)
  obtain ⟨hmonth, htext⟩ := List.append_inj htext (by simp)
  obtain ⟨hday, htext⟩ := List.append_inj htext (by simp)
  obtain ⟨hhour, hminute⟩ := List.append_inj (List.tail_eq_of_cons_eq htext) (by simp)
  have hyears := yearText_inj hy hy' hyear
  have hmonths := Text.digits_inj (by omega) (by omega) hmonth
  have hdays := Text.digits_inj (by omega) (by omega) hday
  refine ⟨civil_injective ?_, Text.digits_inj (by omega) (by omega) hhour,
    Text.digits_inj (by omega) (by omega) hminute⟩
  rw [Civil.mk.injEq]
  exact ⟨hyears, by omega, by omega⟩

end Bmac.Core
