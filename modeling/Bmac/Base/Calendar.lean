import Mathlib.Tactic

/-!
# The Gregorian calendar

Dates of the proleptic Gregorian calendar, in both directions without end, and the number of days
from 1970-01-01 to a date. A date is one of its month by its own fields. `number_next` and
`number_injective` make the numbers of dates the day numbers of the calendar: a date with the number
after a date's is the day after it.
-/

namespace Bmac.Base.Calendar

/-- The leap rule. -/
def Leap (year : Int) : Prop := year % 4 = 0 ∧ (year % 100 = 0 → year % 400 = 0)

instance (year : Int) : Decidable (Leap year) := inferInstanceAs (Decidable (_ ∧ _))

def monthLength (year month : Int) : Int :=
  if month = 2 then if Leap year then 29 else 28
  else if month = 4 ∨ month = 6 ∨ month = 9 ∨ month = 11 then 30
  else 31

@[ext]
structure Date where
  year : Int
  month : Int
  day : Int
  month_range : 1 ≤ month ∧ month ≤ 12
  day_range : 1 ≤ day ∧ day ≤ monthLength year month
  deriving DecidableEq

theorem monthLength_range (year month : Int) : 28 ≤ monthLength year month ∧ monthLength year month ≤ 31 := by
  unfold monthLength
  split
  · split <;> decide
  · split <;> decide

theorem monthLength_december (year : Int) : monthLength year 12 = 31 := by
  unfold monthLength
  rw [if_neg (by decide), if_neg (by decide)]

namespace Date

def epoch : Date := ⟨1970, 1, 1, by decide, by decide⟩

def next (d : Date) : Date :=
  if h : d.day < monthLength d.year d.month then
    ⟨d.year, d.month, d.day + 1, d.month_range, by have := d.day_range; omega⟩
  else if hm : d.month < 12 then
    ⟨d.year, d.month + 1, 1, by have := d.month_range; omega,
      by have := monthLength_range d.year (d.month + 1); omega⟩
  else ⟨d.year + 1, 1, 1, by decide, by have := monthLength_range (d.year + 1) 1; omega⟩

end Date

/-! ## Day numbers -/

/-- The days before a year, from 1970 on. -/
def yearStart (year : Int) : Int :=
  365 * (year - 1970) + ((year - 1) / 4 - (year - 1) / 100 + (year - 1) / 400) - 477

/-- The days before a month, from the start of its year. -/
def monthStart (year month : Int) : Int :=
  (367 * month - 362) / 12 - if month ≤ 2 then 0 else if Leap year then 1 else 2

theorem yearStart_succ (year : Int) : yearStart (year + 1) = yearStart year + if Leap year then 366 else 365 := by
  by_cases hleap : Leap year
  · rw [if_pos hleap]
    unfold Leap at hleap
    unfold yearStart
    omega
  · rw [if_neg hleap]
    unfold Leap at hleap
    unfold yearStart
    omega

theorem yearStart_mono {year year' : Int} (h : year < year') : yearStart (year + 1) ≤ yearStart year' := by
  unfold yearStart
  omega

theorem monthStart_succ {year month : Int} (h : 1 ≤ month ∧ month < 12) :
    monthStart year (month + 1) = monthStart year month + monthLength year month := by
  obtain ⟨h1, h12⟩ := h
  unfold monthStart monthLength
  by_cases hleap : Leap year
  · simp only [hleap, ↓reduceIte]
    interval_cases month <;> decide
  · simp only [hleap, ↓reduceIte]
    interval_cases month <;> decide

theorem monthStart_december (year : Int) :
    yearStart year + monthStart year 12 + 31 = yearStart (year + 1) := by
  rw [yearStart_succ]
  unfold monthStart
  by_cases hleap : Leap year
  · simp only [hleap, ↓reduceIte]
    omega
  · simp only [hleap, ↓reduceIte]
    omega

theorem monthStart_march (year : Int) {month : Int} (h : 3 ≤ month) :
    yearStart year + monthStart year month =
      365 * (year - 1970) + (year / 4 - year / 100 + year / 400) + (367 * month - 362) / 12 - 479 := by
  unfold yearStart monthStart
  rw [if_neg (by omega)]
  by_cases hleap : Leap year
  · rw [if_pos hleap]
    unfold Leap at hleap
    omega
  · rw [if_neg hleap]
    unfold Leap at hleap
    omega

theorem monthStart_mono {year month month' : Int} (h : 1 ≤ month) (hlt : month < month') (h' : month' ≤ 12) :
    monthStart year month + monthLength year month ≤ monthStart year month' := by
  induction month', hlt using Int.leInduction with
  | base => exact (monthStart_succ ⟨h, by omega⟩).ge
  | succ m hm ih =>
    have hmonth : month < m := hm
    have hlength := monthLength_range year m
    rw [monthStart_succ ⟨by omega, by omega⟩]
    exact Int.le_trans (ih (by omega)) (by omega)

namespace Date

variable {d d' : Date}

/-- The days from 1970-01-01 to a date. -/
def number (d : Date) : Int := yearStart d.year + monthStart d.year d.month + d.day - 1

example : epoch.number = 0 := by decide

theorem number_next (d : Date) : d.next.number = d.number + 1 := by
  obtain ⟨year, month, day, hmonth, hday⟩ := d
  unfold next
  dsimp only
  split
  · simp only [number]
    omega
  · split
    · have hsucc : monthStart year (month + 1) = monthStart year month + monthLength year month :=
        monthStart_succ ⟨hmonth.1, by assumption⟩
      simp only [number]
      omega
    · obtain rfl : month = 12 := by omega
      rw [monthLength_december] at *
      have hyear := monthStart_december year
      have hjanuary : monthStart (year + 1) 1 = 0 := by unfold monthStart; rfl
      simp only [number]
      omega

theorem number_range (d : Date) : yearStart d.year ≤ d.number ∧ d.number < yearStart (d.year + 1) := by
  obtain ⟨hm1, hm12⟩ := d.month_range
  obtain ⟨hd1, hd⟩ := d.day_range
  have hfirst : monthStart d.year 1 = 0 := by unfold monthStart; rfl
  have hstart : 0 ≤ monthStart d.year d.month := by
    rcases Int.lt_or_eq_of_le hm1 with hlt | heq
    · have : monthStart d.year 1 + monthLength d.year 1 ≤ monthStart d.year d.month :=
        monthStart_mono (Int.le_refl 1) hlt hm12
      have := monthLength_range d.year 1
      omega
    · rw [← heq, hfirst]
  have hend : monthStart d.year d.month + monthLength d.year d.month ≤ monthStart d.year 12 + 31 := by
    rcases Int.lt_or_eq_of_le hm12 with hlt | heq
    · have : monthStart d.year d.month + monthLength d.year d.month ≤ monthStart d.year 12 :=
        monthStart_mono hm1 hlt (Int.le_refl 12)
      omega
    · rw [heq, monthLength_december]
  have hyear := monthStart_december d.year
  unfold number
  omega

theorem number_injective : Function.Injective number := by
  intro d d' h
  have hyear : d.year = d'.year := by
    have hd := d.number_range
    have hd' := d'.number_range
    rcases Int.lt_trichotomy d.year d'.year with hlt | heq | hlt
    · have := yearStart_mono hlt
      omega
    · exact heq
    · have := yearStart_mono hlt
      omega
  have hm := d.month_range
  have hm' := d'.month_range
  have hday := d.day_range
  have hday' := d'.day_range
  unfold number at h
  rw [hyear] at h hday
  have hmonth : d.month = d'.month := by
    rcases Int.lt_trichotomy d.month d'.month with hlt | heq | hlt
    · have : monthStart d'.year d.month + monthLength d'.year d.month ≤ monthStart d'.year d'.month :=
        monthStart_mono hm.1 hlt hm'.2
      omega
    · exact heq
    · have : monthStart d'.year d'.month + monthLength d'.year d'.month ≤ monthStart d'.year d.month :=
        monthStart_mono hm'.1 hlt hm.2
      omega
  rw [hmonth] at h
  exact Date.ext hyear hmonth (by omega)

theorem eq_next (h : d'.number = d.number + 1) : d' = d.next :=
  number_injective (h.trans d.number_next.symm)

end Date

end Bmac.Base.Calendar
