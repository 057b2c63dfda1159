import Bmac.Backup.Keep

/-!
# A policy that doesn't weaken another keeps at least as much

`weakens` compares two policies field by field; here it is sound for the keep sets they compute.
The one case that isn't a larger count is yearly turned off: the new policy then keeps every
month's newest PIT, and a year's newest PIT is also its month's, because a year is twelve whole
months from the same start day.
-/

namespace Bmac.Backup

open Bmac.Base Bmac.Core

variable {count : Option Nat} {period : Period} {k : Int} {policy : ApplianceRetention}
  {why : KeepReason}

theorem contains_back {current : Int} :
    (back current count).contains k = true ↔ (∀ n ∈ count, current - n ≤ k) ∧ k ≤ current := by
  simp only [Periods.contains, Bool.and_eq_true, decide_eq_true_eq]
  cases count <;> simp [back]

theorem contains_back_mono {current : Int} {count' : Option Nat}
    (hle : ∀ n ∈ count', ∃ m ∈ count, m ≤ n) (h : (back current count).contains k = true) :
    (back current count').contains k = true := by
  rw [contains_back] at h ⊢
  refine ⟨fun n hn => ?_, h.2⟩
  obtain ⟨m, hm, hmn⟩ := hle n hn
  have := h.1 m hm
  omega

theorem Period.of_mono (hd : 0 < period.days) {d d' : Int} (h : d ≤ d') :
    period.of d ≤ period.of d' :=
  Int.ediv_le_ediv hd (by omega)

theorem Period.lt_of_of_lt (hd : 0 < period.days) {d d' : Int}
    (h : period.of d < period.of d') : d < d' := by
  by_contra hle
  exact absurd (Period.of_mono hd (not_lt.mp hle)) (not_le.mpr h)

def monthOf (policy : ApplianceRetention) (start : Int) : Period :=
  ⟨start, max policy.monthDays 1⟩

def yearOf (policy : ApplianceRetention) (start : Int) : Period :=
  ⟨start, (monthOf policy start).days * yearMonths⟩

theorem monthOf_days_pos (policy : ApplianceRetention) (start : Int) :
    0 < (monthOf policy start).days := by
  simp only [monthOf]; omega

theorem yearOf_of (policy : ApplianceRetention) (start d : Int) :
    (yearOf policy start).of d = (monthOf policy start).of d / yearMonths := by
  have hpos := monthOf_days_pos policy start
  simp only [yearOf, Period.of]
  rw [Int.ediv_ediv_of_nonneg hpos.le]
  rfl

theorem mem_tiers {start : Int} :
    (period, count, why) ∈ tiers policy start ↔
      (period = ⟨start, 1⟩ ∧ count = some policy.daily ∧ why = .daily) ∨
      (period = ⟨start, weekDays⟩ ∧ count = some policy.weekly ∧ why = .weekly) ∨
      (period = monthOf policy start ∧
        count = (if policy.yearly then some policy.monthly else none) ∧ why = .monthly) ∨
      (policy.yearly = true ∧ period = yearOf policy start ∧ count = none ∧ why = .yearly) := by
  simp only [tiers, monthOf, yearOf]
  cases policy.yearly <;> simp

theorem tier_days_pos {start : Int}
    (h : (period, count, why) ∈ tiers policy start) : 0 < period.days := by
  have hpos := monthOf_days_pos policy start
  rcases mem_tiers.mp h with ⟨rfl, -⟩ | ⟨rfl, -⟩ | ⟨rfl, -⟩ | ⟨-, rfl, -⟩
  · exact Int.one_pos
  · show (0 : Int) < weekDays
    decide
  · exact hpos
  · exact Int.mul_pos hpos (by decide)

/-- What `weakens` answering `false` says of the two policies. -/
theorem weakens_eq_false {before : ApplianceRetention} (h : policy.weakens before = false) :
    before.daily ≤ policy.daily ∧ before.weekly ≤ policy.weekly ∧
      policy.monthDays = before.monthDays ∧
      (policy.yearly = true → before.yearly = true ∧ before.monthly ≤ policy.monthly) := by
  simp only [ApplianceRetention.weakens, Bool.or_eq_false_iff, Bool.and_eq_false_iff,
    decide_eq_false_iff_not, bne_eq_false_iff_eq, Bool.not_eq_false'] at h
  obtain ⟨⟨⟨⟨hd, hw⟩, hm⟩, hdays⟩, hy⟩ := h
  refine ⟨by omega, by omega, hdays, fun hyear => ?_⟩
  have hb : before.yearly = true := hy.resolve_left (by simp [hyear])
  refine ⟨hb, ?_⟩
  rcases hm with (hm | hm) | hm
  · simp [hyear] at hm
  · simp [hb] at hm
  · omega

variable {new old : ApplianceRetention} {calendar : Calendar} {start today : Int}
  {S : Set AppliancePit} {p : AppliancePit}

theorem kept_of_larger_count {count' : Option Nat} (hmem : (period, count', why) ∈ tiers new start)
    (hle : ∀ n ∈ count', ∃ m ∈ count, m ≤ n) (hk : (back (period.of today) count).contains k = true)
    (hp : NewestOf S (fun p => period.of (calendar.day p.takenS) = k) p) :
    KeptByClass new calendar start today S p :=
  ⟨_, .tier k hmem (contains_back_mono hle hk), hp⟩

theorem kept_of_year (hnew : new.yearly = false)
    (hp : NewestOf S (fun p => (yearOf new start).of (calendar.day p.takenS) = k) p) :
    KeptByClass new calendar start today S p ∨ today ≤ calendar.day p.takenS := by
  by_cases hle : (monthOf new start).of (calendar.day p.takenS) ≤ (monthOf new start).of today
  · left
    have htier : (monthOf new start, none, KeepReason.monthly) ∈ tiers new start :=
      mem_tiers.mpr (.inr (.inr (.inl ⟨rfl, by simp [hnew], rfl⟩)))
    refine ⟨_, .tier _ htier (contains_back.mpr ⟨by simp, hle⟩), hp.mem, rfl, fun q hq hmonth => ?_⟩
    refine hp.max q hq ?_
    have hyear := hp.cls
    rw [yearOf_of] at hyear ⊢
    rw [hmonth, hyear]
  · right
    exact (Period.lt_of_of_lt (monthOf_days_pos new start) (not_le.mp hle)).le

theorem kept_of_not_weakens (hw : new.weakens old = false)
    (h : KeptByClass old calendar start today S p) :
    KeptByClass new calendar start today S p ∨ today ≤ calendar.day p.takenS := by
  obtain ⟨hdaily, hweekly, hdays, hyearly⟩ := weakens_eq_false hw
  have hmonth : monthOf old start = monthOf new start := by simp only [monthOf, hdays]
  have hyear : yearOf old start = yearOf new start := by simp only [yearOf, hmonth]
  obtain ⟨C, hC, hp⟩ := h
  cases hC with
  | latest => exact .inl ⟨_, .latest, hp⟩
  | head b => exact .inl ⟨_, .head b, hp⟩
  | seed b => exact .inl ⟨_, .seed b, hp⟩
  | tier k hmem hk =>
    rcases mem_tiers.mp hmem with ⟨rfl, rfl, -⟩ | ⟨rfl, rfl, -⟩ | ⟨rfl, rfl, -⟩ | ⟨hold, rfl, rfl, -⟩
    · refine .inl (kept_of_larger_count (mem_tiers.mpr (.inl ⟨rfl, rfl, rfl⟩)) ?_ hk hp)
      simpa using hdaily
    · refine .inl (kept_of_larger_count (mem_tiers.mpr (.inr (.inl ⟨rfl, rfl, rfl⟩))) ?_ hk hp)
      simpa using hweekly
    · rw [hmonth] at hk hp
      refine .inl (kept_of_larger_count
        (mem_tiers.mpr (.inr (.inr (.inl ⟨rfl, rfl, rfl⟩)))) ?_ hk hp)
      intro n hn
      by_cases hnew : new.yearly = true
      · obtain ⟨hold, hle⟩ := hyearly hnew
        simp only [hnew, ↓reduceIte, Option.mem_some_iff] at hn
        exact ⟨old.monthly, by simp [hold], by omega⟩
      · simp [hnew] at hn
    · rw [hyear] at hk hp
      by_cases hnew : new.yearly = true
      · exact .inl ⟨_, .tier k (mem_tiers.mpr (.inr (.inr (.inr ⟨hnew, rfl, rfl, rfl⟩)))) hk, hp⟩
      · exact kept_of_year (by simpa using hnew) hp

/-- Whatever the PITs, the clock and the pins, a policy that doesn't weaken `old` keeps every PIT
that `old` keeps. -/
theorem applianceKeep_of_not_weakens (new old : ApplianceRetention)
    (hw : new.weakens old = false) (pits : List AppliancePit) (clock : Clock) (pinned : Reasons)
    (id : Uuid) (h : (applianceKeep pits old clock pinned).Keeps id) :
    (applianceKeep pits new clock pinned).Keeps id := by
  rw [keeps_iff] at h ⊢
  rcases h with ⟨p, hp, rfl⟩ | h
  · rcases kept_of_not_weakens hw hp with hp' | htoday
    · exact .inl ⟨p, hp', rfl⟩
    · obtain ⟨C, -, hn⟩ := hp
      exact .inr (.inl ⟨p, hn.mem, htoday, rfl⟩)
  · exact .inr h

/-- A year-old PIT that a policy without yearly still keeps. -/
theorem applianceKeep_of_not_weakens_forever :
    let pits : List AppliancePit := [⟨1, 0, "a", none⟩, ⟨2, 400 * 86400, "a", some 1⟩,
      ⟨3, 800 * 86400, "a", some 2⟩]
    let clock : Clock := ⟨.new .utc none, some 0, 800 * 86400⟩
    let forever := { ApplianceRetention.default with yearly := false }
    (applianceKeep pits forever clock []).Keeps 2 :=
  applianceKeep_of_not_weakens _ ApplianceRetention.default (by decide) _ _ _ 2
    ⟨.yearly, by decide⟩

end Bmac.Backup
