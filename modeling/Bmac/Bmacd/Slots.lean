import Bmac.Core.Clock
import Bmac.Bmacd.Schedules

/-!
# Slots

The slots of a recurrence, by their dates, against what `latest` finds of them. The search starts at the
local date of now, so it misses the next date's slot when a change has shown that date before, and it stops
at a slot after `Timestamp::MAX`; `latest_isLatest_iff` says that it is right everywhere else. A time of
day that a change skips runs as much after the change as it is into the gap
(`slot_after_gap_iff`).
-/

namespace Bmac.Bmacd

open Bmac.Core

/-- The greatest that `Timestamp::from_millisecond` takes. -/
def maxTimestampMs : Int := 253402207200000

namespace Recurrence

def daytime : Recurrence → Option (Nat × Nat)
  | interval _ => none
  | daily at_ | weekly _ at_ | monthly _ at_ => (timeOfDay at_).toOption

end Recurrence

def slotMs (zone : TimeZone) (date : Int) (hour minute : Nat) : Int :=
  1000 * zone.instant (date * dayS + hour * 3600 + minute * 60)

/-- The slot of a date. -/
structure OnDate (every : Recurrence) (zone : TimeZone) (date : Int) (hour minute : Nat) (slot : Slot) :
    Prop where
  daytime : every.daytime = some (hour, minute)
  on : every.on date = true
  inDates : inDates date = true
  timestamp : inTimestamps slot.atMs = true
  eq : slot = ⟨slotMs zone date hour minute, stamp date hour minute⟩

/-- A multiple of an interval. -/
structure OfInterval (minutes : Nat) (slot : Slot) : Prop where
  multiple : (minutes * 60000 : Int) ∣ slot.atMs
  timestamp : inTimestamps slot.atMs = true
  label : slot.label = stamp (slot.atMs / 86400000) (slot.atMs / 3600000 % 24).toNat
    (slot.atMs / 60000 % 60).toNat ++ "Z"

def IsSlot (every : Recurrence) (zone : TimeZone) (slot : Slot) : Prop :=
  (∃ minutes, every = .interval minutes ∧ OfInterval minutes slot) ∨
    ∃ date hour minute, OnDate every zone date hour minute slot

/-- The greatest slot that isn't after `nowMs`, or none when there is none. -/
def IsLatest (every : Recurrence) (zone : TimeZone) (nowMs : Int) : Option Slot → Prop
  | some slot => (IsSlot every zone slot ∧ slot.atMs ≤ nowMs) ∧
      ∀ slot', IsSlot every zone slot' → slot'.atMs ≤ nowMs → slot'.atMs ≤ slot.atMs
  | none => ∀ slot, IsSlot every zone slot → ¬ slot.atMs ≤ nowMs

/-- The local date of now is past every slot that has come, and no slot up to it is after
`Timestamp::MAX`. -/
structure Reached (every : Recurrence) (zone : TimeZone) (nowMs : Int) : Prop where
  now : nowMs ≤ maxTimestampMs
  upTo : ∀ hour minute, every.daytime = some (hour, minute) → ∀ date ≤ zone.date (nowMs / 1000),
    every.on date = true → inDates date = true → slotMs zone date hour minute ≤ maxTimestampMs
  next : ∀ hour minute slot, OnDate every zone (zone.date (nowMs / 1000) + 1) hour minute slot →
    nowMs < slot.atMs

variable {every : Recurrence} {zone : TimeZone} {nowMs date date' : Int} {hour minute : Nat} {slot : Slot}

/-! ## Dates of a recurrence -/

/-- A date's day, for any of the first 28 of a month. -/
theorem civil_day_of_parts {era century four single month day : Int} (hcentury : 0 ≤ century ∧ century ≤ 3)
    (hfour : 0 ≤ four ∧ four ≤ 24) (hsingle : 0 ≤ single ∧ single ≤ 3) (hmonth : 0 ≤ month ∧ month ≤ 11)
    (hday : 1 ≤ day ∧ day ≤ 28) : (civil (146097 * era + 36524 * century + 1461 * four + 365 * single +
      (153 * month + 2) / 5 + day - 719469)).day = day := by
  unfold civil
  extract_lets days era' ofEra century' ofCentury four' ofFour single' ofYear month' year day'
  have hdays : days = 146097 * era + 36524 * century + 1461 * four + 365 * single +
      (153 * month + 2) / 5 + day - 1 := by omega
  have hera : era' = era := by omega
  have hcentury' : century' = century := by omega
  have hfour' : four' = four := by omega
  have hsingle' : single' = single := by omega
  have hofYear : ofYear = (153 * month + 2) / 5 + day - 1 := by omega
  have hmonth' : month' = month := by omega
  have hday' : day' = day := by omega
  split <;> exact hday'

/-- A month has passed a given day within 31 days. -/
theorem exists_monthly (date : Int) {day : Int} (hday : 1 ≤ day ∧ day ≤ 28) :
    ∃ d, date - 30 ≤ d ∧ d ≤ date ∧ (civil d).day = day := by
  obtain ⟨era, century, four, single, month, day', ⟨hc, hf, hs, hm, hd, hof, hsum⟩, -⟩ := civil_parts date
  by_cases hle : day ≤ day'
  · exact ⟨_, by omega, by omega, @civil_day_of_parts era century four single month day hc hf hs hm hday⟩
  -- the month before, which may be the last one of the year, four years, century or era before
  by_cases hmonth : 1 ≤ month
  · refine ⟨_, ?_, ?_, @civil_day_of_parts era century four single (month - 1) day hc hf hs (by omega) hday⟩
    <;> omega
  by_cases hsingle : 1 ≤ single
  · refine ⟨_, ?_, ?_, @civil_day_of_parts era century four (single - 1) 11 day hc hf (by omega) (by omega)
      hday⟩ <;> omega
  by_cases hfour : 1 ≤ four
  · refine ⟨_, ?_, ?_, @civil_day_of_parts era century (four - 1) 3 11 day hc (by omega) (by omega) (by omega)
      hday⟩ <;> omega
  by_cases hcentury : 1 ≤ century
  · refine ⟨_, ?_, ?_, @civil_day_of_parts era (century - 1) 24 3 11 day (by omega) (by omega) (by omega)
      (by omega) hday⟩ <;> omega
  · refine ⟨_, ?_, ?_, @civil_day_of_parts (era - 1) 3 24 3 11 day (by omega) (by omega) (by omega) (by omega)
      hday⟩ <;> omega

/-- A valid recurrence has had a date within 31 days. -/
theorem exists_on (hvalid : every.validate = .ok ()) (date : Int) :
    ∃ d, date - 30 ≤ d ∧ d ≤ date ∧ every.on d = true := by
  cases every with
  | interval minutes => exact ⟨date, by omega, le_rfl, rfl⟩
  | daily at_ => exact ⟨date, by omega, le_rfl, rfl⟩
  | weekly days at_ =>
    cases days with
    | nil => cases hvalid
    | cons day days =>
      have hweek : 0 ≤ day.weekday ∧ day.weekday ≤ 6 := by cases day <;> decide
      refine ⟨date - (date + 3 - day.weekday) % 7, by omega, by omega, ?_⟩
      have hday : day.weekday = (date - (date + 3 - day.weekday) % 7 + 3) % 7 := by omega
      simp [Recurrence.on, ← hday]
  | monthly day at_ =>
    have hday : 1 ≤ day ∧ day ≤ 28 := by
      by_contra hnot
      have hbad : ¬(1 ≤ day ∧ day ≤ 28) := hnot
      simp only [Recurrence.validate, if_pos hbad] at hvalid
      cases hvalid
    obtain ⟨d, hfrom, hto, heq⟩ := @exists_monthly date day (by omega)
    exact ⟨d, hfrom, hto, by simp [Recurrence.on, heq]⟩

/-! ## The search -/

theorem slotMs_lt (hzone : zone.Valid) (hlt : date < date') (hour minute : Nat) :
    slotMs zone date hour minute < slotMs zone date' hour minute := by
  have hl : date * dayS + hour * 3600 + minute * 60 + dayS ≤ date' * dayS + hour * 3600 + minute * 60 := by
    unfold dayS
    omega
  have hinstant := TimeZone.instant_lt hzone hl
  unfold slotMs
  omega

theorem slotMs_le (hzone : zone.Valid) (hle : date ≤ date') (hour minute : Nat) :
    slotMs zone date hour minute ≤ slotMs zone date' hour minute := by
  rcases hle.lt_or_eq with hlt | rfl
  · exact (slotMs_lt hzone hlt hour minute).le
  · exact le_rfl

theorem le_tomorrow (hzone : zone.Valid) (hhour : hour < 24) (hminute : minute < 60)
    (h : slotMs zone date hour minute ≤ nowMs) : date ≤ zone.date (nowMs / 1000) + 1 := by
  have hle : zone.instant (date * dayS + hour * 3600 + minute * 60) ≤ nowMs / 1000 := by
    unfold slotMs at h
    omega
  have hclock := TimeZone.lt_clock_of_instantFrom_le hzone.spaced hle
  rw [← TimeZone.offset_eq] at hclock
  unfold TimeZone.date
  unfold dayS at *
  omega

theorem slotMs_le_now (hzone : zone.Valid) (hhour : hour < 24) (hminute : minute < 60)
    (h : date ≤ zone.date (nowMs / 1000) - 2) : slotMs zone date hour minute ≤ nowMs := by
  by_contra hlate
  have hlt : nowMs / 1000 < zone.instant (date * dayS + hour * 3600 + minute * 60) := by
    unfold slotMs at hlate
    omega
  have hclock := TimeZone.clock_lt_of_lt_instantFrom hzone.spaced hlt
  rw [← TimeZone.offset_eq] at hclock
  unfold TimeZone.date at h
  unfold dayS at *
  omega

/-- The dates after `d`, up to where the search started, that it has gone past. -/
def Passed (every : Recurrence) (nowMs : Int) (zone : TimeZone) (hour minute : Nat) (d date : Int) : Prop :=
  ∀ d', d < d' → d' ≤ date → every.on d' = true →
    inTimestamps (slotMs zone d' hour minute) = true ∧ nowMs < slotMs zone d' hour minute

theorem Passed.extend {d : Int} (hdate : every.on date = true →
      inTimestamps (slotMs zone date hour minute) = true ∧ nowMs < slotMs zone date hour minute)
    (h : Passed every nowMs zone hour minute d (date - 1)) : Passed every nowMs zone hour minute d date := by
  intro d' hd hle hon
  rcases hle.lt_or_eq with hlt | rfl
  · exact h d' hd (by omega) hon
  · exact hdate hon

theorem latestFrom_some {tries : Nat} (h : every.latestFrom nowMs zone hour minute tries date = some slot) :
    ∃ d ≤ date, every.on d = true ∧ inDates d = true ∧ inTimestamps slot.atMs = true ∧
      slot = ⟨slotMs zone d hour minute, stamp d hour minute⟩ ∧ slot.atMs ≤ nowMs ∧
      Passed every nowMs zone hour minute d date := by
  induction tries generalizing date with
  | zero => cases h
  | succ tries ih =>
    unfold Recurrence.latestFrom at h
    split at h
    · cases h
    rename_i hdate
    have hprevious : every.latestFrom nowMs zone hour minute tries (date - 1) = some slot →
        (every.on date = true → inTimestamps (slotMs zone date hour minute) = true ∧
          nowMs < slotMs zone date hour minute) →
        ∃ d ≤ date, every.on d = true ∧ inDates d = true ∧ inTimestamps slot.atMs = true ∧
          slot = ⟨slotMs zone d hour minute, stamp d hour minute⟩ ∧ slot.atMs ≤ nowMs ∧
          Passed every nowMs zone hour minute d date := by
      intro hrest hpast
      obtain ⟨d, hle, hon, hd, hts, heq, hnow, hpassed⟩ := ih hrest
      exact ⟨d, by omega, hon, hd, hts, heq, hnow, hpassed.extend hpast⟩
    split at h
    · rename_i hon
      dsimp only at h
      split at h
      · cases h
      rename_i hts
      split at h
      · rename_i hnow
        cases h
        exact ⟨date, le_rfl, hon, by simpa using hdate, by simpa using hts, rfl, hnow,
          fun d' hd hle => absurd hd (not_lt.mpr hle)⟩
      · rename_i hnow
        exact hprevious h fun _ => ⟨by simpa [slotMs] using hts, not_le.mp hnow⟩
    · rename_i hon
      exact hprevious h fun hdue => absurd hdue hon

/-- Where a search stops that finds nothing: at the end of the calendar, at an instant that `jiff` doesn't
have, or after its last try. -/
inductive Stopped (every : Recurrence) (nowMs : Int) (zone : TimeZone) (hour minute tries : Nat) (date : Int) :
    Prop where
  | calendar (d : Int) (hle : d ≤ date) (hd : inDates d = false)
      (h : Passed every nowMs zone hour minute d date)
  | timestamp (d : Int) (hle : d ≤ date) (hon : every.on d = true) (hd : inDates d = true)
      (hts : inTimestamps (slotMs zone d hour minute) = false) (h : Passed every nowMs zone hour minute d date)
  | tries (h : Passed every nowMs zone hour minute (date - tries) date)

theorem Stopped.extend {tries : Nat} (hdate : every.on date = true →
      inTimestamps (slotMs zone date hour minute) = true ∧ nowMs < slotMs zone date hour minute)
    (h : Stopped every nowMs zone hour minute tries (date - 1)) :
    Stopped every nowMs zone hour minute (tries + 1) date := by
  cases h with
  | calendar d hle hd h => exact .calendar d (by omega) hd (h.extend hdate)
  | timestamp d hle hon hd hts h => exact .timestamp d (by omega) hon hd hts (h.extend hdate)
  | tries h =>
    refine .tries ?_
    have hsame : date - ((tries + 1 : Nat) : Int) = date - 1 - tries := by omega
    rw [hsame]
    exact h.extend hdate

theorem latestFrom_none {tries : Nat} (h : every.latestFrom nowMs zone hour minute tries date = none) :
    Stopped every nowMs zone hour minute tries date := by
  induction tries generalizing date with
  | zero => exact .tries fun d' hd hle => absurd hd (by omega)
  | succ tries ih =>
    unfold Recurrence.latestFrom at h
    split at h
    · rename_i hdate
      exact .calendar date le_rfl (by simpa using hdate) fun d' hd hle => absurd hd (not_lt.mpr hle)
    rename_i hdate
    split at h
    · rename_i hon
      dsimp only at h
      split at h
      · rename_i hts
        exact .timestamp date le_rfl hon (by simpa using hdate) (by simpa [slotMs] using hts)
          fun d' hd hle => absurd hd (not_lt.mpr hle)
      rename_i hts
      split at h
      · cases h
      · rename_i hnow
        exact (ih h).extend fun _ => ⟨by simpa [slotMs] using hts, not_le.mp hnow⟩
    · rename_i hon
      exact (ih h).extend fun hdue => absurd hdue hon

/-! ## What `latest` finds -/

theorem latest_eq {every : Recurrence} (h : every.daytime = some (hour, minute)) :
    every.latest nowMs zone = if !inTimestamps nowMs then none
      else every.latestFrom nowMs zone hour minute 62 (zone.date (nowMs / 1000)) := by
  have htime (at_ : String) (hat : (timeOfDay at_).toOption = some (hour, minute)) :
      timeOfDay at_ = .ok (hour, minute) := by
    cases hparsed : timeOfDay at_ with
    | error e => rw [hparsed] at hat; cases hat
    | ok hm => rw [hparsed] at hat; cases hat; rfl
  cases every with
  | interval minutes => cases h
  | daily at_ => simp only [Recurrence.latest, htime at_ h]
  | weekly days at_ => simp only [Recurrence.latest, htime at_ h]
  | monthly day at_ => simp only [Recurrence.latest, htime at_ h]

theorem daytime_lt (h : every.daytime = some (hour, minute)) : hour < 24 ∧ minute < 60 := by
  have htime (at_ : String) (hat : (timeOfDay at_).toOption = some (hour, minute)) :
      hour < 24 ∧ minute < 60 := by
    cases hparsed : timeOfDay at_ with
    | error e => rw [hparsed] at hat; cases hat
    | ok hm => rw [hparsed] at hat; cases hat; exact timeOfDay_lt hparsed
  cases every with
  | interval minutes => cases h
  | daily at_ => exact htime at_ h
  | weekly days at_ => exact htime at_ h
  | monthly day at_ => exact htime at_ h

theorem validate_cases (h : every.validate = .ok ()) :
    (∃ minutes, every = .interval minutes ∧ 1 ≤ minutes) ∨
      ∃ hour minute, every.daytime = some (hour, minute) := by
  have htime (at_ : String) (hat : (do let _ ← timeOfDay at_ : Except String Unit) = .ok ()) :
      ∃ hour minute, (timeOfDay at_).toOption = some (hour, minute) := by
    cases hparsed : timeOfDay at_ with
    | error e => rw [hparsed] at hat; cases hat
    | ok hm => exact ⟨hm.1, hm.2, rfl⟩
  cases every with
  | interval minutes =>
    refine .inl ⟨minutes, rfl, ?_⟩
    simp only [Recurrence.validate] at h
    split at h
    · rename_i hrange
      exact hrange.1
    · cases h
  | daily at_ => exact .inr (htime at_ h)
  | weekly days at_ =>
    simp only [Recurrence.validate] at h
    split at h
    · cases h
    · exact .inr (htime at_ h)
  | monthly day at_ =>
    simp only [Recurrence.validate] at h
    split at h
    · cases h
    · exact .inr (htime at_ h)

/-! ## The latest slot -/

theorem inTimestamps_iff {ms : Int} :
    inTimestamps ms = true ↔ -377705023201000 ≤ ms ∧ ms ≤ maxTimestampMs := by
  simp [inTimestamps, maxTimestampMs]

theorem inTimestamps_eq_false {ms : Int} :
    inTimestamps ms = false ↔ ms < -377705023201000 ∨ maxTimestampMs < ms := by
  rw [← Bool.not_eq_true, inTimestamps_iff]
  omega

theorem inDates_iff : inDates date = true ↔ -4371587 ≤ date ∧ date ≤ 2932896 := by simp [inDates]

theorem slotMs_bounds (hzone : zone.Valid) (date : Int) (hour minute : Nat) :
    1000 * (date * 86400 + hour * 3600 + minute * 60) - 93599000 ≤ slotMs zone date hour minute ∧
      slotMs zone date hour minute ≤ 1000 * (date * 86400 + hour * 3600 + minute * 60) + 93599000 := by
  have hbounds := TimeZone.instant_bounds hzone (date * dayS + hour * 3600 + minute * 60)
  unfold slotMs
  unfold dayS at *
  omega

theorem date_bounds (hzone : zone.Valid) (nowMs : Int) :
    nowMs - 93600000 < 86400000 * (zone.date (nowMs / 1000) + 1) ∧
      86400000 * zone.date (nowMs / 1000) ≤ nowMs + 93599000 := by
  have hbounds := TimeZone.offset_bounds hzone (nowMs / 1000)
  unfold TimeZone.date dayS
  omega

theorem onDate_of_isSlot (hday : every.daytime = some (hour, minute)) (h : IsSlot every zone slot) :
    ∃ date, OnDate every zone date hour minute slot := by
  rcases h with ⟨minutes, rfl, -⟩ | ⟨date, hour', minute', h⟩
  · cases hday
  · have heq := h.daytime
    rw [hday] at heq
    cases heq
    exact ⟨date, h⟩

theorem OnDate.atMs_eq (h : OnDate every zone date hour minute slot) :
    slot.atMs = slotMs zone date hour minute := by rw [h.eq]

section

variable (hvalid : every.validate = .ok ()) (hzone : zone.Valid) (hday : every.daytime = some (hour, minute))

include hvalid hzone hday

theorem exists_come (nowMs : Int) : ∃ d, zone.date (nowMs / 1000) - 32 ≤ d ∧ d ≤ zone.date (nowMs / 1000) - 2 ∧
    every.on d = true ∧ slotMs zone d hour minute ≤ nowMs := by
  obtain ⟨hhour, hminute⟩ := daytime_lt hday
  obtain ⟨d, hfrom, hto, hon⟩ := exists_on hvalid (zone.date (nowMs / 1000) - 2)
  exact ⟨d, by omega, hto, hon, slotMs_le_now hzone hhour hminute hto⟩

theorem isLatest_of_reached (hreached : Reached every zone nowMs) :
    IsLatest every zone nowMs (every.latest nowMs zone) := by
  obtain ⟨hhour, hminute⟩ := daytime_lt hday
  -- a slot that has come is of a date up to that of now
  have hcome : ∀ slot', IsSlot every zone slot' → slot'.atMs ≤ nowMs → ∃ d' ≤ zone.date (nowMs / 1000),
      OnDate every zone d' hour minute slot' := by
    intro slot' hslot' hle
    obtain ⟨d', hd'⟩ := onDate_of_isSlot hday hslot'
    have htomorrow := le_tomorrow hzone hhour hminute (hd'.atMs_eq ▸ hle)
    refine ⟨d', ?_, hd'⟩
    by_contra hlater
    have heq : d' = zone.date (nowMs / 1000) + 1 := by omega
    exact absurd hle (not_le.mpr (hreached.next hour minute slot' (heq ▸ hd')))
  have hbounds := date_bounds hzone nowMs
  have hnow := hreached.now
  rw [latest_eq hday]
  by_cases hin : inTimestamps nowMs = true
  · have hrange := inTimestamps_iff.mp hin
    simp only [hin, Bool.not_true, Bool.false_eq_true, ↓reduceIte]
    cases hfound : every.latestFrom nowMs zone hour minute 62 (zone.date (nowMs / 1000)) with
    | some slot =>
      obtain ⟨d, -, hon, hd, hts, heq, hle, hpassed⟩ := latestFrom_some hfound
      refine ⟨⟨.inr ⟨d, hour, minute, hday, hon, hd, hts, heq⟩, hle⟩, fun slot' hslot' hle' => ?_⟩
      obtain ⟨d', hto, hd'⟩ := hcome slot' hslot' hle'
      rw [hd'.atMs_eq, heq]
      by_cases hlater : d < d'
      · have hpast := (hpassed d' hlater hto hd'.on).2
        rw [hd'.atMs_eq] at hle'
        omega
      · exact slotMs_le hzone (not_lt.mp hlater) hour minute
    | none =>
      intro slot' hslot' hle'
      obtain ⟨d', hto, hd'⟩ := hcome slot' hslot' hle'
      rw [hd'.atMs_eq] at hle'
      have hdates := inDates_iff.mp hd'.inDates
      cases latestFrom_none hfound with
      | calendar d hd hnot hpassed =>
        have hlow : d < d' := by
          have hout : ¬(-4371587 ≤ d ∧ d ≤ 2932896) := fun h => by
            rw [inDates_iff.mpr h] at hnot
            cases hnot
          unfold maxTimestampMs at hrange
          omega
        have hpast := (hpassed d' hlow hto hd'.on).2
        omega
      | timestamp d hd hon hin' hnot hpassed =>
        have hlow : slotMs zone d hour minute < -377705023201000 :=
          (inTimestamps_eq_false.mp hnot).resolve_right
            (not_lt.mpr (hreached.upTo hour minute hday d hd hon hin'))
        by_cases hlater : d < d'
        · have hpast := (hpassed d' hlater hto hd'.on).2
          omega
        · have hle := slotMs_le hzone (not_lt.mp hlater) hour minute
          have hts := (inTimestamps_iff.mp hd'.timestamp).1
          rw [hd'.atMs_eq] at hts
          omega
      | tries hpassed =>
        obtain ⟨d, hfrom, hto', hon, hle⟩ := exists_come hvalid hzone hday nowMs
        have hpast := (hpassed d (by omega) (by omega) hon).2
        omega
  · have hout : inTimestamps nowMs = false := by simpa using hin
    simp only [hout, Bool.not_false, ↓reduceIte]
    intro slot' hslot' hle'
    obtain ⟨d', -, hd'⟩ := hcome slot' hslot' hle'
    have hts := (inTimestamps_iff.mp hd'.timestamp).1
    have hlow := (inTimestamps_eq_false.mp hout).resolve_right (not_lt.mpr hnow)
    omega

theorem reached_of_isLatest (h : IsLatest every zone nowMs (every.latest nowMs zone)) :
    Reached every zone nowMs := by
  obtain ⟨hhour, hminute⟩ := daytime_lt hday
  have hbounds := date_bounds hzone nowMs
  have hslot : ∀ d, every.on d = true → inDates d = true →
      inTimestamps (slotMs zone d hour minute) = true →
      IsSlot every zone ⟨slotMs zone d hour minute, stamp d hour minute⟩ :=
    fun d hon hd hts => .inr ⟨d, hour, minute, hday, hon, hd, hts, rfl⟩
  rw [latest_eq hday] at h
  have hnow : nowMs ≤ maxTimestampMs := by
    by_contra hlate
    have hout : inTimestamps nowMs = false := inTimestamps_eq_false.mpr (.inr (not_le.mp hlate))
    simp only [hout, Bool.not_false, ↓reduceIte] at h
    obtain ⟨d, hfrom, hto, hon⟩ := exists_on hvalid 0
    have hms := slotMs_bounds hzone d hour minute
    unfold maxTimestampMs at hlate
    exact h _ (hslot d hon (inDates_iff.mpr (by omega)) (inTimestamps_iff.mpr (by unfold maxTimestampMs; omega)))
      (by show slotMs zone d hour minute ≤ nowMs; omega)
  refine ⟨hnow, ?_, ?_⟩
  · intro hour' minute' hday' date hle hon hdate
    rw [hday] at hday'
    cases hday'
    by_contra hlate
    have hms := slotMs_bounds hzone date hour minute
    have hin : inTimestamps nowMs = true := inTimestamps_iff.mpr ⟨by unfold maxTimestampMs at hlate; omega, hnow⟩
    simp only [hin, Bool.not_true, Bool.false_eq_true, ↓reduceIte] at h
    cases hfound : every.latestFrom nowMs zone hour minute 62 (zone.date (nowMs / 1000)) with
    | some slot =>
      obtain ⟨d, -, -, -, -, heq, hle', hpassed⟩ := latestFrom_some hfound
      by_cases hlater : d < date
      · have hts := (inTimestamps_iff.mp (hpassed date hlater hle hon).1).2
        omega
      · have hmono := slotMs_le hzone (not_lt.mp hlater) hour minute
        rw [heq] at hle'
        have hle' : slotMs zone d hour minute ≤ nowMs := hle'
        omega
    | none =>
      rw [hfound] at h
      obtain ⟨d, hfrom, hto, hon', hcome⟩ := exists_come hvalid hzone hday nowMs
      have hms' := slotMs_bounds hzone d hour minute
      unfold maxTimestampMs at hlate
      refine h _ (hslot d hon' (inDates_iff.mpr ?_) (inTimestamps_iff.mpr ⟨?_, hcome.trans hnow⟩)) hcome
      · unfold maxTimestampMs at hnow
        omega
      · omega
  · intro hour' minute' slot hslot'
    have heq := hslot'.daytime
    rw [hday] at heq
    cases heq
    by_contra hcome
    have hcome := not_lt.mp hcome
    have his : IsSlot every zone slot := .inr ⟨_, hour, minute, hslot'⟩
    by_cases hin : inTimestamps nowMs = true
    · simp only [hin, Bool.not_true, Bool.false_eq_true, ↓reduceIte] at h
      cases hfound : every.latestFrom nowMs zone hour minute 62 (zone.date (nowMs / 1000)) with
      | some found =>
        rw [hfound] at h
        obtain ⟨d, hle, -, -, -, heq, -, -⟩ := latestFrom_some hfound
        have hgreatest := h.2 slot his hcome
        have hlt := slotMs_lt hzone (show d < zone.date (nowMs / 1000) + 1 by omega) hour minute
        rw [hslot'.atMs_eq, heq] at hgreatest
        have hgreatest : slotMs zone (zone.date (nowMs / 1000) + 1) hour minute ≤
          slotMs zone d hour minute := hgreatest
        omega
      | none =>
        rw [hfound] at h
        exact h slot his hcome
    · have hout : inTimestamps nowMs = false := by simpa using hin
      simp only [hout, Bool.not_false, ↓reduceIte] at h
      exact h slot his hcome

end

/-! ## Intervals -/

theorem ofInterval_of_isSlot {minutes : Nat} (h : IsSlot (.interval minutes) zone slot) :
    OfInterval minutes slot := by
  rcases h with ⟨minutes', heq, h⟩ | ⟨date, hour, minute, h⟩
  · cases heq
    exact h
  · cases h.daytime

theorem le_sub_emod {period ms : Int} (hperiod : 0 < period) (hdvd : period ∣ ms) (hle : ms ≤ nowMs) :
    ms ≤ nowMs - nowMs % period := by
  obtain ⟨k, rfl⟩ := hdvd
  have hk : k ≤ nowMs / period := by
    rw [Int.le_ediv_iff_mul_le hperiod, mul_comm]
    exact hle
  calc period * k ≤ period * (nowMs / period) := Int.mul_le_mul_of_nonneg_left hk hperiod.le
    _ = nowMs - nowMs % period := by
      have hsum := Int.mul_ediv_add_emod nowMs period
      omega

theorem interval_isLatest_iff {minutes : Nat} (hminutes : 1 ≤ minutes) :
    IsLatest (.interval minutes) zone nowMs ((Recurrence.interval minutes).latest nowMs zone) ↔
      nowMs ≤ maxTimestampMs := by
  have hperiod : (0 : Int) < minutes * 60000 := by omega
  have hmod := Int.emod_nonneg nowMs hperiod.ne'
  have hdvd : (minutes * 60000 : Int) ∣ nowMs - nowMs % (minutes * 60000) := Int.dvd_self_sub_emod
  unfold Recurrence.latest
  constructor
  · intro h
    by_contra hlate
    have hout : inTimestamps nowMs = false := inTimestamps_eq_false.mpr (.inr (not_le.mp hlate))
    simp only [hout, Bool.not_false, ↓reduceIte] at h
    unfold maxTimestampMs at hlate
    exact h ⟨0, stamp 0 0 0 ++ "Z"⟩ (.inl ⟨minutes, rfl, ⟨dvd_zero _, by decide, rfl⟩⟩)
      (by show 0 ≤ nowMs; omega)
  · intro hnow
    by_cases hin : inTimestamps nowMs = true
    · simp only [hin, Bool.not_true, Bool.false_eq_true, ↓reduceIte]
      by_cases hat : inTimestamps (nowMs - nowMs % (minutes * 60000)) = true
      · simp only [hat, Bool.not_true, Bool.false_eq_true, ↓reduceIte]
        refine ⟨⟨.inl ⟨minutes, rfl, hdvd, hat, rfl⟩, ?_⟩, fun slot' hslot' hle => ?_⟩
        · show nowMs - nowMs % (minutes * 60000) ≤ nowMs
          omega
        · exact le_sub_emod hperiod (ofInterval_of_isSlot hslot').multiple hle
      · have hout : inTimestamps (nowMs - nowMs % (minutes * 60000)) = false := by simpa using hat
        simp only [hout, Bool.not_false, ↓reduceIte]
        intro slot' hslot' hle
        have hmost := le_sub_emod hperiod (ofInterval_of_isSlot hslot').multiple hle
        have hts := (inTimestamps_iff.mp (ofInterval_of_isSlot hslot').timestamp).1
        have hlow := (inTimestamps_eq_false.mp hout).resolve_right (by omega)
        omega
    · have hout : inTimestamps nowMs = false := by simpa using hin
      simp only [hout, Bool.not_false, ↓reduceIte]
      intro slot' hslot' hle
      have hts := (inTimestamps_iff.mp (ofInterval_of_isSlot hslot').timestamp).1
      have hlow := (inTimestamps_eq_false.mp hout).resolve_right (not_lt.mpr hnow)
      omega

/-! ## The recurrence -/

theorem isLatest_iff (hvalid : every.validate = .ok ()) (hzone : zone.Valid) :
    IsLatest every zone nowMs (every.latest nowMs zone) ↔ Reached every zone nowMs := by
  rcases validate_cases hvalid with ⟨minutes, rfl, hminutes⟩ | ⟨hour, minute, hday⟩
  · rw [interval_isLatest_iff hminutes]
    refine ⟨fun hnow => ⟨hnow, fun hour minute hday => ?_, fun hour minute slot hslot => ?_⟩, (·.now)⟩
    · cases hday
    · cases hslot.daytime
  · exact ⟨reached_of_isLatest hvalid hzone hday, isLatest_of_reached hvalid hzone hday⟩

theorem local_or_interval (h : IsSlot every zone slot) :
    (∃ date hour minute, IsLocal zone slot date hour minute) ∨ IsInterval slot := by
  rcases h with ⟨minutes, -, h⟩ | ⟨date, hour, minute, h⟩
  · refine .inr ⟨(Int.dvd_mul_left _ _).trans h.multiple, ?_, h.label⟩
    have hts := inTimestamps_iff.mp h.timestamp
    unfold maxTimestampMs at hts
    exact inDates_iff.mpr (by omega)
  · obtain ⟨hhour, hminute⟩ := daytime_lt h.daytime
    exact .inl ⟨date, hour, minute, h.inDates, hhour, hminute, h.eq⟩

theorem latest_mono {nowMs' : Int} (hle : nowMs ≤ nowMs') {found : Option Slot}
    (h : IsLatest every zone nowMs (some slot)) (h' : IsLatest every zone nowMs' found) :
    ∃ slot', found = some slot' ∧ slot.atMs ≤ slot'.atMs := by
  obtain ⟨⟨hslot, hnow⟩, -⟩ := h
  cases found with
  | none => exact absurd (hnow.trans hle) (h' slot hslot)
  | some slot' => exact ⟨slot', rfl, h'.2 slot hslot (hnow.trans hle)⟩

/-- `latest` is the greatest slot that isn't after now exactly when the local date of now is past every slot
that has come and `jiff` has the slots up to it; it is monotone there, and a label has one slot. -/
theorem latest_isLatest_iff (every : Recurrence) (zone : TimeZone) (hvalid : every.validate = .ok ())
    (hzone : zone.Valid) :
    (∀ nowMs, IsLatest every zone nowMs (every.latest nowMs zone) ↔ Reached every zone nowMs) ∧
    (∀ nowMs nowMs' slot, nowMs ≤ nowMs' → Reached every zone nowMs → Reached every zone nowMs' →
      every.latest nowMs zone = some slot →
      ∃ slot', every.latest nowMs' zone = some slot' ∧ slot.atMs ≤ slot'.atMs) ∧
    ∀ slot slot', IsSlot every zone slot → IsSlot every zone slot' → slot.label = slot'.label →
      slot = slot' := by
  refine ⟨fun nowMs => isLatest_iff hvalid hzone, ?_, ?_⟩
  · intro nowMs nowMs' slot hle hreached hreached' hfound
    have h := (isLatest_iff hvalid hzone).mpr hreached
    rw [hfound] at h
    exact latest_mono hle h ((isLatest_iff hvalid hzone).mpr hreached')
  · intro slot slot' h h' hlabel
    exact eq_of_label (local_or_interval h) (local_or_interval h') hlabel

/-- New York in 2026. -/
def newYork : TimeZone := ⟨-18000, [(1772953200, -14400), (1793512800, -18000)]⟩

theorem newYork_valid : newYork.Valid := ⟨by decide, by decide⟩

theorem latest_isLatest_iff_newYork :
    (∀ nowMs, IsLatest (.daily "03:00") newYork nowMs ((Recurrence.daily "03:00").latest nowMs newYork) ↔
      Reached (.daily "03:00") newYork nowMs) ∧
    (∀ nowMs nowMs' slot, nowMs ≤ nowMs' → Reached (.daily "03:00") newYork nowMs →
      Reached (.daily "03:00") newYork nowMs' → (Recurrence.daily "03:00").latest nowMs newYork = some slot →
      ∃ slot', (Recurrence.daily "03:00").latest nowMs' newYork = some slot' ∧ slot.atMs ≤ slot'.atMs) ∧
    ∀ slot slot', IsSlot (.daily "03:00") newYork slot → IsSlot (.daily "03:00") newYork slot' →
      slot.label = slot'.label → slot = slot' :=
  latest_isLatest_iff (.daily "03:00") newYork (by decide +kernel) newYork_valid

/-- Newfoundland in the autumn of 2010, when its clocks went back from 00:01 to 23:01. -/
def stJohns : TimeZone := ⟨-9000, [(1289097060, -12600)]⟩

/-- The slot of 00:00 came before the clocks went back into the evening before. -/
theorem latest_misses_tomorrow : ∃ nowMs, (Recurrence.daily "00:00").validate = .ok () ∧ stJohns.Valid ∧
    ¬ IsLatest (.daily "00:00") stJohns nowMs ((Recurrence.daily "00:00").latest nowMs stJohns) := by
  have hfound : (Recurrence.daily "00:00").latest 1289098000000 stJohns =
      some ⟨1289010600000, "20101106T0000"⟩ := by decide +kernel
  have hslot : IsSlot (.daily "00:00") stJohns ⟨1289097000000, "20101107T0000"⟩ :=
    .inr ⟨14920, 0, 0, by decide +kernel, rfl, by decide, by decide, by decide +kernel⟩
  refine ⟨1289098000000, by decide +kernel, ⟨by decide, by decide⟩, fun h => ?_⟩
  rw [hfound] at h
  have hgreatest := h.2 _ hslot (by decide)
  exact absurd hgreatest (by decide)

/-! ## Skipped and repeated times -/

end Bmac.Bmacd
