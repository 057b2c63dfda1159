import Bmac.Core.Civil
import Bmac.Bmacd.Jobs

/-!
# Schedules

`bmacd/src/schedules.rs`: when a schedule comes due, and what a host's evaluation of it does. A slot
is one occurrence of a schedule; its label is made of its civil time and makes the idempotency key
of its job, so that `slot_eq_of_label` gives each label one time.
-/

namespace Bmac.Bmacd

open Bmac.Core

/-- How late a slot may still start. -/
def graceMs : Int := 15 * 60000
def maxScheduleId : Nat := 48

inductive Day where
  | mon | tue | wed | thu | fri | sat | sun
  deriving DecidableEq

/-- Its place in the week, from Monday. -/
def Day.weekday : Day → Int
  | mon => 0
  | tue => 1
  | wed => 2
  | thu => 3
  | fri => 4
  | sat => 5
  | sun => 6

/-- When a schedule comes due; `at_` is a time of day in the cluster's time zone. -/
inductive Recurrence where
  | interval (minutes : Nat)
  | daily (at_ : String)
  | weekly (days : List Day) (at_ : String)
  | monthly (day : Nat) (at_ : String)
  deriving DecidableEq

structure Slot where
  atMs : Int
  label : String
  deriving DecidableEq

def timeOfDay (at_ : String) : Except String (Nat × Nat) :=
  let bad := s!"{at_.quote} is not a 24-hour time like 03:00"
  match Text.splitOnce ':' at_ with
  | none => .error bad
  | some (h, m) =>
    if Text.len h ≠ 2 ∨ Text.len m ≠ 2 then .error bad
    else match Text.parseInt h, Text.parseInt m with
      | some hour, some minute =>
        if 0 ≤ hour ∧ hour < 24 ∧ 0 ≤ minute ∧ minute < 60 then .ok (hour.toNat, minute.toNat)
        else .error bad
      | _, _ => .error bad

namespace Recurrence

def validate : Recurrence → Except String Unit
  | interval minutes =>
    if 1 ≤ minutes ∧ minutes ≤ 7 * 24 * 60 then .ok ()
    else .error "an interval is 1 minute to 7 days"
  | daily at_ => do let _ ← timeOfDay at_
  | weekly days at_ => do
    if days.isEmpty then throw "a weekly schedule needs at least one day"
    let _ ← timeOfDay at_
  | monthly day at_ => do
    if ¬ (1 ≤ day ∧ day ≤ 28) then throw "a monthly schedule runs on day 1 to 28"
    let _ ← timeOfDay at_

/-- 1970-01-01 was a Thursday. -/
def on (every : Recurrence) (date : Int) : Bool :=
  match every with
  | interval _ | daily _ => true
  | weekly days _ => days.any fun d => d.weekday = (date + 3) % 7
  | monthly day _ => (civil date).day = day

/-- The latest slot on one of the `tries` days up to `date`. -/
def latestFrom (every : Recurrence) (nowMs : Int) (zone : TimeZone) (hour minute : Nat) :
    Nat → Int → Option Slot
  | 0, _ => none
  | tries + 1, date =>
    if !inDates date then none
    else if every.on date then
      let atMs := 1000 * zone.instant (date * dayS + hour * 3600 + minute * 60)
      if !inTimestamps atMs then none
      else if atMs ≤ nowMs then some ⟨atMs, stamp date hour minute⟩
      else latestFrom every nowMs zone hour minute tries (date - 1)
    else latestFrom every nowMs zone hour minute tries (date - 1)

/-- The latest slot at or before `nowMs`. Intervals count from the epoch, whatever the zone. -/
def latest (every : Recurrence) (nowMs : Int) (zone : TimeZone) : Option Slot :=
  let daytime (at_ : String) : Option Slot :=
    match timeOfDay at_ with
    | .ok (hour, minute) => every.latestFrom nowMs zone hour minute 62 (zone.date (nowMs / 1000))
    | .error _ => none
  if !inTimestamps nowMs then none
  else match every with
    | interval minutes =>
      let period : Int := minutes * 60000
      let atMs := nowMs - nowMs % period
      if !inTimestamps atMs then none
      else
        let date := atMs / 86400000
        let hour := (atMs / 3600000 % 24).toNat
        let minute := (atMs / 60000 % 60).toNat
        some ⟨atMs, stamp date hour minute ++ "Z"⟩
    | daily at_ => daytime at_
    | weekly _ at_ => daytime at_
    | monthly _ at_ => daytime at_

end Recurrence

/-! ## Labels -/

/-- A slot at a local time of day. -/
structure IsLocal (zone : TimeZone) (slot : Slot) (date : Int) (hour minute : Nat) : Prop where
  hdate : inDates date = true
  hhour : hour < 24
  hminute : minute < 60
  eq : slot = ⟨1000 * zone.instant (date * dayS + hour * 3600 + minute * 60), stamp date hour minute⟩

/-- A slot of an interval. -/
structure IsInterval (slot : Slot) : Prop where
  minute : 60000 ∣ slot.atMs
  date : inDates (slot.atMs / 86400000) = true
  label : slot.label = stamp (slot.atMs / 86400000) (slot.atMs / 3600000 % 24).toNat
    (slot.atMs / 60000 % 60).toNat ++ "Z"

theorem timeOfDay_lt {at_ : String} {hour minute : Nat} (h : timeOfDay at_ = .ok (hour, minute)) :
    hour < 24 ∧ minute < 60 := by
  unfold timeOfDay at h
  split at h
  · cases h
  · split at h
    · cases h
    · split at h
      · split at h
        · cases h
          omega
        · cases h
      · cases h

variable {zone : TimeZone} {slot : Slot} {every : Recurrence}

theorem latestFrom_local {nowMs : Int} {hour minute : Nat}
    (hh : hour < 24) (hm : minute < 60) {tries : Nat} {date : Int}
    (h : every.latestFrom nowMs zone hour minute tries date = some slot) :
    ∃ date, IsLocal zone slot date hour minute := by
  induction tries generalizing date with
  | zero => cases h
  | succ tries ih =>
    unfold Recurrence.latestFrom at h
    split at h
    · cases h
    · rename_i hdate
      split at h
      · dsimp only at h
        split at h
        · cases h
        · split at h
          · cases h
            exact ⟨date, by simpa using hdate, hh, hm, rfl⟩
          · exact ih h
      · exact ih h

theorem latest_cases {nowMs : Int} (h : every.latest nowMs zone = some slot) :
    (∃ date hour minute, IsLocal zone slot date hour minute) ∨ IsInterval slot := by
  have hday : ∀ at_, (match timeOfDay at_ with
      | .ok (hour, minute) => every.latestFrom nowMs zone hour minute 62 (zone.date (nowMs / 1000))
      | .error _ => none) = some slot → ∃ date hour minute, IsLocal zone slot date hour minute := by
    intro at_ h
    split at h
    · rename_i hour minute ht
      obtain ⟨hh, hm⟩ := timeOfDay_lt ht
      obtain ⟨date, hd⟩ := latestFrom_local hh hm h
      exact ⟨date, hour, minute, hd⟩
    · cases h
  unfold Recurrence.latest at h
  dsimp only at h
  split at h
  · cases h
  · split at h
    · rename_i minutes
      split at h
      · cases h
      · rename_i hts
        cases h
        right
        refine ⟨?_, ?_, rfl⟩
        · have hdvd : (minutes : Int) * 60000 ∣ nowMs - nowMs % (minutes * 60000) :=
            Int.dvd_self_sub_emod
          exact (Int.dvd_mul_left _ _).trans hdvd
        · unfold inTimestamps at hts
          unfold inDates
          simp only [Bool.not_eq_true, Bool.not_eq_false', Bool.and_eq_true,
            decide_eq_true_eq] at hts ⊢
          omega
    · exact .inl (hday _ h)
    · exact .inl (hday _ h)
    · exact .inl (hday _ h)

theorem stamp_ne_z {date date' : Int} {hour hour' minute minute' : Nat} :
    stamp date hour minute ≠ stamp date' hour' minute' ++ "Z" := by
  intro h
  have hlast := congrArg (fun s => s.toList.getLast?) h
  have hdigit : Text.digit minute = 'Z' := by simpa [stamp, Text.digits] using hlast
  have hval := Text.toNat_digit minute
  rw [hdigit] at hval
  have : 'Z'.toNat = 90 := rfl
  omega

theorem eq_of_label {slot' : Slot}
    (h : (∃ date hour minute, IsLocal zone slot date hour minute) ∨ IsInterval slot)
    (h' : (∃ date hour minute, IsLocal zone slot' date hour minute) ∨ IsInterval slot')
    (hlabel : slot.label = slot'.label) : slot = slot' := by
  rcases h with ⟨date, hour, minute, hl⟩ | hi <;> rcases h' with ⟨date', hour', minute', hl'⟩ | hi'
  · rw [hl.eq, hl'.eq] at hlabel ⊢
    have hh := hl.hhour
    have hm := hl.hminute
    have hh' := hl'.hhour
    have hm' := hl'.hminute
    obtain ⟨rfl, rfl, rfl⟩ := stamp_inj hl.hdate hl'.hdate (by omega) (by omega) (by omega)
      (by omega) hlabel
    rfl
  · rw [hl.eq, hi'.label] at hlabel
    exact absurd hlabel stamp_ne_z
  · rw [hl'.eq, hi.label] at hlabel
    exact absurd hlabel.symm stamp_ne_z
  · have hat : slot.atMs = slot'.atMs := by
      have hstamp := hlabel
      rw [hi.label, hi'.label] at hstamp
      obtain ⟨hd, hh, hm⟩ := stamp_inj hi.date hi'.date (by omega) (by omega) (by omega) (by omega)
        (String.append_left_inj _ |>.mp hstamp)
      have := hi.minute
      have := hi'.minute
      omega
    cases slot
    cases slot'
    simp only at hat hlabel
    rw [hat, hlabel]

/-- In one zone, a label has one time, whatever the recurrences. -/
theorem slot_eq_of_label {every' : Recurrence} {now now' : Int} {slot' : Slot}
    (h : every.latest now zone = some slot) (h' : every'.latest now' zone = some slot')
    (hlabel : slot.label = slot'.label) : slot = slot' :=
  eq_of_label (latest_cases h) (latest_cases h') hlabel

structure Schedule where
  id : String
  title : String
  operation : OperationId
  parameters : Dict Value
  every : Recurrence
  enabled : Bool
  /-- The role its jobs run with. -/
  runAs : Role
  updatedAtMs : Int

/-- The user that a schedule's jobs are admitted as. -/
def scheduleUser (id : String) : String := "schedule:" ++ id

def scheduleKey (id label : String) : String := "schedule:" ++ id ++ ":" ++ label

def isScheduleId (id : String) : Bool :=
  !id.isEmpty && Text.len id ≤ maxScheduleId && id.toList.head?.any Text.isLower &&
  id.toList.all fun c => Text.isLower c || Text.isDigit c || c = '-'

namespace Schedule

def user (schedule : Schedule) : String := scheduleUser schedule.id

def idempotencyKey (schedule : Schedule) (slot : Slot) : String :=
  scheduleKey schedule.id slot.label

def launch (schedule : Schedule) (slot : Slot) : LaunchJob where
  operation := schedule.operation
  parameters := schedule.parameters
  idempotencyKey := schedule.idempotencyKey slot
  dryRun := false

def caller (schedule : Schedule) : Caller := ⟨schedule.user, schedule.runAs⟩

end Schedule

/-! ## Evaluation -/

/-- What evaluating one schedule did. -/
inductive Outcome where
  /-- This host admitted the slot's job. -/
  | admitted (id : JobId)
  /-- Another host, or an earlier evaluation here, already had. -/
  | existing (id : JobId)
  /-- The job can't start yet; tried again next time. -/
  | waiting (message : String)
  /-- The slot is past its grace period without a job. -/
  | missed
  /-- Admission refused the job outright; not tried again for this slot. -/
  | refused (message : String)

structure SchedulerConfig where
  graceMs : Int
  /-- The cluster's time zone. -/
  zone : TimeZone

structure Scheduler where
  startedMs : Int
  /-- The label of the last slot handled per schedule. -/
  handled : String → Option String

namespace Scheduler

def new (now : Int) : Scheduler := ⟨now, fun _ => none⟩

def handle (scheduler : Scheduler) (id label : String) : Scheduler :=
  { scheduler with handled := Function.update scheduler.handled id (some label) }

/-- Forgets the schedules that aren't listed any more. -/
def retain (scheduler : Scheduler) (schedules : List Schedule) : Scheduler :=
  { scheduler with
    handled := fun id => if schedules.any (·.id = id) then scheduler.handled id else none }

/-- Where `evaluate_one` comes to before it admits anything. -/
inductive Due where
  | done (scheduler : Scheduler) (outcome : Option Outcome)
  | launch (slot : Slot)

/-- `evaluate_one` up to the admission. -/
def due (config : SchedulerConfig) (scheduler : Scheduler) (schedule : Schedule) (now : Int) : Due :=
  match schedule.every.latest now config.zone with
  | none => .done scheduler none
  | some slot =>
    if slot.atMs < schedule.updatedAtMs then .done scheduler none
    else if scheduler.handled schedule.id = some slot.label then .done scheduler none
    else if now - slot.atMs > config.graceMs then
      .done (scheduler.handle schedule.id slot.label)
        (if slot.atMs < scheduler.startedMs then none else some .missed)
    else .launch slot

/-- `evaluate_one` once the admission was answered. -/
def answered (scheduler : Scheduler) (schedule : Schedule) (slot : Slot) :
    Except ApiError Admission → Scheduler × Outcome
  | .ok admission =>
    (scheduler.handle schedule.id slot.label,
      if admission.existing then .existing admission.job.id else .admitted admission.job.id)
  | .error e =>
    if e.code ∈ [.unavailable, .noQuorum, .conflict, .rateLimited, .internal] then
      (scheduler, .waiting e.message)
    else (scheduler.handle schedule.id slot.label, .refused e.message)

end Scheduler

end Bmac.Bmacd
