import Bmac.Base.Run
import Bmac.Backup.Retention

/-!
# Retention settings

`bmac-backupd/src/retention.rs`, `Settings`: the appliance's active policy, the floor below which
none may go, and the weaker policy that waits out the delay. `settled_weakening_waited` is the
guarantee the delay gives over any sequence of calls.
-/

namespace Bmac.Backupd

open Bmac.Base Bmac.Core Bmac.Backup

def defaultDelayHours : Nat := 72
def hourMs : Int := 3600 * 1000

/-- A weaker policy waiting out the delay. -/
structure Pending where
  policy : ApplianceRetention
  requestedAtMs : Int
  effectiveAtMs : Int
  by_ : String
  deriving DecidableEq

/-- An administrator's hold: the PIT stays whatever the policy says. -/
structure AdminHold where
  clusterUuid : String
  pitUuid : Uuid
  by_ : String
  atMs : Int
  deriving DecidableEq

/-- When a VM's first PIT here was taken. -/
structure VmStart where
  clusterUuid : String
  vmUuid : Uuid
  takenS : Int
  deriving DecidableEq

structure Settings where
  policy : ApplianceRetention
  /-- Set only at the console; the UI can't keep less than this. -/
  floor : ApplianceRetention
  delayHours : Nat
  pending : Option Pending
  holds : List AdminHold
  starts : List VmStart
  testDayS : Option Int

/-- What a policy change did. -/
inductive Change where
  | applied
  | delayed (effectiveAtMs : Int)
  deriving DecidableEq

/-- Whether `policy` keeps fewer of any tier than `floor`; without yearly it keeps every month. -/
def below (policy floor : ApplianceRetention) : Bool :=
  policy.daily < floor.daily ||
  policy.weekly < floor.weekly ||
  (policy.yearly && policy.monthly < floor.monthly)

namespace Settings

def default : Settings where
  policy := .default
  floor := { ApplianceRetention.default with daily := 1, weekly := 0, monthly := 0 }
  delayHours := defaultDelayHours
  pending := none
  holds := []
  starts := []
  testDayS := none

def settle (s : Settings) (nowMs : Int) : Settings × Option Pending :=
  match s.pending with
  | none => (s, none)
  | some pending =>
    if pending.effectiveAtMs > nowMs then (s, none)
    else ({ s with policy := pending.policy, pending := none }, some pending)

def floorError (floor : ApplianceRetention) : String :=
  s!"the retention floor is {floor.daily} daily, {floor.weekly} weekly, {floor.monthly} monthly"

/-- A new policy. One that keeps less in any tier waits out the delay unless `confirmed` (at the
console); none may go below the floor. -/
def change (s : Settings) (policy : ApplianceRetention) (by_ : String) (nowMs : Int)
    (confirmed : Bool) : Except String (Settings × Change) := do
  policy.validate
  if below policy s.floor then
    throw (floorError s.floor)
  if !policy.weakens s.policy || confirmed then
    return ({ s with policy := policy, pending := none }, .applied)
  let effectiveAtMs := nowMs + s.delayHours * hourMs
  let pending : Pending := ⟨policy, nowMs, effectiveAtMs, by_⟩
  return ({ s with pending := some pending }, .delayed effectiveAtMs)

/-- The floor, from the console only; the policy must already keep it. -/
def setFloor (s : Settings) (floor : ApplianceRetention) : Except String Settings :=
  if below s.policy floor then
    .error "the policy keeps less than that floor; raise the policy first"
  else
    let pending := s.pending.filter fun p => !below p.policy floor
    .ok { s with floor := floor, pending := pending }

/-! ## What each call can do -/

theorem change_cases {s s' : Settings} {policy : ApplianceRetention} {by_ : String} {nowMs : Int}
    {confirmed : Bool} {c : Change} (h : s.change policy by_ nowMs confirmed = .ok (s', c)) :
    below policy s.floor = false ∧
      ((policy.weakens s.policy = false ∨ confirmed = true) ∧
          s' = { s with policy := policy, pending := none } ∨
        policy.weakens s.policy = true ∧ confirmed = false ∧ s' = { s with
          pending := some ⟨policy, nowMs, nowMs + s.delayHours * hourMs, by_⟩ }) := by
  unfold change at h
  cases hv : policy.validate with
  | error e => rw [hv] at h; cases h
  | ok u =>
    rw [hv] at h
    cases hb : below policy s.floor with
    | true => simp [hb, bind, Except.bind, throw, throwThe, MonadExceptOf.throw] at h
    | false =>
      refine ⟨rfl, ?_⟩
      cases hw : policy.weakens s.policy <;> cases confirmed <;>
        simp [hb, hw, bind, Except.bind, pure, Except.pure] at h <;> simp [h]

theorem settle_cases (s : Settings) (nowMs : Int) :
    (s.settle nowMs).1 = s ∨ ∃ p, s.pending = some p ∧ p.effectiveAtMs ≤ nowMs ∧
      (s.settle nowMs).1 = { s with policy := p.policy, pending := none } := by
  unfold settle
  cases hp : s.pending with
  | none => exact .inl rfl
  | some p =>
    by_cases hlt : p.effectiveAtMs > nowMs
    · exact .inl (by simp [hlt])
    · exact .inr ⟨p, rfl, by omega, by simp [hlt]⟩

theorem setFloor_cases {s s' : Settings} {floor : ApplianceRetention}
    (h : s.setFloor floor = .ok s') : below s.policy floor = false ∧
      s' = { s with floor := floor, pending := s.pending.filter fun p => !below p.policy floor } := by
  unfold setFloor at h
  split at h
  · cases h
  · rename_i hb
    exact ⟨by simpa using hb, (Except.ok.inj h).symm⟩

/-! ## Runs -/

inductive Call where
  | change (policy : ApplianceRetention) (by_ : String) (nowMs : Int) (confirmed : Bool)
  | settle (nowMs : Int)
  | setFloor (floor : ApplianceRetention)

/-- A call that fails changes nothing. -/
def apply (s : Settings) : Call → Settings
  | .change policy by_ nowMs confirmed =>
    match s.change policy by_ nowMs confirmed with
    | .ok (s', _) => s'
    | .error _ => s
  | .settle nowMs => (s.settle nowMs).1
  | .setFloor floor =>
    match s.setFloor floor with
    | .ok s' => s'
    | .error _ => s

def Step (s : Settings) (c : Call) (s' : Settings) : Prop := s.apply c = s'

/-- `calls` led to `s`: nothing is below the floor, and a pending policy is one that a call of them
asked for, unconfirmed, `delayHours` before it takes effect. -/
structure Sound (calls : List Call) (s : Settings) : Prop where
  policy : below s.policy s.floor = false
  pending : ∀ p ∈ s.pending, below p.policy s.floor = false
  requested : ∀ p ∈ s.pending, .change p.policy p.by_ p.requestedAtMs false ∈ calls
  delay : ∀ p ∈ s.pending, p.effectiveAtMs = p.requestedAtMs + s.delayHours * hourMs

theorem sound_default : Sound [] default :=
  ⟨by decide, by simp [default], by simp [default], by simp [default]⟩

variable {calls : List Call} {s s' : Settings}

theorem Sound.mono {c : Call} (h : Sound calls s) : Sound (calls ++ [c]) s :=
  { h with requested := fun p hp => List.mem_append_left _ (h.requested p hp) }

/-- A policy takes the active one's place and nothing is left pending. -/
theorem Sound.replace {policy : ApplianceRetention} (hb : below policy s.floor = false) :
    Sound calls { s with policy := policy, pending := none } :=
  ⟨hb, by simp, by simp, by simp⟩

theorem Sound.step {c : Call} (h : Sound calls s) (hs : Step s c s') : Sound (calls ++ [c]) s' := by
  unfold Step at hs
  subst hs
  cases c with
  | change policy by_ nowMs confirmed =>
    show Sound _ (match s.change policy by_ nowMs confirmed with | .ok (s', _) => s' | .error _ => s)
    cases hc : s.change policy by_ nowMs confirmed with
    | error e => exact h.mono
    | ok r =>
      obtain ⟨s', e⟩ := r
      obtain ⟨hb, ⟨-, rfl⟩ | ⟨-, rfl, rfl⟩⟩ := change_cases hc
      · exact .replace hb
      · exact ⟨h.policy, by simpa using hb, by simp, by simp⟩
  | settle nowMs =>
    show Sound _ (s.settle nowMs).1
    rcases settle_cases s nowMs with hr | ⟨p, hp, -, hr⟩
    · rw [hr]
      exact h.mono
    · rw [hr]
      exact .replace (h.pending p hp)
  | setFloor floor =>
    show Sound _ (match s.setFloor floor with | .ok s' => s' | .error _ => s)
    cases hc : s.setFloor floor with
    | error e => exact h.mono
    | ok r =>
      obtain ⟨hb, rfl⟩ := setFloor_cases hc
      refine ⟨hb, fun p hp => ?_, fun p hp => ?_, fun p hp => ?_⟩ <;>
        obtain ⟨hp, hkeep⟩ := Option.mem_filter_iff.mp hp
      · simpa using hkeep
      · exact List.mem_append_left _ (h.requested p hp)
      · exact h.delay p hp

theorem sound_of_run (h : Run Step default calls s) : Sound calls s :=
  h.history sound_default fun _ _ _ _ => Sound.step

theorem weakening_cases {c : Call} (hs : Step s c s') (hw : s'.policy.weakens s.policy = true) :
    (∃ by_ nowMs, c = .change s'.policy by_ nowMs true) ∨
      ∃ nowMs p, c = .settle nowMs ∧ s.pending = some p ∧ p.policy = s'.policy ∧
        p.effectiveAtMs ≤ nowMs := by
  have hirrefl : s.policy.weakens s.policy = false := by
    simp [ApplianceRetention.weakens]
  unfold Step at hs
  subst hs
  cases c with
  | change policy by_ nowMs confirmed =>
    simp only [apply] at hw ⊢
    cases hc : s.change policy by_ nowMs confirmed with
    | error e => simp [hc, hirrefl] at hw
    | ok r =>
      obtain ⟨-, ⟨hor, hr⟩ | ⟨-, -, hr⟩⟩ := change_cases hc
      · simp only [hc, hr] at hw ⊢
        obtain rfl := hor.resolve_left (by simp [hw])
        exact .inl ⟨by_, nowMs, rfl⟩
      · simp [hc, hr, hirrefl] at hw
  | settle nowMs =>
    simp only [apply] at hw ⊢
    rcases settle_cases s nowMs with hr | ⟨p, hp, hle, hr⟩
    · simp [hr, hirrefl] at hw
    · exact .inr ⟨nowMs, p, rfl, hp, by rw [hr], hle⟩
  | setFloor floor =>
    simp only [apply] at hw
    cases hc : s.setFloor floor with
    | error e => simp [hc, hirrefl] at hw
    | ok r =>
      obtain ⟨-, rfl⟩ := setFloor_cases hc
      simp [hc, hirrefl] at hw

/-- Whatever the calls, at whatever times: neither the active nor the pending policy is below the
floor, and the next call replaces the active policy by one that weakens it only as a confirmed
change or by settling a policy asked for at least `delayHours` before. -/
theorem settled_weakening_waited (calls : List Call) (s : Settings)
    (h : Run Step default calls s) :
    below s.policy s.floor = false ∧ (∀ p ∈ s.pending, below p.policy s.floor = false) ∧
    ∀ c s', Step s c s' → s'.policy.weakens s.policy = true →
      (∃ by_ nowMs, c = .change s'.policy by_ nowMs true) ∨
      ∃ nowMs p, c = .settle nowMs ∧ s.pending = some p ∧ p.policy = s'.policy ∧
        .change p.policy p.by_ p.requestedAtMs false ∈ calls ∧
        p.requestedAtMs + s.delayHours * hourMs ≤ nowMs := by
  have hsound := sound_of_run h
  refine ⟨hsound.policy, hsound.pending, fun c s' hs hw => ?_⟩
  rcases weakening_cases hs hw with hconf | ⟨nowMs, p, hc, hp, hpol, hle⟩
  · exact .inl hconf
  · have hdelay := hsound.delay p hp
    exact .inr ⟨nowMs, p, hc, hp, hpol, hsound.requested p hp, by omega⟩

/-- Three daily PITs instead of seven, asked for at time zero and settled three days later. -/
theorem settled_weakening_waited_three_days :
    let weak := { ApplianceRetention.default with daily := 3 }
    let s := default.apply (.change weak "admin" 0 false)
    let s' := s.apply (.settle (72 * hourMs))
    s'.policy = weak ∧ ∃ nowMs p, Call.settle (72 * hourMs) = .settle nowMs ∧ s.pending = some p ∧
      p.policy = s'.policy ∧
      .change p.policy p.by_ p.requestedAtMs false ∈ [Call.change weak "admin" 0 false] ∧
      p.requestedAtMs + s.delayHours * hourMs ≤ nowMs := by
  refine ⟨by decide, ?_⟩
  refine ((settled_weakening_waited _ _ (.single rfl)).2.2 _ _ rfl (by decide)).resolve_left ?_
  rintro ⟨by_, nowMs, h⟩
  cases h

end Settings

end Bmac.Backupd
