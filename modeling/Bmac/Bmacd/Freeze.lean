import Bmac.Bmacd.CaptureClean

/-!
# Whether the guest is left frozen

`bmacd/src/backup/capture.rs`, `snapshot_frozen`: the freeze is undone by the thaw, or by the timer
that was armed before it and that may elapse between any two answers, as a call may take longer than
the timer runs. `frozen_guest_is_thawed_iff` says when a freeze is undone, or is still to be undone
by the timer, when the function returns.
-/

namespace Bmac.Bmacd.Capture

open Bmac.Base Bmac.Core Bmac.Backup

/-- A call with its answer; or the timer elapses, and the thaw that it runs succeeds or not. -/
inductive GuestEvent where
  | called (call : GuestCall)
  | elapsed (thawed : Bool)

/-- What the timer does once it is armed. -/
structure Timer where
  /-- how many calls have answered since its arming when it elapses, unless one stopped it -/
  elapsesAfter : Nat
  thaws : Bool
  /-- whether a stop that gives an error, as one that timed out, takes effect all the same -/
  stops : Bool

namespace Timer

variable (timer : Timer)

def stoppedBy (answer : Except String Unit) : Bool := answer.isOk || timer.stops

/-- The calls since the arming, with the timer's elapsing where it falls. -/
def since : Nat → List GuestCall → List GuestEvent
  | 0, log => .elapsed timer.thaws :: log.map .called
  | _ + 1, [] => []
  | left + 1, .disarmThaw unit answer :: log =>
    .called (.disarmThaw unit answer) ::
      if timer.stoppedBy answer then log.map .called else since left log
  | left + 1, call :: log => .called call :: since left log

/-- What happens to the guest: the calls, and the timer's elapsing among them. -/
def events : List GuestCall → List GuestEvent
  | [] => []
  | .armThaw (.ok unit) :: log =>
    .called (.armThaw (.ok unit)) :: timer.since timer.elapsesAfter log
  | call :: log => .called call :: events log

/-- `unit` was armed, has not elapsed, and no call stopped it. -/
def Armed (events : List GuestEvent) (unit : String) : Prop :=
  .called (.armThaw (.ok unit)) ∈ events ∧ (∀ thawed, .elapsed thawed ∉ events) ∧
    ∀ answer, .called (.disarmThaw unit answer) ∈ events → timer.stoppedBy answer = false

/-- The timer's part, with the answer of the call that is to stop it: it elapses after the freeze
and before that call's end, and thaws the guest; or the call doesn't stop it, and it elapses later, or
before the return and thaws the guest. -/
def Saves (stop : Except String Unit) : Prop :=
  (timer.elapsesAfter = 1 ∨ timer.elapsesAfter = 2) ∧ timer.thaws = true ∨
    timer.stoppedBy stop = false ∧
      (timer.elapsesAfter = 3 ∧ timer.thaws = true ∨ 3 < timer.elapsesAfter)

end Timer

/-- The capture's own thaw succeeded, or the timer's. -/
def Thawed (events : List GuestEvent) : Prop :=
  .called (.thaw (.ok ())) ∈ events ∨ .elapsed true ∈ events

/-- After each freeze that was attempted a thaw succeeded, or a timer is still armed. -/
def NeverLeftFrozen (timer : Timer) (events : List GuestEvent) : Prop :=
  ∀ before answer after, events = before ++ .called (.freeze answer) :: after →
    Thawed after ∨ ∃ unit, timer.Armed events unit

def frozenCalls (calls : Calls) (policy : Policy) (running : Bool) : List GuestCall :=
  if policy.freeze ≠ .never ∧ running then
    match calls.armThaw with
    | .error e => [.armThaw (.error e)]
    | .ok unit =>
      match calls.freeze with
      | .ok answer => [.armThaw (.ok unit), .freeze (.ok answer), .thaw calls.thaw,
          .disarmThaw unit calls.disarm]
      | .error e => [.armThaw (.ok unit), .freeze (.error e), .thaw calls.thawUnfrozen,
          .disarmThaw unit calls.disarmUnfrozen]
  else []

section

variable {cx : Context} {calls : Calls} {policy : Policy} {running : Bool} {s : State}

/-- The calls of `thawGuest`. -/
def thawCalls (calls : Calls) (consistency : Consistency) (timer : Option String) : List GuestCall :=
  (if consistency = .filesystem then [.thaw calls.thaw] else []) ++
    timer.toList.map (.disarmThaw · calls.disarm)

theorem wp_thawGuest_guest {consistency : Consistency} {timer : Option String}
    {E : Stop → State → Prop} :
    wp (thawGuest calls consistency timer)
      (fun _ s' => s'.guest = s.guest ++ thawCalls calls consistency timer) E s := by
  unfold thawGuest thawCalls
  cases timer with
  | none =>
    dsimp only
    split
    · simp [wp_called, State.called]
    · simp
  | some unit =>
    dsimp only
    split
    · simp [wp_called, State.called]
    · simp [wp_called, State.called]

/-- What is frozen is followed by the calls of `thawGuest`. -/
theorem wp_freezeGuest_guest :
    wp (freezeGuest calls policy running)
      (fun r s' => s'.guest ++ thawCalls calls r.1 r.2.2 = s.guest ++ frozenCalls calls policy running)
      (fun _ s' => s'.guest = s.guest ++ frozenCalls calls policy running) s := by
  unfold freezeGuest frozenCalls
  by_cases hfreeze : policy.freeze ≠ .never ∧ running
  · rw [if_pos hfreeze, if_pos hfreeze]
    simp only [wp_bind, wp_called, wp_ask]
    refine ⟨fun unit harm => ?_, fun e harm => ?_⟩
    · rw [harm]
      cases hanswer : calls.freeze with
      | ok answer => simp [thawCalls, State.called]
      | error e =>
        have hguest : ((((s.called (.armThaw (.ok unit))).called (.freeze (.error e))).called
            (.thaw calls.thawUnfrozen)).called (.disarmThaw unit calls.disarmUnfrozen)).guest =
            s.guest ++ [.armThaw (.ok unit), .freeze (.error e), .thaw calls.thawUnfrozen,
              .disarmThaw unit calls.disarmUnfrozen] := by
          simp [State.called]
        simp only [wp_bind, wp_called]
        split
        · exact hguest
        · exact (List.append_nil _).trans hguest
    · rw [harm]
      simp [State.called]
  · rw [if_neg hfreeze, if_neg hfreeze]
    simp [thawCalls]

/-- The answers decide the calls that are made, whatever else happens. -/
theorem wp_snapshotFrozen_guest :
    wp (snapshotFrozen cx calls policy running)
      (fun _ s' => s'.guest = s.guest ++ frozenCalls calls policy running)
      (fun _ s' => s'.guest = s.guest ++ frozenCalls calls policy running) s := by
  unfold snapshotFrozen
  rw [wp_bind]
  refine wp_mono wp_freezeGuest_guest (fun frozen s1 h1 => ?_) (fun _ _ h => h)
  simp only [wp_bind, wp_get, wp_set, wp_ask, wp_pure]
  refine wp_mono (E := fun _ _ => False) wp_thawGuest_guest (fun _ s3 h3 => ?_) (fun _ _ h => h.elim)
  have hguest : s3.guest = s.guest ++ frozenCalls calls policy running := h3.trans h1
  exact ⟨fun _ _ => hguest, fun _ _ => hguest⟩

theorem exists_armed {timer : Timer} (unit : String) {log : List GuestEvent}
    (hunit : ∀ u, .called (.armThaw (.ok u)) ∈ log → u = unit) :
    (∃ u, timer.Armed log u) ↔ timer.Armed log unit := by
  constructor
  · rintro ⟨u, harmed⟩
    rwa [hunit u harmed.1] at harmed
  · exact fun h => ⟨unit, h⟩

/-- With one attempt, what counts is what comes after it. -/
theorem neverLeftFrozen_once {timer : Timer} {before after : List GuestEvent}
    {answer : Except String Value} (hbefore : ∀ a, .called (.freeze a) ∉ before)
    (hafter : ∀ a, .called (.freeze a) ∉ after) :
    NeverLeftFrozen timer (before ++ .called (.freeze answer) :: after) ↔
      Thawed after ∨ ∃ unit, timer.Armed (before ++ .called (.freeze answer) :: after) unit := by
  constructor
  · exact fun h => h before answer after rfl
  · intro h before' a after' heq
    obtain ⟨mid, rfl, hmid⟩ | ⟨mid, rfl, hmid⟩ := List.append_eq_append_iff.mp heq
    · cases mid with
      | nil =>
        obtain ⟨-, rfl⟩ := List.cons.inj hmid
        exact h
      | cons x mid =>
        obtain ⟨-, rfl⟩ := List.cons.inj hmid
        exact absurd (List.mem_append_right mid (List.mem_cons_self ..)) (hafter a)
    · cases mid with
      | nil =>
        obtain ⟨-, rfl⟩ := List.cons.inj hmid
        exact h
      | cons x mid =>
        obtain ⟨rfl, -⟩ := List.cons.inj hmid
        exact absurd (List.mem_append_right before' (List.mem_cons_self ..)) (hbefore a)

section Attempt

variable {timer : Timer} {unit : String} {freeze : Except String Value}
  {thaw stop : Except String Unit}

theorem ok_eq_iff : Except.ok () = thaw ↔ thaw.isOk = true := by
  cases thaw <;> simp [Except.isOk, Except.toBool]

theorem neverLeftFrozen_iff :
    NeverLeftFrozen timer
        (timer.events [.armThaw (.ok unit), .freeze freeze, .thaw thaw, .disarmThaw unit stop]) ↔
      thaw.isOk = true ∨ timer.Saves stop := by
  obtain ⟨elapsesAfter, thaws, stops⟩ := timer
  -- the five moments at which the timer may elapse
  match elapsesAfter with
  | 0 =>
    rw [show Timer.events _ _ = [.called (.armThaw (.ok unit)), .elapsed thaws] ++
      .called (.freeze freeze) :: [.called (.thaw thaw), .called (.disarmThaw unit stop)] from rfl,
      neverLeftFrozen_once (by simp) (by simp), exists_armed unit (by simp)]
    simp [Thawed, ok_eq_iff, Timer.Armed, Timer.Saves]
  | 1 =>
    rw [show Timer.events _ _ = [.called (.armThaw (.ok unit))] ++ .called (.freeze freeze) ::
      [.elapsed thaws, .called (.thaw thaw), .called (.disarmThaw unit stop)] from rfl,
      neverLeftFrozen_once (by simp) (by simp), exists_armed unit (by simp)]
    simp [Thawed, ok_eq_iff, Timer.Armed, Timer.Saves]
  | 2 =>
    rw [show Timer.events _ _ = [.called (.armThaw (.ok unit))] ++ .called (.freeze freeze) ::
      [.called (.thaw thaw), .elapsed thaws, .called (.disarmThaw unit stop)] from rfl,
      neverLeftFrozen_once (by simp) (by simp), exists_armed unit (by simp)]
    simp [Thawed, ok_eq_iff, Timer.Armed, Timer.Saves]
  | left + 3 =>
    have hevents : Timer.events ⟨left + 3, thaws, stops⟩
        [.armThaw (.ok unit), .freeze freeze, .thaw thaw, .disarmThaw unit stop] =
        [.called (.armThaw (.ok unit))] ++ .called (.freeze freeze) :: .called (.thaw thaw) ::
          .called (.disarmThaw unit stop) ::
          if Timer.stoppedBy ⟨left + 3, thaws, stops⟩ stop then [] else
            Timer.since ⟨left + 3, thaws, stops⟩ left [] := rfl
    rw [hevents]
    split
    · rename_i hstop
      rw [neverLeftFrozen_once (by simp) (by simp), exists_armed unit (by simp)]
      simp [Thawed, ok_eq_iff, Timer.Armed, Timer.Saves, hstop]
    · rename_i hstop
      rw [Bool.not_eq_true] at hstop
      cases left with
      | zero =>
        rw [neverLeftFrozen_once (by simp) (by simp [Timer.since]),
          exists_armed unit (by simp [Timer.since])]
        simp [Thawed, ok_eq_iff, Timer.Armed, Timer.Saves, Timer.since, hstop]
      | succ left =>
        rw [neverLeftFrozen_once (by simp) (by simp [Timer.since]),
          exists_armed unit (by simp [Timer.since])]
        simp [Thawed, ok_eq_iff, Timer.Armed, Timer.Saves, Timer.since, hstop]

end Attempt

end

/-- A guest is never left frozen: no freeze is attempted, or the thaw after the attempt succeeds, or the
timer saves the guest. -/
def ThawsOrKeepsTimer (timer : Timer) (calls : Calls) (policy : Policy) (running : Bool) : Prop :=
  policy.freeze = .never ∨ running = false ∨ calls.armThaw.isOk = false ∨
    (calls.freeze.isOk = true ∧ (calls.thaw.isOk = true ∨ timer.Saves calls.disarm)) ∨
    calls.freeze.isOk = false ∧
      (calls.thawUnfrozen.isOk = true ∨ timer.Saves calls.disarmUnfrozen)

theorem frozenCalls_iff (timer : Timer) (calls : Calls) (policy : Policy) (running : Bool) :
    NeverLeftFrozen timer (timer.events (frozenCalls calls policy running)) ↔
      ThawsOrKeepsTimer timer calls policy running := by
  have hnone : ∀ log : List GuestEvent, (∀ answer, .called (.freeze answer) ∉ log) →
      NeverLeftFrozen timer log :=
    fun log h before answer after heq => absurd (heq ▸ by simp) (h answer)
  unfold frozenCalls ThawsOrKeepsTimer
  by_cases hfreeze : policy.freeze ≠ .never ∧ running
  · rw [if_pos hfreeze]
    obtain ⟨hpolicy, hrunning⟩ := hfreeze
    cases harm : calls.armThaw with
    | error e => exact iff_of_true (hnone _ (by simp [Timer.events])) (.inr (.inr (.inl rfl)))
    | ok unit =>
      cases hanswer : calls.freeze with
      | ok answer =>
        rw [neverLeftFrozen_iff]
        simp [hpolicy, hrunning, Except.isOk, Except.toBool]
      | error e =>
        rw [neverLeftFrozen_iff]
        simp [hpolicy, hrunning, Except.isOk, Except.toBool]
  · rw [if_neg hfreeze]
    refine iff_of_true (hnone _ (by simp [Timer.events])) ?_
    rw [not_and_or, not_ne_iff, Bool.not_eq_true] at hfreeze
    exact hfreeze.elim .inl fun h => .inr (.inl h)

/-- The guest calls that `snapshot_frozen` made, whether it returned an error or not. -/
def guestCalls (cx : Context) (calls : Calls) (policy : Policy) (running : Bool) (s : State) :
    List GuestCall :=
  match snapshotFrozen cx calls policy running s with
  | .ok _ s' => s'.guest.drop s.guest.length
  | .error _ s' => s'.guest.drop s.guest.length

theorem guestCalls_eq (cx : Context) (calls : Calls) (policy : Policy) (running : Bool) (s : State) :
    guestCalls cx calls policy running s = frozenCalls calls policy running := by
  have h := @wp_snapshotFrozen_guest cx calls policy running s
  unfold wp at h
  unfold guestCalls
  cases hrun : snapshotFrozen cx calls policy running s with
  | ok r s' =>
    have hguest : s'.guest = s.guest ++ frozenCalls calls policy running := by rwa [hrun] at h
    exact (congrArg (List.drop s.guest.length) hguest).trans List.drop_left
  | error e s' =>
    have hguest : s'.guest = s.guest ++ frozenCalls calls policy running := by rwa [hrun] at h
    exact (congrArg (List.drop s.guest.length) hguest).trans List.drop_left

/-- A guest is never left frozen exactly for these answers; a failed thaw whose timer is then
stopped, before it has elapsed, is the main one of the other cases. -/
theorem frozen_guest_is_thawed_iff (cx : Context) (calls : Calls) (policy : Policy) (running : Bool)
    (s : State) (timer : Timer) :
    NeverLeftFrozen timer (timer.events (guestCalls cx calls policy running s)) ↔
      ThawsOrKeepsTimer timer calls policy running := by
  rw [guestCalls_eq]
  exact frozenCalls_iff timer calls policy running

/-! ### A thaw that fails -/

/-- Everything works but the guest agent's thaw, which fails at once. -/
def unthawedCalls : Calls :=
  { fineCalls with
    thaw := .error ("/usr/sbin/qm guest on mox1: " ++
      "/usr/sbin/qm guest cmd 100 fsfreeze-thaw failed with exit code 255") }

theorem not_never_left_frozen : ¬ ∀ (cx : Context) (calls : Calls) (policy : Policy)
    (running : Bool) (s : State) (timer : Timer),
    NeverLeftFrozen timer (timer.events (guestCalls cx calls policy running s)) := by
  intro hall
  -- the stop comes long before the timer would elapse
  have h := hall capturingHost unthawedCalls capturedPolicy true capturedState ⟨60, true, false⟩
  rw [guestCalls_eq, frozenCalls_iff] at h
  simp [ThawsOrKeepsTimer, Timer.Saves, Timer.stoppedBy, unthawedCalls, fineCalls, capturedPolicy,
    Except.isOk, Except.toBool] at h

end Bmac.Bmacd.Capture
