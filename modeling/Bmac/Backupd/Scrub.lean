import Mathlib
import Bmac.Base.Run
import Bmac.Base.Wp
import Bmac.Backupd.Journal

/-!
# Scrubs of the backup pool

`bmac-backupd/src/scrub.rs`: `tick` looks at the pool, starts a scrub that is due, and pauses or
resumes one for pulls. `pausedForPull` is to say whose a pause is; it is stored at the end of `tick`
only, and an operator may scrub, pause and stop in between. `scrub_owned` says when it is right.
-/

namespace Bmac.Backupd

open Bmac.Base Bmac.Core

namespace Scrub

/-! ## What is stored -/

/-- How sharing the disks with pulls goes. -/
inductive IoPolicy where
  /-- A pull pauses a running scrub, and no scrub starts during a pull. -/
  | pullsFirst
  /-- No pull starts while a scrub runs. -/
  | scrubFirst
  /-- Both run at once. -/
  | together
deriving DecidableEq

structure Platform where
  /-- 0 turns scheduled scrubs off. -/
  scrubEveryDays : Nat
  ioPolicy : IoPolicy
deriving DecidableEq

inductive ScanState where
  | none
  | running
  | paused
  | finished
  | canceled
deriving DecidableEq

/-- What `zpool status -pv` says of the scan. -/
structure Observed where
  state : ScanState
  donePermille : Option Nat := none
  repairedBytes : Nat := 0
  scanErrors : Nat := 0
  /-- The damaged objects. -/
  files : List String := []
  dataErrors : Nat := 0

structure ScrubReport where
  state : Option ScanState := none
  startedAtMs : Option Int := none
  finishedAtMs : Option Int := none
  /-- Thousandths done, while it runs. -/
  donePermille : Option Nat := none
  repairedBytes : Nat := 0
  errors : Nat := 0
  affected : List String := []
  suspectPits : List Uuid := []
deriving DecidableEq

/-- One PIT a scrub found damage under. -/
structure Suspect where
  clusterUuid : String
  pitUuid : Uuid
  datasets : List String
  foundAtMs : Int
deriving DecidableEq

structure ScrubState where
  lastStartedMs : Option Int := none
  report : Option ScrubReport := none
  suspects : List Suspect := []
  /-- This appliance paused the scrub for a pull and resumes it. -/
  pausedForPull : Bool := false
  /-- The administrator asked for a scrub now. -/
  requested : Bool := false
deriving DecidableEq

/-! ## Damage -/

/-- The datasets of the damaged objects, with the snapshot when ZFS names one. -/
def damaged (files : List String) : List (String × Option String) :=
  files.foldl (fun out file =>
    if Text.startsWith '<' file || Text.startsWith '/' file then out
    else
      let name := match Text.rsplitOnce ':' file with
        | some (name, _) => name
        | none => file
      let entry := match Text.splitOnce '@' name with
        | some (dataset, snapshot) => (dataset, some snapshot)
        | none => (name, none)
      if out.contains entry then out else out ++ [entry]) []

def affectedName : String × Option String → String
  | (dataset, some snapshot) => s!"{dataset}@{snapshot}"
  | (dataset, none) => dataset

/-- The published PITs in a damaged zvol: all of them when ZFS names the zvol, else the named
snapshot's and every later one. -/
def suspects (journal : Journal) (damage : List (String × Option String)) :
    List (String × Uuid × String) :=
  damage.flatMap fun (dataset, snapshot) =>
    let holding := journal.pits.filter fun p => p.volumes.any (·.dataset = dataset)
    let since := snapshot.bind fun s => (holding.find? (·.name = s)).map (·.takenS)
    (holding.filter fun p => since.all (· ≤ p.takenS)).map fun p =>
      (p.clusterUuid, p.pitUuid, dataset)

def suspect (nowMs : Int) (known : List Uuid) (all : List Suspect) :
    String × Uuid × String → List Suspect
  | (cluster, pit, dataset) =>
    match all.findIdx? (·.pitUuid = pit) with
    | some i => all.modify i fun s =>
        if s.datasets.contains dataset then s else { s with datasets := s.datasets ++ [dataset] }
    | none =>
      if known.contains pit then all else all ++ [⟨cluster, pit, [dataset], nowMs⟩]

/-- The suspects after a look that found `damage`. -/
def suspected (journal : Journal) (damage : List (String × Option String)) (nowMs : Int)
    (all : List Suspect) : List Suspect :=
  let marked := (suspects journal damage).foldl (suspect nowMs (all.map (·.pitUuid))) all
  marked.filter fun s => journal.pits.any (·.pitUuid = s.pitUuid)

/-! ## The pool and the appliance -/

inductive Pauser where
  | appliance
  | operator
deriving DecidableEq

/-- The pool's scan, and who paused it last. -/
inductive Scan where
  | none
  | running
  | paused (pauser : Pauser)
  | finished
  | canceled
deriving DecidableEq

def Scan.state : Scan → ScanState
  | .none => .none
  | .running => .running
  | .paused _ => .paused
  | .finished => .finished
  | .canceled => .canceled

structure Machine where
  scan : Scan
  stored : ScrubState
  /-- What `IoGate` says of the scrub: whether one runs, and whether pulls wait for it. -/
  scrubbing : Bool
  scrubFirst : Bool

/-- How a command or a write ends; one that gives an error, as on a timeout, may have taken effect
all the same. -/
inductive Outcome where
  | done
  | failed (error : String) (took : Bool)
deriving DecidableEq

def Outcome.took : Outcome → Bool
  | .done => true
  | .failed _ took => took

abbrev Act := EStateM String Machine

def called (outcome : Outcome) (effect : Machine → Machine) : Act Unit := do
  if outcome.took then modify effect
  match outcome with
  | .done => pure ()
  | .failed error _ => throw error

/-- `zpool scrub -p`. -/
def Machine.pause (who : Pauser) (s : Machine) : Machine :=
  if s.scan = .running then { s with scan := .paused who } else s

/-- `zpool scrub`: starts a scrub, or resumes a paused one. -/
def Machine.scrub (s : Machine) : Machine := { s with scan := .running }

/-- What a tick reads, and how its commands and writes end. Pulls start and end at any time, so
`io.pulling()` is read twice. -/
structure Answers where
  platform : Except String Platform
  load : Except String Unit
  status : Except String Observed
  pulling : Bool
  /-- Pausing or resuming. -/
  command : Outcome
  journal : Except String (Option Journal)
  pullingStill : Bool
  start : Outcome
  save : Outcome

def look (a : Answers) (policy : IoPolicy) (observed : Observed) (state : ScrubState)
    (report : ScrubReport) (nowMs : Int) : Act (ScrubState × ScrubReport) := do
  let was := report.state
  match observed.state with
  | .running =>
    let pulled := policy = .pullsFirst ∧ a.pulling = true
    if pulled then called a.command (Machine.pause .appliance)
    let state := if pulled then { state with pausedForPull := true } else state
    let report := { report with
      state := some (if pulled then .paused else .running)
      donePermille := observed.donePermille
      repairedBytes := observed.repairedBytes }
    if report.startedAtMs.isNone ∨ was ∈ [some .finished, some .canceled, none] then
      return (state, { report with startedAtMs := some nowMs, finishedAtMs := none })
    else return (state, report)
  | .paused =>
    if state.pausedForPull = true ∧ ¬ (policy = .pullsFirst ∧ a.pulling = true) then
      called a.command Machine.scrub
      return ({ state with pausedForPull := false }, { report with state := some .running })
    else return (state, { report with state := some .paused })
  | .finished | .canceled =>
    if was = some .running ∨ was = some .paused then
      return ({ state with pausedForPull := false },
        { report with
          state := some observed.state
          finishedAtMs := some nowMs
          donePermille := none
          repairedBytes := observed.repairedBytes })
    else return (state, report)
  | .none => return (state, report)

def settle (a : Answers) (platform : Platform) (observed : Observed) (state : ScrubState)
    (report : ScrubReport) (nowMs : Int) : Act ScrubState := do
  let journal ← ofExcept a.journal
  let damage := damaged observed.files
  let report := { report with
    errors := max observed.dataErrors observed.scanErrors
    affected := damage.map affectedName }
  let state := match journal with
    | some journal => { state with suspects := suspected journal damage nowMs state.suspects }
    | none => state
  let idle := observed.state ≠ .running ∧ observed.state ≠ .paused
  let due := state.lastStartedMs.all fun t => max platform.scrubEveryDays 1 * 86400000 ≤ nowMs - t
  let blocked := platform.ioPolicy = .pullsFirst ∧ a.pullingStill = true
  let wanted := state.requested = true ∨ due = true ∧ 0 < platform.scrubEveryDays
  let starts := idle ∧ wanted ∧ ¬ blocked
  if starts then called a.start Machine.scrub
  let state := if starts then { state with lastStartedMs := some nowMs, requested := false } else state
  let report := if starts then
      { state := some .running, startedAtMs := some nowMs, donePermille := some 0,
        errors := report.errors, affected := report.affected }
    else report
  let report := { report with state := report.state <|> some observed.state }
  modify fun s => { s with
    scrubbing := report.state = some .running
    scrubFirst := platform.ioPolicy = .scrubFirst }
  let state := { state with
    report := if report.state ≠ some .none ∨ 0 < report.errors then some report else none }
  called a.save fun s => { s with stored := state }
  return state

/-- One look at the pool. -/
def tick (a : Answers) (nowMs : Int) : Act ScrubState := do
  let platform ← ofExcept a.platform
  ofExcept a.load
  let s ← get
  let observed ← ofExcept a.status
  let (state, report) ← look a platform.ioPolicy observed s.stored (s.stored.report.getD {}) nowMs
  settle a platform observed state report nowMs

/-! ## What a tick does to the scan and the flag -/

variable {who : Pauser} {a : Answers}

section

variable {a : Answers} {platform : Platform} {observed : Observed} {state : ScrubState}
  {report : ScrubReport} {nowMs : Int} {s : Machine}

theorem wp_called {outcome : Outcome} {effect : Machine → Machine} {Q : Unit → Machine → Prop}
    {E : String → Machine → Prop} :
    wp (called outcome effect) Q E s ↔ (outcome = .done → Q () (effect s)) ∧
      ∀ e took, outcome = .failed e took → E e (if took then effect s else s) := by
  cases outcome with
  | done => simp [called, Outcome.took]
  | failed e took => cases took <;> simp [called, Outcome.took]

/-- The rest of a tick that gets to save stores the flag. -/
def Settled (a : Answers) (flag : Bool) (s s' : Machine) : Prop :=
  s'.stored.pausedForPull =
    if a.journal.isOk = true ∧ a.save.took = true then flag else s.stored.pausedForPull

/-- No scrub starts while there is one. -/
theorem wp_settle_busy (hbusy : observed.state = .running ∨ observed.state = .paused) :
    wp (settle a platform observed state report nowMs)
      (fun _ s' => s'.scan = s.scan ∧ Settled a state.pausedForPull s s')
      (fun _ s' => s'.scan = s.scan ∧ Settled a state.pausedForPull s s') s := by
  have hidle : ¬ (observed.state ≠ .running ∧ observed.state ≠ .paused) := by
    rcases hbusy with h | h <;> simp [h]
  unfold settle
  rw [wp_bind, wp_ofExcept]
  refine ⟨fun journal hjournal => ?_, fun e hjournal => ⟨rfl, ?_⟩⟩
  · have hisOk : a.journal.isOk = true := by rw [hjournal]; rfl
    have hflag : (match journal with
        | some journal =>
          { state with suspects := suspected journal (damaged observed.files) nowMs state.suspects }
        | none => state).pausedForPull = state.pausedForPull := by
      cases journal <;> rfl
    simp only [hidle, false_and, if_false, wp_bind, wp_pure, wp_modify, wp_called, Settled, hisOk,
      true_and]
    refine ⟨fun hsave => ?_, fun e took hsave => ?_⟩
    · rw [hsave]
      exact hflag
    · rw [hsave]
      cases took
      · exact ⟨rfl, rfl⟩
      · exact ⟨rfl, hflag⟩
  · simp [Settled, hjournal, Except.isOk, Except.toBool]

/-- Without one, one may start. -/
theorem wp_settle :
    wp (settle a platform observed state report nowMs)
      (fun _ s' => s'.scan = s.scan ∨ s'.scan = .running)
      (fun _ s' => s'.scan = s.scan ∨ s'.scan = .running) s := by
  unfold settle
  rw [wp_bind, wp_ofExcept]
  refine ⟨fun journal _ => ?_, fun _ _ => .inl rfl⟩
  have hscrub : s.scrub.scan = .running := rfl
  simp only [wp_bind, wp_pure, wp_modify, wp_called, wp_ite, apply_ite Machine.scan, ite_self, hscrub,
    or_true, true_or, implies_true, and_true, true_and]
  rintro - e (_ | _) -
  · exact .inl rfl
  · exact .inr rfl

section

variable {policy : IoPolicy}

theorem wp_look_pulled (hseen : observed.state = .running)
    (hpulled : policy = .pullsFirst ∧ a.pulling = true) :
    wp (look a policy observed state report nowMs)
      (fun r s' => a.command = .done ∧ s' = s.pause .appliance ∧ r.1.pausedForPull = true)
      (fun _ s' => ∃ e took, a.command = .failed e took ∧
        s' = if took then s.pause .appliance else s) s := by
  unfold look
  rw [hseen]
  simp only [wp_bind, wp_ite, wp_called, wp_pure, if_pos hpulled]
  refine ⟨fun hdone => ?_, fun e took hfailed => ⟨e, took, hfailed, rfl⟩⟩
  exact ⟨fun _ => ⟨hdone, trivial, trivial⟩, fun _ => ⟨hdone, trivial, trivial⟩⟩

theorem wp_look_unpulled (hseen : observed.state = .running)
    (hpulled : ¬ (policy = .pullsFirst ∧ a.pulling = true)) :
    wp (look a policy observed state report nowMs) (fun _ s' => s' = s) (fun _ _ => False) s := by
  unfold look
  rw [hseen]
  simp only [wp_bind, wp_ite, wp_pure]
  exact ⟨fun h => absurd h hpulled, fun _ => ⟨fun _ => trivial, fun _ => trivial⟩⟩

theorem wp_look_resumed (hseen : observed.state = .paused) (hflag : state.pausedForPull = true)
    (hpulled : ¬ (policy = .pullsFirst ∧ a.pulling = true)) :
    wp (look a policy observed state report nowMs) (fun _ s' => s' = s.scrub)
      (fun _ s' => a.command ≠ .done ∧ (s' = s ∨ s' = s.scrub)) s := by
  unfold look
  rw [hseen]
  simp only [wp_bind, wp_ite, wp_called, wp_pure]
  refine ⟨fun _ => ⟨fun _ => trivial, fun e took hfailed => ⟨by simp [hfailed], ?_⟩⟩,
    fun hnot => absurd ⟨hflag, hpulled⟩ hnot⟩
  cases took
  · exact .inl rfl
  · exact .inr rfl

theorem wp_look_stays (hseen : observed.state = .paused)
    (hstays : ¬ (state.pausedForPull = true ∧ ¬ (policy = .pullsFirst ∧ a.pulling = true))) :
    wp (look a policy observed state report nowMs)
      (fun r s' => s' = s ∧ r.1.pausedForPull = state.pausedForPull) (fun _ _ => False) s := by
  unfold look
  rw [hseen]
  simp only [if_neg hstays, wp_pure]
  exact ⟨trivial, trivial⟩

theorem wp_look_idle (hseen : observed.state ≠ .running ∧ observed.state ≠ .paused) :
    wp (look a policy observed state report nowMs) (fun _ s' => s' = s) (fun _ _ => False) s := by
  unfold look
  cases hstate : observed.state with
  | running => exact absurd hstate hseen.1
  | paused => exact absurd hstate hseen.2
  | none => exact rfl
  | finished => simp only [wp_ite, wp_pure, implies_true, and_self]
  | canceled => simp only [wp_ite, wp_pure, implies_true, and_self]

end

/-! ### The whole tick -/

/-- The status shows the pool's scan. -/
def Sees (a : Answers) (s : Machine) : Prop := ∀ observed, a.status = .ok observed →
  observed.state = s.scan.state

theorem sees_of_status {a : Answers} {s : Machine} (h : a.status = .ok { state := s.scan.state }) :
    Sees a s := by
  intro observed hstatus
  rw [h] at hstatus
  cases hstatus
  rfl

/-- A tick of `s` pauses the scrub for a pull. -/
def Pauses (a : Answers) (s : Machine) : Prop :=
  s.scan = .running ∧ (∃ platform, a.platform = .ok platform ∧ platform.ioPolicy = .pullsFirst) ∧
    a.load.isOk = true ∧ a.status.isOk = true ∧ a.pulling = true ∧ a.command.took = true

/-- What the tick stores of the flag gets stored. -/
def Saves (a : Answers) : Prop :=
  a.command = .done ∧ a.journal.isOk = true ∧ a.save.took = true

/-- The tick gets to look at the pool. -/
def Reads (a : Answers) : Prop :=
  ∃ platform observed, a.platform = .ok platform ∧ a.load = .ok () ∧ a.status = .ok observed

/-- A tick stops at what it can't read, or looks and settles. -/
theorem wp_tick {Q : ScrubState → Machine → Prop} {E : String → Machine → Prop}
    (hstop : ¬ Reads a → ∀ e, E e s)
    (hlook : ∀ platform observed, a.platform = .ok platform → a.load = .ok () →
      a.status = .ok observed →
      wp (look a platform.ioPolicy observed s.stored (s.stored.report.getD {}) nowMs)
        (fun r s' => wp (settle a platform observed r.1 r.2 nowMs) Q E s') E s) :
    wp (tick a nowMs) Q E s := by
  unfold tick
  simp only [wp_bind, wp_ofExcept, wp_get]
  refine ⟨fun platform hplatform => ⟨fun u hload => ⟨fun observed hstatus => ?_, fun e he => ?_⟩,
    fun e he => ?_⟩, fun e he => ?_⟩
  · exact hlook platform observed hplatform hload hstatus
  · exact hstop (fun ⟨_, _, _, _, h⟩ => by rw [he] at h; cases h) e
  · exact hstop (fun ⟨_, _, _, h, _⟩ => by rw [he] at h; cases h) e
  · exact hstop (fun ⟨_, _, h, _, _⟩ => by rw [he] at h; cases h) e

/-- What a tick makes of a running scrub. -/
structure Ran (a : Answers) (s s' : Machine) : Prop where
  running : ¬ Pauses a s → s'.scan = .running
  paused : Pauses a s → s'.scan = .paused .appliance
  saved : Pauses a s → Saves a → s'.stored.pausedForPull = true
  unsaved : Pauses a s → ¬ Saves a → s'.stored.pausedForPull = s.stored.pausedForPull

theorem ran_of_not_pauses {s' : Machine} (hscan : s'.scan = .running) (h : ¬ Pauses a s) :
    Ran a s s' :=
  ⟨fun _ => hscan, fun hp => absurd hp h, fun hp => absurd hp h, fun hp => absurd hp h⟩

theorem wp_tick_running (hscan : s.scan = .running) (hsees : Sees a s) :
    wp (tick a nowMs) (fun _ => Ran a s) (fun _ => Ran a s) s := by
  have hpause : s.pause .appliance = { s with scan := .paused .appliance } := if_pos hscan
  refine wp_tick (fun hstop _ => ran_of_not_pauses hscan ?_)
    fun platform observed hplatform hload hstatus => ?_
  · rintro ⟨-, ⟨platform, hplatform, -⟩, hload, hstatus, -, -⟩
    cases hok : a.status with
    | error e => rw [hok] at hstatus; cases hstatus
    | ok observed =>
      cases hread : a.load with
      | error e => rw [hread] at hload; cases hload
      | ok u => exact hstop ⟨platform, observed, hplatform, hread, hok⟩
  · have hseen : observed.state = .running := by rw [hsees observed hstatus, hscan]; rfl
    by_cases hpulled : platform.ioPolicy = .pullsFirst ∧ a.pulling = true
    · have hpauses : a.command.took = true → Pauses a s := fun htook =>
        ⟨hscan, ⟨platform, hplatform, hpulled.1⟩, by rw [hload]; rfl, by rw [hstatus]; rfl,
          hpulled.2, htook⟩
      refine wp_mono (wp_look_pulled hseen hpulled) ?_ ?_
      · rintro r s1 ⟨hdone, rfl, hflag⟩
        have hran : ∀ s2 : Machine, s2.scan = (s.pause .appliance).scan ∧
            Settled a r.1.pausedForPull (s.pause .appliance) s2 → Ran a s s2 := by
          rintro s2 ⟨hscan2, hsettled⟩
          rw [hpause] at hscan2 hsettled
          have hp := hpauses (by rw [hdone]; rfl)
          refine ⟨fun hnot => absurd hp hnot, fun _ => hscan2, fun _ hsaves => ?_,
            fun _ hsaves => ?_⟩
          · rw [hsettled, if_pos hsaves.2, hflag]
          · rw [hsettled, if_neg fun hall => hsaves ⟨hdone, hall⟩]
        exact wp_mono (wp_settle_busy (.inl hseen)) (fun _ => hran) (fun _ => hran)
      · rintro e s1 ⟨e', took, hfailed, rfl⟩
        have hunsaved : ¬ Saves a := fun ⟨hdone, _⟩ => by rw [hfailed] at hdone; cases hdone
        cases took with
        | false =>
          refine ran_of_not_pauses hscan fun hp => ?_
          have htook := hp.2.2.2.2.2
          rw [hfailed] at htook
          cases htook
        | true =>
          have hp := hpauses (by rw [hfailed]; rfl)
          rw [if_pos rfl, hpause]
          exact ⟨fun hnot => absurd hp hnot, fun _ => rfl, fun _ hsaves => absurd hsaves hunsaved,
            fun _ _ => rfl⟩
    · have hnot : ¬ Pauses a s := fun ⟨_, ⟨platform', hplatform', hfirst⟩, _, _, hpulling, _⟩ => by
        rw [hplatform] at hplatform'
        cases hplatform'
        exact hpulled ⟨hfirst, hpulling⟩
      refine wp_mono (wp_look_unpulled hseen hpulled) ?_ (fun _ _ h => h.elim)
      rintro r s1 rfl
      have hran : ∀ s2 : Machine, s2.scan = s1.scan ∧ Settled a r.1.pausedForPull s1 s2 →
          Ran a s1 s2 := fun s2 hs2 => ran_of_not_pauses (hs2.1.trans hscan) hnot
      exact wp_mono (wp_settle_busy (.inl hseen)) (fun _ => hran) (fun _ => hran)

/-- A pause stays with its flag, or is ended by a tick that finds the flag. -/
def Stayed (who : Pauser) (s s' : Machine) : Prop :=
  s'.scan = .paused who ∧ s'.stored.pausedForPull = s.stored.pausedForPull ∨
    s.stored.pausedForPull = true ∧ s'.scan = .running

theorem wp_tick_paused (hscan : s.scan = .paused who) (hsees : Sees a s) :
    wp (tick a nowMs) (fun _ => Stayed who s) (fun _ => Stayed who s) s := by
  refine wp_tick (fun _ _ => .inl ⟨hscan, rfl⟩) fun platform observed hplatform hload hstatus => ?_
  have hseen : observed.state = .paused := by rw [hsees observed hstatus, hscan]; rfl
  by_cases hresumes : s.stored.pausedForPull = true ∧
      ¬ (platform.ioPolicy = .pullsFirst ∧ a.pulling = true)
  · refine wp_mono (wp_look_resumed hseen hresumes.1 hresumes.2) ?_ ?_
    · rintro r s1 rfl
      exact wp_mono (wp_settle_busy (.inr hseen)) (fun _ _ h => .inr ⟨hresumes.1, h.1⟩)
        (fun _ _ h => .inr ⟨hresumes.1, h.1⟩)
    · rintro e s1 ⟨-, rfl | rfl⟩
      · exact .inl ⟨hscan, rfl⟩
      · exact .inr ⟨hresumes.1, rfl⟩
  · refine wp_mono (wp_look_stays hseen hresumes) ?_ (fun _ _ h => h.elim)
    rintro r s1 ⟨rfl, hflag⟩
    have hstayed : ∀ s2 : Machine, s2.scan = s1.scan ∧ Settled a r.1.pausedForPull s1 s2 →
        Stayed who s1 s2 := by
      rintro s2 ⟨hscan2, hsettled⟩
      rw [Settled, hflag, ite_self] at hsettled
      exact .inl ⟨hscan2.trans hscan, hsettled⟩
    exact wp_mono (wp_settle_busy (.inr hseen)) (fun _ => hstayed) (fun _ => hstayed)

/-- A flagged pause is ended by each tick that finds no pull running, if its commands succeed. -/
theorem wp_tick_resumes (hscan : s.scan = .paused who) (hsees : Sees a s)
    (hflag : s.stored.pausedForPull = true) (hpulled : a.pulling = false) :
    wp (tick a nowMs) (fun _ s' => s'.scan = .running)
      (fun _ s' => Reads a → a.command = .done → s'.scan = .running) s := by
  refine wp_tick (fun hstop _ hreads => absurd hreads hstop)
    fun platform observed hplatform hload hstatus => ?_
  have hseen : observed.state = .paused := by rw [hsees observed hstatus, hscan]; rfl
  have hnot : ¬ (platform.ioPolicy = .pullsFirst ∧ a.pulling = true) := fun h => by
    rw [hpulled] at h
    cases h.2
  refine wp_mono (wp_look_resumed hseen hflag hnot) ?_ fun _ _ h _ hdone => absurd hdone h.1
  rintro r s1 rfl
  exact wp_mono (wp_settle_busy (.inr hseen)) (fun _ _ h => h.1) (fun _ _ h _ _ => h.1)

theorem wp_tick_idle (hscan : s.scan.state ≠ .running ∧ s.scan.state ≠ .paused) (hsees : Sees a s) :
    wp (tick a nowMs) (fun _ s' => s'.scan = s.scan ∨ s'.scan = .running)
      (fun _ s' => s'.scan = s.scan ∨ s'.scan = .running) s := by
  refine wp_tick (fun _ _ => .inl rfl) fun platform observed hplatform hload hstatus => ?_
  have hseen : observed.state = s.scan.state := hsees observed hstatus
  refine wp_mono (wp_look_idle (hseen ▸ hscan)) ?_ (fun _ _ h => h.elim)
  rintro r s1 rfl
  exact wp_settle

end

/-! ## Runs -/

/-- The machine after a tick, also after one that gave an error. -/
def after {α : Type} : EStateM.Result String Machine α → Machine
  | .ok _ s => s
  | .error _ s => s

theorem after_of_wp {α : Type} {m : Act α} {s : Machine} {Q : Machine → Prop}
    (h : wp m (fun _ => Q) (fun _ => Q) s) : Q (after (m s)) := by
  unfold wp at h
  unfold after
  cases hm : m s <;> rw [hm] at h <;> exact h

/-- `zpool scrub -s`. -/
def Machine.stop (s : Machine) : Machine :=
  match s.scan with
  | .running | .paused _ => { s with scan := .canceled }
  | _ => s

def Machine.finish (s : Machine) : Machine :=
  if s.scan = .running then { s with scan := .finished } else s

/-- The administrator asks the appliance for a scrub. -/
def Machine.request (s : Machine) : Machine :=
  { s with stored := { s.stored with requested := true } }

inductive Event where
  | tick (a : Answers) (nowMs : Int)
  | operatorScrubs
  | operatorPauses
  | operatorStops
  | finishes
  | requested

inductive Step : Machine → Event → Machine → Prop where
  | tick {s : Machine} {a : Answers} {nowMs : Int} : Sees a s →
      Step s (.tick a nowMs) (after (tick a nowMs s))
  | operatorScrubs {s : Machine} : Step s .operatorScrubs s.scrub
  | operatorPauses {s : Machine} : Step s .operatorPauses (s.pause .operator)
  | operatorStops {s : Machine} : Step s .operatorStops s.stop
  | finishes {s : Machine} : Step s .finishes s.finish
  | requested {s : Machine} : Step s .requested s.request

/-- The flag says whose the pause is. -/
def Paired (s : Machine) : Prop :=
  ∀ who, s.scan = .paused who → (s.stored.pausedForPull = true ↔ who = .appliance)

/-- A tick that pauses for a pull stores the flag, and an operator pauses while it isn't stored. -/
def Fine (s : Machine) : Event → Prop
  | .tick a _ => Pauses a s → Saves a ∨ s.stored.pausedForPull = true
  | .operatorPauses => s.scan = .running → s.stored.pausedForPull = false
  | _ => True

/-- Scrub pauses are owned: ticks resume the appliance's own pauses only, and these have the flag
stored and are resumed by a tick that ends well with no pull running. -/
structure Owned (s : Machine) : Prop where
  own : ∀ a nowMs who, Sees a s → s.scan = .paused who →
    (after (tick a nowMs s)).scan = .running → who = .appliance
  flagged : s.scan = .paused .appliance → s.stored.pausedForPull = true
  resumed : s.scan = .paused .appliance → ∀ a nowMs state s', Sees a s → a.pulling = false →
    tick a nowMs s = .ok state s' → s'.scan = .running

section

variable {s s' : Machine} {e : Event}

theorem paired_of_running (h : s.scan = .running) : Paired s := fun who hwho => by
  rw [h] at hwho
  cases hwho

theorem paired_of_idle (h : s.scan.state ≠ .paused) : Paired s := fun who hwho => by
  rw [hwho] at h
  exact absurd rfl h

theorem paired_of_stayed (h : Paired s) (hscan : s.scan = .paused who)
    (hstayed : Stayed who s s') : Paired s' := by
  rcases hstayed with ⟨hscan', hflag⟩ | ⟨-, hrunning⟩
  · intro who' hwho'
    rw [hscan'] at hwho'
    cases hwho'
    rw [hflag]
    exact h who hscan
  · exact paired_of_running hrunning

theorem paired_of_ran (h : Ran a s s') :
    Paired s' ↔ (Pauses a s → Saves a ∨ s.stored.pausedForPull = true) := by
  by_cases hpauses : Pauses a s
  · have hpaired : Paired s' ↔ s'.stored.pausedForPull = true := by
      constructor
      · exact fun hp => (hp _ (h.paused hpauses)).mpr rfl
      · intro hflag who hwho
        rw [h.paused hpauses] at hwho
        cases hwho
        exact iff_of_true hflag rfl
    rw [hpaired]
    by_cases hsaves : Saves a
    · exact iff_of_true (h.saved hpauses hsaves) fun _ => .inl hsaves
    · rw [h.unsaved hpauses hsaves]
      exact ⟨fun hflag _ => .inr hflag, fun hfine => (hfine hpauses).resolve_left hsaves⟩
  · exact iff_of_true (paired_of_running (h.running hpauses)) fun hp => absurd hp hpauses

theorem paired_tick {nowMs : Int} (h : Paired s) (hsees : Sees a s) :
    Paired (after (tick a nowMs s)) ↔ Fine s (.tick a nowMs) := by
  cases hscan : s.scan with
  | running => exact paired_of_ran (after_of_wp (wp_tick_running hscan hsees))
  | paused who =>
    refine iff_of_true ?_ fun hp => absurd (hp.1.symm.trans hscan) (by simp)
    exact paired_of_stayed h hscan (after_of_wp (wp_tick_paused hscan hsees))
  | none | finished | canceled =>
    refine iff_of_true ?_ fun hp => absurd (hp.1.symm.trans hscan) (by simp)
    have hidle : s.scan.state ≠ .running ∧ s.scan.state ≠ .paused := by
      rw [hscan]
      exact ⟨by simp [Scan.state], by simp [Scan.state]⟩
    rcases after_of_wp (Q := fun s' => s'.scan = s.scan ∨ s'.scan = .running)
      (wp_tick_idle hidle hsees) with hsame | hrunning
    · exact paired_of_idle (by rw [hsame]; exact hidle.2)
    · exact paired_of_running hrunning

theorem paired_operatorPauses (h : Paired s) :
    Paired (s.pause .operator) ↔ Fine s .operatorPauses := by
  unfold Machine.pause Fine
  by_cases hscan : s.scan = .running
  · rw [if_pos hscan]
    constructor
    · intro hpaired _
      have hiff := hpaired .operator rfl
      simpa using hiff
    · intro hfine who hwho
      cases hwho
      simpa using hfine hscan
  · rw [if_neg hscan]
    exact iff_of_true h fun hrunning => absurd hrunning hscan

theorem paired_step (h : Paired s) (hs : Step s e s') : Paired s' ↔ Fine s e := by
  cases hs with
  | tick hsees => exact paired_tick h hsees
  | operatorScrubs => exact iff_of_true (paired_of_running rfl) trivial
  | operatorPauses => exact paired_operatorPauses h
  | operatorStops =>
    refine iff_of_true ?_ trivial
    unfold Machine.stop
    split
    · exact paired_of_idle (by simp [Scan.state])
    · exact paired_of_idle (by simp [Scan.state])
    · exact h
  | finishes =>
    refine iff_of_true ?_ trivial
    unfold Machine.finish
    split
    · exact paired_of_idle (by simp [Scan.state])
    · exact h
  | requested => exact iff_of_true h trivial

/-- A tick for which everything goes well, and no pull runs. -/
def quiet (s : Machine) : Answers where
  platform := .ok { scrubEveryDays := 30, ioPolicy := .pullsFirst }
  load := .ok ()
  status := .ok { state := s.scan.state }
  pulling := false
  command := .done
  journal := .ok none
  pullingStill := false
  start := .done
  save := .done

theorem owned_iff : Owned s ↔ Paired s := by
  constructor
  · intro h who hscan
    constructor
    · intro hflag
      -- a quiet tick resumes what has the flag
      have hsees : Sees (quiet s) s := sees_of_status rfl
      have hreads : Reads (quiet s) := ⟨_, _, rfl, rfl, rfl⟩
      refine h.own (quiet s) 0 who hsees hscan
        (after_of_wp (Q := fun s' => s'.scan = .running) ?_)
      exact wp_mono (wp_tick_resumes hscan hsees hflag rfl) (fun _ _ hrunning => hrunning)
        (fun _ _ hrunning => hrunning hreads rfl)
    · rintro rfl
      exact h.flagged hscan
  · intro h
    refine ⟨fun a nowMs who hsees hscan hrunning => ?_, fun hscan => (h _ hscan).mpr rfl, ?_⟩
    · rcases after_of_wp (Q := Stayed who s) (wp_tick_paused hscan hsees) with
        ⟨hstays, -⟩ | ⟨hflag, -⟩
      · rw [hrunning] at hstays
        cases hstays
      · exact (h who hscan).mp hflag
    · intro hscan a nowMs state s' hsees hpulling hok
      have hflag := (h _ hscan).mpr rfl
      exact wp_ok (Q := fun _ s' => s'.scan = .running)
        (wp_tick_resumes hscan hsees hflag hpulling) hok

theorem paired_of_fresh (hflag : s.stored.pausedForPull = false)
    (hscan : s.scan ≠ .paused .appliance) : Paired s := by
  intro who hwho
  refine iff_of_false (by simp [hflag]) ?_
  rintro rfl
  exact hscan hwho

end

/-- Pauses are owned in a run in which each tick that pauses for a pull stores the flag and an
operator pauses only while the flag isn't stored; and the first step of another kind ends that. -/
theorem scrub_owned (s : Machine) :
    (∀ ls s', s.stored.pausedForPull = false → s.scan ≠ .paused .appliance →
      Run (fun s e s' => Step s e s' ∧ Fine s e) s ls s' → Owned s') ∧
    ∀ e s', Owned s → Step s e s' → (Owned s' ↔ Fine s e) := by
  constructor
  · intro ls s' hflag hscan h
    refine owned_iff.mpr (h.invariant ?_ (paired_of_fresh hflag hscan))
    exact fun s e s' hpaired hs => (paired_step hpaired hs.1).mpr hs.2
  · intro e s' h hs
    rw [owned_iff]
    exact paired_step (owned_iff.mp h) hs

/-- A running scrub, with nothing stored. -/
def running : Machine := ⟨.running, {}, false, false⟩

/-- A pull runs. -/
def pulled (s : Machine) : Answers := { quiet s with pulling := true, pullingStill := true }

/-- A pull runs, and the journal can't be loaded. -/
def unloaded (s : Machine) : Answers :=
  { pulled s with journal := .error "journal.json: permission denied" }

/-- The tick of a pull pauses the scrub and stores the flag. -/
def pausedScrub : Machine := after (tick (pulled running) 0 running)

/-- A tick later the pull runs still, and the journal can't be loaded. -/
def pausedStill : Machine := after (tick (unloaded pausedScrub) 60000 pausedScrub)

/-- Without a pull the scrub is resumed. -/
def resumedScrub : Machine := after (tick (quiet pausedStill) 120000 pausedStill)

def operatorsPause : Machine := resumedScrub.pause .operator

def leftPaused : Machine := after (tick (quiet operatorsPause) 180000 operatorsPause)

theorem fine_of_not_running {s : Machine} {nowMs : Int} (h : s.scan ≠ .running) :
    Fine s (.tick a nowMs) := fun hpauses => absurd hpauses.1 h

/-- The pause for a pull outlasts a tick that fails, is resumed, and an operator's pause after it is
left alone; a tick that pauses and stores nothing ends that. -/
theorem scrub_owned_paused :
    (Owned pausedStill ∧ pausedStill.scan = .paused .appliance ∧
      pausedStill.stored.pausedForPull = true) ∧
    (Owned leftPaused ∧ resumedScrub.scan = .running ∧ leftPaused.scan = .paused .operator) ∧
    ¬ Owned (after (tick (unloaded resumedScrub) 240000 resumedScrub)) := by
  have hpaused : Run (fun s e s' => Step s e s' ∧ Fine s e) running
      [.tick (pulled running) 0, .tick (unloaded pausedScrub) 60000] pausedStill :=
    .cons ⟨.tick (sees_of_status rfl), fun _ => .inl ⟨rfl, rfl, rfl⟩⟩
      (.single ⟨.tick (sees_of_status rfl), fine_of_not_running (by decide)⟩)
  have hresumed : Run (fun s e s' => Step s e s' ∧ Fine s e) running
      [.tick (pulled running) 0, .tick (unloaded pausedScrub) 60000,
        .tick (quiet pausedStill) 120000] resumedScrub :=
    hpaused.append (.single ⟨.tick (sees_of_status rfl), fine_of_not_running (by decide)⟩)
  have hleft : Run (fun s e s' => Step s e s' ∧ Fine s e) running
      [.tick (pulled running) 0, .tick (unloaded pausedScrub) 60000,
        .tick (quiet pausedStill) 120000, .operatorPauses,
        .tick (quiet operatorsPause) 180000] leftPaused :=
    hresumed.append (.cons ⟨.operatorPauses, fun _ => rfl⟩
      (.single ⟨.tick (sees_of_status rfl), fine_of_not_running (by decide)⟩))
  refine ⟨⟨(scrub_owned running).1 _ _ rfl (by decide) hpaused, rfl, rfl⟩,
    ⟨(scrub_owned running).1 _ _ rfl (by decide) hleft, rfl, rfl⟩, fun howned => ?_⟩
  have hfine := ((scrub_owned resumedScrub).2 _ _ ((scrub_owned running).1 _ _ rfl (by decide) hresumed)
    (.tick (sees_of_status rfl))).mp howned
  have hpauses : Pauses (unloaded resumedScrub) resumedScrub :=
    ⟨rfl, ⟨_, rfl, rfl⟩, rfl, rfl, rfl, rfl⟩
  rcases hfine hpauses with hsaves | hflag
  · cases hsaves.2.1
  · cases hflag

/-- The tick pauses the scrub for the pull, and stops before it stores the flag. -/
theorem not_owned : ¬ ∀ s ls s', s.stored.pausedForPull = false → s.scan ≠ .paused .appliance →
    Run Step s ls s' → Owned s' := by
  intro hall
  have howned := hall running [.tick (unloaded running) 0] _ rfl (by decide)
    (.single (.tick (sees_of_status rfl)))
  exact absurd (howned.flagged rfl) (by decide)

end Scrub

end Bmac.Backupd
