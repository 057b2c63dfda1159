import Bmac.Bmacd.UpdateTurns

/-!
# HA maintenance of a host

Where the operator chose so, `one_host` switches HA maintenance of the host on and waits for HA to move its
resources off, before it has the host install. It switches maintenance off again exactly when that wait ended
well (`maintenance_switched_off`).
-/

namespace Bmac.Bmacd.Updates

open Bmac.Base Bmac.Core Prog
open Capture (Stop)

variable {cx : Context} {host : HostSlot} {mode : InstallMode} {sha256 version : String}
  {members : List HostSlot} {tr : Trace} {α : Type}

/-! ## The drain -/

/-- A call of the drain: it only switches maintenance on. -/
def Draining : Call → Prop
  | .maintenance _ on => on = true
  | .expectServiceRestart => False
  | _ => True

theorem draining_drain : Calls Draining (drain cx host) := calls_drain trivial trivial trivial rfl

theorem runs_haResourcesOn {y : Except String (List String)} :
    Runs (Updates.asked (Cluster.haResourcesOn host)) tr y ↔ tr = [⟨.haResourcesOn host, y⟩] := by
  refine runs_orFail.trans ⟨?_, ?_⟩
  · rintro (h | ⟨e, h, -⟩)
    · obtain ⟨r, rfl, hr⟩ := runs_ask.mp h
      cases hr
      rfl
    · obtain ⟨r, -, hr⟩ := runs_ask.mp h
      cases hr
  · rintro rfl
    exact .inl (runs_ask.mpr ⟨y, rfl, rfl⟩)

/-- The host was seen without HA resources. -/
def Drained (host : HostSlot) (tr : Trace) : Prop :=
  (⟨.haResourcesOn host, .ok []⟩ : Base.Event Call Reply) ∈ tr

theorem drained_cons {y : Except String (List String)} :
    Drained host (⟨.haResourcesOn host, y⟩ :: tr) ↔ y = .ok [] ∨ Drained host tr := by
  unfold Drained
  rw [List.mem_cons]
  refine or_congr ⟨fun h => ?_, ?_⟩ Iff.rfl
  · cases h
    rfl
  · rintro rfl
    rfl

theorem drained_instant {now : Reply .instant} : Drained host (⟨.instant, now⟩ :: tr) ↔ Drained host tr :=
  List.mem_cons.trans (or_iff_right nofun)

theorem drained_append {tr' : Trace} : Drained host (tr ++ tr') ↔ Drained host tr ∨ Drained host tr' :=
  List.mem_append

theorem not_drained {P : Call → Prop} {p : Attempt α} {y : Except String α} (hp : Calls P p)
    (hnot : ¬ P (.haResourcesOn host)) (h : Runs p tr y) : ¬ Drained host tr :=
  fun hmem => hnot (hp.of_runs h _ hmem)

variable {y : Except String Unit}

theorem looked_runs {rest : List String → Attempt Unit}
    (hrest : ∀ {left tr}, Runs (rest left) tr y → (y = .ok () ↔ Drained host tr))
    (h : Runs (do
      let left ← Updates.asked (Cluster.haResourcesOn host)
      if left.isEmpty then return () else rest left) tr y) : y = .ok () ↔ Drained host tr := by
  rcases runs_bind.mp h with ⟨tr1, tr2, left, rfl, hleft, hnext⟩ | ⟨e, hleft, rfl⟩
  · obtain rfl := runs_haResourcesOn.mp hleft
    rw [List.singleton_append, drained_cons]
    cases left with
    | nil =>
      obtain ⟨-, rfl⟩ := runs_ret.mp hnext
      exact iff_of_true rfl (.inl rfl)
    | cons resource left =>
      rw [hrest hnext]
      exact ⟨.inr, fun h => h.resolve_left nofun⟩
  · obtain rfl := runs_haResourcesOn.mp hleft
    rw [drained_cons]
    exact iff_of_false nofun (by rintro (h | h) <;> cases h)

/-- The wait ends well exactly when it saw no resource left. -/
theorem drainPolled_runs {deadline polls : Nat}
    (h : Runs (drainPolled cx host deadline polls) tr y) : y = .ok () ↔ Drained host tr := by
  induction polls generalizing tr with
  | zero =>
    refine looked_runs (fun hlate => ?_) h
    obtain ⟨rfl, rfl⟩ := runs_fail.mp hlate
    exact iff_of_false nofun List.not_mem_nil
  | succ polls ih =>
    refine looked_runs (fun {left} {tr'} hlook => ?_) h
    obtain ⟨now, tr1, rfl, hwait⟩ := runs_ask_bind.mp hlook
    rw [drained_instant]
    split at hwait
    · obtain ⟨rfl, rfl⟩ := runs_fail.mp hwait
      exact iff_of_false nofun List.not_mem_nil
    · have hchecks : Calls (· = Call.check) sleep := calls_sleep rfl
      rcases runs_bind.mp hwait with ⟨tr2, tr3, slept, rfl, hsleep, hnext⟩ | ⟨e, hsleep, rfl⟩
      · rw [drained_append, ih hnext]
        exact ⟨.inr, fun h => h.resolve_left (not_drained hchecks nofun hsleep)⟩
      · exact iff_of_false nofun (not_drained hchecks nofun hsleep)

theorem calls_maintenance {on : Bool} :
    Calls (· = Call.maintenance host on) (Updates.asked (Cluster.maintenance host on)) :=
  calls_orFail (calls_ask rfl)

/-- A drain ends well exactly when the host was seen without HA resources. -/
theorem drain_runs (h : Runs (drain cx host) tr y) : y = .ok () ↔ Drained host tr := by
  rcases runs_bind.mp h with ⟨tr1, tr2, on, rfl, hon, hnext⟩ | ⟨e, hon, rfl⟩
  · obtain ⟨now, tr3, rfl, hpolled⟩ := runs_ask_bind.mp hnext
    rw [drainPolled_runs hpolled, drained_append, drained_instant]
    exact ⟨.inr, fun h => h.resolve_left (not_drained calls_maintenance nofun hon)⟩
  · exact iff_of_false nofun (not_drained calls_maintenance nofun hon)

/-! ## One host -/

/-- The restart of `bmacd` was recorded as expected. -/
def Expected (tr : Trace) : Prop := (⟨.expectServiceRestart, .ok ()⟩ : Base.Event Call Reply) ∈ tr

def SwitchedOff (host : HostSlot) (tr : Trace) : Prop :=
  ∃ reply : Except String Unit, (⟨.maintenance host false, reply⟩ : Base.Event Call Reply) ∈ tr

theorem expectRestart_runs (h : Runs expectRestart tr y) :
    ∃ reply : Except Stop Unit, tr = [⟨.expectServiceRestart, reply⟩] ∧ (y = .ok () ↔ reply = .ok ()) := by
  obtain ⟨reply, tr', rfl, hend⟩ := runs_ask_bind.mp h
  cases reply with
  | ok a =>
    obtain ⟨rfl, rfl⟩ := runs_ret.mp hend
    exact ⟨_, rfl, iff_of_true rfl rfl⟩
  | error stop =>
    obtain ⟨rfl, rfl⟩ := runs_fail.mp hend
    exact ⟨_, rfl, iff_of_false nofun nofun⟩

/-- Once the install is asked for, maintenance is switched off whatever comes of it. -/
theorem ends_switched_off {me : Bool} {part : Attempt Unit}
    (h : Runs (do
      let outcome : Except String Unit ← part.attempt
      onlyIf me do
        let _ ← Flow.clearServiceRestart
        return ()
      onlyIf true do
        let _ ← Cluster.maintenance host false
        return ()
      ofExcept outcome) tr y) : SwitchedOff host tr := by
  rcases runs_bind.mp h with ⟨tr1, tr2, outcome, rfl, -, hnext⟩ | ⟨e, hpart, -⟩
  · rcases runs_bind.mp hnext with ⟨tr3, tr4, u, rfl, -, hoff⟩ | ⟨e, hclear, -⟩
    · obtain ⟨reply, tr5, rfl, -⟩ := runs_ask_bind.mp hoff
      exact ⟨reply, by simp⟩
    · cases me with
      | true =>
        obtain ⟨reply, tr5, -, hend⟩ := runs_ask_bind.mp hclear
        cases (runs_ret.mp hend).2
      | false => cases (runs_ret.mp hclear).2
  · obtain ⟨z, hz, -⟩ := runs_attempt.mp hpart
    cases hz

/-- Maintenance is switched off again exactly when the host was seen drained and, on the job's own host, the
restart was recorded as expected: an update whose drain fails leaves its host in maintenance. -/
theorem maintenance_switched_off {y : Except String Unit}
    (h : Runs (oneHost cx host mode sha256 version members true) tr y) :
    SwitchedOff host tr ↔ Drained host tr ∧ (host = cx.me → Expected tr) := by
  rcases runs_bind.mp h with ⟨tr1, tr2, u, rfl, hdrain, hnext⟩ | ⟨e, hdrain, rfl⟩
  · have hdrained : Drained host tr1 := (drain_runs hdrain).mp rfl
    rcases runs_bind.mp hnext with ⟨tr3, tr4, u', rfl, hexpect, hend⟩ | ⟨e, hexpect, rfl⟩
    · obtain ⟨reply, hmem⟩ := ends_switched_off hend
      refine iff_of_true ⟨reply, by simp [hmem]⟩ ⟨drained_append.mpr (.inl hdrained), fun hme => ?_⟩
      rw [onlyIf, if_pos (decide_eq_true hme)] at hexpect
      obtain ⟨reply, rfl, hreply⟩ := expectRestart_runs hexpect
      rw [hreply.mp rfl]
      simp [Expected]
    · by_cases hme : host = cx.me
      · rw [onlyIf, if_pos (decide_eq_true hme)] at hexpect
        obtain ⟨reply, rfl, hreply⟩ := expectRestart_runs hexpect
        refine iff_of_false ?_ fun hh => ?_
        · rintro ⟨off, hmem⟩
          rcases List.mem_append.mp hmem with hmem | hmem
          · exact absurd (draining_drain.of_runs hdrain _ hmem) nofun
          · cases List.mem_singleton.mp hmem
        · rcases List.mem_append.mp (hh.2 hme) with hmem | hmem
          · exact draining_drain.of_runs hdrain _ hmem
          · cases List.mem_singleton.mp hmem
            exact absurd (hreply.mpr rfl) nofun
      · rw [onlyIf, if_neg (by simpa using hme)] at hexpect
        cases (runs_ret.mp hexpect).2
  · refine iff_of_false ?_ fun hh => absurd ((drain_runs hdrain).mpr hh.1) nofun
    rintro ⟨reply, hmem⟩
    exact absurd (draining_drain.of_runs hdrain _ hmem) nofun

/-- The cluster of two hosts, where the HA resources of a host can't be listed. -/
def unlisted (before : Trace) : (c : Call) → Reply c
  | .haResourcesOn _ => Except.error "ha-manager: timed out"
  | c => twoHosts ⟨some oldBundle, none⟩ (fun _ => false) before c

def unlistedRun : Trace :=
  (play unlisted (oneHost small first .update "b1" "3.1.0" [first, second] true) []).1

theorem maintenance_switched_off_unlisted :
    (⟨.maintenance first true, .ok ()⟩ : Base.Event Call Reply) ∈ unlistedRun ∧
      ¬ SwitchedOff first unlistedRun := by
  refine ⟨List.mem_of_mem_head? rfl, fun hoff => ?_⟩
  obtain ⟨hdrained, -⟩ := (maintenance_switched_off (runs_play unlisted [])).mp hoff
  obtain ⟨before, hanswer⟩ := play_answered hdrained
  cases hanswer

end Bmac.Bmacd.Updates
