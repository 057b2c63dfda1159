import Bmac.Bmacd.Replace

/-!
# A changed VM runs again only when it is protected

What the trace of a change holds, however its calls are answered: the lease is released once, with its
nonce, as the last call; and a call that starts the VM comes only after the step worked, or after
stopping a VM that ran failed, and only when every replication job recorded is there again and has
synced since.
-/

namespace Bmac.Bmacd.Replace

open Bmac.Base Bmac.Core Prog
open Capture (Stop)

abbrev Trace := List (Base.Event Call Reply)

variable {cx : Context} {f : Fenced} {production : Production} {step : Step} {tr : Trace}

def Starts : Call → Prop
  | .start _ => True
  | .setHa _ started => started = true
  | _ => False

def Leases : Call → Prop
  | .acquire _ _ => True
  | .release _ _ => True
  | _ => False

/-- Neither. -/
def Plain (c : Call) : Prop := ¬ Starts c ∧ ¬ Leases c

theorem calls_asked {α : Type} {P : Call → Prop} {p : Program (Except String α)} (h : Calls P p) :
    Calls P (asked p) := by
  refine calls_bind h fun r => ?_
  cases r with
  | ok a => trivial
  | error e => trivial

theorem asked_ok {α : Type} {p : Program (Except String α)} {a : α}
    (h : Runs (asked p) tr (.ok a)) : Runs p tr (.ok (.ok a)) := by
  rcases runs_bind.mp h with ⟨tr1, tr2, r, rfl, hp, hr⟩ | ⟨e, -, hy⟩
  · cases r with
    | ok b =>
      obtain ⟨rfl, hab⟩ := runs_pure.mp hr
      cases hab
      rwa [List.append_nil]
    | error e =>
      obtain ⟨-, hab⟩ := runs_fail.mp hr
      cases hab
  · cases hy

variable {c : Call} {y : Except Stop Unit} {e : Base.Event Call Reply}

theorem ask_ok {r : Reply c} (h : Runs (Prog.ask c : Program (Reply c)) tr (.ok r)) :
    tr = [⟨c, r⟩] := by
  obtain ⟨r', rfl, hr⟩ := runs_ask.mp h
  cases hr
  rfl

/-! ## Calls that neither start a VM nor are on the lease -/

section

variable {limitMs started sinceS vmid : Nat} {what : String} {done : Program Bool}

theorem plain_polled (hdone : Calls Plain done) (polls : Nat) :
    Calls Plain (polled limitMs started what done polls) := by
  induction polls with
  | zero => trivial
  | succ polls ih =>
    refine calls_bind hdone fun b => ?_
    cases b with
    | true => trivial
    | false =>
      refine calls_bind (calls_ask ⟨id, id⟩) fun now => ?_
      split
      · trivial
      · exact ih

theorem plain_waitUntil (hdone : Calls Plain done) : Calls Plain (waitUntil cx limitMs what done) :=
  calls_bind (calls_ask ⟨id, id⟩) fun _ => plain_polled hdone cx.polls

theorem plain_stopAndDelete : Calls Plain (stopAndDelete cx f) := by
  have hwait : Calls Plain (do
      waitUntil cx cx.stopWaitMs s!"VM {f.production.vmid} didn't stop" do
        return !(← asked (Host.running f.production.vmid))
      deleteJobs f.jobs
      if f.jobs.isEmpty then return ()
      waitUntil cx cx.replicationTimeoutMs "Proxmox didn't finish removing the replicas" do
        let left ← asked (Host.jobs f.production.vmid)
        return left.all fun job => (f.jobs.map (·.id)).all (· ≠ job.id)) := by
    refine calls_bind (plain_waitUntil ?_) fun _ => calls_bind (calls_forEach fun job => ?_) fun _ => ?_
    · exact calls_bind (calls_asked (calls_ask ⟨id, id⟩)) fun _ => trivial
    · exact calls_asked (calls_ask ⟨id, id⟩)
    · split
      · trivial
      · refine plain_waitUntil ?_
        exact calls_bind (calls_asked (calls_ask ⟨id, id⟩)) fun _ => trivial
  unfold stopAndDelete
  dsimp only
  split
  · exact calls_bind (calls_asked (calls_ask ⟨nofun, id⟩)) fun _ => hwait
  · split
    · exact calls_bind (calls_asked (calls_ask ⟨id, id⟩)) fun _ => hwait
    · exact hwait

theorem plain_stopAndDrop : Calls Plain (stopAndDrop cx f) := by
  refine calls_bind (calls_ask ⟨id, id⟩) fun ha => ?_
  cases ha with
  | error e => trivial
  | ok ha =>
    refine calls_bind (calls_ask ⟨id, id⟩) fun jobs => ?_
    cases jobs with
    | error e => trivial
    | ok jobs =>
      refine calls_bind (calls_ask ⟨id, id⟩) fun running => ?_
      cases running with
      | error e => trivial
      | ok running => exact calls_bind (calls_attempt plain_stopAndDelete) fun _ => trivial

def Waits : Call → Prop
  | .jobState _ => True
  | .scheduleNow _ => True
  | .instant => True
  | _ => False

theorem Waits.plain (h : Waits c) : Plain c := by
  cases c <;> first | exact h.elim | exact ⟨id, id⟩

theorem waits_look {sinceS : Int} (jobs : List Job) (asks : Asked) :
    Calls Waits (look cx sinceS jobs asks) := by
  induction jobs generalizing asks with
  | nil => trivial
  | cons job rest ih =>
    refine calls_bind (calls_asked (calls_ask trivial)) fun state => ?_
    split
    · exact ih asks
    · split
      · trivial
      · refine calls_bind (calls_ask trivial) fun now => ?_
        dsimp only
        split
        · refine calls_bind (calls_ask trivial) fun _ => calls_bind (calls_ask trivial) fun _ => ?_
          exact calls_bind (ih _) fun _ => trivial
        · exact calls_bind (ih _) fun _ => trivial

theorem waits_awaitSyncs {sinceS : Int} (polls : Nat) (pending : List Job) (asks : Asked) :
    Calls Waits (awaitSyncs cx sinceS started polls pending asks) := by
  induction polls generalizing pending asks with
  | zero => cases pending <;> trivial
  | succ polls ih =>
    cases pending with
    | nil => trivial
    | cons job rest =>
      refine calls_bind (waits_look _ _) fun looked => ?_
      dsimp only
      split
      · trivial
      · refine calls_bind (calls_ask trivial) fun now => ?_
        split
        · trivial
        · exact ih _ _

theorem plain_replicate : Calls Plain (replicate cx f) := by
  unfold replicate
  split
  · trivial
  · refine calls_bind (calls_asked (calls_ask ⟨id, id⟩)) fun listed => ?_
    refine calls_bind (calls_ask ⟨id, id⟩) fun nowMs => ?_
    refine calls_bind (calls_forEach fun job => ?_) fun _ => ?_
    · exact calls_bind (calls_asked (calls_ask ⟨id, id⟩)) fun _ => trivial
    · exact calls_bind (calls_ask ⟨id, id⟩) fun _ =>
        (waits_awaitSyncs _ _ _).mono fun _ => Waits.plain

theorem plain_swapEach {atS : Int} (swaps : List Swap) (moved : Moved) (aside : Dict String) :
    Calls Plain (swapEach vmid atS swaps moved aside) := by
  induction swaps generalizing moved aside with
  | nil => trivial
  | cons s rest ih =>
    refine calls_bind (calls_ask ⟨id, id⟩) fun r => ?_
    cases r with
    | error e => trivial
    | ok _ =>
      refine calls_bind (calls_ask ⟨id, id⟩) fun r => ?_
      cases r with
      | error e => trivial
      | ok _ =>
        refine calls_bind (calls_ask ⟨id, id⟩) fun r => ?_
        cases r with
        | error e => trivial
        | ok _ =>
          refine calls_bind (calls_ask ⟨id, id⟩) fun r => ?_
          cases r with
          | error e => trivial
          | ok _ => exact ih _ _

theorem plain_undo (moved : Moved) : Calls Plain (undo moved) := by
  induction moved with
  | nil => trivial
  | cons m rest ih =>
    refine calls_bind (calls_ask ⟨id, id⟩) fun r => ?_
    cases r with
    | error e => exact calls_bind ih fun _ => trivial
    | ok _ => exact calls_bind ih fun _ => trivial

theorem plain_copyClone {slot disk origin : String} : Calls Plain (copyClone slot disk origin) := by
  refine calls_bind (calls_ask ⟨id, id⟩) fun nowMs => ?_
  refine calls_bind (calls_asked (calls_ask ⟨id, id⟩)) fun _ => ?_
  refine calls_bind (calls_asked (calls_ask ⟨id, id⟩)) fun _ => ?_
  refine calls_bind (calls_asked (calls_ask ⟨id, id⟩)) fun _ => ?_
  refine calls_bind (calls_asked (calls_ask ⟨id, id⟩)) fun copied => ?_
  refine calls_bind (calls_asked (calls_ask ⟨id, id⟩)) fun wanted => ?_
  refine calls_bind (calls_asked (calls_ask ⟨id, id⟩)) fun last => ?_
  split
  · trivial
  · refine calls_bind (calls_asked (calls_ask ⟨id, id⟩)) fun taken => ?_
    split
    · trivial
    · refine calls_bind (calls_asked (calls_ask ⟨id, id⟩)) fun _ => ?_
      refine calls_bind (calls_asked (calls_ask ⟨id, id⟩)) fun _ => ?_
      refine calls_bind (calls_asked (calls_ask ⟨id, id⟩)) fun _ => ?_
      refine calls_bind (calls_ask ⟨id, id⟩) fun _ => ?_
      exact calls_bind (calls_ask ⟨id, id⟩) fun _ => trivial

theorem plain_promoteOver {slot disk : String} (rounds : Nat) :
    Calls Plain (promoteOver slot disk rounds) := by
  induction rounds with
  | zero => trivial
  | succ rounds ih =>
    refine calls_bind (calls_asked (calls_ask ⟨id, id⟩)) fun origin => ?_
    cases origin with
    | none => trivial
    | some origin =>
      dsimp only
      split
      · exact plain_copyClone
      · refine calls_bind (calls_ask ⟨id, id⟩) fun r => ?_
        cases r with
        | error e => trivial
        | ok _ => exact ih

theorem plain_swap {swaps : List Swap} : Calls Plain (swap vmid swaps) := by
  refine calls_bind (calls_ask ⟨id, id⟩) fun nowMs => ?_
  refine calls_bind (plain_swapEach _ _ _) fun ended => ?_
  obtain ⟨moved, outcome⟩ := ended
  cases outcome with
  | error e => exact calls_bind (plain_undo _) fun _ => trivial
  | ok aside =>
    refine calls_bind (calls_forEach fun s => plain_promoteOver maxPromotes) fun _ => ?_
    exact calls_bind (calls_ask ⟨id, id⟩) fun _ => trivial

theorem plain_rollbackEach (targets : List Target) (done : List String) :
    Calls Plain (rollbackEach targets done) := by
  induction targets generalizing done with
  | nil => trivial
  | cons t rest ih =>
    refine calls_bind (calls_ask ⟨id, id⟩) fun r => ?_
    cases r with
    | error e => trivial
    | ok _ => exact ih _

theorem plain_step : Calls Plain (step.run vmid) := by
  cases step with
  | restoreInto swaps => exact plain_swap
  | rollback targets => exact calls_bind (plain_rollbackEach _ _) fun _ => trivial
  | promote swaps newVmid =>
    exact calls_bind plain_swap fun _ => calls_bind (calls_ask ⟨id, id⟩) fun _ => trivial

end

/-! ## What the calls answered -/

/-- The host answered that the job has synced, no longer ago than `sinceS`. -/
def Synced (tr : Trace) (sinceS : Int) (job : Job) : Prop :=
  ∃ state : JobState, ⟨.jobState job.id, Except.ok state⟩ ∈ tr ∧ state.synced sinceS = true

variable {sinceS : Int}

theorem Synced.mono {tr' : Trace} {job : Job} (h : Synced tr sinceS job)
    (hsub : tr ⊆ tr') : Synced tr' sinceS job := by
  obtain ⟨state, hmem, hstate⟩ := h
  exact ⟨state, hsub hmem, hstate⟩

/-- A job that isn't looked at again has synced. -/
theorem look_ok {jobs still : List Job} {asks asks' : Asked}
    (h : Runs (look cx sinceS jobs asks) tr (.ok (still, asks'))) :
    ∀ job ∈ jobs, job ∈ still ∨ Synced tr sinceS job := by
  induction jobs generalizing asks tr still asks' with
  | nil => exact fun _ h => absurd h List.not_mem_nil
  | cons first rest ih =>
    obtain ⟨tr1, tr2, state, rfl, hstate, hrest⟩ := runs_bind_ok h
    obtain rfl := ask_ok (asked_ok hstate)
    -- the rest is looked at in a part of the trace
    have hlater : ∀ {tr' still' : _} {asks asks' : Asked}, tr' ⊆ tr2 →
        Runs (look cx sinceS rest asks) tr' (.ok (still', asks')) →
        ∀ job ∈ rest, job ∈ still' ∨ Synced (⟨.jobState first.id, Except.ok state⟩ :: tr2) sinceS job := by
      intro tr' still' asks asks' hsub hlook job hjob
      refine (ih hlook job hjob).imp_right fun hs => hs.mono ?_
      exact List.Subset.trans hsub (List.subset_cons_self _ _)
    split at hrest
    · rename_i hsynced
      intro job hjob
      rcases List.mem_cons.mp hjob with rfl | hjob
      · exact .inr ⟨state, List.mem_cons_self, hsynced⟩
      · exact hlater (List.Subset.refl _) hrest job hjob
    · split at hrest
      · cases hrest
      · -- it stays, and so do those of the rest that haven't synced
        have hstays : ∀ {tr' still' : _} {asks asks' : Asked}, tr' ⊆ tr2 → still = first :: still' →
            Runs (look cx sinceS rest asks) tr' (.ok (still', asks')) → ∀ job ∈ first :: rest,
            job ∈ still ∨ Synced (⟨.jobState first.id, Except.ok state⟩ :: tr2) sinceS job := by
          rintro tr' still' asks asks' hsub rfl hlook job hjob
          rcases List.mem_cons.mp hjob with rfl | hjob
          · exact .inl List.mem_cons_self
          · exact (hlater hsub hlook job hjob).imp_left (List.mem_cons_of_mem _)
        obtain ⟨now, tr3, rfl, hask⟩ := runs_ask_bind.mp hrest
        dsimp only at hask
        split at hask
        · obtain ⟨r, tr4, rfl, hnext⟩ := runs_ask_bind.mp hask
          obtain ⟨at_, tr5, rfl, hlast⟩ := runs_ask_bind.mp hnext
          obtain ⟨tr6, tr7, looked, rfl, hlook, hret⟩ := runs_bind_ok hlast
          obtain ⟨rfl, hret⟩ := runs_pure.mp hret
          cases hret
          exact hstays (fun e he => by simp [he]) rfl hlook
        · obtain ⟨tr6, tr7, looked, rfl, hlook, hret⟩ := runs_bind_ok hask
          obtain ⟨rfl, hret⟩ := runs_pure.mp hret
          cases hret
          exact hstays (fun e he => by simp [he]) rfl hlook

theorem awaitSyncs_ok {started polls : Nat} {pending : List Job} {asks : Asked}
    (h : Runs (awaitSyncs cx sinceS started polls pending asks) tr (.ok ())) :
    ∀ job ∈ pending, Synced tr sinceS job := by
  induction polls generalizing pending asks tr with
  | zero =>
    cases pending with
    | nil => exact fun _ h => absurd h List.not_mem_nil
    | cons job rest => cases h
  | succ polls ih =>
    cases pending with
    | nil => exact fun _ h => absurd h List.not_mem_nil
    | cons first rest =>
      obtain ⟨tr1, tr2, ⟨still, asks'⟩, rfl, hlook, hrest⟩ := runs_bind_ok h
      have hlook := look_ok hlook
      dsimp only at hrest
      intro job hjob
      split at hrest
      · rename_i hnone
        rcases hlook job hjob with hstill | hs
        · rw [List.isEmpty_iff.mp hnone] at hstill
          exact absurd hstill List.not_mem_nil
        · exact hs.mono (List.subset_append_left _ _)
      · obtain ⟨now, tr3, rfl, hnext⟩ := runs_ask_bind.mp hrest
        split at hnext
        · cases hnext
        · rcases hlook job hjob with hstill | hs
          · refine (ih hnext job hstill).mono ?_
            exact List.Subset.trans (List.subset_cons_self _ _) (List.subset_append_right _ _)
          · exact hs.mono (List.subset_append_left _ _)

theorem createJobs_ok {jobs : List Job} (h : Runs (createJobs jobs) tr (.ok ())) :
    ∀ job ∈ jobs, ∃ at_ : Int, ⟨.createJob job, Except.ok at_⟩ ∈ tr := by
  induction jobs generalizing tr with
  | nil => exact fun _ h => absurd h List.not_mem_nil
  | cons first rest ih =>
    obtain ⟨tr1, tr2, u, rfl, hfirst, hrest⟩ := runs_bind_ok h
    obtain ⟨tr3, tr4, at_, rfl, hasked, hret⟩ := runs_bind_ok hfirst
    obtain rfl := ask_ok (asked_ok hasked)
    intro job hjob
    rcases List.mem_cons.mp hjob with rfl | hjob
    · exact ⟨at_, by simp⟩
    · obtain ⟨at_, hmem⟩ := ih hrest job hjob
      exact ⟨at_, List.mem_append_right _ hmem⟩

/-! ## Protection -/

/-- What Proxmox answers of a job that was created tells no sync, or one since then. The clock is past
its first second. -/
structure Honest (tr : Trace) : Prop where
  since : ∀ (before : Trace) (job : Job) (at_ : Int) (after : Trace) (state : JobState),
    tr = before ++ ⟨.createJob job, Except.ok at_⟩ :: after →
    ⟨.jobState job.id, Except.ok state⟩ ∈ after →
    state.lastSyncS = 0 ∨ Int.fdiv at_ 1000 ≤ state.lastSyncS
  clock : ∀ now : Int, ⟨.nowMs, now⟩ ∈ tr → 1000 ≤ now

theorem Honest.part {before after : Trace} (h : Honest (before ++ tr ++ after)) : Honest tr := by
  refine ⟨fun b job at_ a state htr hmem => ?_, fun now hmem => h.clock now (by simp [hmem])⟩
  refine h.since (before ++ b) job at_ (a ++ after) state ?_ (List.mem_append_left _ hmem)
  simp [htr]

/-- The job is there again, and it has finished a sync no older than its re-creation. -/
structure Protected (tr : Trace) (vmid : Nat) (job : Job) : Prop where
  back : (∃ listed : List Job, ⟨.jobs vmid, Except.ok listed⟩ ∈ tr ∧ job.id ∈ listed.map (·.id)) ∨
    ∃ at_ : Int, ⟨.createJob job, Except.ok at_⟩ ∈ tr
  synced : ∃ state : JobState, ⟨.jobState job.id, Except.ok state⟩ ∈ tr ∧ state.busy = false ∧
    state.failing = false ∧ 0 < state.lastSyncS ∧
    ∀ at_ : Int, ⟨.createJob job, Except.ok at_⟩ ∈ tr → Int.fdiv at_ 1000 ≤ state.lastSyncS

theorem JobState.synced_iff {state : JobState} : state.synced sinceS = true ↔
    state.busy = false ∧ state.failing = false ∧ sinceS ≤ state.lastSyncS := by
  simp [JobState.synced, and_assoc]

theorem second_pos {now : Int} (h : 1000 ≤ now) : 0 < Int.fdiv now 1000 := by
  rw [Int.fdiv_eq_ediv_of_nonneg _ (by decide)]
  omega

theorem replicate_ok (h : Runs (replicate cx f) tr (.ok ())) (hhon : Honest tr) :
    ∀ job ∈ f.jobs, Protected tr f.production.vmid job := by
  intro job hjob
  unfold replicate at h
  split at h
  · rename_i hnone
    rw [List.isEmpty_iff.mp hnone] at hjob
    exact absurd hjob List.not_mem_nil
  · obtain ⟨tr1, tr2, listed, rfl, hlisted, h2⟩ := runs_bind_ok h
    obtain rfl := ask_ok (asked_ok hlisted)
    obtain ⟨now, tr3, rfl, h3⟩ := runs_ask_bind.mp h2
    obtain ⟨made, tr4, u, rfl, hmade, h4⟩ := runs_bind_ok h3
    obtain ⟨at_, waited, rfl, hwaited⟩ := runs_ask_bind.mp h4
    obtain ⟨state, hstate, hsynced⟩ := awaitSyncs_ok hwaited job hjob
    obtain ⟨hbusy, hfailing, hsince⟩ := JobState.synced_iff.mp hsynced
    have hpos : 0 < state.lastSyncS :=
      Int.lt_of_lt_of_le (second_pos (hhon.clock now (by simp))) hsince
    constructor
    · by_cases hid : job.id ∈ listed.map (·.id)
      · exact .inl ⟨listed, by simp, hid⟩
      · refine .inr ?_
        have hgone : job ∈ f.jobs.filter fun job => (listed.map (·.id)).all (· ≠ job.id) := by
          refine List.mem_filter.mpr ⟨hjob, ?_⟩
          rw [List.all_eq_true]
          intro id hmem
          exact decide_eq_true fun heq => hid (heq ▸ hmem)
        obtain ⟨made_, hmem⟩ := createJobs_ok hmade job hgone
        exact ⟨made_, by simp [hmem]⟩
    · refine ⟨state, by simp [hstate], hbusy, hfailing, hpos, fun made_ hmem => ?_⟩
      -- a job is made before the wait, and its sync is told in the wait
      have hmade_ : ⟨.createJob job, Except.ok made_⟩ ∈ made := by
        simp only [List.mem_append, List.mem_cons, List.not_mem_nil, or_false] at hmem
        rcases hmem with heq | heq | hin | heq | hin
        · cases heq
        · cases heq
        · exact hin
        · cases heq
        · exact ((waits_awaitSyncs _ _ _).of_runs hwaited _ hin).elim
      obtain ⟨b, a, rfl⟩ := List.append_of_mem hmade_
      have hor := hhon.since (⟨.jobs f.production.vmid, Except.ok listed⟩ :: ⟨.nowMs, now⟩ :: b) job made_
        (a ++ ⟨.instant, at_⟩ :: waited) state (by simp) (by simp [hstate])
      omega

/-! ## Fencing and unfencing -/

/-- Whatever it ends with, what `stopAndDrop` found is what the host told. -/
theorem stopAndDrop_found {y : Except Stop (Fenced × Except Stop Unit)} (hoff : f.wasRunning = false)
    (h : Runs (stopAndDrop cx f) tr y) : ∃ f' outcome, y = .ok (f', outcome) ∧
      f'.production = f.production ∧ f'.nonce = f.nonce ∧
      (f'.wasRunning = true ∨ outcome = .ok () →
        ⟨.jobs f.production.vmid, Except.ok f'.jobs⟩ ∈ tr ∧
          ⟨.running f.production.vmid, Except.ok f'.wasRunning⟩ ∈ tr) := by
  have hnone : ∀ {f' : Fenced} {e : Stop} {P : Prop}, f'.wasRunning = false →
      f'.wasRunning = true ∨ (.error e : Except Stop Unit) = .ok () → P := by
    rintro f' e P hoff (hon | ⟨⟨⟩⟩)
    rw [hoff] at hon
    cases hon
  obtain ⟨ha, tr1, rfl, h1⟩ := runs_ask_bind.mp h
  cases ha with
  | error e =>
    obtain ⟨-, rfl⟩ := runs_pure.mp h1
    exact ⟨_, _, rfl, rfl, rfl, hnone hoff⟩
  | ok ha =>
    obtain ⟨jobs, tr2, rfl, h2⟩ := runs_ask_bind.mp h1
    cases jobs with
    | error e =>
      obtain ⟨-, rfl⟩ := runs_pure.mp h2
      exact ⟨_, _, rfl, rfl, rfl, hnone hoff⟩
    | ok jobs =>
      obtain ⟨running, tr3, rfl, h3⟩ := runs_ask_bind.mp h2
      cases running with
      | error e =>
        obtain ⟨-, rfl⟩ := runs_pure.mp h3
        exact ⟨_, _, rfl, rfl, rfl, hnone hoff⟩
      | ok running =>
        rcases runs_bind.mp h3 with ⟨tr4, tr5, outcome, rfl, -, hret⟩ | ⟨e, herr, -⟩
        · obtain ⟨rfl, rfl⟩ := runs_pure.mp hret
          exact ⟨_, _, rfl, rfl, rfl, fun _ => ⟨by simp, by simp⟩⟩
        · obtain ⟨z, hz, -⟩ := runs_attempt.mp herr
          cases hz

theorem runs_restart (h : Runs (restart f) tr y) : ∃ e, tr = [e] ∧ Starts e.1 := by
  unfold restart at h
  split at h
  · obtain ⟨r, tr', rfl, hr⟩ := runs_ask_bind.mp h
    cases r with
    | ok u =>
      obtain ⟨rfl, -⟩ := runs_pure.mp hr
      exact ⟨_, rfl, rfl⟩
    | error e =>
      obtain ⟨rfl, -⟩ := runs_fail.mp hr
      exact ⟨_, rfl, rfl⟩
  · obtain ⟨r, tr', rfl, hr⟩ := runs_ask_bind.mp h
    cases r with
    | ok u =>
      obtain ⟨rfl, -⟩ := runs_pure.mp hr
      exact ⟨_, rfl, trivial⟩
    | error e =>
      obtain ⟨rfl, -⟩ := runs_fail.mp hr
      exact ⟨_, rfl, trivial⟩

theorem Starts.not_leases (h : Starts c) : ¬ Leases c := by
  cases c <;> first | exact id | exact h.elim

/-- The VM is started by the last call, after the jobs are replicated, or not at all. -/
theorem runs_replicateAndStart {start : Bool}
    (h : Runs (replicateAndStart cx f start) tr y) : (∀ e ∈ tr, Plain e.1) ∨
      start = true ∧ ∃ rep e, tr = rep ++ [e] ∧ Starts e.1 ∧ (∀ e ∈ rep, Plain e.1) ∧
        Runs (replicate cx f) rep (.ok ()) := by
  rcases runs_bind.mp h with ⟨rep, tr2, u, rfl, hrep, hstart⟩ | ⟨e, hrep, -⟩
  · cases start with
    | false =>
      obtain ⟨rfl, -⟩ := runs_pure.mp hstart
      rw [List.append_nil]
      exact .inl (plain_replicate.of_runs hrep)
    | true =>
      obtain ⟨e, rfl, he⟩ := runs_restart hstart
      exact .inr ⟨rfl, rep, e, rfl, he, plain_replicate.of_runs hrep, hrep⟩
  · exact .inl (plain_replicate.of_runs hrep)

theorem runs_unfence {start : Bool} (h : Runs (unfence cx f start) tr y) :
    ∃ un z answer, tr = un ++ [⟨.release f.production.name f.nonce, answer⟩] ∧
      Runs (replicateAndStart cx f start) un z := by
  rcases runs_bind.mp h with ⟨un, tr2, outcome, rfl, hun, hrest⟩ | ⟨e, herr, -⟩
  · obtain ⟨z, -, hz⟩ := runs_attempt.mp hun
    obtain ⟨answer, tr3, rfl, hend⟩ := runs_ask_bind.mp hrest
    refine ⟨un, z, answer, ?_, hz⟩
    cases outcome with
    | ok u =>
      obtain ⟨rfl, -⟩ := runs_pure.mp hend
      rfl
    | error e =>
      obtain ⟨rfl, -⟩ := runs_fail.mp hend
      rfl
  · obtain ⟨z, hz, -⟩ := runs_attempt.mp herr
    cases hz

theorem runs_fence {y : Except Stop Fenced} (h : Runs (fence cx production) tr y) :
    (∃ e s, tr = [⟨.acquire production.name leaseS, Except.error e⟩] ∧ y = .error s) ∨
      (∃ nonce stop f, tr = ⟨.acquire production.name leaseS, Except.ok nonce⟩ :: stop ∧
        Runs (stopAndDrop cx { production, nonce }) stop (.ok (f, .ok ())) ∧ y = .ok f) ∨
      ∃ nonce stop un f e z s,
        tr = ⟨.acquire production.name leaseS, Except.ok nonce⟩ :: (stop ++ un) ∧
        Runs (stopAndDrop cx { production, nonce }) stop (.ok (f, .error e)) ∧
        Runs (unfence cx f f.wasRunning) un z ∧ y = .error s := by
  obtain ⟨nonce, tr1, rfl, h1⟩ := runs_ask_bind.mp h
  cases nonce with
  | error e =>
    obtain ⟨rfl, rfl⟩ := runs_fail.mp h1
    exact .inl ⟨e, _, rfl, rfl⟩
  | ok nonce =>
    rcases runs_bind.mp h1 with ⟨stop, tr2, ⟨f, outcome⟩, rfl, hstop, h2⟩ | ⟨e, hstop, -⟩
    · cases outcome with
      | ok u =>
        obtain ⟨rfl, rfl⟩ := runs_pure.mp h2
        exact .inr (.inl ⟨nonce, stop, f, by simp, hstop, rfl⟩)
      | error e =>
        rcases runs_bind.mp h2 with ⟨un, tr3, ended, rfl, hun, h3⟩ | ⟨e, hun, -⟩
        · obtain ⟨z, -, hz⟩ := runs_attempt.mp hun
          obtain ⟨rfl, rfl⟩ := runs_fail.mp h3
          exact .inr (.inr ⟨nonce, stop, un, f, e, z, e, by simp, hstop, hz, rfl⟩)
        · obtain ⟨z, hz, -⟩ := runs_attempt.mp hun
          cases hz
    · obtain ⟨f, outcome, hy, -⟩ := stopAndDrop_found rfl hstop
      cases hy

/-! ## The whole change -/

/-- How a change was reached that puts the VM back: fencing it failed, or it is fenced and the step has
run. `start` tells if the VM is to start. -/
inductive Reached (cx : Context) (production : Production) (step : Step) (nonce : String) :
    Trace → Trace → Fenced → Bool → Prop where
  | fenceFailed {stop : Trace} {f : Fenced} {e : Stop} :
      Runs (stopAndDrop cx { production, nonce }) stop (.ok (f, .error e)) →
      Reached cx production step nonce stop [] f f.wasRunning
  | worked {stop mid : Trace} {f : Fenced} {done : Dict String} :
      Runs (stopAndDrop cx { production, nonce }) stop (.ok (f, .ok ())) →
      Runs (step.run production.vmid) mid (.ok done) →
      Reached cx production step nonce stop mid f true
  | stepFailed {stop mid : Trace} {f : Fenced} {e : Stop} :
      Runs (stopAndDrop cx { production, nonce }) stop (.ok (f, .ok ())) →
      Runs (step.run production.vmid) mid (.error e) →
      Reached cx production step nonce stop mid f false

/-- A change doesn't get the lease, or it ends with an `unfence` after what it reached. -/
theorem runs_change {y : Except Stop (Dict String)} (h : Runs (change cx production step) tr y) :
    (∃ e, tr = [⟨.acquire production.name leaseS, Except.error e⟩]) ∨
      ∃ nonce stop mid un f start z,
        tr = ⟨.acquire production.name leaseS, Except.ok nonce⟩ :: (stop ++ mid ++ un) ∧
        Reached cx production step nonce stop mid f start ∧ Runs (unfence cx f start) un z := by
  rcases runs_bind.mp h with ⟨tr1, tr2, f, rfl, hf, hrest⟩ | ⟨s, hf, -⟩
  · rcases runs_fence hf with ⟨e, s, -, hy⟩ | ⟨nonce, stop, f, rfl, hstop, hy⟩ |
      ⟨nonce, stop, un, f, e, z, s, rfl, hstop, hun, hy⟩
    · cases hy
    · cases hy
      rcases runs_bind.mp hrest with ⟨mid, tr3, outcome, rfl, hmid, hend⟩ | ⟨e, hmid, -⟩
      · obtain ⟨z, hz, hstep⟩ := runs_attempt.mp hmid
        cases hz
        cases outcome with
        | ok done =>
          rcases runs_bind.mp hend with ⟨un, tr4, u, rfl, hun, hret⟩ | ⟨e, hun, -⟩
          · obtain ⟨rfl, -⟩ := runs_pure.mp hret
            exact .inr ⟨nonce, stop, mid, un, f, true, _, by simp, .worked hstop hstep, hun⟩
          · exact .inr ⟨nonce, stop, mid, tr3, f, true, _, by simp, .worked hstop hstep, hun⟩
        | error e =>
          rcases runs_bind.mp hend with ⟨un, tr4, ended, rfl, hun, hret⟩ | ⟨e', hun, -⟩
          · obtain ⟨z, -, hz⟩ := runs_attempt.mp hun
            obtain ⟨rfl, -⟩ := runs_fail.mp hret
            exact .inr ⟨nonce, stop, mid, un, f, false, z, by simp, .stepFailed hstop hstep, hz⟩
          · obtain ⟨z, hz, -⟩ := runs_attempt.mp hun
            cases hz
      · obtain ⟨z, hz, -⟩ := runs_attempt.mp hmid
        cases hz
    · cases hy
  · rcases runs_fence hf with ⟨e, s, rfl, -⟩ | ⟨nonce, stop, f, -, -, hy⟩ |
      ⟨nonce, stop, un, f, e, z, s, rfl, hstop, hun, -⟩
    · exact .inl ⟨e, rfl⟩
    · cases hy
    · exact .inr ⟨nonce, stop, [], un, f, f.wasRunning, z, by simp, .fenceFailed hstop, hun⟩

section

variable {nonce : String} {stop mid : Trace} {start : Bool}

/-- Before `unfence`, the VM isn't started and the lease isn't touched. -/
theorem Reached.plain (h : Reached cx production step nonce stop mid f start) :
    ∀ e ∈ stop ++ mid, Plain e.1 := by
  cases h with
  | fenceFailed hstop =>
    rw [List.append_nil]
    exact plain_stopAndDrop.of_runs hstop
  | worked hstop hmid =>
    exact List.forall_mem_append.mpr ⟨plain_stopAndDrop.of_runs hstop, plain_step.of_runs hmid⟩
  | stepFailed hstop hmid =>
    exact List.forall_mem_append.mpr ⟨plain_stopAndDrop.of_runs hstop, plain_step.of_runs hmid⟩

/-- The lease that is released is the one that was taken. -/
theorem Reached.leased (h : Reached cx production step nonce stop mid f start) :
    f.production = production ∧ f.nonce = nonce := by
  have hfound : ∀ {outcome : Except Stop Unit},
      Runs (stopAndDrop cx { production, nonce }) stop (.ok (f, outcome)) →
      f.production = production ∧ f.nonce = nonce := by
    intro outcome hstop
    obtain ⟨f', outcome', hy, hp, hn, -⟩ := stopAndDrop_found rfl hstop
    cases hy
    exact ⟨hp, hn⟩
  cases h with
  | fenceFailed hstop => exact hfound hstop
  | worked hstop _ => exact hfound hstop
  | stepFailed hstop _ => exact hfound hstop

end

/-- What `before`, the calls before one that starts the VM, are: the lease taken; the VM stopped, with
its jobs recorded; the step, which worked, or none, when stopping a VM that ran failed; and then calls
that show every recorded job protected. -/
def MayStart (cx : Context) (production : Production) (step : Step) (before : Trace) : Prop :=
  ∃ nonce stop mid un f outcome,
    before = ⟨.acquire production.name leaseS, Except.ok nonce⟩ :: (stop ++ mid ++ un) ∧
    Runs (stopAndDrop cx { production, nonce }) stop (.ok (f, outcome)) ∧
    ((outcome = .ok () ∧ ∃ done, Runs (step.run production.vmid) mid (.ok done)) ∨
      ((∃ e, outcome = .error e) ∧ mid = [] ∧ f.wasRunning = true)) ∧
    ⟨.jobs production.vmid, Except.ok f.jobs⟩ ∈ stop ∧
    ⟨.running production.vmid, Except.ok f.wasRunning⟩ ∈ stop ∧
    ∀ job ∈ f.jobs, Protected un production.vmid job

structure Ordered (cx : Context) (production : Production) (step : Step) (tr : Trace) : Prop where
  /-- A lease that was taken is released with its nonce by the last call, and by no other. -/
  released : ∀ name ttlS nonce, ⟨.acquire name ttlS, Except.ok nonce⟩ ∈ tr →
    ∃ before answer, tr = before ++ [⟨.release name nonce, answer⟩] ∧
      ∀ e ∈ before, ∀ name nonce, e.1 ≠ .release name nonce
  started : ∀ before e after, tr = before ++ e :: after → Starts e.1 →
    MayStart cx production step before
  /-- When the step fails, the VM isn't started. -/
  stays : ∀ nonce stop mid rest f stopped,
    tr = ⟨.acquire production.name leaseS, Except.ok nonce⟩ :: (stop ++ mid ++ rest) →
    Runs (stopAndDrop cx { production, nonce }) stop (.ok (f, .ok ())) →
    Runs (step.run production.vmid) mid (.error stopped) → ∀ e ∈ tr, ¬ Starts e.1

theorem eq_of_starts {pre post before after : Trace} {one : Base.Event Call Reply}
    (hpre : ∀ e ∈ pre, ¬ Starts e.1) (hpost : ∀ e ∈ post, ¬ Starts e.1)
    (h : pre ++ one :: post = before ++ e :: after) (he : Starts e.1) : pre = before := by
  induction pre generalizing before with
  | nil =>
    cases before with
    | nil => rfl
    | cons first rest =>
      obtain ⟨-, rfl⟩ := List.cons.inj h
      exact absurd he (hpost e (by simp))
  | cons first rest ih =>
    cases before with
    | nil =>
      obtain ⟨rfl, -⟩ := List.cons.inj h
      exact absurd he (hpre _ List.mem_cons_self)
    | cons first' rest' =>
      obtain ⟨rfl, htail⟩ := List.cons.inj h
      rw [ih (fun e hmem => hpre e (List.mem_cons_of_mem _ hmem)) htail]

def underLease (production : Production) (nonce : String) (inner : Trace)
    (answer : Except String Unit) : Trace :=
  ⟨.acquire production.name leaseS, Except.ok nonce⟩ ::
    (inner ++ [⟨.release production.name nonce, answer⟩])

section

variable {nonce : String} {stop mid un inner : Trace} {answer : Except String Unit} {start : Bool}

theorem mem_underLease :
    e ∈ underLease production nonce inner answer ↔
      e = ⟨.acquire production.name leaseS, Except.ok nonce⟩ ∨ e ∈ inner ∨
        e = ⟨.release production.name nonce, answer⟩ := by
  simp [underLease]

theorem released_underLease (hinner : ∀ e ∈ inner, ¬ Leases e.1) {name : GuestName} {ttlS : Nat}
    {nonce' : String}
    (hmem : ⟨.acquire name ttlS, Except.ok nonce'⟩ ∈ underLease production nonce inner answer) :
    ∃ before answer', underLease production nonce inner answer =
        before ++ [⟨.release name nonce', answer'⟩] ∧
      ∀ e ∈ before, ∀ name nonce, e.1 ≠ .release name nonce := by
  rcases mem_underLease.mp hmem with heq | hin | heq
  · cases heq
    refine ⟨⟨.acquire production.name leaseS, Except.ok nonce⟩ :: inner, answer, rfl,
      fun e he n k heq => ?_⟩
    rcases List.mem_cons.mp he with rfl | he
    · cases heq
    · refine hinner e he ?_
      rw [heq]
      trivial
  · exact absurd trivial (hinner _ hin)
  · cases heq

theorem plain_underLease (hinner : ∀ e ∈ inner, ¬ Starts e.1) :
    ∀ e ∈ underLease production nonce inner answer, ¬ Starts e.1 := by
  intro e he
  rcases mem_underLease.mp he with rfl | he | rfl
  · exact id
  · exact hinner e he
  · exact id

theorem started_underLease {before after : Trace} {last : Base.Event Call Reply}
    (hinner : ∀ e ∈ inner, ¬ Starts e.1)
    (h : underLease production nonce (inner ++ [last]) answer = before ++ e :: after)
    (he : Starts e.1) : before = ⟨.acquire production.name leaseS, Except.ok nonce⟩ :: inner := by
  have hpre : ∀ e ∈ (⟨.acquire production.name leaseS, Except.ok nonce⟩ :: inner : Trace),
      ¬ Starts e.1 := by
    intro e he
    rcases List.mem_cons.mp he with rfl | he
    · exact id
    · exact hinner e he
  have hpost : ∀ e ∈ ([⟨.release production.name nonce, answer⟩] : Trace), ¬ Starts e.1 := by
    intro e he
    rw [List.mem_singleton.mp he]
    exact id
  have hcut : (⟨.acquire production.name leaseS, Except.ok nonce⟩ :: inner) ++
      last :: [⟨.release production.name nonce, answer⟩] = before ++ e :: after := by
    rw [← h]
    simp [underLease]
  exact (eq_of_starts hpre hpost hcut he).symm

/-- What the change reached lets the VM start once its jobs are replicated. -/
theorem Reached.mayStart {rep : Trace} (h : Reached cx production step nonce stop mid f true)
    (hrep : Runs (replicate cx f) rep (.ok ())) (hhon : Honest rep) :
    MayStart cx production step
      (⟨.acquire production.name leaseS, Except.ok nonce⟩ :: (stop ++ mid ++ rep)) := by
  have hjobs : ∀ job ∈ f.jobs, Protected rep production.vmid job := by
    have hall := replicate_ok hrep hhon
    rwa [h.leased.1] at hall
  have hmay : ∀ {outcome : Except Stop Unit},
      Runs (stopAndDrop cx { production, nonce }) stop (.ok (f, outcome)) →
      (f.wasRunning = true ∨ outcome = .ok ()) →
      ((outcome = .ok () ∧ ∃ done, Runs (step.run production.vmid) mid (.ok done)) ∨
        ((∃ e, outcome = .error e) ∧ mid = [] ∧ f.wasRunning = true)) →
      MayStart cx production step
        (⟨.acquire production.name leaseS, Except.ok nonce⟩ :: (stop ++ mid ++ rep)) := by
    intro outcome hstop hor hwhy
    obtain ⟨f', outcome', hy, -, -, hfound⟩ := stopAndDrop_found rfl hstop
    cases hy
    obtain ⟨hlisted, hran⟩ := hfound hor
    exact ⟨nonce, stop, mid, rep, f, outcome, rfl, hstop, hwhy, hlisted, hran, hjobs⟩
  generalize hstart : true = start at h
  cases h with
  | fenceFailed hstop => exact hmay hstop (.inl hstart.symm) (.inr ⟨⟨_, rfl⟩, rfl, hstart.symm⟩)
  | worked hstop hstep => exact hmay hstop (.inr rfl) (.inl ⟨rfl, _, hstep⟩)
  | stepFailed => cases hstart

/-- A change whose step failed has reached no start. -/
theorem Reached.stays {rest : Trace} {stop' mid' rest' : Trace} {f' : Fenced} {stopped : Stop}
    (h : Reached cx production step nonce stop mid f start)
    (heq : stop ++ mid ++ rest = stop' ++ mid' ++ rest')
    (hstop' : Runs (stopAndDrop cx { production, nonce }) stop' (.ok (f', .ok ())))
    (hstep' : Runs (step.run production.vmid) mid' (.error stopped)) : start = false := by
  rw [List.append_assoc, List.append_assoc] at heq
  cases h with
  | fenceFailed hstop =>
    obtain ⟨-, -, hy⟩ := hstop.det hstop' heq
    cases hy
  | worked hstop hstep =>
    obtain ⟨-, hrest, -⟩ := hstop.det hstop' heq
    obtain ⟨-, -, hy⟩ := hstep.det hstep' hrest
    cases hy
  | stepFailed => rfl

end

/-- A changed VM runs again only when it is protected. -/
theorem change_ordered {y : Except Stop (Dict String)} (h : Runs (change cx production step) tr y)
    (hhon : Honest tr) : Ordered cx production step tr := by
  rcases runs_change h with ⟨e, rfl⟩ | ⟨nonce, stop, mid, un', f, start, z, htr, hreached, hun'⟩
  · -- the lease isn't taken
    constructor
    · intro name ttlS nonce hmem
      cases List.mem_singleton.mp hmem
    · intro before e after heq he
      have hmem : e ∈ before ++ e :: after := by simp
      rw [← heq] at hmem
      obtain rfl := List.mem_singleton.mp hmem
      exact he.elim
    · intro nonce stop mid rest f stopped heq
      cases (List.cons.inj heq).1
  obtain ⟨hproduction, hnonce⟩ := hreached.leased
  obtain ⟨un, zu, answer, hunfence, hun⟩ := runs_unfence hun'
  rw [hproduction, hnonce] at hunfence
  have hwhole : tr = underLease production nonce (stop ++ mid ++ un) answer := by
    rw [htr, hunfence]
    simp [underLease]
  have hpre := hreached.plain
  have hparts := runs_replicateAndStart hun
  constructor
  · intro name ttlS nonce' hmem
    rw [hwhole] at hmem ⊢
    refine released_underLease (fun e he => ?_) hmem
    rcases List.mem_append.mp he with he | he
    · exact (hpre e he).2
    rcases hparts with hplain | ⟨-, rep, last, rfl, hlast, hrep, -⟩
    · exact (hplain e he).2
    · rcases List.mem_append.mp he with he | he
      · exact (hrep e he).2
      · obtain rfl := List.mem_singleton.mp he
        exact hlast.not_leases
  · intro before e after heq he
    rcases hparts with hplain | ⟨rfl, rep, last, rfl, hlast, hrep, hok⟩
    · -- nothing starts it
      have hmem : e ∈ tr := by
        rw [heq]
        simp
      rw [hwhole] at hmem
      refine absurd he (plain_underLease (fun e he => ?_) e hmem)
      rcases List.mem_append.mp he with he | he
      · exact (hpre e he).1
      · exact (hplain e he).1
    · rw [hwhole, ← List.append_assoc] at heq
      rw [started_underLease (fun e he => ?_) heq he]
      · have hcut : tr = (⟨.acquire production.name leaseS, Except.ok nonce⟩ :: (stop ++ mid)) ++ rep ++
            [last, ⟨.release production.name nonce, answer⟩] := by
          rw [hwhole]
          simp [underLease]
        rw [hcut] at hhon
        exact hreached.mayStart hok hhon.part
      · rcases List.mem_append.mp he with he | he
        · exact (hpre e he).1
        · exact (hrep e he).1
  · intro nonce' stop' mid' rest' f' stopped heq hstop' hstep'
    obtain ⟨hacq, hrest⟩ := List.cons.inj (htr.symm.trans heq)
    cases hacq
    obtain rfl := hreached.stays hrest hstop' hstep'
    rcases hparts with hplain | ⟨⟨⟩, -⟩
    rw [hwhole]
    refine plain_underLease fun e he => ?_
    rcases List.mem_append.mp he with he | he
    · exact (hpre e he).1
    · exact (hplain e he).1

/-! ## A host that answers -/

def webJob : Job where
  id := "100-0"
  target := ⟨2, HostSlot.range_two⟩
  schedule := "*/15"
  rate := none
  comment := none

/-- A host on which every call succeeds: VM 100 runs until it is shut down, and its job is listed until
it is deleted. -/
def steady (before : Trace) : (c : Call) → Reply c
  | .acquire _ _ => Except.ok "nonce"
  | .haManaged _ => Except.ok false
  | .running _ => Except.ok (before.all fun e => e.1 matches .shutdown _ |> not)
  | .jobs _ => Except.ok (if before.any fun e => e.1 matches .deleteJob _ then [] else [webJob])
  | .createJob _ => Except.ok (1767300000000 : Int)
  | .jobState _ => Except.ok
    { busy := false, failing := false, lastSyncS := 1767300000, failCount := 0, error := none }
  | .nowMs => (1767300000000 : Int)
  | .instant => (0 : Nat)
  | .guid _ => Except.ok none
  | .origin _ => Except.ok none
  | .release _ _ | .setHa _ _ | .shutdown _ | .start _ | .deleteJob _ | .scheduleNow _
  | .ensureParent _ | .rename _ _ | .inheritVolmode _ | .promote _ | .snapshot _ | .copyClone _ _ _
  | .destroy _ | .rollback _ | .rescan _ | .forgetVm _ => Except.ok ()

theorem honest_steady {α : Type} (p : Program α) : Honest (play steady p []).1 := by
  constructor
  · intro before job at_ after state htr hmem
    have hmade : ⟨.createJob job, Except.ok at_⟩ ∈ (play steady p []).1 := by
      rw [htr]
      simp
    have hstate : ⟨.jobState job.id, Except.ok state⟩ ∈ (play steady p []).1 := by
      rw [htr]
      simp [hmem]
    obtain ⟨b, hb⟩ := play_answered hmade
    obtain ⟨b', hb'⟩ := play_answered hstate
    cases hb
    cases hb'
    exact .inr (by decide)
  · intro now hmem
    obtain ⟨b, hb⟩ := play_answered hmem
    cases hb
    decide

def web : Production where
  vmUuid := 7
  name := .production 1
  vmid := 100
  placement := []
  record := .null

theorem change_ordered_steady :
    let cx : Context := ⟨3, 180000, 3600000, 60000⟩
    let step : Step := .rollback [⟨"scsi0", "rpool/data/vm-100-disk-0", "rpool/data/vm-100-disk-0@pit"⟩]
    Ordered cx web step (play steady (change cx web step) []).1 ∧
      (play steady (change cx web step) []).1.any fun e => e.1 matches .start 100 :=
  ⟨change_ordered (runs_play _ _) (honest_steady _), by decide +kernel⟩

end Bmac.Bmacd.Replace
