import Bmac.Bmacd.UpdateRuns

/-!
# What an operator may rely on

In all the attempts of an update together, a host is asked to install only when it is its turn
(`hosts_updated_in_turn`), and the cluster's record schema is set last (`schema_set_last`). Hosts go back in
turn as well, in a rollback (`hosts_rolled_back_in_turn`) and after an update that stopped
(`stopped_update_rolled_back`).
-/

namespace Bmac.Bmacd.Updates

open Bmac.Base Bmac.Core Prog
open Capture (Stop)

variable {cx : Context} {sha256 : String} {summary : BundleSummary} {plan : Plan} {done : Done}
  {tr tr' : Trace}

/-! ## A cluster of two hosts -/

def first : HostSlot := ⟨1, HostSlot.range_one⟩

def second : HostSlot := ⟨2, HostSlot.range_two⟩

def oldBundle : InstalledBundle := ⟨"a0", "3.0.0"⟩

def newBundle : InstalledBundle := ⟨"b1", "3.1.0"⟩

def installedAfter (start : Installed) (before : Trace) (host : HostSlot) : Installed :=
  let newest : Option InstallMode := before.findSome? fun
    | ⟨.install h request, .ok status⟩ =>
      if h = host ∧ status.state = .installed then some request.mode else none
    | _ => none
  match newest with
  | none => start
  | some .update => ⟨some newBundle, some oldBundle⟩
  | some .rollback => ⟨some oldBundle, none⟩

/-- Two hosts that install what they are asked to, but for the updates that fail. -/
def twoHosts (start : Installed) (fails : HostSlot → Bool) (before : Trace) : (c : Call) → Reply c
  | .record _ | .check | .expectServiceRestart | .clearServiceRestart => Except.ok ()
  | .nowMs => (1767300000000 : Int)
  | .instant => (0 : Nat)
  | .staged => [⟨"b1", "3.1.0", 2, 1⟩]
  | .chooseBundle _ => Except.ok ⟨"b1", "", by decide⟩
  | .scratch => Except.ok "/var/lib/bmac/updates/fetched"
  | .fetchUrl _ _ | .setRecordSchema _ | .maintenance _ _ => Except.ok ()
  | .removeFile _ => ()
  | .stage _ | .openBundle _ => Except.ok ⟨"b1", "3.1.0", 2, 1⟩
  | .options => Except.ok false
  | .confirm _ _ _ => Except.ok true
  | .chooseRollback _ => Except.ok "b1"
  | .membership => Except.ok ⟨true, [first, second], [first, second]⟩
  | .state host _ _ =>
    let installed := installedAfter start before host
    Except.ok
      { host, installed, version := (installed.current.map (·.version)).getD "", install := none,
        services := [("bmac-haproxy", true)], reachablePeers := [first, second] }
  | .install host request =>
    let state := if request.mode = .update ∧ fails host then .failed else .installed
    Except.ok { mode := request.mode, state }
  | .recordSchema => Except.ok 1
  | .haResourcesOn _ => Except.ok []

def small : Context := { me := second, job := 7, polls := 3, rounds := 16 }

def updateRun (fails : HostSlot → Bool) : Trace :=
  (play (twoHosts ⟨some oldBundle, none⟩ fails) (update small (recorded [])) []).1

theorem updateJob_run (fails : HostSlot → Bool) : UpdateJob small (updateRun fails) :=
  resumed_play _

def rollbackRun : Trace :=
  (play (twoHosts ⟨some newBundle, some oldBundle⟩ fun _ => false) (rollback small (recorded [])) []).1

theorem rollbackJob_run : RollbackJob small rollbackRun := resumed_play _

def asksInstall (host : HostSlot) (mode : InstallMode) (e : Base.Event Call Reply) : Bool :=
  match e.1 with
  | .install h request => h = host && request.mode = mode
  | _ => false

variable {host : HostSlot}

theorem exists_install {tr : Trace} {mode : InstallMode}
    (h : tr.any (asksInstall host mode) = true) : ∃ before after request, ∃ reply : Except String InstallStatus,
      tr = before ++ ⟨.install host request, reply⟩ :: after ∧ request.mode = mode := by
  obtain ⟨⟨c, reply⟩, hmem, hasks⟩ := List.any_eq_true.mp h
  cases c with
  | install h request =>
    obtain ⟨hhost, hmode⟩ := Bool.and_eq_true_iff.mp hasks
    obtain rfl := of_decide_eq_true hhost
    obtain ⟨before, after, htr⟩ := List.append_of_mem hmem
    exact ⟨before, after, request, reply, htr, of_decide_eq_true hmode⟩
  | _ => cases hasks

def setsSchema (schema : Nat) (e : Base.Event Call Reply) : Bool :=
  match e.1 with
  | .setRecordSchema s => s = schema
  | _ => false

theorem exists_setRecordSchema {schema : Nat} (h : tr.any (setsSchema schema) = true) :
    ∃ before after, ∃ reply : Except String Unit, tr = before ++ ⟨.setRecordSchema schema, reply⟩ :: after := by
  obtain ⟨⟨c, reply⟩, hmem, hsets⟩ := List.any_eq_true.mp h
  cases c with
  | setRecordSchema s =>
    obtain rfl := of_decide_eq_true hsets
    obtain ⟨before, after, htr⟩ := List.append_of_mem hmem
    exact ⟨before, after, reply, htr⟩
  | _ => cases hsets

/-! ## Updates -/

variable {later : HostSlot}

theorem mem_passed {passed rest passed' rest' : List HostSlot}
    (hnodup : (passed ++ host :: rest).Nodup) (heq : passed ++ host :: rest = passed' ++ later :: rest')
    (hlater : later ∈ rest) : host ∈ passed' := by
  obtain ⟨-, htail, hapart⟩ := List.nodup_append.mp hnodup
  have hne : later ≠ host := fun hh => (List.nodup_cons.mp htail).1 (hh ▸ hlater)
  rcases List.append_eq_append_iff.mp heq with ⟨more, rfl, hmore⟩ | ⟨more, rfl, hmore⟩
  · cases more with
    | nil => exact absurd (List.cons.inj hmore).1.symm hne
    | cons first more =>
      obtain rfl := (List.cons.inj hmore).1
      exact List.mem_append_right _ (List.mem_cons_self ..)
  · cases more with
    | nil => exact absurd (List.cons.inj hmore).1 hne
    | cons first more =>
      obtain rfl := (List.cons.inj hmore).1
      exact absurd rfl (hapart later (by simp) later (List.mem_cons_of_mem _ hlater))

section

variable {before after : Trace} {host : HostSlot} {request : InstallRequest} {reply : Except String InstallStatus}

theorem install_allowed {asked : Asked}
    (hk : Kept (Allowed cx asked) (before ++ ⟨.install host request, reply⟩ :: after)) :
    request.job = cx.job ∧ (request.mode = .update → MayUpdate before host request.sha256) ∧
      (request.mode = .rollback → MayRollBack cx asked before host request.sha256) :=
  hk before ⟨.install host request, reply⟩ after rfl

/-- The hosts before this one in the plan were found healthy with the bundle, and no later one was asked. -/
structure InTurn (cx : Context) (before : Trace) (host : HostSlot) (sha256 : String) : Prop where
  /-- No host failed. -/
  going : (recorded before).stopped = none
  turn : ∃ plan passed rest summary, (recorded before).plan = some plan ∧
    plan.hosts = passed ++ host :: rest ∧ Planned cx sha256 summary plan before ∧
    (∀ h ∈ passed, ∃ summary, Opened sha256 summary before ∧
      FoundHealthy cx h .update summary.version plan.members before) ∧
    ∀ later ∈ rest, ∀ (request : InstallRequest) (reply : Except String InstallStatus),
      request.mode = .update → ⟨.install later request, reply⟩ ∉ before

theorem later_not_asked {asked : Asked} (hk : Kept (Allowed cx asked) before)
    {passed rest : List HostSlot} (hplan : (recorded before).plan = some plan)
    (hhosts : plan.hosts = passed ++ host :: rest) (hnodup : plan.hosts.Nodup)
    (hnot : (recorded before).isUpdated host = false) (hlater : later ∈ rest) (hmode : request.mode = .update) :
    ⟨.install later request, reply⟩ ∉ before := by
  intro hmem
  obtain ⟨earlier, between, rfl⟩ := List.append_of_mem hmem
  obtain ⟨-, hupdate, -⟩ := install_allowed hk
  obtain ⟨plan', passed', rest', hplan', hhosts', -, hdone⟩ := (hupdate hmode).turn
  have hle : earlier <+: earlier ++ ⟨.install later request, reply⟩ :: between := List.prefix_append _ _
  obtain rfl := Option.some.inj ((plan_lasts hk hle hplan').symm.trans hplan)
  have hpassed : host ∈ passed' := mem_passed (hhosts ▸ hnodup) (hhosts.symm.trans hhosts') hlater
  have hupdated := isUpdated_lasts hk hle (hdone host hpassed)
  rw [hnot] at hupdated
  cases hupdated

/-- An update asks a host to install only a bundle that the cluster was checked against, once the hosts
before it in the plan were found healthy with it; the job's own host comes last, and none after a host
failed. -/
theorem hosts_updated_in_turn (h : UpdateJob cx (before ++ ⟨.install host request, reply⟩ :: after))
    (hmode : request.mode = .update) : request.job = cx.job ∧ InTurn cx before host request.sha256 := by
  have hkept := h.kept
  obtain ⟨hjob, hupdate, -⟩ := install_allowed hkept
  obtain ⟨hbundle, hgoing, plan, passed, rest, hplan, hhosts, hnot, hdone⟩ := hupdate hmode
  have hk := hkept.before
  obtain ⟨summary, hplanned⟩ := planned_of_plan hk hbundle hplan
  refine ⟨hjob, hgoing, plan, passed, rest, summary, hplan, hhosts, hplanned, fun h hh => ?_, ?_⟩
  · exact found_of_updated hk hbundle hplan (hdone h hh)
  · intro later hlater request' reply' hmode'
    exact later_not_asked hk hplan hhosts hplanned.ordered.1 hnot hlater hmode'

theorem hosts_updated_in_turn_small : ∃ before after request, ∃ reply : Except String InstallStatus,
    updateRun (fun _ => false) = before ++ ⟨.install second request, reply⟩ :: after ∧
      InTurn small before second request.sha256 := by
  have hasks : (updateRun fun _ => false).any (asksInstall second .update) = true := by decide +kernel
  obtain ⟨before, after, request, reply, htr, hmode⟩ := exists_install hasks
  have h := updateJob_run fun _ => false
  rw [htr] at h
  exact ⟨before, after, request, reply, htr, (hosts_updated_in_turn h hmode).2⟩

end

/-! ## The record schema -/

/-- Each host of the plan was found healthy with the bundle, or there was nothing to update. -/
inductive AllCurrent (cx : Context) (sha256 : String) (summary : BundleSummary) (tr : Trace) : Prop where
  | updated {plan : Plan} : (recorded tr).plan = some plan →
      (∀ h ∈ plan.hosts, ∃ summary', Opened sha256 summary' tr ∧
        FoundHealthy cx h .update summary'.version plan.members tr) → AllCurrent cx sha256 summary tr
  | current {states : List HostUpdateState} : (recorded tr).plan = none →
      Surveyed cx .update states tr →
      (∀ s ∈ states, ∃ s' ∈ states, s'.host = s.host ∧ s'.isCurrent summary sha256 = true) →
      AllCurrent cx sha256 summary tr

section

variable {before after : Trace} {schema : Nat} {reply : Except String Unit}

/-- The cluster's record schema is set once every host is done, and never to less than what was read just
before. -/
theorem schema_set_last (h : UpdateJob cx (before ++ ⟨.setRecordSchema schema, reply⟩ :: after)) :
    ∃ sha256 summary cluster earlier, before = earlier ++ [⟨.recordSchema, .ok cluster⟩] ∧
      schema = max summary.recordSchema cluster ∧ Opened sha256 summary before ∧
      AllCurrent cx sha256 summary before := by
  have hkept := h.kept
  obtain ⟨sha256, summary, earlier, cluster, hopened, hready, hread, hschema⟩ :=
    hkept before ⟨.setRecordSchema schema, reply⟩ after rfl
  refine ⟨sha256, summary, cluster, earlier, hread, hschema, hopened, ?_⟩
  cases hready with
  | updated hbundle hplan hdone =>
    exact .updated hplan fun h hh => found_of_updated hkept.before hbundle hplan (hdone h hh)
  | current hplan hsurveyed hcurrent => exact .current hplan hsurveyed hcurrent

theorem schema_set_last_small : ∃ before after, ∃ reply : Except String Unit,
    updateRun (fun _ => false) = before ++ ⟨.setRecordSchema 2, reply⟩ :: after ∧
      ∃ sha256 summary cluster earlier, before = earlier ++ [⟨.recordSchema, .ok cluster⟩] ∧
        2 = max summary.recordSchema cluster ∧ Opened sha256 summary before ∧
        AllCurrent small sha256 summary before := by
  have hsets : (updateRun fun _ => false).any (setsSchema 2) = true := by decide +kernel
  obtain ⟨before, after, reply, htr⟩ := exists_setRecordSchema hsets
  have h := updateJob_run fun _ => false
  rw [htr] at h
  exact ⟨before, after, reply, htr, schema_set_last h⟩

end

/-! ## Rollbacks -/

/-- What is rolled back stays the same once it is asked for, and has the job's own host last. -/
structure Settled (cx : Context) (asked : Asked) : Prop where
  lasts : ∀ {tr tr' sha256 hosts}, Kept (Allowed cx asked) tr' → tr <+: tr' →
    asked (recorded tr) sha256 hosts → asked (recorded tr') sha256 hosts
  same : ∀ {done sha256 hosts sha256' hosts'}, asked done sha256 hosts → asked done sha256' hosts' →
    sha256' = sha256 ∧ hosts' = hosts
  ordered : ∀ {tr sha256 hosts}, Kept (Allowed cx asked) tr → asked (recorded tr) sha256 hosts →
    Ordered cx hosts

section

variable {asked : Asked} {hosts : List HostSlot}

theorem rollbackPlan_lasts {sha256 : String} (hk : Kept (Allowed cx asked) tr')
    (hle : tr <+: tr') (h : (recorded tr).rollbackPlan = some (sha256, hosts)) :
    (recorded tr').rollbackPlan = some (sha256, hosts) := by
  refine lasts_of_records (P := fun done => done.rollbackPlan = some (sha256, hosts)) (fun tr c hc h => ?_)
    hk hle h
  cases c with
  | rollbackPlan sha256' hosts' => exact absurd (h.symm.trans hc.1) nofun
  | _ => exact h

theorem rollbackAsked_lasts {roll : Bool} (hk : Kept (Allowed cx asked) tr')
    (hle : tr <+: tr') (h : (recorded tr).rollbackAsked = some (roll, hosts)) :
    (recorded tr').rollbackAsked = some (roll, hosts) := by
  refine lasts_of_records (P := fun done => done.rollbackAsked = some (roll, hosts)) (fun tr c hc h => ?_)
    hk hle h
  cases c with
  | rollbackAsked roll' hosts' => exact absurd (h.symm.trans hc.1) nofun
  | _ => exact h

theorem stopped_lasts (hk : Kept (Allowed cx asked) tr') (hle : tr <+: tr')
    (h : (recorded tr).stopped.isSome = true) : (recorded tr').stopped.isSome = true := by
  refine lasts_of_records (P := fun done => done.stopped.isSome = true) (fun tr c _ h => ?_) hk hle h
  cases c with
  | stopped host message => rfl
  | _ => exact h

theorem rollbackPlan_mem (h : done.rollbackPlan = some (sha256, hosts)) :
    .rollbackPlan sha256 hosts ∈ done := by
  obtain ⟨c, hc, hplan⟩ := List.exists_of_findSome?_eq_some h
  cases c with
  | rollbackPlan sha256' hosts' =>
    cases hplan
    exact hc
  | _ => cases hplan

theorem rollbackAsked_mem {roll : Bool} (h : done.rollbackAsked = some (roll, hosts)) :
    .rollbackAsked roll hosts ∈ done := by
  obtain ⟨c, hc, hroll⟩ := List.exists_of_findSome?_eq_some h
  cases c with
  | rollbackAsked roll' hosts' =>
    cases hroll
    exact hc
  | _ => cases hroll

theorem rolledBack_mem (h : done.rolledBack host ≠ none) :
    ∃ version, .rolledBack host version ∈ done := by
  obtain ⟨found, hfound⟩ := Option.ne_none_iff_exists'.mp h
  obtain ⟨c, hc, hhost⟩ := List.exists_of_findSome?_eq_some hfound
  cases c with
  | rolledBack host' version =>
    dsimp only at hhost
    split at hhost
    · rename_i heq
      exact ⟨version, heq ▸ hc⟩
    · cases hhost
  | _ => cases hhost

theorem settled_rollback : Settled cx askedByRollback where
  lasts hk hle h := rollbackPlan_lasts hk hle h
  same h h' := by
    cases h.symm.trans h'
    exact ⟨rfl, rfl⟩
  ordered hk h := by
    obtain ⟨before, hle, -, hordered⟩ := allowed_of_recorded hk (rollbackPlan_mem h)
    exact hordered

theorem settled_update : Settled cx askedByUpdate where
  lasts hk hle h :=
    ⟨bundle_lasts hk hle h.1, stopped_lasts hk hle h.2.1, rollbackAsked_lasts hk hle h.2.2⟩
  same h h' := by
    cases h.1.symm.trans h'.1
    cases h.2.2.symm.trans h'.2.2
    exact ⟨rfl, rfl⟩
  ordered hk h := by
    obtain ⟨before, hle, -, hordered⟩ := allowed_of_recorded hk (rollbackAsked_mem h.2.2)
    exact hordered

/-- The host went back to its bundle before, and was healthy with it; or it was left as it was, since it did
not run the bundle or kept none before it. -/
inductive PassedBack (cx : Context) (host : HostSlot) (sha256 : String) (tr : Trace) : Prop where
  | back {membership : Membership} {version : String} :
      (⟨.membership, .ok membership⟩ : Base.Event Call Reply) ∈ tr →
      FoundHealthy cx host .rollback version membership.members tr → PassedBack cx host sha256 tr
  | left {state : HostUpdateState} : sawState cx host .rollback state ∈ tr → state.finished = false →
      (state.runs sha256 = true → state.installed.previous = none) → PassedBack cx host sha256 tr

theorem passedBack_of_rolledBack (hs : Settled cx asked)
    (hk : Kept (Allowed cx asked) tr) (hasked : asked (recorded tr) sha256 hosts)
    (h : (recorded tr).rolledBack host ≠ none) : PassedBack cx host sha256 tr := by
  obtain ⟨version, hmem⟩ := rolledBack_mem h
  obtain ⟨before, hle, hmay⟩ := allowed_of_recorded hk hmem
  cases version with
  | some version =>
    obtain ⟨membership, hmembers, hfound⟩ := hmay
    exact .back (hle.subset hmembers) (hfound.mono hle)
  | none =>
    obtain ⟨sha256', hosts', state, hasked', hseen, hfinished, hkept⟩ := hmay
    obtain ⟨rfl, rfl⟩ := hs.same hasked (hs.lasts hk hle hasked')
    exact .left (hle.subset hseen) hfinished hkept

end

/-- The host runs the bundle and keeps one before it; the hosts before this one in what was asked are done,
and no later one was asked. -/
structure BackInTurn (cx : Context) (asked : Asked) (before : Trace) (host : HostSlot) (sha256 : String) :
    Prop where
  keeps : ∃ state, sawState cx host .rollback state ∈ before ∧ state.runs sha256 = true ∧
    state.installed.previous.isSome
  turn : ∃ hosts passed rest, asked (recorded before) sha256 hosts ∧ hosts = passed ++ host :: rest ∧
    Ordered cx hosts ∧ (∀ h ∈ passed, PassedBack cx h sha256 before) ∧
    ∀ later ∈ rest, ∀ (request : InstallRequest) (reply : Except String InstallStatus),
      request.mode = .rollback → ⟨.install later request, reply⟩ ∉ before

section

variable {asked : Asked} {before after : Trace} {host : HostSlot} {request : InstallRequest}
  {reply : Except String InstallStatus}

theorem later_not_asked_back (hs : Settled cx asked) (hk : Kept (Allowed cx asked) before)
    {passed rest : List HostSlot} (hasked : asked (recorded before) sha256 (passed ++ host :: rest))
    (hnot : (recorded before).rolledBack host = none) (hlater : later ∈ rest)
    (hmode : request.mode = .rollback) : ⟨.install later request, reply⟩ ∉ before := by
  intro hmem
  obtain ⟨earlier, between, rfl⟩ := List.append_of_mem hmem
  obtain ⟨-, -, hback⟩ := install_allowed hk
  obtain ⟨hosts', passed', rest', hasked', hhosts', -, hdone⟩ := (hback hmode).turn
  have hle : earlier <+: earlier ++ ⟨.install later request, reply⟩ :: between := List.prefix_append _ _
  obtain ⟨-, rfl⟩ := hs.same hasked (hs.lasts hk hle hasked')
  have hpassed : host ∈ passed' := mem_passed (hs.ordered hk hasked).1 hhosts' hlater
  exact rolledBack_lasts hk hle (hdone host hpassed) hnot

theorem back_in_turn (hs : Settled cx asked)
    (hkept : Kept (Allowed cx asked) (before ++ ⟨.install host request, reply⟩ :: after))
    (hmode : request.mode = .rollback) : BackInTurn cx asked before host request.sha256 := by
  obtain ⟨-, -, hback⟩ := install_allowed hkept
  obtain ⟨hkeeps, hosts, passed, rest, hasked, rfl, hnot, hdone⟩ := hback hmode
  have hk := hkept.before
  refine ⟨hkeeps, _, passed, rest, hasked, rfl, hs.ordered hk hasked, fun h hh => ?_, ?_⟩
  · exact passedBack_of_rolledBack hs hk hasked (hdone h hh)
  · intro later hlater request' reply' hmode'
    exact later_not_asked_back hs hk hasked hnot hlater hmode'

/-- A rollback asks a host to go back only when it was seen to run the bundle and to keep one before it, once
the hosts before it are back and healthy or were left as they were. -/
theorem hosts_rolled_back_in_turn (h : RollbackJob cx (before ++ ⟨.install host request, reply⟩ :: after))
    (hmode : request.mode = .rollback) :
    request.job = cx.job ∧ BackInTurn cx askedByRollback before host request.sha256 :=
  ⟨(install_allowed h.kept).1, back_in_turn settled_rollback h.kept hmode⟩

theorem hosts_rolled_back_in_turn_small : ∃ before after request, ∃ reply : Except String InstallStatus,
    rollbackRun = before ++ ⟨.install second request, reply⟩ :: after ∧
      BackInTurn small askedByRollback before second request.sha256 := by
  have hasks : rollbackRun.any (asksInstall second .rollback) = true := by decide +kernel
  obtain ⟨before, after, request, reply, htr, hmode⟩ := exists_install hasks
  have h := rollbackJob_run
  rw [htr] at h
  exact ⟨before, after, request, reply, htr, (hosts_rolled_back_in_turn h hmode).2⟩

/-- An update that stopped asks a host to go back only when the operator chose so, and in the same way. -/
theorem stopped_update_rolled_back (h : UpdateJob cx (before ++ ⟨.install host request, reply⟩ :: after))
    (hmode : request.mode = .rollback) :
    request.job = cx.job ∧ BackInTurn cx askedByUpdate before host request.sha256 :=
  ⟨(install_allowed h.kept).1, back_in_turn settled_update h.kept hmode⟩

theorem stopped_update_rolled_back_small : ∃ before after request, ∃ reply : Except String InstallStatus,
    updateRun (· = second) = before ++ ⟨.install first request, reply⟩ :: after ∧
      BackInTurn small askedByUpdate before first request.sha256 := by
  have hasks : (updateRun (· = second)).any (asksInstall first .rollback) = true := by decide +kernel
  obtain ⟨before, after, request, reply, htr, hmode⟩ := exists_install hasks
  have h := updateJob_run (· = second)
  rw [htr] at h
  exact ⟨before, after, request, reply, htr, (stopped_update_rolled_back h hmode).2⟩

end

end Bmac.Bmacd.Updates
