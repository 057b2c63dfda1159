import Bmac.Bmacd.UpdateOrder

/-!
# Updates and rollbacks, however often they start again

The attempts of a job, each from the checkpoints of those before and ended anywhere, make one trace. In it
a host is asked to install only in its turn (`hosts_updated_in_turn`, `hosts_rolled_back_in_turn`), an
update installs only a bundle that the cluster was checked against (`updates_checked`), and the cluster's
record schema is set last (`schema_set_last`).
-/

namespace Bmac.Bmacd.Updates

open Bmac.Base Bmac.Core Prog
open Capture (Stop)

variable {cx : Context} {sha256 : String} {summary : BundleSummary} {plan : Plan} {done : Done}
  {start tr tr' : Trace} {α : Type}

/-! ## Each attempt keeps to the order -/

/-- What an update has once its plan is made. -/
structure Updating (sha256 : String) (summary : BundleSummary) (plan : Plan) (tr : Trace) : Prop where
  bundle : (recorded tr).bundle = some sha256
  opened : Opened sha256 summary tr
  going : (recorded tr).stopped = none
  plan : (recorded tr).plan = some plan

theorem Updating.quiet (h : Updating sha256 summary plan tr) (hq : Quiet tr tr') :
    Updating sha256 summary plan tr' :=
  ⟨hq.same ▸ h.bundle, h.opened.mono hq.grew, hq.same ▸ h.going, hq.same ▸ h.plan⟩

/-- What the offer of a rollback starts from. -/
structure Stopped (sha256 : String) (tr : Trace) : Prop where
  bundle : (recorded tr).bundle = some sha256
  stopped : (recorded tr).stopped.isSome

theorem Stopped.quiet (h : Stopped sha256 tr) (hq : Quiet tr tr') : Stopped sha256 tr' :=
  ⟨hq.same ▸ h.bundle, hq.same ▸ h.stopped⟩

theorem safe_askRollback {why : String} (hdone : done = recorded tr) (h : Stopped sha256 tr) :
    Safe (history (Allowed cx askedByUpdate)) (fun done t => done = recorded t ∧ Stopped sha256 t)
      (fun _ _ => True) (askRollback cx done sha256 why) tr := by
  subst hdone
  unfold askRollback
  split
  · exact ⟨rfl, h⟩
  · rename_i hnot
    rw [safe_bind]
    refine safe_mono (safe_states (Quiet.refl tr)) (fun states t ht => ?_) fun _ _ _ => trivial
    dsimp only
    split
    · trivial
    · rw [safe_bind]
      refine safe_mono (safe_free (calls_orFail (calls_ask trivial)) ht.1) (fun roll t' hq => ?_) fun _ _ _ => trivial
      refine safe_record hq.same.symm (fun _ => ⟨?_, ordered_filter _ _⟩) fun hrecorded => ⟨hrecorded.symm, ?_⟩
      · rw [hq.same]
        exact Option.not_isSome_iff_eq_none.mp hnot
      · have hs := h.quiet hq
        exact ⟨hrecorded ▸ hs.bundle, hrecorded ▸ hs.stopped⟩

theorem safe_offerRollback {Q : α → Trace → Prop} {stopped : HostSlot × String} (hdone : done = recorded tr)
    (h : Stopped sha256 tr) :
    Safe (history (Allowed cx askedByUpdate)) Q (fun _ _ => True)
      (offerRollback cx done sha256 stopped) tr := by
  unfold offerRollback
  dsimp only
  rw [safe_bind]
  refine safe_mono (safe_askRollback hdone h) (fun done' t ht => ?_) fun _ _ _ => trivial
  split
  · rename_i hosts hasked
    rw [safe_bind]
    refine safe_mono (safe_rollBack lasts_update ht.1 ?_) (fun _ _ _ => trivial) fun _ _ _ => trivial
    exact ⟨ht.2.bundle, ht.2.stopped, ht.1 ▸ hasked⟩
  · trivial

theorem free_chooseBundle : Calls Free chooseBundle := by
  refine calls_bind (calls_ask trivial) fun staged => calls_bind (calls_orFail (calls_ask trivial)) fun chosen => ?_
  split
  · trivial
  · refine calls_bind ?_ fun scratch => calls_bind (calls_ask trivial) fun fetched => ?_
    · refine calls_bind (calls_attempt (calls_orFail (calls_ask trivial))) fun r => ?_
      cases r with
      | ok a => trivial
      | error e => trivial
    · cases fetched with
      | error e => exact calls_bind (calls_ask trivial) fun _ => trivial
      | ok a =>
        refine calls_bind (calls_ask trivial) fun staged => ?_
        cases staged with
        | error e => trivial
        | ok summary => trivial

variable {asked : Asked} {host : HostSlot}

theorem safe_bundleStep (hdone : done = recorded tr) :
    Safe (history (Allowed cx asked))
      (fun r t => r.2 = recorded t ∧ (recorded t).bundle = some r.1) (fun _ _ => True) (bundleStep done) tr := by
  subst hdone
  unfold bundleStep
  split
  · rename_i sha256 hbundle
    exact ⟨rfl, hbundle⟩
  · rename_i hnone
    rw [safe_bind]
    refine safe_mono (safe_free free_chooseBundle (Quiet.refl tr)) (fun sha256 t ht => ?_) fun _ _ _ => trivial
    rw [safe_bind]
    refine safe_record ht.same.symm (fun _ => ?_) fun hrecorded => ⟨hrecorded.symm, ?_⟩
    · show (recorded t).bundle = none
      rw [ht.same]
      exact hnone
    · rw [hrecorded]
      rfl

theorem safe_setSchema {schema : Nat} (h : Quiet start tr) (hopened : Opened sha256 summary tr)
    (hready : Ready cx sha256 summary tr) (hread : ∃ before, tr = before ++ [⟨.recordSchema, .ok schema⟩]) :
    Safe (history (Allowed cx asked)) (fun _ => Quiet start) (fun _ _ => True) (setSchema summary schema) tr := by
  obtain ⟨before, hbefore⟩ := hread
  unfold setSchema
  refine safe_failing (safe_asked (history_ask (fun _ => ?_) fun answer =>
    ⟨fun _ _ => h.snoc rfl, fun _ _ => trivial⟩))
  exact ⟨sha256, summary, before, schema, hopened, hready, hbefore, rfl⟩

theorem safe_schemaRead :
    Safe (history (Allowed cx asked)) (fun schema t => t = tr ++ [⟨.recordSchema, .ok schema⟩]) (fun _ _ => True)
      (failing (Updates.asked Cluster.recordSchema)) tr := by
  refine safe_failing (safe_asked (history_ask (fun _ => trivial) fun answer =>
    ⟨fun schema hs => ?_, fun _ _ => trivial⟩))
  rw [hs]

theorem schemaRefusal_none {schema : Nat} (h : schemaRefusal summary schema = none) :
    summary.readsRecordSchemaFrom ≤ schema ∧ schema ≤ summary.recordSchema := by
  unfold schemaRefusal at h
  split at h
  · cases h
  · split at h
    · cases h
    · omega

/-- With nothing left to update, a host of each member that answered runs the bundle. -/
theorem current_of_nil {states : List HostUpdateState} {members : List HostSlot}
    (hmembers : ∀ s ∈ states, s.host ∈ members)
    (hnil : (order members cx.me).filter
      (fun h => !((states.filter (·.isCurrent summary sha256)).map (·.host)).contains h) = []) :
    ∀ s ∈ states, ∃ s' ∈ states, s'.host = s.host ∧ s'.isCurrent summary sha256 = true := by
  intro s hs
  have hskip := List.filter_eq_nil_iff.mp hnil s.host (mem_order.mpr (.inl (hmembers s hs)))
  simp only [Bool.not_eq_true, Bool.not_eq_false', List.contains_iff_mem, List.mem_map, List.mem_filter] at hskip
  obtain ⟨s', ⟨hs', hcurrent⟩, hhost⟩ := hskip
  exact ⟨s', hs', hhost, hcurrent⟩

theorem safe_makePlan (hopened : Opened sha256 summary tr) (hplan : (recorded tr).plan = none) :
    Safe (history (Allowed cx asked))
      (fun r t => ∀ plan, r = some plan → Quiet tr t ∧ Planned cx sha256 summary plan t) (fun _ _ => True)
      (makePlan cx sha256 summary) tr := by
  unfold makePlan
  rw [safe_bind]
  refine safe_mono (safe_states (Quiet.refl tr)) (fun states t ht => ?_) fun _ _ _ => trivial
  obtain ⟨hquiet, hsurveyed⟩ := ht
  extract_lets members newer runs skip hosts details
  split
  · trivial
  · rename_i hnewer
    rw [safe_bind]
    refine safe_mono safe_schemaRead (fun schema t1 ht1 => ?_) fun _ _ _ => trivial
    have hread : Quiet t t1 := ht1 ▸ (Quiet.refl t).snoc rfl
    split
    · trivial
    · rename_i hrefusal
      have hmembers : ∀ s ∈ states, s.host ∈ members := by
        intro s hs
        simp only [members, List.mem_dedup, List.mem_insertionSort]
        exact List.mem_map_of_mem hs
      split
      · rename_i hnil
        rw [safe_bind]
        have hq := hquiet.trans hread
        refine safe_mono (safe_setSchema hq (hopened.mono hq.grew) ?_ ⟨t, ht1⟩) (fun _ _ _ => nofun)
          fun _ _ _ => trivial
        refine .current (hq.same ▸ hplan) (hsurveyed.mono hread.grew) ?_
        exact current_of_nil hmembers (List.isEmpty_iff.mp hnil)
      · rw [safe_bind]
        refine safe_mono (safe_free (calls_orFail (calls_ask trivial)) (Quiet.refl t1)) (fun migrate t2 ht2 => ?_)
          fun _ _ _ => trivial
        rw [safe_bind]
        refine safe_mono (safe_free (calls_orFail (calls_ask trivial)) ht2) (fun confirmed t3 hlater => ?_)
          fun _ _ _ => trivial
        have hq := hquiet.trans (hread.trans hlater)
        split
        · trivial
        · rintro _ ⟨⟩
          refine ⟨hq, hopened.mono hq.grew, ordered_filter _ _, ⟨states, hsurveyed.mono (hread.trans hlater).grew,
            hmembers, fun s hs => ?_⟩, schema, ?_, schemaRefusal_none hrefusal⟩
          · have hnone : newer = [] := by simpa using hnewer
            simpa using List.filter_eq_nil_iff.mp hnone s hs
          · refine hlater.grew.subset ?_
            rw [ht1]
            exact List.mem_append_right _ (List.mem_singleton.mpr rfl)

theorem isUpdated_cons (done : Done) (h h' : HostSlot) (atMs : Int) :
    Done.isUpdated (.updated h atMs :: done) h' = (decide (h = h') || done.isUpdated h') := by
  simp [Done.isUpdated]

theorem isUpdated_next {atMs : Int} {passed : List HostSlot}
    (hrecorded : recorded tr' = .updated host atMs :: recorded tr)
    (hpassed : ∀ h ∈ passed, (recorded tr).isUpdated h = true) :
    ∀ h ∈ passed ++ [host], (recorded tr').isUpdated h = true := by
  intro h hh
  rw [hrecorded, isUpdated_cons]
  rcases List.mem_append.mp hh with hh | hh
  · rw [hpassed h hh, Bool.or_true]
  · rw [List.mem_singleton.mp hh, decide_eq_true rfl, Bool.true_or]

/-- The hosts of the plan before the ones still to come are recorded as updated. -/
theorem safe_installEach {passed rest : List HostSlot} (hdone : done = recorded tr)
    (h : Updating sha256 summary plan tr) (hhosts : plan.hosts = passed ++ rest)
    (hpassed : ∀ h ∈ passed, (recorded tr).isUpdated h = true) :
    Safe (history (Allowed cx askedByUpdate))
      (fun _ t => Updating sha256 summary plan t ∧ ∀ h ∈ plan.hosts, (recorded t).isUpdated h = true)
      (fun _ _ => True) (installEach cx sha256 summary plan rest done) tr := by
  induction rest generalizing tr passed done with
  | nil =>
    refine ⟨h, fun host hh => hpassed host ?_⟩
    rwa [hhosts, List.append_nil] at hh
  | cons host rest ih =>
    have hhosts' : plan.hosts = (passed ++ [host]) ++ rest := by rw [hhosts, List.append_assoc, List.singleton_append]
    subst hdone
    unfold installEach
    split
    · rename_i hupdated
      refine ih rfl h hhosts' fun h' hh' => ?_
      rcases List.mem_append.mp hh' with hh' | hh'
      · exact hpassed h' hh'
      · rw [List.mem_singleton.mp hh']
        exact hupdated
    · rename_i hnot
      have hmay : MayInstall cx askedByUpdate tr host .update sha256 := by
        intro t ht
        refine ⟨rfl, fun _ => ⟨ht.same ▸ h.bundle, ht.same ▸ h.going, plan, passed, rest, ?_, hhosts, ?_, ?_⟩, nofun⟩
        · exact ht.same ▸ h.plan
        · rw [ht.same]
          simpa using hnot
        · rw [ht.same]
          exact hpassed
      rw [safe_bind, safe_attempt]
      refine safe_mono (safe_oneHost hmay (Quiet.refl tr)) (fun _ t ht => ?_) fun message t ht => ?_
      · rw [safe_bind]
        refine safe_askFree trivial ht.1 fun now hnow => ?_
        have hlater := h.quiet hnow
        have hle : t <+: t ++ [⟨.nowMs, now⟩] := List.prefix_append _ _
        rw [safe_bind]
        refine safe_record hnow.same.symm (fun _ => ?_) fun hrecorded => ?_
        · exact ⟨sha256, summary, plan, hlater.bundle, hlater.opened, hlater.plan, ht.2.mono hle⟩
        · refine ih hrecorded.symm ⟨?_, ?_, ?_, ?_⟩ hhosts' (isUpdated_next hrecorded (hnow.same.symm ▸ hpassed))
          · exact hrecorded ▸ hlater.bundle
          · exact hlater.opened.mono (List.prefix_append _ _)
          · exact hrecorded ▸ hlater.going
          · exact hrecorded ▸ hlater.plan
      · rw [safe_bind]
        refine safe_record ht.same.symm (fun _ => ?_) fun hrecorded => ?_
        · show (recorded t).stopped = none
          rw [ht.same]
          exact h.going
        · refine safe_offerRollback hrecorded.symm ⟨?_, ?_⟩
          · exact hrecorded ▸ (h.quiet ht).bundle
          · rw [hrecorded]
            rfl

theorem safe_installPlanned (hdone : done = recorded tr) (h : Updating sha256 summary plan tr) :
    Safe (history (Allowed cx askedByUpdate)) (fun _ _ => True) (fun _ _ => True)
      (installPlanned cx done sha256 summary plan) tr := by
  unfold installPlanned
  rw [safe_bind]
  have hnone : ∀ h ∈ ([] : List HostSlot), (recorded tr).isUpdated h = true :=
    fun _ hh => absurd hh List.not_mem_nil
  refine safe_mono (safe_installEach hdone h (List.nil_append _).symm hnone) (fun _ t ht => ?_) fun _ _ _ => trivial
  rw [safe_bind]
  refine safe_mono safe_schemaRead (fun schema t1 ht1 => ?_) fun _ _ _ => trivial
  have hq : Quiet t t1 := ht1 ▸ (Quiet.refl t).snoc rfl
  have hlater := ht.1.quiet hq
  rw [safe_bind]
  refine safe_mono (safe_setSchema (Quiet.refl t1) hlater.opened ?_ ⟨t, ht1⟩) (fun _ _ _ => trivial)
    fun _ _ _ => trivial
  exact .updated hlater.bundle hlater.plan (hq.same ▸ ht.2)

theorem safe_update (hdone : done = recorded tr) :
    Safe (history (Allowed cx askedByUpdate)) (fun _ _ => True) (fun _ _ => True) (update cx done) tr := by
  unfold update
  rw [safe_bind]
  refine safe_mono (safe_bundleStep hdone) (fun r t ht => ?_) fun _ _ _ => trivial
  obtain ⟨sha256, done'⟩ := r
  obtain ⟨rfl, hbundle⟩ := ht
  dsimp only at hbundle ⊢
  rw [safe_bind]
  have hopen : Safe (history (Allowed cx askedByUpdate))
      (fun summary t' => Quiet t t' ∧ Opened sha256 summary t') (fun _ _ => True) (openBundle sha256) t := by
    unfold openBundle
    rw [safe_bind]
    refine safe_askFree trivial (Quiet.refl t) fun answer hanswer => ?_
    cases answer with
    | error e => trivial
    | ok summary => exact ⟨hanswer, List.mem_append_right _ (List.mem_singleton.mpr rfl)⟩
  refine safe_mono hopen (fun summary t' ht' => ?_) fun _ _ _ => trivial
  obtain ⟨hq, hopened⟩ := ht'
  split
  · rename_i stopped hstopped
    refine safe_offerRollback hq.same.symm ⟨hq.same ▸ hbundle, ?_⟩
    rw [hq.same, hstopped]
    rfl
  · rename_i hgoing
    split
    · rename_i plan hplan
      exact safe_installPlanned hq.same.symm ⟨hq.same ▸ hbundle, hopened, hq.same ▸ hgoing, hq.same ▸ hplan⟩
    · rename_i hnone
      rw [safe_bind]
      refine safe_mono (safe_makePlan hopened (hq.same ▸ hnone)) (fun r t1 ht1 => ?_) fun _ _ _ => trivial
      cases r with
      | none => trivial
      | some plan =>
        obtain ⟨hq1, hplanned⟩ := ht1 plan rfl
        have hsame := (hq.trans hq1).same
        dsimp only
        rw [safe_bind]
        refine safe_record hsame.symm (fun _ => ⟨hsame ▸ hnone, sha256, summary, hsame ▸ hbundle, hplanned⟩)
          fun hrecorded => ?_
        refine safe_installPlanned hrecorded.symm ⟨?_, ?_, ?_, ?_⟩
        · rw [hrecorded, hsame]
          exact hbundle
        · exact hplanned.opened.mono (List.prefix_append _ _)
        · rw [hrecorded, hsame]
          exact hgoing
        · rw [hrecorded]
          rfl

theorem safe_chooseRollback :
    Safe (history (Allowed cx asked)) (fun r t => Quiet tr t ∧ Ordered cx r.2) (fun _ _ => True)
      (chooseRollback cx) tr := by
  unfold chooseRollback
  rw [safe_bind]
  refine safe_mono (safe_states (Quiet.refl tr)) (fun states t ht => ?_) fun _ _ _ => trivial
  dsimp only
  split
  · trivial
  · rw [safe_bind]
    refine safe_mono (safe_free (calls_orFail (calls_ask trivial)) ht.1) (fun chosen t1 ht1 => ?_)
      fun _ _ _ => trivial
    split
    · trivial
    · rename_i o _
      rw [safe_bind]
      refine safe_mono (safe_free (calls_orFail (calls_ask trivial)) ht1) (fun confirmed t2 ht2 => ?_)
        fun _ _ _ => trivial
      split
      · trivial
      · exact ⟨ht2, ordered_filter _ _⟩

theorem safe_rollback (hdone : done = recorded tr) :
    Safe (history (Allowed cx askedByRollback)) (fun _ _ => True) (fun _ _ => True) (rollback cx done) tr := by
  subst hdone
  unfold rollback
  split
  · rename_i sha256 hosts hplan
    rw [safe_bind]
    exact safe_mono (safe_rollBack lasts_rollback rfl hplan) (fun _ _ _ => trivial) fun _ _ _ => trivial
  · rename_i hnone
    rw [safe_bind]
    refine safe_mono safe_chooseRollback (fun r t ht => ?_) fun _ _ _ => trivial
    obtain ⟨sha256, hosts⟩ := r
    dsimp only
    rw [safe_bind]
    refine safe_record ht.1.same.symm (fun _ => ⟨ht.1.same ▸ hnone, ht.2⟩) fun hrecorded => ?_
    rw [safe_bind]
    refine safe_mono (safe_rollBack lasts_rollback hrecorded.symm ?_) (fun _ _ _ => trivial) fun _ _ _ => trivial
    rw [hrecorded]
    rfl

theorem UpdateJob.kept (h : UpdateJob cx tr) : Kept (Allowed cx askedByUpdate) tr :=
  Resumed.kept (fun _ _ => safe_update rfl) h

theorem RollbackJob.kept (h : RollbackJob cx tr) : Kept (Allowed cx askedByRollback) tr :=
  Resumed.kept (fun _ _ => safe_rollback rfl) h

/-! ## What a trace keeps -/

section

variable {asked : Asked}

theorem recordedBy_cases (e : Base.Event Call Reply) :
    recordedBy e = none ∨ ∃ checkpoint, e = ⟨.record checkpoint, .ok ()⟩ := by
  obtain ⟨c, r⟩ := e
  cases c with
  | record checkpoint =>
    cases r with
    | ok a => exact .inr ⟨checkpoint, rfl⟩
    | error stop => exact .inl rfl
  | _ => exact .inl rfl

theorem lasts_of_records {P : Done → Prop}
    (hstep : ∀ tr checkpoint, MayRecord cx asked tr checkpoint → P (recorded tr) →
      P (checkpoint :: recorded tr))
    (hk : Kept (Allowed cx asked) tr') (hle : tr <+: tr') (h : P (recorded tr)) : P (recorded tr') := by
  obtain ⟨rest, rfl⟩ := hle
  induction rest using List.reverseRecOn with
  | nil => rwa [List.append_nil]
  | append_singleton rest e ih =>
    rw [← List.append_assoc] at hk ⊢
    have hbefore := ih hk.before
    have hallowed := hk (tr ++ rest) e [] rfl
    rw [recorded_snoc]
    rcases recordedBy_cases e with hnone | ⟨checkpoint, rfl⟩
    · rwa [hnone]
    · exact hstep _ checkpoint hallowed hbefore

theorem bundle_lasts (hk : Kept (Allowed cx asked) tr') (hle : tr <+: tr')
    (h : (recorded tr).bundle = some sha256) : (recorded tr').bundle = some sha256 := by
  refine lasts_of_records (P := fun done => done.bundle = some sha256) (fun tr c hc h => ?_) hk hle h
  cases c with
  | bundle sha256' => exact absurd (h.symm.trans hc) nofun
  | _ => exact h

theorem plan_lasts (hk : Kept (Allowed cx asked) tr') (hle : tr <+: tr')
    (h : (recorded tr).plan = some plan) : (recorded tr').plan = some plan := by
  refine lasts_of_records (P := fun done => done.plan = some plan) (fun tr c hc h => ?_) hk hle h
  cases c with
  | plan plan' => exact absurd (h.symm.trans hc.1) nofun
  | _ => exact h

theorem isUpdated_lasts (hk : Kept (Allowed cx asked) tr') (hle : tr <+: tr')
    (h : (recorded tr).isUpdated host = true) : (recorded tr').isUpdated host = true := by
  refine lasts_of_records (P := fun done => done.isUpdated host = true) (fun tr c _ h => ?_) hk hle h
  cases c with
  | updated host' atMs => rw [isUpdated_cons, h, Bool.or_true]
  | _ => exact h

theorem rolledBack_lasts (hk : Kept (Allowed cx asked) tr') (hle : tr <+: tr')
    (h : (recorded tr).rolledBack host ≠ none) : (recorded tr').rolledBack host ≠ none := by
  refine lasts_of_records (P := fun done => done.rolledBack host ≠ none) (fun tr c _ h => ?_) hk hle h
  cases c with
  | rolledBack host' version =>
    rw [rolledBack_cons]
    split
    · exact nofun
    · exact h
  | _ => exact h

theorem exists_record {checkpoint : Checkpoint} (h : checkpoint ∈ recorded tr) :
    ∃ before after, tr = before ++ ⟨.record checkpoint, .ok ()⟩ :: after := by
  obtain ⟨e, he, hrecorded⟩ := List.mem_filterMap.mp (List.mem_reverse.mp h)
  rcases recordedBy_cases e with hnone | ⟨checkpoint', rfl⟩
  · rw [hnone] at hrecorded
    cases hrecorded
  · cases hrecorded
    exact List.append_of_mem he

theorem allowed_of_recorded {checkpoint : Checkpoint} (hk : Kept (Allowed cx asked) tr)
    (h : checkpoint ∈ recorded tr) : ∃ before, before <+: tr ∧ MayRecord cx asked before checkpoint := by
  obtain ⟨before, after, rfl⟩ := exists_record h
  exact ⟨before, List.prefix_append _ _, hk before _ after rfl⟩

theorem plan_mem (h : done.plan = some plan) : .plan plan ∈ done := by
  obtain ⟨c, hc, hplan⟩ := List.exists_of_findSome?_eq_some h
  cases c with
  | plan plan' =>
    cases hplan
    exact hc
  | _ => cases hplan

theorem isUpdated_mem (h : done.isUpdated host = true) : ∃ atMs, .updated host atMs ∈ done := by
  obtain ⟨c, hc, hhost⟩ := List.any_eq_true.mp h
  cases c with
  | updated host' atMs =>
    obtain rfl := of_decide_eq_true hhost
    exact ⟨atMs, hc⟩
  | _ => cases hhost

theorem Planned.mono (h : Planned cx sha256 summary plan tr) (hle : tr <+: tr') :
    Planned cx sha256 summary plan tr' := by
  obtain ⟨states, hsurveyed, hmembers, hnewer⟩ := h.surveyed
  obtain ⟨schema, hread, hrange⟩ := h.schema
  exact ⟨h.opened.mono hle, h.ordered, ⟨states, hsurveyed.mono hle, hmembers, hnewer⟩, schema,
    hle.subset hread, hrange⟩

theorem planned_of_plan (hk : Kept (Allowed cx asked) tr) (hbundle : (recorded tr).bundle = some sha256)
    (h : (recorded tr).plan = some plan) : ∃ summary, Planned cx sha256 summary plan tr := by
  obtain ⟨before, hle, -, sha256', summary, hbundle', hplanned⟩ := allowed_of_recorded hk (plan_mem h)
  obtain rfl := Option.some.inj ((bundle_lasts hk hle hbundle').symm.trans hbundle)
  exact ⟨summary, hplanned.mono hle⟩

theorem found_of_updated (hk : Kept (Allowed cx asked) tr)
    (hbundle : (recorded tr).bundle = some sha256) (hplan : (recorded tr).plan = some plan)
    (h : (recorded tr).isUpdated host = true) :
    ∃ summary, Opened sha256 summary tr ∧
      FoundHealthy cx host .update summary.version plan.members tr := by
  obtain ⟨atMs, hmem⟩ := isUpdated_mem h
  obtain ⟨before, hle, sha256', summary, plan', hbundle', hopened, hplan', hfound⟩ := allowed_of_recorded hk hmem
  obtain rfl := Option.some.inj ((bundle_lasts hk hle hbundle').symm.trans hbundle)
  obtain rfl := Option.some.inj ((plan_lasts hk hle hplan').symm.trans hplan)
  exact ⟨summary, hopened.mono hle, hfound.mono hle⟩

end

end Bmac.Bmacd.Updates
