import Bmac.Bmacd.UpdateJob

/-!
# Hosts are updated one at a time

`Allowed` says what each call of an update or a rollback comes after, and each attempt of the jobs keeps to
it after whatever the attempts before it did. A host is asked to install only when the hosts before it in
the recorded list are recorded as done, and those are recorded only when they were found healthy.
-/

namespace Bmac.Bmacd.Updates

open Bmac.Base Bmac.Core Prog
open Capture (Stop)

/-! ## What a trace shows -/

def sawState (cx : Context) (host : HostSlot) (mode : InstallMode) (state : HostUpdateState) :
    Base.Event Call Reply :=
  ⟨.state host cx.job mode, .ok state⟩

/-- The host's install of the job was seen to be over. -/
inductive InstallOver (cx : Context) (host : HostSlot) (mode : InstallMode) (tr : Trace) : Prop where
  | begun {request : InstallRequest} {status : InstallStatus} : request.job = cx.job → request.mode = mode →
      (⟨.install host request, .ok status⟩ : Base.Event Call Reply) ∈ tr → status.state = .installed →
      InstallOver cx host mode tr
  | seen {state : HostUpdateState} : sawState cx host mode state ∈ tr → state.finished = true →
      InstallOver cx host mode tr

/-- The host runs the version with its services up, and reaches every other member. -/
structure Healthy (state : HostUpdateState) (host : HostSlot) (version : String) (members : List HostSlot) :
    Prop where
  version : state.version = version
  services : ∀ service ∈ state.services, service.2 = true
  reaches : ∀ m ∈ members, m ≠ host → m ∈ state.reachablePeers

def FoundHealthy (cx : Context) (host : HostSlot) (mode : InstallMode) (version : String)
    (members : List HostSlot) (tr : Trace) : Prop :=
  ∃ before state after, tr = before ++ sawState cx host mode state :: after ∧
    InstallOver cx host mode before ∧ Healthy state host version members

/-- The members were asked for their states, and these are the answers. -/
structure Surveyed (cx : Context) (mode : InstallMode) (states : List HostUpdateState) (tr : Trace) : Prop where
  answered : ∃ membership : Membership, (⟨.membership, .ok membership⟩ : Base.Event Call Reply) ∈ tr ∧
    membership.quorate = true ∧ (∀ m ∈ membership.members, m ∈ membership.online) ∧
    List.Forall₂ (fun m state => sawState cx m mode state ∈ tr) membership.members states

def Opened (sha256 : String) (summary : BundleSummary) (tr : Trace) : Prop :=
  (⟨.openBundle sha256, .ok summary⟩ : Base.Event Call Reply) ∈ tr

def SchemaRead (schema : Nat) (tr : Trace) : Prop :=
  (⟨.recordSchema, .ok schema⟩ : Base.Event Call Reply) ∈ tr

theorem problem_eq_none {state : HostUpdateState} {host : HostSlot} {version : String}
    {members : List HostSlot} :
    state.problem host version members = none ↔ Healthy state host version members := by
  unfold HostUpdateState.problem
  constructor
  · intro h
    split at h
    · cases h
    · rename_i hversion
      dsimp only at h
      split at h
      · cases h
      · rename_i hdown
        split at h
        · cases h
        · rename_i hmissing
          refine ⟨not_not.mp hversion, fun service hs => ?_, fun m hm hne => ?_⟩
          · simp only [List.isEmpty_map, Bool.not_eq_true', Bool.not_eq_false, List.isEmpty_iff,
              List.filter_eq_nil_iff] at hdown
            simpa using hdown service hs
          · simp only [Bool.not_eq_true', Bool.not_eq_false, List.isEmpty_iff, List.filter_eq_nil_iff] at hmissing
            simpa [hne] using hmissing m hm
  · intro h
    have hdown : state.services.filter (fun service => !service.2) = [] := by
      rw [List.filter_eq_nil_iff]
      intro service hs
      simp [h.services service hs]
    have hmissing : (members.filter fun m => m ≠ host && !state.reachablePeers.contains m) = [] := by
      rw [List.filter_eq_nil_iff]
      intro m hm
      by_cases hne : m = host
      · simp [hne]
      · simp [h.reaches m hm hne]
    simp only [h.version, hdown, hmissing]
    simp

/-! ## What each call comes after -/

abbrev Asked := Done → String → List HostSlot → Prop

def askedByUpdate : Asked := fun done sha256 hosts =>
  done.bundle = some sha256 ∧ done.stopped.isSome ∧ done.rollbackAsked = some (true, hosts)

def askedByRollback : Asked := fun done sha256 hosts => done.rollbackPlan = some (sha256, hosts)

/-- No host twice, and the job's own host last. -/
def Ordered (cx : Context) (hosts : List HostSlot) : Prop :=
  hosts.Nodup ∧ ∀ before after, hosts = before ++ cx.me :: after → after = []

structure MayUpdate (tr : Trace) (host : HostSlot) (sha256 : String) : Prop where
  bundle : (recorded tr).bundle = some sha256
  going : (recorded tr).stopped = none
  turn : ∃ plan before after, (recorded tr).plan = some plan ∧ plan.hosts = before ++ host :: after ∧
    (recorded tr).isUpdated host = false ∧ ∀ h ∈ before, (recorded tr).isUpdated h = true

structure MayRollBack (cx : Context) (asked : Asked) (tr : Trace) (host : HostSlot) (sha256 : String) :
    Prop where
  /-- The host was seen to run the bundle and to keep one before it. -/
  keeps : ∃ state, sawState cx host .rollback state ∈ tr ∧ state.runs sha256 = true ∧
    state.installed.previous.isSome
  turn : ∃ hosts before after, asked (recorded tr) sha256 hosts ∧ hosts = before ++ host :: after ∧
    (recorded tr).rolledBack host = none ∧ ∀ h ∈ before, (recorded tr).rolledBack h ≠ none

/-- Why the cluster's record schema may be set to that of the bundle. -/
inductive Ready (cx : Context) (sha256 : String) (summary : BundleSummary) (tr : Trace) : Prop where
  | updated {plan : Plan} : (recorded tr).bundle = some sha256 → (recorded tr).plan = some plan →
      (∀ h ∈ plan.hosts, (recorded tr).isUpdated h = true) → Ready cx sha256 summary tr
  /-- there was nothing to update -/
  | current {states : List HostUpdateState} : (recorded tr).plan = none →
      Surveyed cx .update states tr →
      (∀ s ∈ states, ∃ s' ∈ states, s'.host = s.host ∧ s'.isCurrent summary sha256 = true) →
      Ready cx sha256 summary tr

def MaySet (cx : Context) (tr : Trace) (schema : Nat) : Prop :=
  ∃ sha256 summary before cluster, Opened sha256 summary tr ∧ Ready cx sha256 summary tr ∧
    tr = before ++ [⟨.recordSchema, .ok cluster⟩] ∧ schema = max summary.recordSchema cluster

/-- The checks that a plan is made after. -/
structure Planned (cx : Context) (sha256 : String) (summary : BundleSummary) (plan : Plan) (tr : Trace) :
    Prop where
  opened : Opened sha256 summary tr
  ordered : Ordered cx plan.hosts
  surveyed : ∃ states, Surveyed cx .update states tr ∧ (∀ s ∈ states, s.host ∈ plan.members) ∧
    ∀ s ∈ states, older cx summary.version s.version = false
  schema : ∃ schema, SchemaRead schema tr ∧ summary.readsRecordSchemaFrom ≤ schema ∧
    schema ≤ summary.recordSchema

def MayRecord (cx : Context) (asked : Asked) (tr : Trace) : Checkpoint → Prop
  | .bundle _ => (recorded tr).bundle = none
  | .plan plan => (recorded tr).plan = none ∧
      ∃ sha256 summary, (recorded tr).bundle = some sha256 ∧ Planned cx sha256 summary plan tr
  | .updated host _ => ∃ sha256 summary plan, (recorded tr).bundle = some sha256 ∧
      Opened sha256 summary tr ∧ (recorded tr).plan = some plan ∧
      FoundHealthy cx host .update summary.version plan.members tr
  | .stopped _ _ => (recorded tr).stopped = none
  | .rollbackAsked _ hosts => (recorded tr).rollbackAsked = none ∧ Ordered cx hosts
  | .rolledBack host (some version) => ∃ membership : Membership,
      (⟨.membership, .ok membership⟩ : Base.Event Call Reply) ∈ tr ∧
        FoundHealthy cx host .rollback version membership.members tr
  | .rolledBack host none => ∃ sha256 hosts state, asked (recorded tr) sha256 hosts ∧
      sawState cx host .rollback state ∈ tr ∧ state.finished = false ∧
      (state.runs sha256 = true → state.installed.previous = none)
  | .rollbackPlan _ hosts => (recorded tr).rollbackPlan = none ∧ Ordered cx hosts

def Allowed (cx : Context) (asked : Asked) (tr : Trace) : Call → Prop
  | .record checkpoint => MayRecord cx asked tr checkpoint
  | .install host request => request.job = cx.job ∧
      (request.mode = .update → MayUpdate tr host request.sha256) ∧
      (request.mode = .rollback → MayRollBack cx asked tr host request.sha256)
  | .setRecordSchema schema => MaySet cx tr schema
  | _ => True

def Free : Call → Prop
  | .record _ => False
  | .install _ _ => False
  | .setRecordSchema _ => False
  | _ => True

variable {c : Call}

theorem Free.allowed {cx : Context} {asked : Asked} {tr : Trace} (h : Free c) :
    Allowed cx asked tr c := by
  cases c <;> first | exact h.elim | exact trivial

/-! ## Longer traces -/

theorem recorded_snoc (tr : Trace) (e : Base.Event Call Reply) :
    recorded (tr ++ [e]) = (recordedBy e).toList ++ recorded tr := by
  cases h : recordedBy e <;> simp [recorded, h]

theorem recordedBy_free (h : Free c) (r : Reply c) : recordedBy ⟨c, r⟩ = none := by
  cases c <;> first | exact h.elim | rfl

/-- The trace grew, and the checkpoints are the same. -/
structure Quiet (tr tr' : Trace) : Prop where
  grew : tr <+: tr'
  same : recorded tr' = recorded tr

namespace Quiet

variable {tr tr' tr'' : Trace}

theorem refl (tr : Trace) : Quiet tr tr := ⟨List.prefix_refl tr, rfl⟩

theorem trans (h : Quiet tr tr') (h' : Quiet tr' tr'') : Quiet tr tr'' :=
  ⟨h.grew.trans h'.grew, h'.same.trans h.same⟩

theorem snoc {e : Base.Event Call Reply} (h : Quiet tr tr') (he : recordedBy e = none) : Quiet tr (tr' ++ [e]) := by
  refine ⟨h.grew.trans (List.prefix_append _ _), ?_⟩
  rw [recorded_snoc, he, Option.toList_none, List.nil_append, h.same]

end Quiet

section

variable {cx : Context} {host : HostSlot} {mode : InstallMode} {version sha256 : String}
  {members : List HostSlot} {tr tr' : Trace}

theorem InstallOver.mono (h : InstallOver cx host mode tr) (hle : tr <+: tr') :
    InstallOver cx host mode tr' := by
  cases h with
  | begun hjob hmode hmem hstate => exact .begun hjob hmode (hle.subset hmem) hstate
  | seen hmem hfinished => exact .seen (hle.subset hmem) hfinished

theorem FoundHealthy.mono (h : FoundHealthy cx host mode version members tr) (hle : tr <+: tr') :
    FoundHealthy cx host mode version members tr' := by
  obtain ⟨before, state, after, rfl, hover, hhealthy⟩ := h
  obtain ⟨rest, rfl⟩ := hle
  exact ⟨before, state, after ++ rest, by simp, hover, hhealthy⟩

theorem Surveyed.mono {states : List HostUpdateState} (h : Surveyed cx mode states tr) (hle : tr <+: tr') :
    Surveyed cx mode states tr' := by
  obtain ⟨membership, hmem, hquorate, honline, hstates⟩ := h.answered
  exact ⟨membership, hle.subset hmem, hquorate, honline, hstates.imp fun _ _ hs => hle.subset hs⟩

theorem Opened.mono {summary : BundleSummary} (h : Opened sha256 summary tr) (hle : tr <+: tr') :
    Opened sha256 summary tr' :=
  hle.subset h

/-! ## The parts of one host -/

variable {α : Type} {asked : Asked} {start : Trace}

theorem safe_free {ε : Type} {p : Prog Call Reply ε α} (hp : Calls Free p) (h : Quiet start tr) :
    Safe (history (Allowed cx asked)) (fun _ => Quiet start) (fun _ => Quiet start) p tr :=
  history_calls hp (fun _ _ hc => hc.allowed) (fun _ _ r hc hq => hq.snoc (recordedBy_free hc r)) h

theorem safe_asked {Q : α → Trace → Prop} {E : String → Trace → Prop} {p : Attempt (Except String α)}
    (h : Safe (history (Allowed cx asked))
      (fun y t => (∀ a, y = .ok a → Q a t) ∧ ∀ e, y = .error e → E e t) E p tr) :
    Safe (history (Allowed cx asked)) Q E (Updates.asked p) tr :=
  safe_orFail.mpr h

theorem safe_failing {Q : α → Trace → Prop} {p : Attempt α}
    (h : Safe (history (Allowed cx asked)) Q (fun _ _ => True) p tr) :
    Safe (history (Allowed cx asked)) Q (fun _ _ => True) (failing p) tr := by
  unfold failing
  rw [safe_bind, safe_attempt]
  exact safe_mono h (fun _ _ hq => hq) fun _ _ _ => trivial

section

variable {P : Call → Prop}

theorem calls_sleep (hcheck : P .check) : Calls P sleep := by
  refine calls_bind (calls_ask hcheck) fun r => ?_
  cases r with
  | ok a => trivial
  | error e => trivial

theorem calls_drainPolled (hcheck : P .check) (hinstant : P .instant) (hleft : P (.haResourcesOn host))
    (deadline polls : Nat) : Calls P (drainPolled cx host deadline polls) := by
  have hlook : Calls P (Updates.asked (Cluster.haResourcesOn host)) := calls_orFail (calls_ask hleft)
  induction polls with
  | zero =>
    refine calls_bind hlook fun left => ?_
    split <;> trivial
  | succ polls ih =>
    refine calls_bind hlook fun left => ?_
    split
    · trivial
    · refine calls_bind (calls_ask hinstant) fun now => ?_
      split
      · trivial
      · exact calls_bind (calls_sleep hcheck) fun _ => ih

theorem calls_drain (hcheck : P .check) (hinstant : P .instant) (hleft : P (.haResourcesOn host))
    (hon : P (.maintenance host true)) : Calls P (drain cx host) :=
  calls_bind (calls_orFail (calls_ask hon)) fun _ =>
    calls_bind (calls_ask hinstant) fun _ => calls_drainPolled hcheck hinstant hleft _ _

end

theorem free_onlyIf {cond : Bool} {part : Attempt Unit} (h : Calls Free part) : Calls Free (onlyIf cond part) := by
  cases cond with
  | true => exact h
  | false => trivial

theorem free_expectRestart : Calls Free expectRestart := by
  refine calls_bind (calls_ask trivial) fun r => ?_
  cases r with
  | ok a => trivial
  | error e => trivial

variable {status : Option InstallStatus}

theorem verdict_ok (h : verdict status = some (.ok ())) :
    ∃ st, status = some st ∧ st.state = .installed := by
  cases status with
  | none => cases h
  | some st =>
    refine ⟨st, rfl, ?_⟩
    unfold verdict at h
    dsimp only at h
    split at h
    · assumption
    · split at h <;> cases h
    · cases h

/-- A free call: what comes after it starts from a trace that grew. -/
theorem safe_askFree {ε : Type} {T : Reply c → Trace → Prop} {E : ε → Trace → Prop} (hc : Free c)
    (h : Quiet start tr) (hT : ∀ r, Quiet start (tr ++ [⟨c, r⟩]) → T r (tr ++ [⟨c, r⟩])) :
    Safe (history (Allowed cx asked)) T E (ask c : Prog Call Reply ε (Reply c)) tr :=
  history_ask (fun _ => hc.allowed) fun r => hT r (h.snoc (recordedBy_free hc r))

theorem safe_verdict {outcome : Except String Unit}
    (hv : verdict status = some outcome) (h : Quiet start tr)
    (hstatus : ∀ st, status = some st → st.state = .installed → InstallOver cx host mode tr) :
    Safe (history (Allowed cx asked)) (fun _ t => Quiet start t ∧ InstallOver cx host mode t)
      (fun _ t => Quiet start t) (ofExcept outcome : Attempt Unit) tr := by
  cases outcome with
  | error e => exact h
  | ok a =>
    obtain ⟨st, hst, hinstalled⟩ := verdict_ok hv
    exact ⟨h, hstatus st hst hinstalled⟩

/-- The wait ends well only with a status that says so. -/
theorem safe_installPolled (deadline polls : Nat) {lastError : String}
    (h : Quiet start tr) (hstatus : ∀ st, status = some st → st.state = .installed → InstallOver cx host mode tr) :
    Safe (history (Allowed cx asked)) (fun _ t => Quiet start t ∧ InstallOver cx host mode t)
      (fun _ t => Quiet start t) (installPolled cx host mode deadline polls status lastError) tr := by
  induction polls generalizing tr status lastError with
  | zero =>
    unfold installPolled
    split
    · rename_i outcome hv
      exact safe_verdict hv h hstatus
    · exact h
  | succ polls ih =>
    unfold installPolled
    split
    · rename_i outcome hv
      exact safe_verdict hv h hstatus
    · rw [safe_bind]
      refine safe_askFree trivial h fun now hnow => ?_
      split
      · exact hnow
      · rw [safe_bind]
        have hslept : tr <+: tr ++ [⟨.instant, now⟩] := List.prefix_append _ _
        refine safe_mono (safe_free (calls_sleep trivial) (Quiet.refl _)) (fun _ t ht => ?_)
          fun _ _ ht => hnow.trans ht
        rw [safe_bind]
        refine safe_askFree trivial (hnow.trans ht) fun answer hanswer => ?_
        cases answer with
        | ok state =>
          have hmem : sawState cx host mode state ∈ t ++ [sawState cx host mode state] :=
            List.mem_append_right _ (List.mem_singleton.mpr rfl)
          refine ih hanswer fun st hst hinstalled => .seen hmem ?_
          simp [HostUpdateState.finished, hst, hinstalled]
        | error e =>
          refine ih hanswer fun st hst hinstalled => (hstatus st hst hinstalled).mono ?_
          exact (hslept.trans ht.grew).trans (List.prefix_append _ _)

theorem safe_awaitInstall {first : InstallStatus} (h : Quiet start tr)
    (hfirst : first.state = .installed → InstallOver cx host mode tr) :
    Safe (history (Allowed cx asked)) (fun _ t => Quiet start t ∧ InstallOver cx host mode t)
      (fun _ t => Quiet start t) (awaitInstall cx host mode first) tr := by
  unfold awaitInstall
  rw [safe_bind]
  refine safe_askFree trivial h fun now hnow => safe_installPolled _ _ hnow ?_
  rintro st hst hinstalled
  cases hst
  exact (hfirst hinstalled).mono (List.prefix_append _ _)

/-- Of two looks at a host, the one that finds no problem is in the trace. -/
theorem safe_healthProblem (h : Quiet start tr) (hover : InstallOver cx host mode tr) :
    Safe (history (Allowed cx asked))
      (fun problem t => Quiet start t ∧ InstallOver cx host mode t ∧
        (problem = none → FoundHealthy cx host mode version members t))
      (fun _ t => Quiet start t) (healthProblem cx host mode version members) tr := by
  unfold healthProblem
  rw [safe_bind]
  refine safe_askFree trivial h fun answer hanswer => ?_
  have hlater := hover.mono (List.prefix_append tr [⟨.state host cx.job mode, answer⟩])
  cases answer with
  | error e => exact ⟨hanswer, hlater, nofun⟩
  | ok state => exact ⟨hanswer, hlater, fun hnone => ⟨tr, state, [], rfl, hover, problem_eq_none.mp hnone⟩⟩

theorem safe_healthPolled (deadline polls : Nat) (h : Quiet start tr) (hover : InstallOver cx host mode tr) :
    Safe (history (Allowed cx asked))
      (fun _ t => Quiet start t ∧ FoundHealthy cx host mode version members t) (fun _ t => Quiet start t)
      (healthPolled cx host mode version members deadline polls) tr := by
  induction polls generalizing tr with
  | zero =>
    unfold healthPolled
    rw [safe_bind]
    refine safe_mono (safe_healthProblem h hover) (fun problem t ht => ?_) fun _ _ ht => ht
    cases problem with
    | none => exact ⟨ht.1, ht.2.2 rfl⟩
    | some problem => exact ht.1
  | succ polls ih =>
    unfold healthPolled
    rw [safe_bind]
    refine safe_mono (safe_healthProblem h hover) (fun problem t ht => ?_) fun _ _ ht => ht
    obtain ⟨hquiet, hover', hhealthy⟩ := ht
    cases problem with
    | none => exact ⟨hquiet, hhealthy rfl⟩
    | some problem =>
      dsimp only
      rw [safe_bind]
      refine safe_askFree trivial hquiet fun now hnow => ?_
      split
      · exact hnow
      · have hlater := hover'.mono (List.prefix_append t [⟨.instant, now⟩])
        rw [safe_bind]
        refine safe_mono (safe_free (calls_sleep trivial) (Quiet.refl _)) (fun _ t' ht' => ?_)
          fun _ _ ht' => hnow.trans ht'
        exact ih (hnow.trans ht') (hlater.mono ht'.grew)

theorem safe_awaitHealth (h : Quiet start tr) (hover : InstallOver cx host mode tr) :
    Safe (history (Allowed cx asked))
      (fun _ t => Quiet start t ∧ FoundHealthy cx host mode version members t) (fun _ t => Quiet start t)
      (awaitHealth cx host mode version members) tr := by
  unfold awaitHealth
  rw [safe_bind]
  refine safe_askFree trivial h fun now hnow => safe_healthPolled _ _ hnow ?_
  exact hover.mono (List.prefix_append _ _)

/-- The install may be asked for as long as the checkpoints are as at the start. -/
def MayInstall (cx : Context) (asked : Asked) (start : Trace) (host : HostSlot) (mode : InstallMode)
    (sha256 : String) : Prop :=
  ∀ t, Quiet start t → Allowed cx asked t (.install host { job := cx.job, mode, sha256 })

theorem safe_installOn (hmay : MayInstall cx asked start host mode sha256) (h : Quiet start tr) :
    Safe (history (Allowed cx asked))
      (fun _ t => Quiet start t ∧ FoundHealthy cx host mode version members t) (fun _ t => Quiet start t)
      (installOn cx host mode sha256 version members) tr := by
  unfold installOn
  rw [safe_bind]
  refine safe_asked (history_ask (fun _ => hmay tr h) fun answer => ⟨fun first hfirst => ?_, fun e _ => ?_⟩)
  · subst hfirst
    rw [safe_bind]
    refine safe_mono (safe_awaitInstall (h.snoc rfl) fun hinstalled => ?_) (fun _ t ht => ?_) fun _ _ ht => ht
    · have hmem : (⟨.install host { job := cx.job, mode, sha256 }, .ok first⟩ : Base.Event Call Reply) ∈
          tr ++ [⟨.install host { job := cx.job, mode, sha256 }, .ok first⟩] :=
        List.mem_append_right _ (List.mem_singleton.mpr rfl)
      exact .begun rfl rfl hmem hinstalled
    · exact safe_awaitHealth ht.1 ht.2
  · exact h.snoc rfl

/-- A host that `oneHost` returns for was found healthy. -/
theorem safe_oneHost {migrate : Bool} (hmay : MayInstall cx asked start host mode sha256)
    (h : Quiet start tr) :
    Safe (history (Allowed cx asked))
      (fun _ t => Quiet start t ∧ FoundHealthy cx host mode version members t) (fun _ t => Quiet start t)
      (oneHost cx host mode sha256 version members migrate) tr := by
  have hafter : ∀ {cond : Bool} {c : Call} {t : Trace}, Free c → Quiet start t →
      Safe (history (Allowed cx asked)) (fun _ t' => Quiet start t' ∧ t <+: t') (fun _ t' => Quiet start t')
        (onlyIf cond do
          let _ ← (ask c : Attempt (Reply c))
          return ()) t := by
    intro cond c t hc ht
    refine safe_mono (safe_free (free_onlyIf (calls_bind (calls_ask hc) fun _ => trivial)) (Quiet.refl t))
      (fun _ t' ht' => ⟨ht.trans ht', ht'.grew⟩) fun _ _ ht' => ht.trans ht'
  unfold oneHost
  dsimp only
  rw [safe_bind]
  have hdrain : Calls Free (drain cx host) := calls_drain trivial trivial trivial trivial
  refine safe_mono (safe_free (free_onlyIf hdrain) h) (fun _ t1 h1 => ?_) fun _ _ ht => ht
  rw [safe_bind]
  refine safe_mono (safe_free (free_onlyIf free_expectRestart) h1) (fun _ t2 h2 => ?_) fun _ _ ht => ht
  rw [safe_bind, safe_attempt]
  have hends : ∀ (outcome : Except String Unit) (t : Trace), Quiet start t →
      (outcome = .ok () → FoundHealthy cx host mode version members t) →
      Safe (history (Allowed cx asked))
        (fun _ t => Quiet start t ∧ FoundHealthy cx host mode version members t) (fun _ t => Quiet start t)
        (do
          onlyIf (host = cx.me) do
            let _ ← Flow.clearServiceRestart
            return ()
          onlyIf migrate do
            let _ ← Cluster.maintenance host false
            return ()
          ofExcept outcome) t := by
    intro outcome t ht hok
    rw [safe_bind]
    refine safe_mono (hafter trivial ht) (fun _ t3 h3 => ?_) fun _ _ ht => ht
    rw [safe_bind]
    refine safe_mono (hafter trivial h3.1) (fun _ t4 h4 => ?_) fun _ _ ht => ht
    cases outcome with
    | ok a => exact ⟨h4.1, (hok rfl).mono (h3.2.trans h4.2)⟩
    | error e => exact h4.1
  refine safe_mono (safe_installOn hmay h2) (fun _ t ht => ?_) fun e t ht => ?_
  · exact hends (.ok ()) t ht.1 fun _ => ht.2
  · exact hends (.error e) t ht nofun

/-! ## Checkpoints and the members' states -/

theorem safe_record {Q : Done → Trace → Prop} {done : Done} {checkpoint : Checkpoint} (hdone : done = recorded tr)
    (hmay : Kept (Allowed cx asked) tr → MayRecord cx asked tr checkpoint)
    (hQ : recorded (tr ++ [⟨.record checkpoint, .ok ()⟩]) = checkpoint :: recorded tr →
      Q (checkpoint :: recorded tr) (tr ++ [⟨.record checkpoint, .ok ()⟩])) :
    Safe (history (Allowed cx asked)) Q (fun _ _ => True) (record done checkpoint) tr := by
  subst hdone
  unfold record
  rw [safe_bind]
  refine safe_orFail.mpr (history_ask hmay fun answer => ⟨fun a ha => ?_, fun _ _ => trivial⟩)
  subst ha
  exact hQ (recorded_snoc _ _)

theorem safe_askStates (hosts : List HostSlot) (h : Quiet start tr) :
    Safe (history (Allowed cx asked))
      (fun r t => Quiet start t ∧
        (r.2 = [] → List.Forall₂ (fun m state => sawState cx m mode state ∈ t) hosts r.1))
      (fun _ _ => True) (askStates cx mode hosts) tr := by
  induction hosts generalizing tr start with
  | nil => exact ⟨h, fun _ => .nil⟩
  | cons host rest ih =>
    unfold askStates
    rw [safe_bind]
    refine safe_askFree trivial h fun answer hanswer => ?_
    rw [safe_bind]
    have hrest : ∀ t, tr ++ [⟨.state host cx.job mode, answer⟩] <+: t →
        (⟨.state host cx.job mode, answer⟩ : Base.Event Call Reply) ∈ t :=
      fun t hle => hle.subset (List.mem_append_right _ (List.mem_singleton.mpr rfl))
    refine safe_mono (ih (Quiet.refl _)) (fun r t ht => ?_) fun _ _ _ => trivial
    obtain ⟨hquiet, hstates⟩ := ht
    cases answer with
    | error e => exact ⟨hanswer.trans hquiet, nofun⟩
    | ok state => exact ⟨hanswer.trans hquiet, fun hnone => .cons (hrest t hquiet.grew) (hstates hnone)⟩

theorem safe_states (h : Quiet start tr) :
    Safe (history (Allowed cx asked)) (fun states t => Quiet start t ∧ Surveyed cx mode states t)
      (fun _ _ => True) (states cx mode) tr := by
  unfold states
  rw [safe_bind]
  refine safe_failing (safe_asked (history_ask (fun _ => trivial) fun answer =>
    ⟨fun membership hm => ?_, fun _ _ => trivial⟩))
  subst hm
  split
  · trivial
  · rename_i hquorate
    dsimp only
    split
    · trivial
    · rename_i hoffline
      rw [safe_bind]
      refine safe_mono (safe_askStates membership.members (Quiet.refl _)) (fun r t ht => ?_) fun _ _ _ => trivial
      obtain ⟨hquiet, hstates⟩ := ht
      obtain ⟨states, unreachable⟩ := r
      dsimp only
      split
      · trivial
      · rename_i hnone
        simp only [Bool.not_eq_true', Bool.not_eq_false, List.isEmpty_iff] at hquorate hoffline hnone
        refine ⟨(h.snoc rfl).trans hquiet, ⟨membership, ?_, hquorate, fun m hm => ?_, hstates hnone⟩⟩
        · exact hquiet.grew.subset (List.mem_append_right _ (List.mem_singleton.mpr rfl))
        · simpa using List.filter_eq_nil_iff.mp hoffline m hm

theorem mem_order {hosts : List HostSlot} {me h : HostSlot} : h ∈ order hosts me ↔ h ∈ hosts ∨ h = me := by
  by_cases hme : h = me <;> simp [order, hme]

/-- The others in any order, and then the job's own host or nothing. -/
theorem ordered_of {others last : List HostSlot} (hnodup : others.Nodup) (hme : cx.me ∉ others)
    (hlast : last = [] ∨ last = [cx.me]) : Ordered cx (others ++ last) := by
  rcases hlast with rfl | rfl
  · refine ⟨by simpa using hnodup, fun before after heq => absurd ?_ hme⟩
    rw [List.append_nil] at heq
    exact heq ▸ by simp
  · refine ⟨List.nodup_append.mpr ⟨hnodup, List.nodup_singleton _, ?_⟩, fun before after heq => ?_⟩
    · rintro h hh h' hh' rfl
      exact hme (List.mem_singleton.mp hh' ▸ hh)
    · rcases List.eq_nil_or_concat after with rfl | ⟨after, h, rfl⟩
      · rfl
      · have hcut : others ++ [cx.me] = (before ++ cx.me :: after) ++ [h] := by
          rw [heq, List.concat_eq_append, List.append_assoc, List.cons_append]
        obtain ⟨rfl, -⟩ := List.append_inj' hcut rfl
        exact absurd (by simp) hme

theorem ordered_filter (hosts : List HostSlot) (p : HostSlot → Bool) :
    Ordered cx ((order hosts cx.me).filter p) := by
  unfold order
  rw [List.filter_append]
  refine ordered_of ((List.nodup_dedup _).filter _) (fun hme => ?_) ?_
  · simp [List.mem_filter] at hme
  · by_cases hp : p cx.me <;> simp [hp]

/-! ## Rolling back -/

/-- The hosts before the next one are done with. -/
structure RollingBack (asked : Asked) (sha256 : String) (hosts before : List HostSlot)
    (membership : Membership) (tr : Trace) : Prop where
  asked : asked (recorded tr) sha256 hosts
  passed : ∀ h ∈ before, (recorded tr).rolledBack h ≠ none
  members : (⟨.membership, .ok membership⟩ : Base.Event Call Reply) ∈ tr

/-- What was asked for stays so while hosts are rolled back. -/
def Lasts (asked : Asked) : Prop :=
  ∀ done sha256 hosts h version, asked done sha256 hosts → asked (.rolledBack h version :: done) sha256 hosts

theorem lasts_update : Lasts askedByUpdate := fun _ _ _ _ _ h => h

theorem lasts_rollback : Lasts askedByRollback := fun _ _ _ _ _ h => h

theorem rolledBack_cons (done : Done) (h h' : HostSlot) (version : Option String) :
    Done.rolledBack (.rolledBack h version :: done) h' = if h = h' then some version else done.rolledBack h' := by
  by_cases hh : h = h' <;> simp [Done.rolledBack, hh]

section

variable {hosts before after rest : List HostSlot} {membership : Membership} {done : Done}

theorem RollingBack.quiet (h : RollingBack asked sha256 hosts before membership tr) (hq : Quiet tr tr') :
    RollingBack asked sha256 hosts before membership tr' :=
  ⟨hq.same ▸ h.asked, fun host hh => hq.same ▸ h.passed host hh, hq.grew.subset h.members⟩

theorem RollingBack.next {version : Option String} (h : RollingBack asked sha256 hosts before membership tr)
    (hlasts : Lasts asked) (hrecorded : recorded tr' = .rolledBack host version :: recorded tr)
    (hle : tr <+: tr') : RollingBack asked sha256 hosts (before ++ [host]) membership tr' := by
  refine ⟨hrecorded ▸ hlasts _ _ _ _ _ h.asked, fun h' hh' => ?_, hle.subset h.members⟩
  rw [hrecorded, rolledBack_cons]
  split
  · exact nofun
  · rename_i hne
    rcases List.mem_append.mp hh' with hh' | hh'
    · exact h.passed h' hh'
    · exact absurd (List.mem_singleton.mp hh').symm hne

theorem safe_rollBackHost (hlasts : Lasts asked) (hdone : done = recorded tr)
    (h : RollingBack asked sha256 hosts before membership tr) (hhosts : hosts = before ++ host :: after) :
    Safe (history (Allowed cx asked))
      (fun r t => r.2 = recorded t ∧ RollingBack asked sha256 hosts (before ++ [host]) membership t)
      (fun _ _ => True) (rollBackHost cx sha256 membership.members host done) tr := by
  have hrecord : ∀ {t : Trace} {version : Option String} {rolled : Bool}, Quiet tr t →
      MayRecord cx asked t (.rolledBack host version) →
      Safe (history (Allowed cx asked))
        (fun r t => r.2 = recorded t ∧ RollingBack asked sha256 hosts (before ++ [host]) membership t)
        (fun _ _ => True)
        (do
          let done ← record done (.rolledBack host version)
          return (rolled, done)) t := by
    intro t version rolled hq hmay
    rw [safe_bind]
    refine safe_record (hdone.trans hq.same.symm) (fun _ => hmay) fun hrecorded => ?_
    exact ⟨hrecorded.symm, (h.quiet hq).next hlasts hrecorded (List.prefix_append _ _)⟩
  subst hdone
  unfold rollBackHost
  split
  · rename_i version hpassed
    refine ⟨rfl, h.asked, fun h' hh' => ?_, h.members⟩
    rcases List.mem_append.mp hh' with hh' | hh'
    · exact h.passed h' hh'
    · rw [List.mem_singleton.mp hh', hpassed]
      exact nofun
  · rename_i hnot
    rw [safe_bind]
    refine safe_askFree trivial (Quiet.refl tr) fun answer hanswer => ?_
    cases answer with
    | error e => trivial
    | ok state =>
      have hsaw : sawState cx host .rollback state ∈ tr ++ [sawState cx host .rollback state] :=
        List.mem_append_right _ (List.mem_singleton.mpr rfl)
      dsimp only
      split
      · rename_i hprevious
        split
        · rename_i hfinished
          refine hrecord hanswer ⟨sha256, hosts, state, hanswer.same ▸ h.asked, hsaw, by simpa using hfinished, ?_⟩
          intro hruns
          rw [Option.filter_eq_none_iff] at hprevious
          exact Option.eq_none_iff_forall_not_mem.mpr fun previous hp => hprevious previous hp hruns
        · rename_i hfinished
          rw [safe_bind, safe_attempt]
          refine safe_mono (safe_awaitHealth hanswer (.seen hsaw (by simpa using hfinished)))
            (fun _ t ht => ?_) fun _ _ _ => trivial
          exact hrecord ht.1 ⟨membership, ht.1.grew.subset h.members, ht.2⟩
      · rename_i previous hprevious
        rw [Option.filter_eq_some_iff] at hprevious
        rw [safe_bind, safe_attempt]
        refine safe_mono (safe_oneHost (fun t ht => ?_) (Quiet.refl _)) (fun _ t ht => ?_) fun _ _ _ => trivial
        · refine ⟨rfl, nofun, fun _ => ⟨⟨state, ht.grew.subset hsaw, hprevious.2, by simp [hprevious.1]⟩, ?_⟩⟩
          have hsame : recorded t = recorded tr := (hanswer.trans ht).same
          rw [hsame]
          exact ⟨hosts, before, after, h.asked, hhosts, hnot, h.passed⟩
        · have hq := hanswer.trans ht.1
          exact hrecord hq ⟨membership, hq.grew.subset h.members, ht.2⟩

theorem safe_rollBackEach (hlasts : Lasts asked) (hdone : done = recorded tr)
    (h : RollingBack asked sha256 hosts before membership tr) (hhosts : hosts = before ++ rest) :
    Safe (history (Allowed cx asked)) (fun _ _ => True) (fun _ _ => True)
      (rollBackEach cx sha256 membership.members rest done) tr := by
  induction rest generalizing tr before done with
  | nil => trivial
  | cons host rest ih =>
    unfold rollBackEach
    rw [safe_bind]
    refine safe_mono (safe_rollBackHost hlasts hdone h hhosts) (fun r t ht => ?_) fun _ _ _ => trivial
    obtain ⟨rolled, done'⟩ := r
    dsimp only
    rw [safe_bind]
    refine safe_mono (ih ht.1 ht.2 (by rw [hhosts, List.append_assoc]; rfl)) (fun _ _ _ => trivial)
      fun _ _ _ => trivial

theorem safe_rollBack (hlasts : Lasts asked) (hdone : done = recorded tr)
    (h : asked (recorded tr) sha256 hosts) :
    Safe (history (Allowed cx asked)) (fun _ _ => True) (fun _ _ => True) (rollBack cx done sha256 hosts) tr := by
  subst hdone
  unfold rollBack
  rw [safe_bind]
  refine safe_failing (safe_asked (history_ask (fun _ => trivial) fun answer =>
    ⟨fun membership hm => ?_, fun _ _ => trivial⟩))
  subst hm
  have hq : Quiet tr (tr ++ [⟨.membership, .ok membership⟩]) := (Quiet.refl tr).snoc rfl
  refine safe_rollBackEach hlasts hq.same.symm ⟨hq.same.symm ▸ h, ?_, ?_⟩ (List.nil_append _).symm
  · exact fun _ hh => absurd hh List.not_mem_nil
  · exact List.mem_append_right _ (List.mem_singleton.mpr rfl)

end

end

end Bmac.Bmacd.Updates
