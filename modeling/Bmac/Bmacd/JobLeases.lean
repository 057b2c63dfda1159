import Bmac.Bmacd.JobCalls

/-!
# Leases

A claim gives a job's holder a nonce, and only it renews and finishes the job. The last lease stays
on the record through an interruption and a resume, so that a late holder can still report an
interrupted job. Once the job was put back in line, or claimed again, the earlier nonce is refused
for good.
-/

namespace Bmac.Bmacd

open Bmac.Base Bmac.Core

/-! ## What calls do to a job's lease -/

namespace Act

/-- A claim of the job that succeeded, with the nonce it drew. -/
def ClaimsWith (a : Act) (id : JobId) (nonce : String) : Prop :=
  a.call = .claim id nonce ∧ ∃ reply, a.reply = .ok reply

def Claims (a : Act) (id : JobId) : Prop := ∃ nonce, a.ClaimsWith id nonce

/-- The call wrote the job's record as waiting to start. -/
def Readmits (a : Act) (id : JobId) : Prop :=
  ∃ r, .saved r ∈ a.writes ∧ r.id = id ∧ r.state = .admitted

/-- The call interrupted the job: a sweep whose reading of the clock was at or after the lease's
end, or the restart of the lease's own holder. -/
def Interrupts (a : Act) (id : JobId) : Prop :=
  ∃ r lease, .saved r ∈ a.writes ∧ r.id = id ∧ r.state = .interrupted ∧ r.lease = some lease ∧
    ((∃ at_ seen, a.call = .sweep at_ seen ∧ lease.expiresAtMs ≤ at_) ∨
      ∃ seen, a.call = .interruptOwn seen ∧ lease.holder = a.jobs.config.host)

def Reports (a : Act) (id : JobId) (nonce : String) : Prop :=
  (∃ progress, a.call = .renew id nonce progress) ∨
    ∃ state message lastSeq, a.call = .finish id nonce state message lastSeq

end Act

def Call.nonce : Call → Option String
  | .claim _ nonce => some nonce
  | _ => none

def nonces (acts : List Act) : List String := acts.filterMap (·.call.nonce)

variable {id : JobId} {nonce : String} {a : Act} {disk disk' : Disk}

theorem mem_nonces {acts : List Act} (ha : a ∈ acts)
    (hcall : a.call = .claim id nonce) : nonce ∈ nonces acts :=
  List.mem_filterMap.mpr ⟨a, ha, by rw [hcall]; rfl⟩

theorem step_claims (h : Step disk a disk') (hc : a.ClaimsWith id nonce) :
    ∃ r r', disk id = some r ∧ Update a.jobs (.claim id nonce) r r' ∧ a.writes = [.saved r'] ∧
      disk' = (Write.saved r').apply disk := by
  obtain ⟨hcall, reply, hreply⟩ := hc
  obtain ⟨w, rfl, hwrites, hans⟩ := step_answers h hreply
  rw [hcall] at hans
  cases reply with
  | claim c =>
    obtain ⟨-, hdid, r, hr, hu⟩ := hans
    obtain ⟨ids, hids, hnil⟩ := hdid.writes
    rw [hnil rfl, List.map_nil, List.append_nil] at hids
    have hmade := hdid.made
    unfold Made at hmade
    rw [hids] at hmade
    obtain ⟨d, ⟨-, rfl⟩, hrun⟩ := Run.cons_iff.mp hmade
    exact ⟨r, c.job, hr, hu, hwrites ▸ hids, Run.nil_iff.mp hrun⟩
  | admission => exact hans.elim
  | job => exact hans.elim
  | jobs => exact hans.elim

/-! ## Between two claims -/

/-- The job isn't waiting to start, and wasn't interrupted. -/
def NotWaiting (id : JobId) (disk : Disk) : Prop :=
  ∀ r, disk id = some r → r.state ≠ .admitted ∧ r.state ≠ .interrupted

theorem NotWaiting.write {x : Write}
    (h : NotWaiting id disk) (hmakes : Makes a.jobs a.call disk x) (hx : x ∈ a.writes)
    (hadmits : ¬ a.Admits id) : NotWaiting id (x.apply disk) ∨ a.Interrupts id := by
  obtain ⟨jobs, call, faults, reply, writes⟩ := a
  cases hmakes with
  | create =>
    left
    intro r hr
    rcases Write.saved_apply_eq_some.mp hr with ⟨rfl, -⟩ | ⟨-, hr⟩
    · exact absurd ⟨_, _, _, rfl, hx⟩ hadmits
    · exact h r hr
  | prune =>
    exact .inl fun r hr => h r (Write.removed_apply_eq_some.mp hr).2
  | @update _ _ r r' hr hu =>
    by_cases hid : r.id = id
    · subst hid
      obtain ⟨hadm, hint⟩ := h r hr
      have hstays : r'.state ≠ .admitted → r'.state ≠ .interrupted →
          NotWaiting r.id ((Write.saved r').apply disk) := by
        intro h1 h2 q hq
        rcases Write.saved_apply_eq_some.mp hq with ⟨-, rfl⟩ | ⟨-, hq⟩
        · exact ⟨h1, h2⟩
        · exact h q hq
      cases hu with
      | claim hstate => exact absurd hstate hadm
      | renew _ _ hstate => exact .inl (hstays hadm hint)
      | finish _ _ _ hend =>
        exact .inl (hstays (JobState.ne_of_isTerminal hend rfl) (JobState.ne_of_isTerminal hend rfl))
      | cancelAdmitted hstate => exact absurd hstate hadm
      | cancelRunning hstate => exact .inl (hstays hadm hint)
      | resume _ _ hstate => exact absurd hstate hint
      | interruptOwn hstate hlease hholder =>
        exact .inr ⟨_, _, hx, rfl, rfl, hlease, .inr ⟨_, rfl, hholder⟩⟩
      | resumeAfterRestart _ hstate => exact absurd hstate hint
      | reconcile _ hstate => exact absurd hstate hint
      | sweepRunning hstate hlease hexpired =>
        exact .inr ⟨_, _, hx, rfl, rfl, hlease, .inl ⟨_, _, rfl, hexpired⟩⟩
      | sweepAdmitted hstate => exact absurd hstate hadm
    · left
      intro q hq
      rcases Write.saved_apply_eq_some.mp hq with ⟨he, -⟩ | ⟨-, hq⟩
      · exact absurd (hu.id_eq ▸ he.symm) hid
      · exact h q hq

/-- A claimed job is claimed again only after an interruption. -/
theorem interrupted_between {disk'' : Disk} {c c' : Act} {mid : List Act}
    (hc : Step disk c disk') (hclaim : c.Claims id) (hmid : Run Step disk' mid disk'')
    {last : Disk} (hc' : Step disk'' c' last) (hclaim' : c'.Claims id)
    (hsame : ∀ a ∈ mid, ¬ a.Admits id) : ∃ a ∈ mid, a.Interrupts id := by
  obtain ⟨nonce, hclaim⟩ := hclaim
  obtain ⟨nonce', hclaim'⟩ := hclaim'
  obtain ⟨r, r', hr, hu, -, rfl⟩ := step_claims hc hclaim
  obtain ⟨q, q', hq, hu', -, -⟩ := step_claims hc' hclaim'
  have hstart : NotWaiting id ((Write.saved r').apply disk) := by
    intro p hp
    have hid : r'.id = id := hu.id_eq.trans (step_named hc hr)
    obtain ⟨-, rfl⟩ := (Write.saved_apply_eq_some.mp hp).resolve_right fun he => he.1 hid.symm
    cases hu with
    | claim => exact ⟨nofun, nofun⟩
  have hend : ¬ NotWaiting id disk'' := by
    intro h
    cases hu' with
    | claim hstate => exact (h q hq).1 hstate
  obtain ⟨ls1, ⟨a, x⟩, ls2, s, s', hls, -, ⟨hmakes, rfl⟩, -, hI, hI'⟩ :=
    (run_writes hmid).exists_leave hstart hend
  obtain ⟨ha, hx⟩ := mem_puts.mp (hls ▸ List.mem_append_right ls1 (List.mem_cons_self ..))
  exact ⟨a, ha, (hI.write hmakes hx (hsame a ha)).resolve_left hI'⟩

/-! ## An earlier nonce -/

/-- The job's record has another nonce, or is in no state that a holder's report changes. -/
def Refuses (id : JobId) (nonce : String) (disk : Disk) : Prop :=
  ∀ r lease, disk id = some r → r.lease = some lease → lease.nonce = nonce →
    r.state ≠ .running ∧ r.state ≠ .interrupted

theorem Refuses.write {jobs : Jobs} {call : Call}
    {x : Write} (h : Refuses id nonce disk) (hmakes : Makes jobs call disk x)
    (hcall : ∀ id, call ≠ .claim id nonce) : Refuses id nonce (x.apply disk) := by
  intro p lease hp hlease hnonce
  cases hmakes with
  | create =>
    rcases Write.saved_apply_eq_some.mp hp with ⟨-, rfl⟩ | ⟨-, hp⟩
    · cases hlease
    · exact h p lease hp hlease hnonce
  | prune => exact h p lease (Write.removed_apply_eq_some.mp hp).2 hlease hnonce
  | @update _ _ r r' hr hu =>
    rcases Write.saved_apply_eq_some.mp hp with ⟨rfl, rfl⟩ | ⟨-, hp⟩
    · rw [hu.id_eq] at h
      cases hu with
      | claim =>
        cases hlease
        subst hnonce
        exact absurd rfl (hcall _)
      | renew hl _ hstate =>
        cases hlease
        exact absurd hstate (h _ _ hr hl hnonce).1
      | finish _ _ _ hend =>
        exact ⟨JobState.ne_of_isTerminal hend rfl, JobState.ne_of_isTerminal hend rfl⟩
      | cancelAdmitted => exact ⟨nofun, nofun⟩
      | cancelRunning hstate => exact absurd hstate (h _ _ hr hlease hnonce).1
      | resume => exact ⟨nofun, nofun⟩
      | interruptOwn hstate => exact absurd hstate (h _ _ hr hlease hnonce).1
      | resumeAfterRestart => exact ⟨nofun, nofun⟩
      | reconcile => exact ⟨nofun, nofun⟩
      | sweepRunning hstate => exact absurd hstate (h _ _ hr hlease hnonce).1
      | sweepAdmitted => exact ⟨nofun, nofun⟩
    · exact h p lease hp hlease hnonce

theorem Refuses.puts {xs : List (Act × Write)} (hcalls : ∀ x ∈ xs, ∀ id, x.1.call ≠ .claim id nonce)
    (h : Run Put disk xs disk') (href : Refuses id nonce disk) : Refuses id nonce disk' := by
  refine h.invariant_of (fun d x d' hx hd hput => ?_) href
  obtain ⟨hmakes, rfl⟩ := hput
  exact hd.write hmakes (hcalls x hx)

theorem Refuses.run {acts : List Act} (hcalls : ∀ a ∈ acts, ∀ id, a.call ≠ .claim id nonce)
    (h : Run Step disk acts disk') (href : Refuses id nonce disk) : Refuses id nonce disk' :=
  href.puts (fun x hx => hcalls x.1 (mem_puts.mp hx).1) (run_writes h)

theorem refuses_of_readmits (h : Step disk a disk') (hback : a.Readmits id)
    (hcall : ∀ id, a.call ≠ .claim id nonce) : Refuses id nonce disk' := by
  obtain ⟨r, hr, rfl, hstate⟩ := hback
  obtain ⟨ws, ws', hsplit⟩ := List.append_of_mem hr
  have hrun := step_writes h
  rw [hsplit, List.map_append, List.map_cons] at hrun
  obtain ⟨d, -, hrun⟩ := Run.append_iff.mp hrun
  obtain ⟨d', ⟨-, rfl⟩, hrun⟩ := Run.cons_iff.mp hrun
  have hnow : Refuses r.id nonce ((Write.saved r).apply d) := by
    intro p lease hp _ _
    obtain ⟨-, rfl⟩ := (Write.saved_apply_eq_some.mp hp).resolve_right fun he => he.1 rfl
    rw [hstate]
    exact ⟨nofun, nofun⟩
  refine hnow.puts (fun x hx => ?_) hrun
  obtain ⟨y, -, rfl⟩ := List.mem_map.mp hx
  exact hcall

theorem refuses_of_claims (h : Step disk a disk') (hclaim : a.Claims id)
    (hcall : ∀ id, a.call ≠ .claim id nonce) : Refuses id nonce disk' := by
  obtain ⟨nonce', hclaim⟩ := hclaim
  obtain ⟨r, r', hr, hu, -, rfl⟩ := step_claims h hclaim
  intro p lease hp hlease hnonce
  have hid : r'.id = id := hu.id_eq.trans (step_named h hr)
  obtain ⟨-, rfl⟩ := (Write.saved_apply_eq_some.mp hp).resolve_right fun he => he.1 hid.symm
  cases hu with
  | claim =>
    cases hlease
    subst hnonce
    exact absurd hclaim.1 (hcall _)

section Refused

variable {jobs : Jobs} {disk : Disk} {records : List JobRecord} {fs : List Fault} {id : JobId}
  {nonce : String}

theorem wp_renew_refused (hl : Lists disk records) (href : Refuses id nonce disk)
    (progress : Progress) :
    wp (jobs.renew id nonce progress) (fun _ _ => False)
      (fun _ w' => w'.writes = [] ∧ w'.disk = disk) ⟨disk, records, fs, []⟩ := by
  unfold Jobs.renew
  refine wp_locked (fun _ _ => ⟨rfl, rfl⟩) (fun fs => ?_)
  simp only [wp_bind, wp_ite, wp_throw]
  refine wp_find hl (fun r hr hid => ?_) (fun _ => ⟨rfl, rfl⟩)
  subst hid
  rw [wp_ofExcept]
  refine ⟨fun lease hcheck => ⟨fun _ => ⟨rfl, rfl⟩, fun hok => ?_⟩, fun _ _ => ⟨rfl, rfl⟩⟩
  obtain ⟨hlease, hnonce, -⟩ := checkHolder_ok hcheck
  exact absurd (.inl (href r lease hr hlease hnonce).1) hok

theorem wp_finish_refused (hl : Lists disk records) (href : Refuses id nonce disk)
    (state : JobState) (message : String) (lastSeq : Nat) :
    wp (jobs.finish id nonce state message lastSeq) (fun _ _ => False)
      (fun _ w' => w'.writes = [] ∧ w'.disk = disk) ⟨disk, records, fs, []⟩ := by
  unfold Jobs.finish
  simp only [wp_bind, wp_ite, wp_throw]
  refine ⟨fun _ => ⟨trivial, trivial⟩, fun _ => ?_⟩
  refine wp_locked (fun _ _ => ⟨rfl, rfl⟩) (fun fs => ?_)
  simp only [wp_bind, wp_ite, wp_throw]
  refine wp_find hl (fun r hr hid => ?_) (fun _ => ⟨rfl, rfl⟩)
  subst hid
  rw [wp_ofExcept]
  refine ⟨fun lease hcheck => ⟨fun _ => ⟨rfl, rfl⟩, fun hstate => ?_⟩, fun _ _ => ⟨rfl, rfl⟩⟩
  obtain ⟨hlease, hnonce, -⟩ := checkHolder_ok hcheck
  have hno := href r lease hr hlease hnonce
  exact absurd (not_not.mp hstate) (by simp [hno])

theorem wp_report_refused (hl : Lists disk records) (href : Refuses id nonce disk) {call : Call}
    (hcall : (∃ progress, call = .renew id nonce progress) ∨
      ∃ state message lastSeq, call = .finish id nonce state message lastSeq) :
    wp (jobs.exec call) (fun _ _ => False)
      (fun _ w' => w'.writes = [] ∧ w'.disk = disk) ⟨disk, records, fs, []⟩ := by
  unfold Jobs.exec
  rcases hcall with ⟨progress, rfl⟩ | ⟨state, message, lastSeq, rfl⟩ <;>
    simp only [wp_bind, wp_pure]
  · exact wp_renew_refused hl href progress
  · exact wp_finish_refused hl href state message lastSeq

end Refused

theorem step_refused (h : Step disk a disk') (href : Refuses id nonce disk)
    (hreport : a.Reports id nonce) : (∃ e, a.reply = .error e) ∧ a.writes = [] ∧ disk' = disk := by
  cases h with
  | ok hlist hrun => exact (wp_ok (wp_report_refused hlist href hreport) hrun).elim
  | @error _ _ _ _ e w hlist hrun =>
    have hsame := wp_error (wp_report_refused hlist href hreport) hrun
    exact ⟨⟨e, rfl⟩, hsame⟩

/-! ## Renewals and sweeps -/

/-- A sweep leaves a running job whose lease hasn't ended at the sweep's reading. -/
theorem sweep_keeps {at_ : Int} {seen : List JobRecord}
    {r : JobRecord} {lease : JobLease} (h : Step disk a disk')
    (hcall : a.call = .sweep at_ seen) (hr : disk id = some r) (hstate : r.state = .running)
    (hlease : r.lease = some lease) (hlt : at_ < lease.expiresAtMs) : disk' id = some r := by
  refine (step_writes h).invariant_of (I := fun d => d id = some r) (fun d x d' hx hd hput => ?_) hr
  obtain ⟨y, -, rfl⟩ := List.mem_map.mp hx
  obtain ⟨hmakes, rfl⟩ := hput
  simp only [hcall] at hmakes
  cases hmakes with
  | @update _ _ q q' hq hu =>
    refine Write.saved_apply_eq_some.mpr (.inr ⟨fun hid => ?_, hd⟩)
    rw [hu.id_eq] at hid
    rw [← hid, hd] at hq
    cases hq
    cases hu with
    | sweepRunning _ hlease' hexpired =>
      rw [hlease] at hlease'
      cases hlease'
      omega
    | sweepAdmitted hstate' =>
      rw [hstate] at hstate'
      cases hstate'
  | @prune _ _ q _ hq hend =>
    refine Write.removed_apply_eq_some.mpr ⟨fun hid => ?_, hd⟩
    rw [← hid, hd] at hq
    cases hq
    rw [hstate] at hend
    cases hend

theorem step_renews {progress : Progress} {reply : Reply} (h : Step disk a disk')
    (hcall : a.call = .renew id nonce progress) (hreply : a.reply = .ok reply) :
    ∃ r lease, disk id = some r ∧ r.state = .running ∧ r.lease = some lease ∧
      lease.nonce = nonce ∧ lease.holder = a.jobs.config.host ∧ a.jobs.now < lease.expiresAtMs := by
  obtain ⟨w, -, -, hans⟩ := step_answers h hreply
  rw [hcall] at hans
  cases reply with
  | job r' =>
    obtain ⟨-, r, hr, hu⟩ := hans
    cases hu with
    | @renew _ lease _ hlease hholder hstate hnow =>
      exact ⟨r, lease, hr, hstate, hlease, rfl, hholder, hnow⟩
  | admission => exact hans.elim
  | claim => exact hans.elim
  | jobs => exact hans.elim

/-! ## The whole -/

/-- Over any run with pairwise distinct nonces: a job is claimed again only after a sweep at or
after its lease's end, or its holder's restart, interrupted it; once it was claimed again or put
back in line, its earlier nonces renew and finish nothing; and a renew that succeeds came before
the end of the lease, so that a sweep with a reading not after the renew's leaves the job alone. -/
theorem stale_holder_refused (acts : List Act) (disk : Disk)
    (hrun : Run Step (fun _ => none) acts disk) (hnonces : (nonces acts).Nodup) (id : JobId) :
    (∀ pre c mid c' post, acts = pre ++ c :: mid ++ c' :: post → c.Claims id → c'.Claims id →
      (∀ a ∈ mid, ¬ a.Admits id) → ∃ a ∈ mid, a.Interrupts id) ∧
    (∀ pre c mid c' post nonce, acts = pre ++ c :: mid ++ c' :: post → c.ClaimsWith id nonce →
      (c'.Claims id ∨ c'.Readmits id) → ∀ a disk', Step disk a disk' → a.Reports id nonce →
      (∃ e, a.reply = .error e) ∧ a.writes = [] ∧ disk' = disk) ∧
    ∀ a disk' nonce progress reply, Step disk a disk' → a.call = .renew id nonce progress →
      a.reply = .ok reply → ∃ r lease, disk id = some r ∧ r.state = .running ∧
        r.lease = some lease ∧ lease.nonce = nonce ∧ a.jobs.now < lease.expiresAtMs ∧
        ∀ b at_ seen d d' q, Step d b d' → b.call = .sweep at_ seen → at_ ≤ a.jobs.now →
          d id = some q → q.state = .running → q.lease = some lease → d' id = some q := by
  refine ⟨?_, ?_, ?_⟩
  · rintro pre c mid c' post rfl hclaim hclaim' hsame
    rw [List.append_assoc, List.cons_append] at hrun
    obtain ⟨d0, -, hrun⟩ := Run.append_iff.mp hrun
    obtain ⟨d1, hc, hrun⟩ := Run.cons_iff.mp hrun
    obtain ⟨d2, hmid, hrun⟩ := Run.append_iff.mp hrun
    obtain ⟨d3, hc', -⟩ := Run.cons_iff.mp hrun
    exact interrupted_between hc hclaim hmid hc' hclaim' hsame
  · rintro pre c mid c' post nonce rfl hclaim hlater a disk' hstep hreport
    rw [List.append_assoc, List.cons_append] at hrun hnonces
    have hother : ∀ b ∈ mid ++ c' :: post, ∀ id, b.call ≠ .claim id nonce := by
      intro b hb id' hcall
      unfold nonces at hnonces
      rw [List.filterMap_append, List.filterMap_cons_some (by rw [hclaim.1]; rfl)] at hnonces
      exact (List.nodup_cons.mp (List.nodup_append.mp hnonces).2.1).1 (mem_nonces hb hcall)
    obtain ⟨d0, -, hrun⟩ := Run.append_iff.mp hrun
    obtain ⟨d1, hc, hrun⟩ := Run.cons_iff.mp hrun
    obtain ⟨d2, hmid, hrun⟩ := Run.append_iff.mp hrun
    obtain ⟨d3, hc', hpost⟩ := Run.cons_iff.mp hrun
    have hcall' := hother c' (List.mem_append_right _ (List.mem_cons_self ..))
    have href : Refuses id nonce d3 := by
      rcases hlater with hl | hl
      · exact refuses_of_claims hc' hl hcall'
      · exact refuses_of_readmits hc' hl hcall'
    refine step_refused hstep (href.run (fun b hb => hother b ?_) hpost) hreport
    exact List.mem_append_right _ (List.mem_cons_of_mem _ hb)
  · intro a disk' nonce progress reply hstep hcall hreply
    obtain ⟨r, lease, hr, hstate, hlease, hnonce, -, hnow⟩ := step_renews hstep hcall hreply
    refine ⟨r, lease, hr, hstate, hlease, hnonce, hnow, ?_⟩
    intro b at_ seen d d' q hb hcallb hle hq hqs hql
    exact sweep_keeps hb hcallb hq hqs hql (by omega)

/-- `mox1`'s lease on a scrub, claimed at time zero. -/
def lapsed : JobRecord :=
  { (onMox1 0).newRecord root ⟨"scrub", [], "scrub", false⟩ scrub ⟨[], [], ["storage"], false⟩ mox1
      7 with
    state := .running, lease := some ⟨"a", mox1, 0, 60000⟩ }

/-- A scrub is claimed, lapses, is resumed and claimed again; its first holder is too late. -/
theorem stale_holder_refused_scrub :
    ∃ acts disk, Run Step (fun _ => none) acts disk ∧ nonces acts = ["a", "b"] ∧
      (∃ a ∈ acts, a.Interrupts 7) ∧
      ∀ a disk', Step disk a disk' → a.Reports 7 "a" →
        (∃ e, a.reply = .error e) ∧ a.writes = [] ∧ disk' = disk := by
  have hrun := Run.cons (step_act Lists.empty (onMox1 0) (launch "scrub" 7) []) <|
    .cons (step_act Lists.empty.save (onMox1 0) (.claim 7 "a") []) <|
    .cons (step_act Lists.empty.save.save (onMox1 60000) (.sweep 60000 [lapsed]) []) <|
    .cons (step_act Lists.empty.save.save.save (onMox1 60001) (.resume root 7) []) <|
    .single (step_act Lists.empty.save.save.save.save (onMox1 60002) (.claim 7 "b") [])
  have hnonces : (["a", "b"] : List String).Nodup := by decide
  obtain ⟨hagain, hrefused, -⟩ := stale_holder_refused _ _ hrun hnonces 7
  have hagain := hagain [_] _ [_, _] _ [] rfl ⟨"a", rfl, _, rfl⟩ ⟨"b", rfl, _, rfl⟩
  refine ⟨_, _, hrun, rfl, ?_, ?_⟩
  · obtain ⟨a, ha, hint⟩ := hagain fun a ha ⟨caller, launch, r, hcall, _⟩ => by
      simp only [List.mem_cons, List.not_mem_nil, or_false] at ha
      rcases ha with rfl | rfl <;> cases hcall
    exact ⟨a, .tail _ (.tail _ (List.mem_append_left [_] ha)), hint⟩
  · exact hrefused [_] _ [_, _] _ [] "a" rfl ⟨rfl, _, rfl⟩ (.inl ⟨"b", rfl, _, rfl⟩)

end Bmac.Bmacd
