import Bmac.Bmacd.JobStore

/-!
# Running the job operations

One specification for each operation of `Jobs`: the writes it makes are of the kinds that `Makes`
lists, and what its reply says about them. `run_writes` puts them together: a run of calls is a run
of such writes.
-/

namespace Bmac.Bmacd

open Bmac.Base Bmac.Core

/-! ## The operations -/

def replay (disk : Disk) (writes : List Write) : Disk := writes.foldl Write.apply disk

/-- A completed call wrote the records `saves` and then pruned, if it does. -/
structure Did (jobs : Jobs) (call : Call) (disk : Disk) (saves : List JobRecord) (w : World) :
    Prop where
  made : Made jobs call disk w
  writes : ∃ ids : List JobId, w.writes = saves.map .saved ++ ids.map .removed ∧
    (call.prunes = false → ids = [])
  pruned : call.prunes = true →
    Pruned jobs.config.keepFinished (replay disk (saves.map .saved)) w.disk

variable {r : JobRecord} {disk disk' : Disk} {a : Act}

section Operations

variable {jobs : Jobs} {call : Call} {disk : Disk} {records : List JobRecord} {fs : List Fault}

theorem Did.faults {saves : List JobRecord} {w : World} (h : Did jobs call disk saves w)
    (fs : List Fault) : Did jobs call disk saves { w with faults := fs } :=
  ⟨h.made, h.writes, h.pruned⟩

theorem held_start (hl : Lists disk records) : Held jobs call disk ⟨disk, records, fs, []⟩ :=
  ⟨hl, .nil disk⟩

variable {record : JobRecord} {w : World}

theorem wp_save_one (hl : Lists disk records) (hr : disk r.id = some r)
    (hu : Update jobs call r record.next) :
    wp (jobs.save record)
      (fun r' w' => r' = record.next ∧ Held jobs call disk w' ∧ w'.writes = [.saved r'] ∧
        w'.disk = replay disk [.saved r'])
      (fun _ w' => Made jobs call disk w') ⟨disk, records, fs, []⟩ := by
  refine wp_mono (wp_save (held_start hl) fun _ _ => .update hr hu) ?_ (fun _ _ h => h)
  rintro r' w' ⟨rfl, hheld, hsaved, -⟩
  exact ⟨rfl, hheld, hsaved.writes, hsaved.disk⟩

/-- A call that changes one record and doesn't prune. -/
theorem did_of_save {r' : JobRecord} {w' : World} (hcall : call.prunes = false)
    (h : Held jobs call disk w') (hwrites : w'.writes = [.saved r']) :
    Did jobs call disk [r'] w' :=
  ⟨h.made, ⟨[], by simpa using hwrites, fun _ => rfl⟩, fun hc => by simp [hcall] at hc⟩

theorem wp_prune_did (saves : List JobRecord) (hcall : call.prunes = true)
    (h : Held jobs call disk w) (hwrites : w.writes = saves.map .saved)
    (hdisk : w.disk = replay disk (saves.map .saved)) :
    wp jobs.prune (fun _ w' => Did jobs call disk saves w')
      (fun _ w' => Made jobs call disk w') w := by
  refine wp_mono (wp_prune h hcall) ?_ (fun _ _ h => h)
  rintro _ w' ⟨hheld, hpruned, ids, hids⟩
  refine ⟨hheld.made, ⟨ids, by rw [hids, hwrites], fun hc => by simp [hcall] at hc⟩, fun _ => ?_⟩
  rwa [← hdisk]

theorem wp_claim (hl : Lists disk records) (id : JobId) (nonce : String) :
    wp (jobs.claim id nonce)
      (fun c w' => c.nonce = nonce ∧ Did jobs (.claim id nonce) disk [c.job] w' ∧
        ∃ r, disk id = some r ∧ Update jobs (.claim id nonce) r c.job)
      (fun _ w' => Made jobs (.claim id nonce) disk w') ⟨disk, records, fs, []⟩ := by
  unfold Jobs.claim
  refine wp_locked (fun _ _ => .nil disk) (fun fs => ?_)
  simp only [wp_bind, wp_ite, wp_throw, wp_pure]
  refine wp_find hl (fun r hr hid => ?_) (fun _ => .nil disk)
  subst hid
  refine ⟨fun _ => .nil disk, fun hstate => ⟨fun _ => .nil disk, fun htarget => ?_⟩⟩
  have hu : Update jobs (.claim r.id nonce) r _ := .claim (not_not.mp hstate) (not_not.mp htarget)
  refine wp_mono (wp_save_one hl hr hu) ?_ (fun _ _ h => h)
  rintro r' w' ⟨rfl, hheld, hwrites, -⟩
  have hdid := did_of_save rfl hheld hwrites
  exact ⟨fun fs => ⟨trivial, hdid.faults fs, r, hr, hu⟩, fun _ _ => hheld.made⟩

theorem checkHolder_ok {nonce : String} {lease : JobLease}
    (h : jobs.checkHolder record nonce = .ok lease) :
    record.lease = some lease ∧ lease.nonce = nonce ∧ lease.holder = jobs.config.host := by
  unfold Jobs.checkHolder at h
  cases hl : record.lease with
  | none => simp [hl] at h
  | some l =>
    simp only [hl] at h
    split at h
    · rename_i hc
      cases h
      exact ⟨rfl, hc⟩
    · cases h

theorem wp_renew (hl : Lists disk records) (id : JobId) (nonce : String) (progress : Progress) :
    wp (jobs.renew id nonce progress)
      (fun r' w' => Did jobs (.renew id nonce progress) disk [r'] w' ∧
        ∃ r, disk id = some r ∧ Update jobs (.renew id nonce progress) r r')
      (fun _ w' => Made jobs (.renew id nonce progress) disk w') ⟨disk, records, fs, []⟩ := by
  unfold Jobs.renew
  refine wp_locked (fun _ _ => .nil disk) (fun fs => ?_)
  simp only [wp_bind, wp_ite, wp_throw]
  refine wp_find hl (fun r hr hid => ?_) (fun _ => .nil disk)
  subst hid
  rw [wp_ofExcept]
  refine ⟨fun lease hcheck => ⟨fun _ => .nil disk, fun hok => ?_⟩, fun _ _ => .nil disk⟩
  obtain ⟨hlease, rfl, hholder⟩ := checkHolder_ok hcheck
  have hstate : r.state = .running := by
    by_contra hne
    exact hok (.inl hne)
  have hnow : jobs.now < lease.expiresAtMs := by
    by_contra hge
    exact hok (.inr (by omega))
  have hu : Update jobs (.renew r.id lease.nonce progress) r _ := .renew hlease hholder hstate hnow
  refine wp_mono (wp_save_one hl hr hu) ?_ (fun _ _ h => h)
  rintro r' w' ⟨rfl, hheld, hwrites, -⟩
  have hdid := did_of_save rfl hheld hwrites
  exact ⟨fun fs => ⟨hdid.faults fs, r, hr, hu⟩, fun _ _ => hheld.made⟩

theorem wp_finish (hl : Lists disk records) (id : JobId) (nonce : String) (state : JobState)
    (message : String) (lastSeq : Nat) :
    wp (jobs.finish id nonce state message lastSeq)
      (fun r' w' => Did jobs (.finish id nonce state message lastSeq) disk [r'] w' ∧
        ∃ r, disk id = some r ∧ Update jobs (.finish id nonce state message lastSeq) r r')
      (fun _ w' => Made jobs (.finish id nonce state message lastSeq) disk w')
      ⟨disk, records, fs, []⟩ := by
  unfold Jobs.finish
  simp only [wp_bind, wp_ite, wp_throw]
  refine ⟨fun _ => .nil disk, fun hend => ?_⟩
  refine wp_locked (fun _ _ => .nil disk) (fun fs => ?_)
  simp only [wp_bind, wp_ite, wp_throw, wp_pure]
  refine wp_find hl (fun r hr hid => ?_) (fun _ => .nil disk)
  subst hid
  rw [wp_ofExcept]
  refine ⟨fun lease hcheck => ⟨fun _ => .nil disk, fun hstate => ?_⟩, fun _ _ => .nil disk⟩
  obtain ⟨hlease, rfl, hholder⟩ := checkHolder_ok hcheck
  have hu : Update jobs (.finish r.id lease.nonce state message lastSeq) r _ :=
    .finish hlease hholder (not_not.mp hstate) (by simpa using hend)
  refine wp_mono (wp_save_one hl hr hu) ?_ (fun _ _ h => h)
  rintro r' w' ⟨rfl, hheld, hwrites, hdisk⟩
  refine wp_mono (wp_prune_did [_] rfl hheld hwrites hdisk) ?_ (fun _ _ h => h)
  exact fun _ w'' hdid => ⟨fun fs => ⟨hdid.faults fs, r, hr, hu⟩, fun _ _ => hdid.made⟩

theorem cancelled_ok {caller : Caller} {force : Bool}
    (h : jobs.cancelled caller force r = .ok record) :
    Update jobs (.cancel caller r.id force) r record.next := by
  unfold Jobs.cancelled at h
  split at h
  · rename_i hstate
    cases h
    exact .cancelAdmitted hstate
  · rename_i hstate
    split at h
    · cases h
    · cases h
      exact .cancelRunning hstate
  · cases h
  · cases h

theorem wp_cancel (hl : Lists disk records) (caller : Caller) (id : JobId) (force : Bool) :
    wp (jobs.cancel caller id force)
      (fun r' w' => Did jobs (.cancel caller id force) disk [r'] w' ∧
        ∃ r, disk id = some r ∧ Update jobs (.cancel caller id force) r r')
      (fun _ w' => Made jobs (.cancel caller id force) disk w') ⟨disk, records, fs, []⟩ := by
  unfold Jobs.cancel
  refine wp_locked (fun _ _ => .nil disk) (fun fs => ?_)
  simp only [wp_bind, wp_ite, wp_throw, wp_pure]
  refine wp_find hl (fun r hr hid => ?_) (fun _ => .nil disk)
  subst hid
  rw [wp_ofExcept]
  refine ⟨fun operation _ => ⟨fun _ => .nil disk, fun _ => ⟨fun _ => .nil disk, fun _ => ?_⟩⟩,
    fun _ _ => .nil disk⟩
  rw [wp_ofExcept]
  refine ⟨fun record hrecord => ?_, fun _ _ => .nil disk⟩
  have hu := cancelled_ok hrecord
  refine wp_mono (wp_save_one hl hr hu) ?_ (fun _ _ h => h)
  rintro r' w' ⟨rfl, hheld, hwrites, hdisk⟩
  refine wp_mono (wp_prune_did [_] rfl hheld hwrites hdisk) ?_ (fun _ _ h => h)
  exact fun _ w'' hdid => ⟨fun fs => ⟨hdid.faults fs, r, hr, hu⟩, fun _ _ => hdid.made⟩

theorem wp_interrupted {caller : Caller} {id : JobId}
    {Q : JobRecord → World → Prop} {E : ApiError → World → Prop} (hl : Lists w.disk w.records)
    (hQ : ∀ r, w.disk r.id = some r → r.id = id → r.state = .interrupted → Q r w)
    (hE : ∀ e, E e w) : wp (jobs.interrupted caller id) Q E w := by
  unfold Jobs.interrupted
  simp only [wp_bind, wp_ite, wp_throw, wp_pure]
  refine wp_find hl (fun r hr hid => ?_) hE
  rw [wp_ofExcept]
  refine ⟨fun _ _ => ⟨fun _ => hE _, fun _ => ⟨fun _ => hE _, fun hstate => ?_⟩⟩, fun _ _ => hE _⟩
  exact hQ r hr hid (not_not.mp hstate)

theorem wp_resume (hl : Lists disk records) (caller : Caller) (id : JobId) :
    wp (jobs.resume caller id)
      (fun r' w' => Did jobs (.resume caller id) disk [r'] w' ∧
        ∃ r, disk id = some r ∧ Update jobs (.resume caller id) r r')
      (fun _ w' => Made jobs (.resume caller id) disk w') ⟨disk, records, fs, []⟩ := by
  unfold Jobs.resume
  refine wp_locked (fun _ _ => .nil disk) (fun fs => ?_)
  simp only [wp_bind, wp_ite, wp_throw]
  refine wp_interrupted hl (fun r hr hid hstate => ?_) (fun _ => .nil disk)
  subst hid
  rw [wp_ofExcept]
  refine ⟨fun operation _ => ⟨fun _ => .nil disk, fun _ => ?_⟩, fun _ _ => .nil disk⟩
  rw [wp_ofExcept]
  refine ⟨fun membership _ => ?_, fun _ _ => .nil disk⟩
  rw [wp_ofExcept]
  refine ⟨fun target _ => ?_, fun _ _ => .nil disk⟩
  have hu : Update jobs (.resume caller r.id) r _ :=
    .resume target s!"resumed by {caller.user}" hstate
  refine wp_mono (wp_save_one hl hr hu) ?_ (fun _ _ h => h)
  rintro r' w' ⟨rfl, hheld, hwrites, -⟩
  have hdid := did_of_save rfl hheld hwrites
  exact ⟨fun fs => ⟨hdid.faults fs, r, hr, hu⟩, fun _ _ => hheld.made⟩

theorem wp_reconcile (hl : Lists disk records) (caller : Caller) (id : JobId) :
    wp (jobs.reconcile caller id)
      (fun r' w' => Did jobs (.reconcile caller id) disk [r'] w' ∧
        ∃ r, disk id = some r ∧ Update jobs (.reconcile caller id) r r')
      (fun _ w' => Made jobs (.reconcile caller id) disk w') ⟨disk, records, fs, []⟩ := by
  unfold Jobs.reconcile
  refine wp_locked (fun _ _ => .nil disk) (fun fs => ?_)
  simp only [wp_bind, wp_pure]
  refine wp_interrupted hl (fun r hr hid hstate => ?_) (fun _ => .nil disk)
  subst hid
  have hu : Update jobs (.reconcile caller r.id) r _ :=
    .reconcile s!"marked failed by {caller.user} after checking the live state" hstate
  refine wp_mono (wp_save_one hl hr hu) ?_ (fun _ _ h => h)
  rintro r' w' ⟨rfl, hheld, hwrites, hdisk⟩
  refine wp_mono (wp_prune_did [_] rfl hheld hwrites hdisk) ?_ (fun _ _ h => h)
  exact fun _ w'' hdid => ⟨fun fs => ⟨hdid.faults fs, r, hr, hu⟩, fun _ _ => hdid.made⟩

theorem wp_resumeAfterRestart (hl : Lists disk records) (id : JobId) :
    wp (jobs.resumeAfterRestart id)
      (fun r' w' => Did jobs (.resumeAfterRestart id) disk [r'] w' ∧
        ∃ r, disk id = some r ∧ Update jobs (.resumeAfterRestart id) r r')
      (fun _ w' => Made jobs (.resumeAfterRestart id) disk w') ⟨disk, records, fs, []⟩ := by
  unfold Jobs.resumeAfterRestart
  refine wp_locked (fun _ _ => .nil disk) (fun fs => ?_)
  simp only [wp_bind, wp_ite, wp_throw]
  refine wp_find hl (fun r hr hid => ?_) (fun _ => .nil disk)
  subst hid
  rw [wp_ofExcept]
  refine ⟨fun operation _ => ⟨fun _ => .nil disk, fun hok => ?_⟩, fun _ _ => .nil disk⟩
  have hstate : r.state = .interrupted := by
    by_contra hne
    exact hok (.inl hne)
  rw [wp_ofExcept]
  refine ⟨fun membership _ => ?_, fun _ _ => .nil disk⟩
  have hu : Update jobs (.resumeAfterRestart r.id) r _ :=
    .resumeAfterRestart s!"resumed after {jobs.config.host} restarted" hstate
  refine wp_mono (wp_save_one hl hr hu) ?_ (fun _ _ h => h)
  rintro r' w' ⟨rfl, hheld, hwrites, -⟩
  have hdid := did_of_save rfl hheld hwrites
  exact ⟨fun fs => ⟨hdid.faults fs, r, hr, hu⟩, fun _ _ => hheld.made⟩

theorem replay_append (disk : Disk) (ws xs : List Write) :
    replay disk (ws ++ xs) = replay (replay disk ws) xs := by
  unfold replay
  rw [List.foldl_append]

theorem wp_saves {f : JobRecord → JobRecord} {rs : List JobRecord} (hl : Lists disk records)
    (hrs : ∀ r ∈ rs, r ∈ records ∧ Update jobs call r (f r).next) (hnd : (rs.map (·.id)).Nodup) :
    wp (rs.mapM fun r => jobs.save (f r))
      (fun rs' w' => Held jobs call disk w' ∧ w'.writes = rs'.map .saved ∧
        w'.disk = replay disk (rs'.map .saved))
      (fun _ w' => Made jobs call disk w') ⟨disk, records, fs, []⟩ := by
  -- the records still to come are on the disk as they were read
  let I : List JobRecord → List JobRecord → World → Prop := fun rest done w' =>
    Held jobs call disk w' ∧ w'.writes = done.map .saved ∧
      w'.disk = replay disk (done.map .saved) ∧ (rest.map (·.id)).Nodup ∧
      ∀ r ∈ rest, w'.disk r.id = some r ∧ Update jobs call r (f r).next
  have hI : I rs [] ⟨disk, records, fs, []⟩ :=
    ⟨held_start hl, rfl, rfl, hnd, fun r hr => ⟨(hl.mem r).mp (hrs r hr).1, (hrs r hr).2⟩⟩
  refine wp_mono (wp_mapM (I := I) [] ?_ hI) ?_ (fun _ _ h => h)
  · rintro r rest done w' ⟨hheld, hwrites, hdisk, hnd, hrest⟩
    obtain ⟨hr, hu⟩ := hrest r (List.mem_cons_self ..)
    have hid : (f r).next.id = r.id := hu.id_eq
    refine wp_mono (wp_save hheld fun _ _ => .update hr hu) ?_ (fun _ _ h => h)
    rintro r' w'' ⟨rfl, hheld', hsaved, -⟩
    rw [List.map_cons, List.nodup_cons] at hnd
    refine ⟨hheld', ?_, ?_, hnd.2, fun q hq => ?_⟩
    · rw [hsaved.writes, hwrites, List.map_append]
      rfl
    · rw [hsaved.disk, hdisk, List.map_append, replay_append]
      rfl
    · obtain ⟨hq', huq⟩ := hrest q (List.mem_cons_of_mem _ hq)
      have hne : q.id ≠ (f r).next.id := by
        rw [hid]
        rintro heq
        exact hnd.1 (heq ▸ List.mem_map_of_mem hq)
      rw [hsaved.disk, Write.apply, Function.update_of_ne hne]
      exact ⟨hq', huq⟩
  · rintro rs' w' ⟨hheld, hwrites, hdisk, -, -⟩
    exact ⟨hheld, hwrites, hdisk⟩

theorem own_iff : jobs.own r = true ↔
    r.state = .running ∧ ∃ lease, r.lease = some lease ∧ lease.holder = jobs.config.host := by
  unfold Jobs.own
  cases r.lease <;> simp

theorem wp_interruptOwn (hl : Lists disk records) (seen : List JobRecord) :
    wp (jobs.interruptOwn seen)
      (fun rs' w' => Did jobs (.interruptOwn seen) disk rs' w')
      (fun _ w' => Made jobs (.interruptOwn seen) disk w') ⟨disk, records, fs, []⟩ := by
  unfold Jobs.interruptOwn
  rw [wp_ite]
  refine ⟨fun _ => ⟨.nil disk, ⟨[], rfl, fun _ => rfl⟩, fun hc => by cases hc⟩, fun _ => ?_⟩
  refine wp_locked (fun _ _ => .nil disk) (fun fs => ?_)
  simp only [wp_bind, wp_get]
  refine wp_mono (wp_saves hl (fun r hr => ?_) (hl.nodup.sublist (List.filter_sublist.map _))) ?_
    (fun _ _ h => h)
  · obtain ⟨hmem, hown⟩ := List.mem_filter.mp hr
    obtain ⟨hstate, lease, hlease, hholder⟩ := own_iff.mp hown
    exact ⟨hmem, .interruptOwn hstate hlease hholder⟩
  · rintro rs' w' ⟨hheld, hwrites, -⟩
    have hdid : Did jobs (.interruptOwn seen) disk rs' w' :=
      ⟨hheld.made, ⟨[], by simpa using hwrites, fun _ => rfl⟩, fun hc => by cases hc⟩
    exact ⟨fun fs => hdid.faults fs, fun _ _ => hheld.made⟩

theorem stale_update {at_ : Int} {seen : List JobRecord}
    (h : jobs.stale at_ r = true) : Update jobs (.sweep at_ seen) r (jobs.swept r).next := by
  unfold Jobs.stale at h
  unfold Jobs.swept
  split at h
  · rename_i hstate
    rw [if_pos hstate]
    cases hlease : r.lease with
    | none => simp [hlease] at h
    | some lease =>
      have hexpired : lease.expiresAtMs ≤ at_ := by simpa [hlease] using h
      rw [← hlease]
      exact .sweepRunning hstate hlease hexpired
  · rename_i hstate
    rw [if_neg (by rw [hstate]; decide)]
    exact .sweepAdmitted hstate
  · cases h

/-- A sweep that found nothing overdue before the lock did nothing. -/
theorem wp_sweep (hl : Lists disk records) (at_ : Int) (seen : List JobRecord) :
    wp (jobs.sweep at_ seen)
      (fun rs' w' => (rs' = [] ∧ w'.writes = [] ∧ w'.disk = disk) ∨
        Did jobs (.sweep at_ seen) disk rs' w')
      (fun _ w' => Made jobs (.sweep at_ seen) disk w') ⟨disk, records, fs, []⟩ := by
  unfold Jobs.sweep
  rw [wp_ite]
  refine ⟨fun _ => .inl ⟨rfl, rfl, rfl⟩, fun _ => ?_⟩
  refine wp_locked (fun _ _ => .nil disk) (fun fs => ?_)
  simp only [wp_bind, wp_get, wp_pure]
  refine wp_mono (wp_saves hl (fun r hr => ?_) (hl.nodup.sublist (List.filter_sublist.map _))) ?_
    (fun _ _ h => h)
  · obtain ⟨hmem, hstale⟩ := List.mem_filter.mp hr
    exact ⟨hmem, stale_update hstale⟩
  · rintro rs' w' ⟨hheld, hwrites, hdisk⟩
    refine wp_mono (wp_prune_did rs' rfl hheld hwrites hdisk) ?_ (fun _ _ h => h)
    exact fun _ w'' hdid => ⟨fun fs => .inr (hdid.faults fs), fun _ _ => hdid.made⟩

theorem checkConflicts_ok {wanted : List String}
    (h : Jobs.checkConflicts records wanted = .ok ()) : ∀ r ∈ records, r.holdsLocks = true →
      ∀ a ∈ wanted, ∀ b ∈ r.locks, locksConflict a b = false := by
  intro r hr hholds a ha b hb
  unfold Jobs.checkConflicts at h
  have hlocks := forM_eq_ok h r (List.mem_filter.mpr ⟨hr, hholds⟩)
  have hb' := forM_eq_ok hlocks b hb
  split at hb'
  · rename_i hnone
    simpa using List.find?_eq_none.mp hnone a ha
  · cases hb'

/-- The job that an admission returns: one there already, or the one it wrote. -/
theorem wp_admitJob (hl : Lists disk records) (caller : Caller) (launch : LaunchJob) (id : JobId) :
    wp (jobs.admitJob caller launch id)
      (fun a w' => (w'.writes = [] ∧ w'.disk = disk ∧ disk a.job.id = some a.job ∧
          a.job.user = caller.user ∧ a.job.idempotencyKey = launch.idempotencyKey) ∨
        (Did jobs (.admitJob caller launch id) disk [a.job] w' ∧ a.job.id = id ∧
          Makes jobs (.admitJob caller launch id) disk (.saved a.job)))
      (fun _ w' => Made jobs (.admitJob caller launch id) disk w') ⟨disk, records, fs, []⟩ := by
  unfold Jobs.admitJob
  simp only [wp_bind, wp_ite, wp_throw]
  refine ⟨fun _ => .nil disk, fun _ => ?_⟩
  rw [wp_ofExcept]
  refine ⟨fun operation hop => ⟨fun _ => .nil disk, fun _ => ?_⟩, fun _ _ => .nil disk⟩
  rw [wp_ofExcept]
  refine ⟨fun prepared hprep => ?_, fun _ _ => .nil disk⟩
  refine wp_locked (fun _ _ => .nil disk) (fun fs => ?_)
  simp only [wp_bind, wp_get]
  split
  · rename_i existing hfind
    have hmem := (hl.mem existing).mp (List.mem_of_find?_eq_some hfind)
    have hsame : existing.user = caller.user ∧
        existing.idempotencyKey = launch.idempotencyKey := by
      simpa using List.find?_some hfind
    simp only [wp_bind, wp_ite, wp_throw, wp_pure]
    refine ⟨fun _ => .nil disk, fun _ => ⟨fun _ => .inl ?_, fun _ _ => .nil disk⟩⟩
    exact ⟨trivial, trivial, hmem, hsame⟩
  · rename_i hfind
    simp only [wp_bind, wp_get, wp_pure]
    rw [wp_ofExcept]
    refine ⟨fun membership _ => ?_, fun _ _ => .nil disk⟩
    rw [wp_ofExcept]
    refine ⟨fun target _ => ?_, fun _ _ => .nil disk⟩
    rw [wp_ofExcept]
    refine ⟨fun _ hconflicts => ?_, fun _ _ => .nil disk⟩
    have hmake : disk id = none → Makes jobs (.admitJob caller launch id) disk
        (.saved (jobs.newRecord caller launch operation prepared target id).next) := by
      intro hid
      refine .create hop hprep (fun id r hr => ?_) (fun id r hr => ?_) hid
      · simpa using List.find?_eq_none.mp hfind r (hl.mem_of_disk hr)
      · exact checkConflicts_ok hconflicts r (hl.mem_of_disk hr)
    refine wp_mono (wp_save (held_start hl) fun _ hnew => hmake (hnew rfl)) ?_ (fun _ _ h => h)
    rintro r' w' ⟨rfl, hheld, hsaved, hmade⟩
    refine wp_mono (wp_prune_did [_] rfl hheld hsaved.writes hsaved.disk) ?_ (fun _ _ h => h)
    exact fun _ w'' hdid => ⟨fun fs => .inr ⟨hdid.faults fs, rfl, hmade⟩, fun _ _ => hdid.made⟩

/-! ## Calls -/

/-- The call changed the record of `id` into `r'`, and pruned if it does. -/
def Changed (jobs : Jobs) (call : Call) (disk : Disk) (w : World) (id : JobId) (r' : JobRecord) :
    Prop :=
  Did jobs call disk [r'] w ∧ ∃ r, disk id = some r ∧ Update jobs call r r'

def Answers (jobs : Jobs) (disk : Disk) (w : World) : Call → Reply → Prop
  | .admitJob caller launch id, .admission a =>
    (w.writes = [] ∧ w.disk = disk ∧ disk a.job.id = some a.job ∧ a.job.user = caller.user ∧
      a.job.idempotencyKey = launch.idempotencyKey) ∨
    (Did jobs (.admitJob caller launch id) disk [a.job] w ∧ a.job.id = id ∧
      Makes jobs (.admitJob caller launch id) disk (.saved a.job))
  | .claim id nonce, .claim c => c.nonce = nonce ∧ Changed jobs (.claim id nonce) disk w id c.job
  | .renew id nonce progress, .job r' => Changed jobs (.renew id nonce progress) disk w id r'
  | .finish id nonce state message lastSeq, .job r' =>
    Changed jobs (.finish id nonce state message lastSeq) disk w id r'
  | .cancel caller id force, .job r' => Changed jobs (.cancel caller id force) disk w id r'
  | .resume caller id, .job r' => Changed jobs (.resume caller id) disk w id r'
  | .interruptOwn seen, .jobs rs => Did jobs (.interruptOwn seen) disk rs w
  | .resumeAfterRestart id, .job r' => Changed jobs (.resumeAfterRestart id) disk w id r'
  | .reconcile caller id, .job r' => Changed jobs (.reconcile caller id) disk w id r'
  | .sweep at_ seen, .jobs rs =>
    (rs = [] ∧ w.writes = [] ∧ w.disk = disk) ∨ Did jobs (.sweep at_ seen) disk rs w
  | _, _ => False

theorem wp_exec (hl : Lists disk records) (call : Call) :
    wp (jobs.exec call) (fun reply w' => Answers jobs disk w' call reply)
      (fun _ w' => Made jobs call disk w') ⟨disk, records, fs, []⟩ := by
  unfold Jobs.exec
  cases call <;> simp only [wp_bind, wp_pure]
  case admitJob => exact wp_admitJob hl ..
  case claim => exact wp_claim hl ..
  case renew => exact wp_renew hl ..
  case finish => exact wp_finish hl ..
  case cancel => exact wp_cancel hl ..
  case resume => exact wp_resume hl ..
  case interruptOwn => exact wp_interruptOwn hl ..
  case resumeAfterRestart => exact wp_resumeAfterRestart hl ..
  case reconcile => exact wp_reconcile hl ..
  case sweep => exact wp_sweep hl ..

theorem Answers.did {reply : Reply} (h : Answers jobs disk w call reply) :
    (w.writes = [] ∧ w.disk = disk) ∨ ∃ saves, Did jobs call disk saves w := by
  unfold Answers at h
  split at h
  · rcases h with ⟨hw, hd, -⟩ | ⟨hdid, -⟩
    · exact .inl ⟨hw, hd⟩
    · exact .inr ⟨_, hdid⟩
  · exact .inr ⟨_, h.2.1⟩
  · exact .inr ⟨_, h.1⟩
  · exact .inr ⟨_, h.1⟩
  · exact .inr ⟨_, h.1⟩
  · exact .inr ⟨_, h.1⟩
  · exact .inr ⟨_, h⟩
  · exact .inr ⟨_, h.1⟩
  · exact .inr ⟨_, h.1⟩
  · rcases h with ⟨-, hw, hd⟩ | hdid
    · exact .inl ⟨hw, hd⟩
    · exact .inr ⟨_, hdid⟩
  · exact h.elim

theorem Answers.made {w : World} {reply : Reply} (h : Answers jobs disk w call reply) :
    Made jobs call disk w := by
  rcases h.did with ⟨hw, hd⟩ | ⟨saves, hdid⟩
  · unfold Made
    rw [hw, hd]
    exact .nil disk
  · exact hdid.made

end Operations

/-- A reply that is no error says what the call did. -/
theorem step_answers {reply : Reply} (h : Step disk a disk') (hreply : a.reply = .ok reply) :
    ∃ w, w.disk = disk' ∧ w.writes = a.writes ∧ Answers a.jobs disk w a.call reply := by
  cases h with
  | @ok _ _ call _ _ w hlist hrun =>
    cases hreply
    have hans := wp_ok (wp_exec hlist call) hrun
    exact ⟨w, rfl, rfl, hans⟩
  | error hlist hrun => cases hreply

theorem step_named (h : Step disk a disk') {id : JobId} (hr : disk id = some r) : r.id = id := by
  cases h with
  | ok hlist => exact hlist.named id r hr
  | error hlist => exact hlist.named id r hr

/-- Whatever the storage does, a call makes only writes that it may. -/
theorem step_made (h : Step disk a disk') :
    Run (fun d x d' => Makes a.jobs a.call d x ∧ x.apply d = d') disk a.writes disk' := by
  cases h with
  | @ok _ _ call _ _ w hlist hrun =>
    have hans := wp_ok (wp_exec hlist call) hrun
    exact hans.made
  | @error _ _ call _ _ w hlist hrun =>
    have hmade := wp_error (wp_exec hlist call) hrun
    exact hmade

theorem step_writes (h : Step disk a disk') :
    Run Put disk (a.writes.map fun x => (a, x)) disk' := by
  have hput : ∀ d x d' t, d = t → Makes a.jobs a.call d x ∧ x.apply d = d' →
      ∃ t', Put t (a, x) t' ∧ d' = t' := by
    rintro d x d' _ rfl hx
    exact ⟨d', hx, rfl⟩
  obtain ⟨d, hrun, rfl⟩ := (step_made h).simulate hput rfl
  exact hrun

def puts (acts : List Act) : List (Act × Write) := acts.flatMap fun a => a.writes.map fun x => (a, x)

variable {acts : List Act}

theorem mem_puts {x : Write} : (a, x) ∈ puts acts ↔ a ∈ acts ∧ x ∈ a.writes := by
  unfold puts
  simp only [List.mem_flatMap, List.mem_map, Prod.mk.injEq]
  constructor
  · rintro ⟨b, hb, y, hy, rfl, rfl⟩
    exact ⟨hb, hy⟩
  · rintro ⟨ha, hx⟩
    exact ⟨a, ha, x, hx, rfl, rfl⟩

def written (acts : List Act) : List Write := acts.flatMap (·.writes)

theorem puts_snd (acts : List Act) : (puts acts).map Prod.snd = written acts := by
  unfold puts written
  simp [List.map_flatMap, Function.comp_def]

theorem replay_of_puts {xs : List (Act × Write)} (h : Run Put disk xs disk') :
    disk' = replay disk (xs.map Prod.snd) := by
  induction h with
  | nil => rfl
  | cons hx _ ih =>
    obtain ⟨-, rfl⟩ := hx
    rw [ih]
    rfl

theorem run_writes (h : Run Step disk acts disk') : Run Put disk (puts acts) disk' :=
  h.refine_steps fun _ _ _ => step_writes

/-- An admission that drew this id and wrote a record for it. -/
def Act.Admits (a : Act) (id : JobId) : Prop :=
  ∃ caller launch r, a.call = .admitJob caller launch id ∧ .saved r ∈ a.writes

/-- What every write keeps holds at the end of every run of calls, and at every moment of it. -/
theorem run_invariant {I : Disk → Prop} (h0 : I disk)
    (hwrite : ∀ {jobs call disk x}, I disk → Makes jobs call disk x → I (x.apply disk))
    (h : Run Step disk acts disk') : I disk' := by
  refine (run_writes h).invariant (fun d x d' hd hput => ?_) h0
  obtain ⟨hmakes, rfl⟩ := hput
  exact hwrite hd hmakes

/-! ## A cluster of one host -/

def mox1 : HostSlot := ⟨1, HostSlot.range_one⟩

def scrub : Operation where
  id := "scrub"
  title := "Scrub"
  kind := .native
  minRole := .operator
  supportsDryRun := false
  params := []
  locks := ["storage"]
  target := .any
  resume := .checkpoint

def update : Operation := { scrub with id := "update", title := "Update", locks := ["update"] }

/-- `mox1` with its clock at `now`. -/
def onMox1 (now : Int) : Jobs where
  config := ⟨"/etc/pve/priv/bmac/jobs", mox1, 60000, 300000, 500⟩
  registry := ⟨[scrub, update]⟩
  cluster := ⟨.ok ⟨true, [mox1]⟩, fun _ => .ok none, fun _ => .ok []⟩
  now := now

def root : Caller := ⟨"root@pam", .admin⟩

/-- `root` launches `operation` at time zero, with its id for the key. -/
def launch (operation : OperationId) (id : JobId) : Call :=
  .admitJob root ⟨operation, [], operation, false⟩ id

end Bmac.Bmacd
