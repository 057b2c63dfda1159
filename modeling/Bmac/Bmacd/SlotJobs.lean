import Bmac.Bmacd.JobRecords
import Bmac.Bmacd.Schedules

/-!
# One job for each slot

Every host evaluates every schedule, with its own clock and its own memory of what it handled, and
no host leads. A slot still gets one job: the admissions of a slot have the same user and key, a
later one finds the record of the first, and once that record is gone the slot is too old to start.
-/

namespace Bmac.Bmacd

open Bmac.Base Bmac.Core

/-! ## The cluster -/

def maxUser : Nat := 128

/-- `name@realm`, as the users of sessions are written (`bmacd/src/auth/mod.rs`). -/
def validUser (user : String) : Bool :=
  match Text.rsplitOnce '@' user with
  | none => false
  | some (name, realm) =>
    Text.len user ≤ maxUser && !name.isEmpty &&
    !name.toList.any (fun c => Text.isWhitespace c || Text.isControl c || c = ':' || c = '/' ||
      c = '!') &&
    Text.len realm ≥ 2 &&
    realm.toList.head?.any (fun c => Text.isLower c || Text.isUpper c) &&
    realm.toList.all fun c => Text.isAlphanumeric c || c = '.' || c = '-' || c = '_'

/-- A host's scheduler, with the reading of the clock that its evaluation under way started with
and the schedules that this one has still to evaluate. -/
structure Host where
  scheduler : Scheduler
  now : Int
  round : List Schedule

structure Cluster where
  disk : Disk
  hosts : HostSlot → Host

def Cluster.put (c : Cluster) (host : HostSlot) (h : Host) : Cluster :=
  { c with hosts := Function.update c.hosts host h }

inductive Event where
  /-- `bmacd` starts, or restarts, on the host. -/
  | start (host : HostSlot) (now : Int)
  /-- An evaluation reads the clock and the schedules that are stored then. -/
  | list (host : HostSlot) (now : Int) (schedules : List Schedule)
  /-- The evaluation of one schedule that admits nothing. -/
  | pass (host : HostSlot) (schedule : Schedule) (now : Int) (outcome : Option Outcome)
  /-- The evaluation of one schedule that admits its slot's job. -/
  | launch (host : HostSlot) (schedule : Schedule) (now : Int) (slot : Slot) (act : Act)
  /-- Any other call on the jobs. -/
  | call (act : Act)

def Event.act? : Event → Option Act
  | launch _ _ _ _ act => some act
  | call act => some act
  | _ => none

def Event.Evaluates (id : String) (now : Int) : Event → Prop
  | pass _ schedule now' _ => schedule.id = id ∧ now' = now
  | launch _ schedule now' _ _ => schedule.id = id ∧ now' = now
  | _ => False

/-- The hosts of one cluster, with one configuration of their schedulers. Besides the schedulers,
only sessions admitJob jobs. -/
inductive ClusterStep (config : SchedulerConfig) : Cluster → Event → Cluster → Prop where
  | start {c : Cluster} {host : HostSlot} {now : Int} :
      ClusterStep config c (.start host now) (c.put host ⟨.new now, now, []⟩)
  | list {c : Cluster} {host : HostSlot} {now : Int} {schedules : List Schedule}
      (hidle : (c.hosts host).round = []) :
      ClusterStep config c (.list host now schedules)
        (c.put host ⟨(c.hosts host).scheduler.retain schedules, now, schedules.filter (·.enabled)⟩)
  | pass {c : Cluster} {host : HostSlot} {h : Host} {schedule : Schedule} {rest : List Schedule}
      {scheduler : Scheduler} {outcome : Option Outcome} (hhost : c.hosts host = h)
      (hround : h.round = schedule :: rest)
      (hdue : h.scheduler.due config schedule h.now = .done scheduler outcome) :
      ClusterStep config c (.pass host schedule h.now outcome)
        (c.put host ⟨scheduler, h.now, rest⟩)
  | launch {c : Cluster} {host : HostSlot} {h : Host} {schedule : Schedule} {rest : List Schedule}
      {slot : Slot} {id : JobId} {act : Act} {disk : Disk} {answer : Except ApiError Admission}
      (hhost : c.hosts host = h) (hround : h.round = schedule :: rest)
      (hdue : h.scheduler.due config schedule h.now = .launch slot)
      (hself : act.jobs.config.host = host)
      (hcall : act.call = .admitJob schedule.caller (schedule.launch slot) id)
      (hstep : Step c.disk act disk) (hreply : act.reply = answer.map .admission) :
      ClusterStep config c (.launch host schedule h.now slot act)
        ({ c with disk := disk }.put host
          ⟨(h.scheduler.answered schedule slot answer).1, h.now, rest⟩)
  | call {c : Cluster} {act : Act} {disk : Disk} (hstep : Step c.disk act disk)
      (huser : ∀ caller launch id, act.call = .admitJob caller launch id →
        validUser caller.user = true) :
      ClusterStep config c (.call act) { c with disk := disk }

def acts (events : List Event) : List Act := events.filterMap (·.act?)

/-! ## Users and keys -/

/-- The user of a session has no colon. -/
theorem colon_not_mem_of_validUser {user : String} (h : validUser user = true) :
    ':' ∉ user.toList := by
  unfold validUser at h
  split at h
  · cases h
  · rename_i name realm hsplit
    unfold Text.rsplitOnce at hsplit
    obtain ⟨⟨after, rest⟩, hbefore, heq⟩ := Option.map_eq_some_iff.mp hsplit
    simp only [Prod.mk.injEq] at heq
    obtain ⟨rfl, rfl⟩ := heq
    obtain ⟨hcs, hhead⟩ := Text.splitBefore_some hbefore
    simp only [Bool.and_eq_true, String.toList_ofList, Bool.not_eq_eq_eq_not, Bool.not_true,
      List.any_eq_false, List.all_eq_true] at h
    obtain ⟨⟨⟨⟨-, hname⟩, -⟩, -⟩, hrealm⟩ := h
    intro hmem
    rw [← List.mem_reverse, hcs, List.mem_append] at hmem
    rcases hmem with hmem | hmem
    · exact absurd (hrealm ':' (List.mem_reverse.mpr hmem)) (by decide)
    · cases rest with
      | nil => cases hmem
      | cons c rest =>
        cases hhead
        rcases List.mem_cons.mp hmem with hc | hc
        · cases hc
        · exact hname ':' (List.mem_reverse.mpr hc) (by decide)

theorem colon_mem_scheduleUser (id : String) : ':' ∈ (scheduleUser id).toList := by
  unfold scheduleUser
  simp

theorem scheduleUser_inj {id id' : String} (h : scheduleUser id = scheduleUser id') : id = id' := by
  unfold scheduleUser at h
  simpa using h

theorem scheduleKey_inj {id label label' : String}
    (h : scheduleKey id label = scheduleKey id label') : label = label' := by
  unfold scheduleKey at h
  simpa using h

/-! ## What admissions create -/

def JobRecord.Keyed (user key : String) (r : JobRecord) : Prop :=
  r.user = user ∧ r.idempotencyKey = key

instance (user key : String) (r : JobRecord) : Decidable (r.Keyed user key) :=
  inferInstanceAs (Decidable (_ ∧ _))

def Act.created (user key : String) (a : Act) : List JobId :=
  match a.call with
  | .admitJob .. => a.writes.filterMap fun
    | .saved r => if r.Keyed user key then some r.id else none
    | .removed _ => none
  | _ => []

def created (user key : String) (as : List Act) : List JobId := as.flatMap (·.created user key)

variable {id : JobId} {caller : Caller}

section Created

variable {user key : String} {a : Act} {disk disk' : Disk} {jobs : Jobs} {r : JobRecord}
  {launch : LaunchJob}

theorem Update.keyed {call : Call} {r' : JobRecord} (h : Update jobs call r r') :
    r'.Keyed user key ↔ r.Keyed user key := by
  cases h <;> exact Iff.rfl

theorem created_snoc {ws : List Write} {x : Write} :
    ({ a with writes := ws ++ [x] } : Act).created user key =
      ({ a with writes := ws } : Act).created user key ++
        ({ a with writes := [x] } : Act).created user key := by
  unfold Act.created
  dsimp only
  split
  · rw [List.filterMap_append]
  · rfl

theorem step_keyed (h : Step disk a disk') (hr : disk' id = some r) (hkeyed : r.Keyed user key) :
    (∃ q, disk id = some q ∧ q.Keyed user key) ∨ id ∈ a.created user key := by
  let I : List Write → Disk → Prop := fun ws d => ∀ r, d id = some r → r.Keyed user key →
    (∃ q, disk id = some q ∧ q.Keyed user key) ∨ id ∈ ({ a with writes := ws } : Act).created user key
  refine (step_made h).history (I := I) (fun r hr hk => .inl ⟨r, hr, hk⟩) ?_ r hr hkeyed
  rintro ws d x d' ih ⟨hmakes, rfl⟩ p hp hk
  rw [created_snoc, List.mem_append]
  rcases hmakes.origin hp with ⟨caller, launch, hcall, rfl, hid, -⟩ | ⟨-, r, hr, hpr⟩
  · right
    right
    unfold Act.created
    simp [hcall, hk, hid]
  · have hkr : r.Keyed user key := by
      rcases hpr with rfl | hu
      · exact hk
      · exact hu.keyed.mp hk
    exact (ih r hr hkr).imp_right .inl

theorem wp_of_forall {α : Type} {m : Op α} {Q : α → World → Prop} {E : ApiError → World → Prop}
    {w : World} (hQ : ∀ a w, Q a w) (hE : ∀ e w, E e w) : wp m Q E w := by
  unfold wp
  split
  · exact hQ _ _
  · exact hE _ _

/-- An admission writes only where it found no record of its user and key. -/
theorem wp_admitJob_fresh {records : List JobRecord} {fs : List Fault}
    (hl : Lists disk records) (caller : Caller) (launch : LaunchJob) (id : JobId) :
    let P : World → Prop := fun w => w.writes ≠ [] → ∀ id r, disk id = some r →
      ¬ r.Keyed caller.user launch.idempotencyKey
    wp (jobs.admitJob caller launch id) (fun _ => P) (fun _ => P) ⟨disk, records, fs, []⟩ := by
  intro P
  have hnone : ∀ fs, P ⟨disk, records, fs, []⟩ := fun _ h => absurd rfl h
  unfold Jobs.admitJob
  simp only [wp_bind, wp_ite, wp_throw]
  refine ⟨fun _ => hnone _, fun _ => ?_⟩
  rw [wp_ofExcept]
  refine ⟨fun operation _ => ⟨fun _ => hnone _, fun _ => ?_⟩, fun _ _ => hnone _⟩
  rw [wp_ofExcept]
  refine ⟨fun prepared _ => ?_, fun _ _ => hnone _⟩
  refine wp_locked (fun _ _ => hnone _) (fun fs => ?_)
  simp only [wp_bind, wp_get]
  split
  · simp only [wp_bind, wp_ite, wp_throw, wp_pure]
    exact ⟨fun _ => hnone _, fun _ => ⟨fun fs => hnone fs, fun _ fs => hnone fs⟩⟩
  · rename_i hfind
    have hfresh : ∀ id r, disk id = some r → ¬ r.Keyed caller.user launch.idempotencyKey := by
      intro id r hr
      have hno := List.find?_eq_none.mp hfind r (hl.mem_of_disk hr)
      simpa [JobRecord.Keyed] using hno
    exact wp_of_forall (fun _ _ => ⟨fun _ _ => hfresh, fun _ _ _ => hfresh⟩) fun _ _ _ => hfresh

theorem step_fresh (h : Step disk a disk')
    (hcall : a.call = .admitJob caller launch id) (hwrites : a.writes ≠ []) :
    ∀ id r, disk id = some r → ¬ r.Keyed caller.user launch.idempotencyKey := by
  have hwp : ∀ {records fs}, Lists disk records → wp (a.jobs.exec a.call)
      (fun _ w => w.writes ≠ [] → ∀ id r, disk id = some r →
        ¬ r.Keyed caller.user launch.idempotencyKey)
      (fun _ w => w.writes ≠ [] → ∀ id r, disk id = some r →
        ¬ r.Keyed caller.user launch.idempotencyKey) ⟨disk, records, fs, []⟩ := by
    intro records fs hlist
    rw [hcall]
    unfold Jobs.exec
    simp only [wp_bind, wp_pure]
    exact wp_admitJob_fresh hlist caller launch id
  cases h with
  | ok hlist hrun => exact wp_ok (hwp hlist) hrun hwrites
  | error hlist hrun => exact wp_error (hwp hlist) hrun hwrites

theorem Makes.of_admitJob {x : Write} (h : Makes jobs (.admitJob caller launch id) disk x) :
    (∃ r, x = .saved r ∧ r.id = id ∧ r.Keyed caller.user launch.idempotencyKey ∧
      r.state.isTerminal = false ∧ disk id = none) ∨
    ∃ r, x = .removed r.id ∧ disk r.id = some r ∧ r.state.isTerminal = true := by
  cases h with
  | create _ _ _ _ hid => exact .inl ⟨_, rfl, rfl, ⟨rfl, rfl⟩, rfl, hid⟩
  | update _ hu => cases hu
  | prune _ hr hend => exact .inr ⟨_, rfl, hr, hend⟩

/-- A call creates at most one record of this user and key: an admission with them. -/
theorem step_created (h : Step disk a disk') :
    a.created user key = [] ∨ ∃ caller launch id, a.call = .admitJob caller launch id ∧
      caller.user = user ∧ launch.idempotencyKey = key ∧ a.created user key = [id] ∧
      ∃ r, disk' id = some r ∧ r.Keyed user key := by
  by_cases hadmits : ∃ caller launch id, a.call = .admitJob caller launch id
  · obtain ⟨caller, launch, id, hcall⟩ := hadmits
    -- the record stays unfinished on the disk, so that a second would find it
    let I : List Write → Disk → Prop := fun ws d =>
      ({ a with writes := ws } : Act).created user key = [] ∨
      (caller.user = user ∧ launch.idempotencyKey = key ∧
        ({ a with writes := ws } : Act).created user key = [id] ∧
        ∃ r, d id = some r ∧ r.Keyed user key ∧ r.state.isTerminal = false)
    have hI : I a.writes disk' := by
      refine (step_made h).history (I := I) ?_ ?_
      · left
        unfold Act.created
        simp [hcall]
      · rintro ws d x d' ih ⟨hmakes, rfl⟩
        rw [hcall] at hmakes
        simp only [I, created_snoc]
        rcases hmakes.of_admitJob with ⟨r, rfl, hid, hk, hopen, hnone⟩ | ⟨r, rfl, hr, hend⟩
        · have hnil : ({ a with writes := ws } : Act).created user key = [] := by
            refine ih.resolve_right ?_
            rintro ⟨-, -, -, q, hq, -⟩
            rw [hnone] at hq
            cases hq
          by_cases hsame : r.Keyed user key
          · right
            refine ⟨hk.1.symm.trans hsame.1, hk.2.symm.trans hsame.2, ?_, r, ?_, hsame, hopen⟩
            · rw [hnil]
              unfold Act.created
              simp [hcall, hsame, hid]
            · exact Write.saved_apply_eq_some.mpr (.inl ⟨hid.symm, rfl⟩)
          · left
            rw [hnil]
            unfold Act.created
            simp [hcall, hsame]
        · have hnone : ({ a with writes := [.removed r.id] } : Act).created user key = [] := by
            unfold Act.created
            simp [hcall]
          rw [hnone, List.append_nil]
          refine ih.imp_right ?_
          rintro ⟨huser, hkey, hone, q, hq, hqk, hopen⟩
          refine ⟨huser, hkey, hone, q, Write.removed_apply_eq_some.mpr ⟨?_, hq⟩, hqk, hopen⟩
          rintro rfl
          rw [hr] at hq
          cases hq
          rw [hend] at hopen
          cases hopen
    rcases hI with hnil | ⟨huser, hkey, hone, r, hr, hk, -⟩
    · exact .inl hnil
    · exact .inr ⟨caller, launch, id, hcall, huser, hkey, hone, r, hr, hk⟩
  · left
    unfold Act.created
    split
    · rename_i hcall
      exact absurd ⟨_, _, _, hcall⟩ hadmits
    · rfl

theorem step_kept (h : Step disk a disk') (hr : disk id = some r) (hkeyed : r.Keyed user key) :
    (∃ q, disk' id = some q ∧ q.Keyed user key) ∨ .removed id ∈ a.writes := by
  let I : List Write → Disk → Prop := fun ws d =>
    (∃ q, d id = some q ∧ q.Keyed user key) ∨ .removed id ∈ ws
  refine (step_made h).history (I := I) (.inl ⟨r, hr, hkeyed⟩) ?_
  rintro ws d x d' ih ⟨hmakes, rfl⟩
  simp only [I, List.mem_append]
  rcases ih with ⟨q, hq, hk⟩ | hremoved
  · generalize a.call = call at hmakes
    cases hmakes with
    | create _ _ _ _ hid =>
      refine .inl ⟨q, Write.saved_apply_eq_some.mpr (.inr ⟨?_, hq⟩), hk⟩
      rintro rfl
      rw [hq] at hid
      cases hid
    | @update _ _ p p' hp hu =>
      by_cases hsame : id = p.id
      · subst hsame
        rw [hq] at hp
        cases hp
        exact .inl ⟨p', Write.saved_apply_eq_some.mpr (.inl ⟨hu.id_eq.symm, rfl⟩), hu.keyed.mpr hk⟩
      · refine .inl ⟨q, Write.saved_apply_eq_some.mpr (.inr ⟨?_, hq⟩), hk⟩
        rwa [hu.id_eq]
    | @prune _ _ p _ _ _ =>
      by_cases hsame : id = p.id
      · exact .inr (.inr (List.mem_singleton.mpr (by rw [hsame])))
      · exact .inl ⟨q, Write.removed_apply_eq_some.mpr ⟨hsame, hq⟩, hk⟩
  · exact .inr (.inl hremoved)

theorem step_admission (h : Step disk a disk') {admission : Admission}
    (hcall : a.call = .admitJob caller launch id) (hreply : a.reply = .ok (.admission admission)) :
    (∃ r, disk admission.job.id = some r ∧ r.Keyed caller.user launch.idempotencyKey) ∨
      admission.job.id ∈ a.created caller.user launch.idempotencyKey := by
  obtain ⟨w, -, hwrites, hans⟩ := step_answers h hreply
  rw [hcall] at hans
  rcases hans with ⟨-, -, hr, hk⟩ | ⟨hdid, -, hmakes⟩
  · exact .inl ⟨admission.job, hr, hk⟩
  · right
    obtain ⟨ids, hids, -⟩ := hdid.writes
    obtain ⟨r, hr, -, hk, -⟩ | ⟨r, hr, -⟩ := hmakes.of_admitJob
    · cases hr
      unfold Act.created
      simp [hcall, ← hwrites, hids, hk]
    · cases hr

end Created

/-! ## Slots -/

variable {now : Int}

theorem due_launch {config : SchedulerConfig} {scheduler : Scheduler} {schedule : Schedule}
    {slot : Slot} (h : scheduler.due config schedule now = .launch slot) :
    schedule.every.latest now config.zone = some slot ∧ now ≤ slot.atMs + config.graceMs := by
  unfold Scheduler.due at h
  split at h
  · cases h
  · rename_i slot' hslot
    split at h
    · cases h
    · split at h
      · cases h
      · split at h
        · cases h
        · cases h
          exact ⟨hslot, by omega⟩

def Act.Prunes (user key : String) (disk : Disk) (a : Act) : Prop :=
  ∃ jid r, .removed jid ∈ a.writes ∧ disk jid = some r ∧ r.Keyed user key

/-- When the record of the slot's job is pruned, no evaluation of its schedule is under way, and none
comes later, that read a time within the slot's grace period. -/
def PrunedLate (config : SchedulerConfig) (id label : String) (events : List Event) : Prop :=
  ∀ pre e post a, events = pre ++ e :: post → e.act? = some a →
    a.Prunes (scheduleUser id) (scheduleKey id label)
      (replay (fun _ => none) (written (acts pre))) →
    ∀ (every : Recurrence) now slot, every.latest now config.zone = some slot → slot.label = label →
      ∀ x ∈ post, ∀ now', x.Evaluates id now' → slot.atMs + config.graceMs < now'

theorem PrunedLate.left {config : SchedulerConfig} {id label : String} {events rest : List Event}
    (h : PrunedLate config id label (events ++ rest)) : PrunedLate config id label events := by
  intro pre e post a hsplit hact hprunes every now slot hslot hlabel x hx
  subst hsplit
  exact h pre e (post ++ rest) a (by simp) hact hprunes every now slot hslot hlabel x
    (List.mem_append_left _ hx)

/-- What holds of a slot's jobs, after some events. -/
structure SlotState (config : SchedulerConfig) (id label : String) (events : List Event)
    (c : Cluster) : Prop where
  disk : c.disk = replay (fun _ => none) (written (acts events))
  once : (created (scheduleUser id) (scheduleKey id label) (acts events)).length ≤ 1
  records : ∀ jid r, c.disk jid = some r → r.Keyed (scheduleUser id) (scheduleKey id label) →
    jid ∈ created (scheduleUser id) (scheduleKey id label) (acts events)
  /-- The slot's job was launched for it. -/
  source : created (scheduleUser id) (scheduleKey id label) (acts events) ≠ [] →
    ∃ host schedule now slot act, .launch host schedule now slot act ∈ events ∧
      act.created (scheduleUser id) (scheduleKey id label) ≠ [] ∧ slot.label = label ∧
      schedule.every.latest now config.zone = some slot
  /-- The slot's job has its record still, or that was pruned. -/
  kept : created (scheduleUser id) (scheduleKey id label) (acts events) ≠ [] →
    (∃ jid r, c.disk jid = some r ∧ r.Keyed (scheduleUser id) (scheduleKey id label)) ∨
    ∃ pre e post a, events = pre ++ e :: post ∧ e.act? = some a ∧
      a.Prunes (scheduleUser id) (scheduleKey id label) (replay (fun _ => none) (written (acts pre)))

section Events

variable {config : SchedulerConfig} {id label : String} {events : List Event} {e : Event}
  {c c' : Cluster}

theorem acts_snoc : acts (events ++ [e]) = acts events ++ e.act?.toList := by
  unfold acts
  rw [List.filterMap_append]
  cases h : e.act? <;> simp [h]

/-- An event without a call on the jobs. -/
theorem SlotState.quiet (h : SlotState config id label events c) (hact : e.act? = none)
    (hdisk : c'.disk = c.disk) : SlotState config id label (events ++ [e]) c' := by
  have hacts : acts (events ++ [e]) = acts events := by
    rw [acts_snoc, hact]
    exact List.append_nil _
  refine ⟨?_, ?_, ?_, ?_, ?_⟩
  · rw [hacts, hdisk]
    exact h.disk
  · rw [hacts]
    exact h.once
  · rw [hacts, hdisk]
    exact h.records
  · rw [hacts]
    intro hne
    obtain ⟨host, schedule, now, slot, act, hmem, hrest⟩ := h.source hne
    exact ⟨host, schedule, now, slot, act, List.mem_append_left _ hmem, hrest⟩
  · rw [hacts, hdisk]
    intro hne
    rcases h.kept hne with hthere | ⟨pre, e', post, a, rfl, hact', hprunes⟩
    · exact .inl hthere
    · exact .inr ⟨pre, e', post ++ [e], a, by simp, hact', hprunes⟩

/-- A call on the jobs, that creates no record of the slot unless it is its first launch. -/
theorem SlotState.call {a : Act} (h : SlotState config id label events c) (hact : e.act? = some a)
    (hstep : Step c.disk a c'.disk)
    (hfirst : a.created (scheduleUser id) (scheduleKey id label) ≠ [] →
      created (scheduleUser id) (scheduleKey id label) (acts events) = [] ∧
      ∃ host schedule now slot, e = .launch host schedule now slot a ∧ slot.label = label ∧
        schedule.every.latest now config.zone = some slot) :
    SlotState config id label (events ++ [e]) c' := by
  have hacts : acts (events ++ [e]) = acts events ++ [a] := by
    rw [acts_snoc, hact]
    rfl
  have hcreated : created (scheduleUser id) (scheduleKey id label) (acts (events ++ [e])) =
      created (scheduleUser id) (scheduleKey id label) (acts events) ++
        a.created (scheduleUser id) (scheduleKey id label) := by
    rw [hacts]
    unfold created
    rw [List.flatMap_append, List.flatMap_singleton]
  refine ⟨?_, ?_, ?_, ?_, ?_⟩
  · have hwritten : written (acts events ++ [a]) = written (acts events) ++ a.writes := by
      unfold written
      rw [List.flatMap_append, List.flatMap_singleton]
    rw [hacts, hwritten, replay_append, ← h.disk, replay_of_puts (step_writes hstep)]
    simp [Function.comp_def]
  · rw [hcreated, List.length_append]
    have honce := h.once
    rcases step_created hstep with hnil | ⟨_, _, _, _, _, _, hone, -⟩
    · rw [hnil, List.length_nil]
      omega
    · have hne : a.created (scheduleUser id) (scheduleKey id label) ≠ [] := by
        rw [hone]
        exact List.cons_ne_nil _ _
      rw [(hfirst hne).1, hone]
      rfl
  · intro jid r hr hk
    rw [hcreated, List.mem_append]
    exact (step_keyed hstep hr hk).imp (fun ⟨q, hq, hqk⟩ => h.records jid q hq hqk) fun h => h
  · intro hne
    by_cases hnew : a.created (scheduleUser id) (scheduleKey id label) = []
    · rw [hcreated, hnew, List.append_nil] at hne
      obtain ⟨host, schedule, now, slot, act, hmem, hrest⟩ := h.source hne
      exact ⟨host, schedule, now, slot, act, List.mem_append_left _ hmem, hrest⟩
    · obtain ⟨-, host, schedule, now, slot, rfl, hlabel, hslot⟩ := hfirst hnew
      exact ⟨host, schedule, now, slot, a, List.mem_append_right _ (List.mem_singleton.mpr rfl),
        hnew, hlabel, hslot⟩
  · intro hne
    rcases step_created hstep with hnil | ⟨_, _, jid, _, _, _, _, r, hr, hk⟩
    · rw [hcreated, hnil, List.append_nil] at hne
      rcases h.kept hne with ⟨jid, r, hr, hk⟩ | ⟨pre, e', post, a', rfl, hact', hprunes⟩
      · rcases step_kept hstep hr hk with ⟨q, hq, hqk⟩ | hremoved
        · exact .inl ⟨jid, q, hq, hqk⟩
        · exact .inr ⟨events, e, [], a, rfl, hact, jid, r, hremoved, h.disk ▸ hr, hk⟩
      · exact .inr ⟨pre, e', post ++ [e], a', by simp, hact', hprunes⟩
    · exact .inl ⟨jid, r, hr, hk⟩

/-- The launch of a slot that creates its job is the first to: the record of an earlier one would
be there, or the slot would be too old. -/
theorem SlotState.first_launch (h : SlotState config id label events c)
    (hlate : PrunedLate config id label (events ++ [e])) {host : HostSlot} {schedule : Schedule}
    {slot : Slot} {a : Act} {jid : JobId} {disk : Disk} (he : e = .launch host schedule now slot a)
    (hid : schedule.id = id) (hlabel : slot.label = label)
    (hslot : schedule.every.latest now config.zone = some slot)
    (hnow : now ≤ slot.atMs + config.graceMs)
    (hcall : a.call = .admitJob schedule.caller (schedule.launch slot) jid)
    (hstep : Step c.disk a disk) (hnew : a.created (scheduleUser id) (scheduleKey id label) ≠ []) :
    created (scheduleUser id) (scheduleKey id label) (acts events) = [] := by
  by_contra hold
  have hwrites : a.writes ≠ [] := by
    intro hnil
    unfold Act.created at hnew
    rw [hcall, hnil] at hnew
    exact hnew rfl
  rcases h.kept hold with ⟨jid', r, hr, hk⟩ | ⟨pre, e', post, a', rfl, hact, hprunes⟩
  · subst hid hlabel
    exact step_fresh hstep hcall hwrites jid' r hr hk
  · have hpast := hlate pre e' (post ++ [e]) a' (by simp) hact hprunes schedule.every now slot hslot
      hlabel e (by simp) now (by rw [he]; exact ⟨hid, rfl⟩)
    omega

theorem SlotState.step (h : SlotState config id label events c)
    (hlate : PrunedLate config id label (events ++ [e])) (hs : ClusterStep config c e c') :
    SlotState config id label (events ++ [e]) c' := by
  cases hs with
  | start => exact h.quiet rfl rfl
  | list => exact h.quiet rfl rfl
  | pass => exact h.quiet rfl rfl
  | @launch _ _ schedule _ slot _ _ _ _ _ _ hdue _ hcall hstep _ =>
    refine h.call rfl hstep fun hnew => ?_
    obtain ⟨hslot, hnow⟩ := due_launch hdue
    obtain hnil | ⟨caller, launch, jid, hadmits, huser, hkey, -⟩ := step_created hstep
    · exact absurd hnil hnew
    · rw [hcall] at hadmits
      cases hadmits
      have hid : schedule.id = id := scheduleUser_inj huser
      have hlabel : slot.label = label := scheduleKey_inj (hid ▸ hkey)
      exact ⟨h.first_launch hlate rfl hid hlabel hslot hnow hcall hstep hnew, _, _, _, _, rfl,
        hlabel, hslot⟩
  | call hstep huser =>
    refine h.call rfl hstep fun hnew => ?_
    obtain hnil | ⟨caller, launch, jid, hadmits, hsame, -⟩ := step_created hstep
    · exact absurd hnil hnew
    · have hvalid := huser caller launch jid hadmits
      rw [hsame] at hvalid
      exact absurd (colon_mem_scheduleUser id) (colon_not_mem_of_validUser hvalid)

theorem slotState_of_run {c0 : Cluster} (h0 : c0.disk = fun _ => none)
    (hrun : Run (ClusterStep config) c0 events c) (hlate : PrunedLate config id label events) :
    SlotState config id label events c := by
  refine hrun.history (I := fun events c => PrunedLate config id label events →
    SlotState config id label events c) (fun _ => ?_) ?_ hlate
  · refine ⟨h0, by simp [acts, created], fun jid r hr => ?_, fun hne => absurd rfl hne,
      fun hne => absurd rfl hne⟩
    rw [h0] at hr
    cases hr
  · intro events c e c' ih hs hlate
    exact (ih hlate.left).step hlate hs

theorem step_of_clusterStep {a : Act} (h : ClusterStep config c e c') (hact : e.act? = some a) :
    Step c.disk a c'.disk := by
  cases h with
  | start => cases hact
  | list => cases hact
  | pass => cases hact
  | launch _ _ _ _ _ hstep =>
    cases hact
    exact hstep
  | call hstep =>
    cases hact
    exact hstep

end Events

/-- Whatever the hosts evaluate, at whatever times, and whatever else is called and restarted: as
long as the record of a slot's job isn't pruned while an evaluation that read a time within the
slot's grace period may still start it, at most one record of the slot is ever created, and every
admission of its user and key that succeeds returns it. -/
theorem slot_admitted_once (config : SchedulerConfig) (c0 c : Cluster) (events : List Event)
    (id label : String) (h0 : c0.disk = fun _ => none)
    (hrun : Run (ClusterStep config) c0 events c) (hlate : PrunedLate config id label events) :
    (created (scheduleUser id) (scheduleKey id label) (acts events)).length ≤ 1 ∧
    ∀ a ∈ acts events, ∀ caller launch jid admission, a.call = .admitJob caller launch jid →
      caller.user = scheduleUser id → launch.idempotencyKey = scheduleKey id label →
      a.reply = .ok (.admission admission) →
      created (scheduleUser id) (scheduleKey id label) (acts events) = [admission.job.id] := by
  have honce := (slotState_of_run h0 hrun hlate).once
  refine ⟨honce, fun a ha caller launch jid admission hcall huser hkey hreply => ?_⟩
  have hmem : admission.job.id ∈ created (scheduleUser id) (scheduleKey id label) (acts events) := by
    obtain ⟨e, he, hact⟩ := List.mem_filterMap.mp ha
    obtain ⟨pre, post, rfl⟩ := List.append_of_mem he
    obtain ⟨c1, hpre, hrest⟩ := Run.append_iff.mp hrun
    obtain ⟨c2, hs, -⟩ := Run.cons_iff.mp hrest
    have hsplit : acts (pre ++ e :: post) = acts pre ++ a :: acts post := by
      unfold acts
      rw [List.filterMap_append, List.filterMap_cons_some hact]
    unfold created
    rw [hsplit, List.flatMap_append, List.flatMap_cons, List.mem_append, List.mem_append]
    rcases step_admission (step_of_clusterStep hs hact) hcall hreply with ⟨r, hr, hk⟩ | hnew
    · rw [huser, hkey] at hk
      exact .inl ((slotState_of_run h0 hpre hlate.left).records _ r hr hk)
    · rw [huser, hkey] at hnew
      exact .inr (.inl hnew)
  generalize created (scheduleUser id) (scheduleKey id label) (acts events) = ids at honce hmem
  match ids with
  | [] => cases hmem
  | [jid] => rw [List.mem_singleton.mp hmem]
  | _ :: _ :: _ => simp at honce

def hourly : SchedulerConfig := ⟨graceMs, .utc⟩

def sweep : Schedule where
  id := "sweep"
  title := "Sweep"
  operation := "scrub"
  parameters := []
  every := .interval 60
  enabled := true
  runAs := .operator
  updatedAtMs := 0

def oneOClock : Slot := ⟨3600000, "19700101T0100Z"⟩

def sweepCall (id : JobId) : Call := .admitJob sweep.caller (sweep.launch oneOClock) id

def sweepJob : JobRecord :=
  ((onMox1 3600000).newRecord sweep.caller (sweep.launch oneOClock) scrub
    ⟨[], [], ["storage"], false⟩ mox1 7).next

def keepingOne (host : HostSlot) (now : Int) : Jobs :=
  { onMox1 now with config := { (onMox1 now).config with host, keepFinished := 1 } }

def updateJob : JobRecord :=
  ((onMox1 3600000).newRecord root ⟨"update", [], "update", false⟩ update
    ⟨[], [], ["update"], false⟩ mox1 9).next

def otherHost : HostSlot := ⟨2, HostSlot.range_two⟩

def quietCluster : Cluster := ⟨fun _ => none, fun _ => ⟨.new 0, 0, []⟩⟩

def rootOnly : Disk := (Write.saved updateJob).apply fun _ => none

def bothJobs : Disk := (Write.saved sweepJob).apply rootOnly

theorem lists_rootOnly : Lists rootOnly [updateJob] := @Lists.save _ _ updateJob Lists.empty

theorem lists_bothJobs : Lists bothJobs [updateJob, sweepJob] :=
  @Lists.save _ _ sweepJob lists_rootOnly

/-- A sweep just after the grace period: nobody claimed the two jobs, so both fail, and the record of
the slot's is pruned. -/
def unclaimed : Act × Disk :=
  (keepingOne mox1 4500001).act (.sweep 4500001 [updateJob, sweepJob]) [] bothJobs
    [updateJob, sweepJob]

def failedUpdate : JobRecord := (updateJob.finish .failed "mox1 never started it" 4500001).next

theorem lists_unclaimed : Lists unclaimed.2 [failedUpdate] :=
  ((lists_bothJobs.save (r := failedUpdate)).save
    (r := (sweepJob.finish .failed "mox1 never started it" 4500001).next)).remove 7

/-- `root` launches a job, and `mox1` starts the slot's. -/
def slotStarted : List Event :=
  [.call ((keepingOne mox1 3600000).act (launch "update" 9) [] (fun _ => none) []).1,
    .list mox1 3600000 [sweep],
    .launch mox1 sweep 3600000 oneOClock
      ((keepingOne mox1 3600000).act (sweepCall 7) [] rootOnly [updateJob]).1]

/-- The other host reads its clock in the last moment of the grace period, and comes to the slot once
the record of its job is pruned. -/
def lateStarts : List Event :=
  slotStarted ++ [.list otherHost 4500000 [sweep], .call unclaimed.1,
    .launch otherHost sweep 4500000 oneOClock
      ((keepingOne otherHost 4500001).act (sweepCall 8) [] unclaimed.2 [failedUpdate]).1]

def Write.isRemoved : Write → Bool
  | .removed _ => true
  | .saved _ => false

theorem session_launch {l : LaunchJob}
    (h : ((keepingOne mox1 now).act (launch "update" 9) [] (fun _ => none) []).1.call =
      .admitJob caller l id) : validUser caller.user = true := by
  cases h
  decide

/-- The proviso can't be about the time of the prune: records are pruned only past the slot's grace
period, but an evaluation that read its clock before starts the slot again. -/
theorem pruned_past_grace_starts_again : ∃ c, Run (ClusterStep hourly) quietCluster lateStarts c ∧
    (∀ a ∈ acts lateStarts, ∀ jid, .removed jid ∈ a.writes → oneOClock.atMs + graceMs < a.jobs.now) ∧
    created (scheduleUser "sweep") (scheduleKey "sweep" "19700101T0100Z") (acts lateStarts) = [7, 8] := by
  have h1 := step_act Lists.empty (keepingOne mox1 3600000) (launch "update" 9) []
  have h2 := step_act lists_rootOnly (keepingOne mox1 3600000) (sweepCall 7) []
  have h3 := step_act lists_bothJobs (keepingOne mox1 4500001) (.sweep 4500001 [updateJob, sweepJob]) []
  have h4 := step_act lists_unclaimed (keepingOne otherHost 4500001) (sweepCall 8) []
  refine ⟨_, Run.cons (@ClusterStep.call hourly quietCluster _ _ h1 fun _ _ _ h => session_launch h) <|
    .cons (@ClusterStep.list hourly _ mox1 3600000 [sweep] rfl) <|
    .cons (@ClusterStep.launch hourly _ mox1 _ sweep [] oneOClock 7 _ _ (.ok ⟨sweepJob, false⟩) rfl rfl
      rfl rfl rfl h2 rfl) <|
    .cons (@ClusterStep.list hourly _ otherHost 4500000 [sweep] rfl) <|
    .cons (@ClusterStep.call hourly _ _ _ h3 nofun) <|
    .single (@ClusterStep.launch hourly _ otherHost _ sweep [] oneOClock 8 _ _ (.ok ⟨_, false⟩) rfl rfl
      rfl rfl rfl h4 rfl), ?_, by decide +kernel⟩
  have hpast : ∀ a ∈ acts lateStarts, a.writes.any Write.isRemoved = true →
      oneOClock.atMs + graceMs < a.jobs.now := by decide +kernel
  exact fun a ha jid hjid => hpast a ha (List.any_eq_true.mpr ⟨_, hjid, rfl⟩)

/-- `mox1` restarts, finds the job, and comes back once its record is pruned. -/
def sweeps : List Event :=
  slotStarted ++ [.start mox1 3600001, .list mox1 3600002 [sweep],
    .launch mox1 sweep 3600002 oneOClock
      ((keepingOne mox1 3600002).act (sweepCall 8) [] bothJobs [updateJob, sweepJob]).1,
    .call unclaimed.1, .list mox1 4500002 [sweep], .pass mox1 sweep 4500002 none]

theorem prunedLate_sweeps : PrunedLate hourly "sweep" "19700101T0100Z" sweeps := by
  rintro pre e post a hsplit hact ⟨jid, r, hremoved, -, -⟩ every now slot hslot hlabel x hx now' hnow
  have hn : sweeps[pre.length]? = some e := by
    rw [hsplit, List.getElem?_append_right (Nat.le_refl _), Nat.sub_self, List.getElem?_cons_zero]
  -- nothing is removed but by the sweep
  have hsweep : pre.length = 6 := by
    have hlt : pre.length < 9 := (List.getElem?_eq_some_iff.mp hn).1
    have honly : ∀ n < 9, n ≠ 6 →
        ((sweeps[n]?.bind Event.act?).elim false (·.writes.any Write.isRemoved)) = false := by
      decide +kernel
    by_contra hne
    have hnone := honly _ hlt hne
    rw [hn, Option.bind_some, hact] at hnone
    rw [Option.elim_some, List.any_eq_true.mpr ⟨_, hremoved, rfl⟩] at hnone
    cases hnone
  have hpost : post = [.list mox1 4500002 [sweep], .pass mox1 sweep 4500002 none] := by
    have hdrop : sweeps.drop (pre.length + 1) = post := by
      rw [hsplit, List.drop_length_add_append, List.drop_succ_cons, List.drop_zero]
    rw [hsweep] at hdrop
    exact hdrop.symm
  have hone : sweep.every.latest 3600000 hourly.zone = some oneOClock := rfl
  have hsame : slot = oneOClock := slot_eq_of_label hslot hone hlabel
  subst hpost hsame
  rcases List.mem_cons.mp hx with rfl | hx
  · cases hnow
  · cases List.mem_singleton.mp hx
    obtain ⟨-, rfl⟩ := hnow
    decide

theorem slot_admitted_once_restart : ∃ c, Run (ClusterStep hourly) quietCluster sweeps c ∧
    (acts sweeps).length = 4 ∧
    created (scheduleUser "sweep") (scheduleKey "sweep" "19700101T0100Z") (acts sweeps) = [7] := by
  have h1 := step_act Lists.empty (keepingOne mox1 3600000) (launch "update" 9) []
  have h2 := step_act lists_rootOnly (keepingOne mox1 3600000) (sweepCall 7) []
  have h3 := step_act lists_bothJobs (keepingOne mox1 3600002) (sweepCall 8) []
  have h4 := step_act lists_bothJobs (keepingOne mox1 4500001) (.sweep 4500001 [updateJob, sweepJob]) []
  have hrun : Run (ClusterStep hourly) quietCluster sweeps _ :=
    Run.cons (@ClusterStep.call hourly quietCluster _ _ h1 fun _ _ _ h => session_launch h) <|
    .cons (@ClusterStep.list hourly _ mox1 3600000 [sweep] rfl) <|
    .cons (@ClusterStep.launch hourly _ mox1 _ sweep [] oneOClock 7 _ _ (.ok ⟨sweepJob, false⟩) rfl rfl
      rfl rfl rfl h2 rfl) <|
    .cons (@ClusterStep.start hourly _ mox1 3600001) <|
    .cons (@ClusterStep.list hourly _ mox1 3600002 [sweep] rfl) <|
    .cons (@ClusterStep.launch hourly _ mox1 _ sweep [] oneOClock 8 _ _ (.ok ⟨sweepJob, true⟩) rfl rfl
      rfl rfl rfl h3 rfl) <|
    .cons (@ClusterStep.call hourly _ _ _ h4 nofun) <|
    .cons (@ClusterStep.list hourly _ mox1 4500002 [sweep] rfl) <|
    .single (@ClusterStep.pass hourly _ mox1 _ sweep [] _ none rfl rfl rfl)
  refine ⟨_, hrun, rfl, ?_⟩
  obtain ⟨-, hsame⟩ := slot_admitted_once hourly _ _ sweeps "sweep" "19700101T0100Z" rfl hrun
    prunedLate_sweeps
  exact hsame _ (.tail _ (.tail _ (.head _))) _ _ _ ⟨sweepJob, true⟩ rfl rfl rfl rfl

end Bmac.Bmacd
