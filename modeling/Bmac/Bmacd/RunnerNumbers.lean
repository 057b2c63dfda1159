import Bmac.Bmacd.JobRecords
import Bmac.Bmacd.Runner

/-!
# The numbers of a job's events

A claim numbers a job's events on from the record's `last_seq`. Two events of one claim never share a
number (`Numbered.distinct`). Events of two claims don't as long as the record is told of them in time:
an event that is stored must be followed by a renewal of its claim before the job is claimed again
(`RenewedFirst`).
-/

namespace Bmac.Bmacd.Runner

open Bmac.Base Bmac.Core Bmac.Proto Bmac.Bmacd.Supervisor

/-! ## The events of a cluster -/

/-- An event that is stored, in a queue, or in a run that hasn't delivered it. -/
inductive Issued (s : Cluster) : Logged → Prop where
  | stored {t : Logged} (h : t ∈ s.stored) : Issued s t
  | queued {t : Logged} (host : HostSlot) (h : t ∈ (s.daemons host).writes.flatten) : Issued s t
  | pending {host : HostSlot} {id : JobId} {a : Attempt} {run : ActiveRun} {event : JobEvent}
      (hactive : (s.daemons host).active id = some a) (hrun : a.supervised.run = some run)
      (h : event ∈ run.pending) : Issued s ⟨a.claim, event⟩

/-- No number is used for two events of a job. -/
def Unreused (s : Cluster) : Prop :=
  ∀ t ∈ s.stored, ∀ t' ∈ s.stored, t.event.job = t'.event.job → t.event.seq = t'.event.seq →
    t.event = t'.event

/-- Each claim's events come after those that are stored of the earlier claims. -/
def Ordered (s : Cluster) : Prop :=
  ∀ t ∈ s.stored, ∀ t' ∈ s.stored, t.event.job = t'.event.job → t.claim < t'.claim →
    t.event.seq < t'.event.seq

/-- The step leaves `last_seq` where the numbers go on: a claimed record has reached every stored
event of its job, and an event that is stored when its job was claimed again isn't beyond the
`last_seq` which that claim found. -/
def KeepsUp (s : Cluster) : Event → Prop
  | .claim act _ => ∀ id nonce claim r, act.call = .claim id nonce → act.reply = .ok (.claim claim) →
      s.disk id = some r → ∀ t ∈ s.stored, t.event.job = id → t.event.seq ≤ r.lastSeq
  | .store host deliveries true => ∀ t ∈ ((s.daemons host).writes.take deliveries).flatten,
      ∀ k lastSeq, t.claim < k → (s.claims t.event.job)[k]? = some lastSeq → t.event.seq ≤ lastSeq
  | _ => True

structure Numbered (s : Cluster) : Prop where
  idle : ∀ host id a, (s.daemons host).active id = some a → a.supervised.sent = []
  alone : ∀ host host' id a a', (s.daemons host).active id = some a →
    (s.daemons host').active id = some a' → a.claim = a'.claim → host = host'
  named : ∀ host id a run event, (s.daemons host).active id = some a →
    a.supervised.run = some run → event ∈ run.pending → event.job = id
  counts : ∀ host id a run, (s.daemons host).active id = some a → a.supervised.run = some run →
    ∃ lastSeq, (s.claims id)[a.claim]? = some lastSeq ∧ lastSeq < run.seq
  known : ∀ host id a, (s.daemons host).active id = some a → a.claim < (s.claims id).length
  above : ∀ t, Issued s t → ∃ lastSeq, (s.claims t.event.job)[t.claim]? = some lastSeq ∧
    lastSeq < t.event.seq
  reached : ∀ host id a run t, (s.daemons host).active id = some a →
    a.supervised.run = some run → Issued s t → t.event.job = id → t.claim = a.claim →
    t.event.seq ≤ run.seq
  distinct : ∀ t t', Issued s t → Issued s t' → t.event.job = t'.event.job →
    t.claim = t'.claim → t.event.seq = t'.event.seq → t.event = t'.event
  covered : ∀ t ∈ s.stored, ∀ k lastSeq, t.claim < k →
    (s.claims t.event.job)[k]? = some lastSeq → t.event.seq ≤ lastSeq

theorem Numbered.empty : Numbered .empty := by
  have hno : ∀ t, ¬ Issued .empty t := by
    rintro t (h | ⟨host, h⟩ | h)
    · cases h
    · cases h
    · cases h
  refine ⟨?_, ?_, ?_, ?_, ?_, ?_, ?_, ?_, ?_⟩
  · intro host id a h
    cases h
  · intro host host' id a a' h
    cases h
  · intro host id a run event h
    cases h
  · intro host id a run h
    cases h
  · intro host id a h
    cases h
  · intro t h
    exact absurd h (hno t)
  · intro host id a run t h
    cases h
  · intro t t' h
    exact absurd h (hno t)
  · intro t h
    cases h

variable {s : Cluster} {config : Supervisor.Config} {id : JobId} {t : Logged}

theorem Numbered.ordered (h : Numbered s) : Ordered s := by
  intro t ht t' ht' hjob hclaim
  obtain ⟨lastSeq, hstart, hlt⟩ := h.above t' (.stored ht')
  rw [← hjob] at hstart
  have := h.covered t ht t'.claim lastSeq hclaim hstart
  omega

theorem Numbered.unreused (h : Numbered s) : Unreused s := by
  intro t ht t' ht' hjob hseq
  rcases Nat.lt_trichotomy t.claim t'.claim with hlt | heq | hgt
  · have := h.ordered t ht t' ht' hjob hlt
    omega
  · exact h.distinct t t' (.stored ht) (.stored ht') hjob heq hseq
  · have := h.ordered t' ht' t ht hjob.symm hgt
    omega

/-! ## Steps that make no event -/

/-- Attempts and queues may go, and issued events be stored. -/
structure Shrinks (s s' : Cluster) : Prop where
  claims : s'.claims = s.claims
  active : ∀ host id a, (s'.daemons host).active id = some a → (s.daemons host).active id = some a
  issued : ∀ t, Issued s' t → Issued s t

theorem Numbered.shrink {s' : Cluster} (h : Numbered s) (hs : Shrinks s s')
    (hcovered : ∀ t ∈ s'.stored, t ∉ s.stored → ∀ k lastSeq, t.claim < k →
      (s.claims t.event.job)[k]? = some lastSeq → t.event.seq ≤ lastSeq) : Numbered s' where
  idle host id a ha := h.idle host id a (hs.active _ _ _ ha)
  alone host host' id a a' ha ha' :=
    h.alone host host' id a a' (hs.active _ _ _ ha) (hs.active _ _ _ ha')
  named host id a run event ha := h.named host id a run event (hs.active _ _ _ ha)
  counts host id a run ha := by
    rw [hs.claims]
    exact h.counts host id a run (hs.active _ _ _ ha)
  known host id a ha := by
    rw [hs.claims]
    exact h.known host id a (hs.active _ _ _ ha)
  above t ht := by
    rw [hs.claims]
    exact h.above t (hs.issued t ht)
  reached host id a run t ha hrun ht := h.reached host id a run t (hs.active _ _ _ ha) hrun (hs.issued t ht)
  distinct t t' ht ht' := h.distinct t t' (hs.issued t ht) (hs.issued t' ht')
  covered t ht := by
    rw [hs.claims]
    by_cases hold : t ∈ s.stored
    · exact h.covered t hold
    · exact hcovered t ht hold

theorem Numbered.withDisk (h : Numbered s) (disk' : Disk) : Numbered { s with disk := disk' } := by
  refine h.shrink ⟨rfl, fun _ _ _ ha => ha, fun t ht => ?_⟩ (fun t ht hno => absurd ht hno)
  cases ht with
  | stored ht => exact .stored ht
  | queued host ht => exact .queued host ht
  | pending ha hrun he => exact .pending ha hrun he

theorem shrinks_setDaemon {s : Cluster} {host : HostSlot} {d : Daemon} {taken : List Logged}
    (htaken : ∀ t ∈ taken, Issued s t)
    (hactive : ∀ id a, d.active id = some a → (s.daemons host).active id = some a)
    (hwrites : ∀ t ∈ d.writes.flatten, t ∈ (s.daemons host).writes.flatten) :
    Shrinks s ({ s with stored := s.stored ++ taken }.setDaemon host d) := by
  have hdaemons : ∀ host' id a,
      (Function.update s.daemons host d host').active id = some a →
        (s.daemons host').active id = some a := by
    intro host' id a ha
    by_cases hh : host' = host
    · subst hh
      rw [Function.update_self] at ha
      exact hactive id a ha
    · rwa [Function.update_of_ne hh] at ha
  refine ⟨rfl, hdaemons, fun t ht => ?_⟩
  cases ht with
  | stored ht =>
    rcases List.mem_append.mp ht with ht | ht
    · exact .stored ht
    · exact htaken t ht
  | queued host' ht =>
    refine .queued host' ?_
    change t ∈ (Function.update s.daemons host d host').writes.flatten at ht
    by_cases hh : host' = host
    · subst hh
      rw [Function.update_self] at ht
      exact hwrites t ht
    · rwa [Function.update_of_ne hh] at ht
  | pending ha hrun he => exact .pending (hdaemons _ _ _ ha) hrun he

theorem mem_flatten_of_take {α : Type} {xs : List (List α)} {n : Nat} {x : α}
    (h : x ∈ (xs.take n).flatten) : x ∈ xs.flatten := by
  obtain ⟨ys, hys, hx⟩ := List.mem_flatten.mp h
  exact List.mem_flatten.mpr ⟨ys, List.mem_of_mem_take hys, hx⟩

theorem mem_flatten_of_drop {α : Type} {xs : List (List α)} {n : Nat} {x : α}
    (h : x ∈ (xs.drop n).flatten) : x ∈ xs.flatten := by
  obtain ⟨ys, hys, hx⟩ := List.mem_flatten.mp h
  exact List.mem_flatten.mpr ⟨ys, List.mem_of_mem_drop hys, hx⟩

/-! ## A run goes on -/

theorem mem_numbered {seq : Nat} {bodies : List (Int × EventBody)}
    {e : JobEvent} (h : e ∈ numbered config seq bodies) :
    e.job = config.job ∧ seq < e.seq ∧ e.seq ≤ seq + bodies.length := by
  induction bodies generalizing seq with
  | nil => cases h
  | cons body bodies ih =>
    rw [List.length_cons]
    rcases List.mem_cons.mp h with rfl | h
    · refine ⟨rfl, ?_, ?_⟩
      · show seq < seq + 1
        omega
      · show seq + 1 ≤ seq + (bodies.length + 1)
        omega
    · obtain ⟨hjob, hlt, hle⟩ := ih h
      exact ⟨hjob, by omega, by omega⟩

theorem eq_of_mem_numbered {seq : Nat}
    {bodies : List (Int × EventBody)} {e e' : JobEvent} (h : e ∈ numbered config seq bodies)
    (h' : e' ∈ numbered config seq bodies) (hseq : e.seq = e'.seq) : e = e' := by
  induction bodies generalizing seq with
  | nil => cases h
  | cons body bodies ih =>
    rcases List.mem_cons.mp h with rfl | h
    · rcases List.mem_cons.mp h' with rfl | h'
      · rfl
      · have := (mem_numbered h').2.1
        dsimp only at hseq
        omega
    · rcases List.mem_cons.mp h' with rfl | h'
      · have := (mem_numbered h).2.1
        dsimp only at hseq
        omega
      · exact ih h h'

/-- A supervised run goes on from `run` with some numbered events, or ends with them. -/
def Continues (config : Supervisor.Config) (run : ActiveRun) (next : Supervised) : Prop :=
  ∃ bodies, (∀ e ∈ next.sent.flatten, e ∈ run.pending ++ numbered config run.seq bodies) ∧
    ∀ run', next.run = some run' →
      (∀ e ∈ run'.pending, e ∈ run.pending ++ numbered config run.seq bodies) ∧
        run'.seq = run.seq + bodies.length

variable {sup : Supervised} {host : HostSlot} {disk' : Disk} {act : Act} {p : JobRecord}

theorem continues_step {run : ActiveRun} (op : Supervisor.Op × Int) (hrun : sup.run = some run)
    (hsent : sup.sent = []) : Continues config run (Supervisor.Op.step config sup op) := by
  obtain ⟨bodies, -, hadds⟩ := @act_adds config run op.2 op.1
  unfold Supervisor.Op.step
  rw [hrun]
  refine ⟨bodies, ?_, ?_⟩
  · intro e he
    dsimp only at he
    rw [hsent, List.nil_append] at he
    rw [← hadds.log]
    exact List.mem_append_left _ he
  · rintro run' ⟨⟩
    refine ⟨fun e he => ?_, hadds.seq⟩
    rw [← hadds.log]
    exact List.mem_append_right _ he

theorem finalize_run {nowMs : Int}
    {status : ExitStatus} : (finalize config nowMs sup status).run = none := by
  unfold finalize
  cases hrun : sup.run with
  | none => exact hrun
  | some run =>
    dsimp only
    split
    · rfl
    · rfl

theorem finalize_left {config : Supervisor.Config} {sup : Supervised} {run : ActiveRun} {nowMs : Int}
    {status : ExitStatus} (hrun : sup.run = some run) (hleft : left sup.stopping run = true) :
    (finalize config nowMs sup status).sent = sup.sent ++ (flush run).2 := by
  unfold finalize
  rw [hrun]
  dsimp only
  rw [if_pos hleft]

theorem continues_finalize {run : ActiveRun}
    (nowMs : Int) (status : ExitStatus) (hrun : sup.run = some run) (hsent : sup.sent = []) :
    Continues config run (finalize config nowMs sup status) := by
  have hend : ∀ bodies run', (finalize config nowMs sup status).run = some run' →
      (∀ e ∈ run'.pending, e ∈ run.pending ++ numbered config run.seq bodies) ∧
        run'.seq = run.seq + bodies.length := by
    intro bodies run' h
    rw [finalize_run] at h
    cases h
  cases hleft : left sup.stopping run with
  | true =>
    have hflush := @flush_adds config run
    refine ⟨[], fun e he => ?_, hend []⟩
    rw [finalize_left hrun hleft, hsent, List.nil_append] at he
    rw [← hflush.log]
    exact List.mem_append_left _ he
  | false =>
    obtain ⟨bodies, -, hlog, -⟩ := @finalize_ended config run nowMs status sup hrun hleft
    rw [hsent, List.flatten_nil, List.nil_append] at hlog
    exact ⟨_, fun e he => by rwa [hlog] at he, hend _⟩

theorem active_setDaemon {s : Cluster} {host host' : HostSlot} {d : Daemon} {id id' : JobId}
    {a a' : Attempt} (hd : d.active = Function.update (s.daemons host).active id (some a))
    (h : ((s.setDaemon host d).daemons host').active id' = some a') :
    (host' = host ∧ id' = id ∧ a' = a) ∨
      ((s.daemons host').active id' = some a' ∧ ¬ (host' = host ∧ id' = id)) := by
  change (Function.update s.daemons host d host').active id' = some a' at h
  by_cases hh : host' = host
  · subst hh
    rw [Function.update_self, hd] at h
    by_cases hid : id' = id
    · subst hid
      rw [Function.update_self] at h
      exact .inl ⟨rfl, rfl, (Option.some.inj h).symm⟩
    · rw [Function.update_of_ne hid] at h
      exact .inr ⟨h, fun hc => hid hc.2⟩
  · rw [Function.update_of_ne hh] at h
    exact .inr ⟨h, fun hc => hh hc.1⟩

theorem issued_setDaemon {d : Daemon} {a : Attempt} {more : List (List Logged)}
    {P : Logged → Prop} (hd : d.active = Function.update (s.daemons host).active id (some a))
    (hwrites : d.writes = (s.daemons host).writes ++ more) (hmore : ∀ t ∈ more.flatten, P t)
    (hpending : ∀ run, a.supervised.run = some run → ∀ e ∈ run.pending, P ⟨a.claim, e⟩)
    (h : Issued (s.setDaemon host d) t) : Issued s t ∨ P t := by
  cases h with
  | stored h => exact .inl (.stored h)
  | queued host' h =>
    change t ∈ (Function.update s.daemons host d host').writes.flatten at h
    by_cases hh : host' = host
    · subst hh
      rw [Function.update_self, hwrites, List.flatten_append] at h
      rcases List.mem_append.mp h with h | h
      · exact .inl (.queued host' h)
      · exact .inr (hmore t h)
    · rw [Function.update_of_ne hh] at h
      exact .inl (.queued host' h)
  | pending ha hrun he =>
    rcases active_setDaemon hd ha with ⟨-, -, rfl⟩ | ⟨ha, -⟩
    · exact .inr (hpending _ hrun _ he)
    · exact .inl (.pending ha hrun he)

section

variable {a : Attempt} {run : ActiveRun} {next : Supervised} {bodies : List (Int × EventBody)}

/-- What is issued after a delivery was issued before, or is new in the attempt. -/
theorem issued_deliver (hactive : (s.daemons host).active config.job = some a)
    (hrun : a.supervised.run = some run)
    (hsent : ∀ e ∈ next.sent.flatten, e ∈ run.pending ++ numbered config run.seq bodies)
    (hnext : ∀ run', next.run = some run' →
      ∀ e ∈ run'.pending, e ∈ run.pending ++ numbered config run.seq bodies)
    (h : Issued (s.setDaemon host ((s.daemons host).deliver config.job a next)) t) :
    Issued s t ∨ (t.claim = a.claim ∧ t.event ∈ numbered config run.seq bodies) := by
  have hold : ∀ e ∈ run.pending ++ numbered config run.seq bodies,
      Issued s ⟨a.claim, e⟩ ∨ (a.claim = a.claim ∧ e ∈ numbered config run.seq bodies) := by
    intro e he
    rcases List.mem_append.mp he with he | he
    · exact .inl (.pending hactive hrun he)
    · exact .inr ⟨rfl, he⟩
  have hcases := issued_setDaemon (P := fun t => Issued s t ∨
    (t.claim = a.claim ∧ t.event ∈ numbered config run.seq bodies)) rfl rfl ?_ ?_ h
  · exact hcases.elim .inl id
  · intro t ht
    obtain ⟨batch, hbatch, ht⟩ := List.mem_flatten.mp ht
    obtain ⟨events, hevents, rfl⟩ := List.mem_map.mp hbatch
    obtain ⟨e, he, rfl⟩ := List.mem_map.mp ht
    exact hold e (hsent e (List.mem_flatten.mpr ⟨events, hevents, he⟩))
  · exact fun run' hrun' e he => hold e (hnext run' hrun' e he)

/-- An event that the attempt numbers next comes after those of its claim that are issued. -/
theorem Numbered.lt_of_new {t' : Logged} (h : Numbered s)
    (hactive : (s.daemons host).active config.job = some a) (hrun : a.supervised.run = some run)
    (ht : Issued s t) (hclaim : t.claim = a.claim) (hjob : t.event.job = t'.event.job)
    (hnew : t'.event ∈ numbered config run.seq bodies) : t.event.seq < t'.event.seq := by
  obtain ⟨hjob', hlt, -⟩ := mem_numbered hnew
  exact (h.reached _ _ _ _ t hactive hrun ht (hjob.trans hjob') hclaim).trans_lt hlt

end

theorem Numbered.deliver {s : Cluster} {host : HostSlot} {config : Supervisor.Config} {a : Attempt}
    {run : ActiveRun} {next : Supervised} (h : Numbered s)
    (hactive : (s.daemons host).active config.job = some a) (hrun : a.supervised.run = some run)
    (hc : Continues config run next) :
    Numbered (s.setDaemon host ((s.daemons host).deliver config.job a next)) := by
  obtain ⟨bodies, hsent, hnext⟩ := hc
  have hact := @active_setDaemon s host
  have hissued (t : Logged) := @issued_deliver s config t host a run next bodies hactive hrun hsent
    fun run' hrun' => (hnext run' hrun').1
  obtain ⟨lastSeq, hstart, hlt⟩ := h.counts host config.job a run hactive hrun
  refine ⟨?_, ?_, ?_, ?_, ?_, ?_, ?_, ?_, h.covered⟩
  · intro host' id a' ha'
    rcases hact rfl ha' with ⟨-, -, rfl⟩ | ⟨ha', -⟩
    · rfl
    · exact h.idle host' id a' ha'
  · intro host1 host2 id a1 a2 ha1 ha2 hclaim
    rcases hact rfl ha1 with ⟨rfl, rfl, rfl⟩ | ⟨h1, -⟩
    · rcases hact rfl ha2 with ⟨rfl, -, -⟩ | ⟨h2, -⟩
      · rfl
      · exact h.alone _ _ _ _ _ hactive h2 hclaim
    · rcases hact rfl ha2 with ⟨rfl, rfl, rfl⟩ | ⟨h2, -⟩
      · exact h.alone _ _ _ _ a h1 hactive hclaim
      · exact h.alone _ _ _ _ _ h1 h2 hclaim
  · intro host' id a' run' event ha' hrun' he
    rcases hact rfl ha' with ⟨rfl, rfl, rfl⟩ | ⟨ha', -⟩
    · rcases List.mem_append.mp ((hnext run' hrun').1 event he) with he | he
      · exact h.named _ _ _ _ _ hactive hrun he
      · exact (mem_numbered he).1
    · exact h.named _ _ _ _ _ ha' hrun' he
  · intro host' id a' run' ha' hrun'
    rcases hact rfl ha' with ⟨rfl, rfl, rfl⟩ | ⟨ha', -⟩
    · have hseq := (hnext run' hrun').2
      exact ⟨lastSeq, hstart, by omega⟩
    · exact h.counts _ _ _ _ ha' hrun'
  · intro host' id a' ha'
    rcases hact rfl ha' with ⟨rfl, rfl, rfl⟩ | ⟨ha', -⟩
    · exact h.known _ _ a hactive
    · exact h.known _ _ _ ha'
  · intro t ht
    rcases hissued t ht with ht | ⟨hclaim, he⟩
    · exact h.above t ht
    · obtain ⟨hjob, hseq, -⟩ := mem_numbered he
      refine ⟨lastSeq, ?_, by omega⟩
      rw [hjob, hclaim]
      exact hstart
  · intro host' id a' run' t ha' hrun' ht hjob hclaim
    rcases hact rfl ha' with ⟨rfl, rfl, rfl⟩ | ⟨ha', hother⟩
    · have hseq := (hnext run' hrun').2
      rcases hissued t ht with ht | ⟨-, he⟩
      · have := h.reached _ _ _ _ t hactive hrun ht hjob hclaim
        omega
      · have := (mem_numbered he).2.2
        omega
    · rcases hissued t ht with ht | ⟨hclaim', he⟩
      · exact h.reached _ _ _ _ t ha' hrun' ht hjob hclaim
      · have hid : id = config.job := hjob.symm.trans (mem_numbered he).1
        subst hid
        have hhost := h.alone _ _ _ _ _ ha' hactive (hclaim.symm.trans hclaim')
        exact absurd ⟨hhost, rfl⟩ hother
  · intro t t' ht ht' hjob hclaim hseq
    rcases hissued t ht with ht | ⟨hc, he⟩
    · rcases hissued t' ht' with ht' | ⟨hc', he'⟩
      · exact h.distinct t t' ht ht' hjob hclaim hseq
      · exact absurd hseq (h.lt_of_new hactive hrun ht (hclaim.trans hc') hjob he').ne
    · rcases hissued t' ht' with ht' | ⟨hc', he'⟩
      · exact absurd hseq (h.lt_of_new hactive hrun ht' (hclaim.symm.trans hc) hjob.symm he).ne'
      · exact eq_of_mem_numbered he he' hseq

/-! ## A claim -/

/-- A claimed record keeps its id and its `last_seq`. -/
theorem claimed_record {disk : Disk} {nonce : String} {claim : Claim} (h : Step disk act disk')
    (hcall : act.call = .claim id nonce) (hreply : act.reply = .ok (.claim claim)) :
    ∃ r, disk id = some r ∧ claim.job.id = id ∧ claim.job.lastSeq = r.lastSeq := by
  obtain ⟨w, -, -, hans⟩ := step_answers h hreply
  rw [hcall] at hans
  obtain ⟨-, -, r, hr, hu⟩ := hans
  refine ⟨r, hr, hu.id_eq.trans (step_named h hr), ?_⟩
  generalize claim.job = job at hu ⊢
  cases hu
  rfl

/-- What a launched run has delivered and kept: nothing. -/
theorem start_quiet (first : Nat) (launch : Launch) (supervised : Supervised)
    (h : supervised = match launch with
      | .runs stopping => started (first + 1) stopping
      | .refuses error => ⟨none, false, [], some ⟨.failed, some error.message, none, none, first⟩⟩) :
    supervised.sent = [] ∧
      ∀ run, supervised.run = some run → run.pending = [] ∧ run.seq = first := by
  cases launch with
  | runs stopping =>
    subst h
    refine ⟨rfl, fun run hrun => ?_⟩
    cases hrun
    exact ⟨rfl, rfl⟩
  | refuses error =>
    subst h
    refine ⟨rfl, fun run hrun => ?_⟩
    cases hrun

theorem getElem?_snoc {nums : List Nat} {n m k : Nat} (h : (nums ++ [n])[k]? = some m) :
    nums[k]? = some m ∨ m = n := by
  by_cases hk : k < nums.length
  · exact .inl (List.getElem?_append_left hk ▸ h)
  · rw [List.getElem?_append_right (not_lt.mp hk)] at h
    exact .inr (List.mem_singleton.mp (List.mem_of_getElem? h))

/-- A cluster after a claim of a job whose record was at `lastSeq`. -/
structure Granted (s s' : Cluster) (host : HostSlot) (id : JobId) (lastSeq : Nat) (a : Attempt)
    (first : JobEvent) : Prop where
  active : ∀ host' id' a', (s'.daemons host').active id' = some a' →
    (host' = host ∧ id' = id ∧ a' = a) ∨ (s.daemons host').active id' = some a'
  issued : ∀ t, Issued s' t → Issued s t ∨ t = ⟨a.claim, first⟩
  stored : s'.stored = s.stored
  claims : s'.claims = Function.update s.claims id (s.claims id ++ [lastSeq])
  last : a.claim = (s.claims id).length
  first : first.job = id ∧ first.seq = lastSeq + 1
  sent : a.supervised.sent = []
  fresh : ∀ run, a.supervised.run = some run → run.pending = [] ∧ run.seq = lastSeq + 1

theorem granted {claim : Claim} {launch : Launch}
    (supervised : Supervised) (hsup : supervised = match launch with
      | .runs stopping => started (claim.job.lastSeq + 1 + 1) stopping
      | .refuses error =>
        ⟨none, false, [], some ⟨.failed, some error.message, none, none, claim.job.lastSeq + 1⟩⟩) :
    Granted s
      ({ s with
          disk := disk'
          claims := Function.update s.claims claim.job.id
            (s.claims claim.job.id ++ [claim.job.lastSeq]) }.setDaemon host
        ((s.daemons host).start host claim.job.id (s.claims claim.job.id).length claim launch))
      host claim.job.id claim.job.lastSeq
      ⟨(s.claims claim.job.id).length, claim.job, claim.nonce, supervised⟩
      (startedEvent host claim.job) := by
  obtain ⟨hsent, hfresh⟩ := start_quiet (claim.job.lastSeq + 1) launch supervised hsup
  set s0 : Cluster := { s with
    disk := disk'
    claims := Function.update s.claims claim.job.id (s.claims claim.job.id ++ [claim.job.lastSeq]) }
  set a : Attempt := ⟨(s.claims claim.job.id).length, claim.job, claim.nonce, supervised⟩
  have hd : ((s.daemons host).start host claim.job.id (s.claims claim.job.id).length claim
      launch).active = Function.update (s0.daemons host).active claim.job.id (some a) := by
    rw [show a = ⟨_, _, _, _⟩ from rfl, hsup]
    rfl
  refine ⟨fun host' id' a' ha' => ?_, fun t ht => ?_, rfl, rfl, rfl, ⟨rfl, rfl⟩, hsent, hfresh⟩
  · rcases active_setDaemon hd ha' with hnew | ⟨hold, -⟩
    · exact .inl hnew
    · exact .inr hold
  · rcases issued_setDaemon (P := fun t => t = ⟨a.claim, startedEvent host claim.job⟩) hd rfl
      (by simp [a]) (fun run hrun e he => by rw [(hfresh run hrun).1] at he; cases he) ht with h | h
    · refine .inl ?_
      cases h with
      | stored h => exact .stored h
      | queued host h => exact .queued host h
      | pending ha hrun he => exact .pending ha hrun he
    · exact .inr h

namespace Granted

variable {s s' : Cluster} {host : HostSlot} {id : JobId} {lastSeq : Nat} {a : Attempt}
  {first : JobEvent} (h : Numbered s) (hg : Granted s s' host id lastSeq a first)

include hg

theorem claims_self : s'.claims id = s.claims id ++ [lastSeq] := by
  rw [hg.claims, Function.update_self]

theorem claims_other {id' : JobId} (hne : id' ≠ id) : s'.claims id' = s.claims id' := by
  rw [hg.claims, Function.update_of_ne hne]

theorem old_place {id' : JobId} {k n : Nat} (hk : (s.claims id')[k]? = some n) :
    (s'.claims id')[k]? = some n := by
  by_cases hid : id' = id
  · subst hid
    rw [hg.claims_self, List.getElem?_append_left (List.getElem?_eq_some_iff.mp hk).1]
    exact hk
  · rwa [hg.claims_other hid]

theorem new_place : (s'.claims id)[a.claim]? = some lastSeq := by
  rw [hg.claims_self, hg.last, List.getElem?_append_right le_rfl, Nat.sub_self]
  rfl

include h

theorem below (ht : Issued s t) (hjob : t.event.job = id) : t.claim < a.claim := by
  obtain ⟨n, hk, -⟩ := h.above t ht
  rw [hjob] at hk
  exact hg.last ▸ (List.getElem?_eq_some_iff.mp hk).1

theorem below_active {host' : HostSlot} {a' : Attempt} (ha' : (s.daemons host').active id = some a') :
    a'.claim < a.claim :=
  hg.last ▸ h.known _ _ _ ha'

theorem alone {host1 host2 : HostSlot} {id' : JobId} {a1 a2 : Attempt}
    (ha1 : (s'.daemons host1).active id' = some a1) (ha2 : (s'.daemons host2).active id' = some a2)
    (hclaim : a1.claim = a2.claim) : host1 = host2 := by
  rcases hg.active _ _ _ ha1 with ⟨rfl, rfl, rfl⟩ | h1
  · rcases hg.active _ _ _ ha2 with ⟨rfl, -, -⟩ | h2
    · rfl
    · exact absurd hclaim.symm (hg.below_active h h2).ne
  · rcases hg.active _ _ _ ha2 with ⟨rfl, rfl, rfl⟩ | h2
    · exact absurd hclaim (hg.below_active h h1).ne
    · exact h.alone _ _ _ _ _ h1 h2 hclaim

theorem counts {host' : HostSlot} {id' : JobId} {a' : Attempt} {run : ActiveRun}
    (ha' : (s'.daemons host').active id' = some a') (hrun : a'.supervised.run = some run) :
    ∃ n, (s'.claims id')[a'.claim]? = some n ∧ n < run.seq := by
  rcases hg.active _ _ _ ha' with ⟨-, rfl, rfl⟩ | ha'
  · refine ⟨_, hg.new_place, ?_⟩
    rw [(hg.fresh run hrun).2]
    exact Nat.lt_succ_self _
  · obtain ⟨n, hk, hlt⟩ := h.counts _ _ _ _ ha' hrun
    exact ⟨n, hg.old_place hk, hlt⟩

theorem known {host' : HostSlot} {id' : JobId} {a' : Attempt}
    (ha' : (s'.daemons host').active id' = some a') : a'.claim < (s'.claims id').length := by
  rcases hg.active _ _ _ ha' with ⟨-, rfl, rfl⟩ | ha'
  · exact (List.getElem?_eq_some_iff.mp hg.new_place).1
  · have hold := hg.old_place (List.getElem?_eq_getElem (h.known _ _ _ ha'))
    exact (List.getElem?_eq_some_iff.mp hold).1

theorem above {t : Logged} (ht : Issued s' t) :
    ∃ n, (s'.claims t.event.job)[t.claim]? = some n ∧ n < t.event.seq := by
  rcases hg.issued t ht with ht | rfl
  · obtain ⟨n, hk, hlt⟩ := h.above t ht
    exact ⟨n, hg.old_place hk, hlt⟩
  · obtain ⟨hjob, hseq⟩ := hg.first
    refine ⟨lastSeq, ?_, ?_⟩
    · rw [hjob]
      exact hg.new_place
    · rw [hseq]
      exact Nat.lt_succ_self _

theorem reached {host' : HostSlot} {id' : JobId} {a' : Attempt} {run : ActiveRun} {t : Logged}
    (ha' : (s'.daemons host').active id' = some a') (hrun : a'.supervised.run = some run)
    (ht : Issued s' t) (hjob : t.event.job = id') (hclaim : t.claim = a'.claim) :
    t.event.seq ≤ run.seq := by
  rcases hg.active _ _ _ ha' with ⟨-, rfl, rfl⟩ | ha'
  · rcases hg.issued t ht with ht | rfl
    · exact absurd hclaim (hg.below h ht hjob).ne
    · rw [(hg.fresh run hrun).2, hg.first.2]
  · rcases hg.issued t ht with ht | rfl
    · exact h.reached _ _ _ _ t ha' hrun ht hjob hclaim
    · obtain rfl : id = id' := hg.first.1.symm.trans hjob
      exact absurd hclaim.symm (hg.below_active h ha').ne

theorem distinct {t t' : Logged} (ht : Issued s' t) (ht' : Issued s' t')
    (hjob : t.event.job = t'.event.job) (hclaim : t.claim = t'.claim)
    (hseq : t.event.seq = t'.event.seq) : t.event = t'.event := by
  rcases hg.issued t ht with ht | rfl
  · rcases hg.issued t' ht' with ht' | rfl
    · exact h.distinct t t' ht ht' hjob hclaim hseq
    · exact absurd hclaim (hg.below h ht (hjob.trans hg.first.1)).ne
  · rcases hg.issued t' ht' with ht' | rfl
    · exact absurd hclaim.symm (hg.below h ht' (hjob.symm.trans hg.first.1)).ne
    · rfl

theorem covered (hkeeps : ∀ t ∈ s.stored, t.event.job = id → t.event.seq ≤ lastSeq) {t : Logged}
    (ht : t ∈ s'.stored) {k n : Nat} (hk : t.claim < k) (hstart : (s'.claims t.event.job)[k]? = some n) :
    t.event.seq ≤ n := by
  rw [hg.stored] at ht
  by_cases hjob : t.event.job = id
  · rw [hjob, hg.claims_self] at hstart
    rcases getElem?_snoc hstart with hold | rfl
    · exact h.covered t ht k n hk (hjob ▸ hold)
    · exact hkeeps t ht hjob
  · rw [hg.claims_other hjob] at hstart
    exact h.covered t ht k n hk hstart

/-- A claim that finds `last_seq` past what is stored. -/
theorem numbered (hkeeps : ∀ t ∈ s.stored, t.event.job = id → t.event.seq ≤ lastSeq) : Numbered s' where
  idle host' id' a' ha' := by
    rcases hg.active _ _ _ ha' with ⟨-, -, rfl⟩ | ha'
    · exact hg.sent
    · exact h.idle _ _ _ ha'
  alone _ _ _ _ _ ha1 ha2 hclaim := hg.alone h ha1 ha2 hclaim
  named host' id' a' run event ha' hrun he := by
    rcases hg.active _ _ _ ha' with ⟨-, -, rfl⟩ | ha'
    · rw [(hg.fresh run hrun).1] at he
      cases he
    · exact h.named _ _ _ _ _ ha' hrun he
  counts _ _ _ _ ha' hrun := hg.counts h ha' hrun
  known _ _ _ ha' := hg.known h ha'
  above _ ht := hg.above h ht
  reached _ _ _ _ _ ha' hrun ht hjob hclaim := hg.reached h ha' hrun ht hjob hclaim
  distinct _ _ ht ht' hjob hclaim hseq := hg.distinct h ht ht' hjob hclaim hseq
  covered _ ht _ _ hk hstart := hg.covered h hkeeps ht hk hstart

end Granted

/-! ## Every run -/

theorem Numbered.step {s s' : Cluster} {event : Event} (h : Numbered s) (hkeeps : KeepsUp s event)
    (hstep : ClusterStep s event s') : Numbered s' := by
  cases hstep with
  | call => exact h.withDisk _
  | claim hcall _ hstep hreply =>
    obtain ⟨r, hr, hid, hlast⟩ := claimed_record hstep hcall hreply
    subst hid
    refine (granted _ rfl).numbered h fun t ht hjob => ?_
    rw [hlast]
    exact hkeeps _ _ _ r hcall hreply hr t ht hjob
  | claimRefused => exact h.withDisk _
  | report => exact h.withDisk _
  | operate hactive hrun =>
    exact h.deliver hactive hrun (continues_step _ hrun (h.idle _ _ _ hactive))
  | finalize hactive hrun =>
    exact h.deliver hactive hrun (continues_finalize _ _ hrun (h.idle _ _ _ hactive))
  | @leave host id a hactive hrun =>
    have hs : Shrinks s (s.setDaemon host
        { s.daemons host with active := Function.update (s.daemons host).active id none }) := by
      have := @shrinks_setDaemon s host
        { s.daemons host with active := Function.update (s.daemons host).active id none } []
        (fun t ht => nomatch ht) ?_ (fun t ht => ht)
      · rwa [List.append_nil] at this
      · intro id' a' ha'
        dsimp only at ha'
        by_cases hid : id' = id
        · subst hid
          rw [Function.update_self] at ha'
          cases ha'
        · rwa [Function.update_of_ne hid] at ha'
    exact h.shrink hs fun t ht hno => absurd ht hno
  | store host deliveries taken =>
    refine h.shrink (shrinks_setDaemon ?_ (fun _ _ ha => ha) fun t ht => mem_flatten_of_drop ht) ?_
    · intro t ht
      cases taken with
      | true => exact .queued host (mem_flatten_of_take ht)
      | false => cases ht
    · intro t ht hno
      rcases List.mem_append.mp ht with ht | ht
      · exact absurd ht hno
      · cases taken with
        | true => exact hkeeps t ht
        | false => cases ht
  | crash host =>
    have hs : Shrinks s (s.setDaemon host ⟨fun _ => none, []⟩) := by
      have := @shrinks_setDaemon s host ⟨fun _ => none, []⟩ [] (fun t ht => nomatch ht)
        (fun id a ha => nomatch ha) (fun t ht => nomatch ht)
      rwa [List.append_nil] at this
    exact h.shrink hs fun t ht hno => absurd ht hno

/-! ## Renewals -/

/-- A cluster, and the events that a renewal of their claim came after. -/
structure History where
  cluster : Cluster
  renewed : Logged → Prop

/-- While the script runs, the holder of a job's last claim renews its lease with the event numbered
before. -/
inductive Cluster.Renews (s : Cluster) : Event → Logged → Prop where
  | mk {act : Act} {id : JobId} {nonce : String} {progress : Progress} {a : Attempt}
      {run : ActiveRun} {t : Logged}
      (hactive : (s.daemons act.jobs.config.host).active id = some a)
      (hlast : a.claim + 1 = (s.claims id).length) (hrun : a.supervised.run = some run)
      (hcall : act.call = .renew id nonce progress) (hwrote : act.writes ≠ []) (hissued : Issued s t)
      (hjob : t.event.job = id) (hclaim : t.claim = a.claim) : Renews s (.report id act) t

inductive HistoryStep : History → Event → History → Prop where
  | mk {h : History} {event : Event} {s : Cluster} (hstep : ClusterStep h.cluster event s) :
      HistoryStep h event ⟨s, fun t => h.renewed t ∨ h.cluster.Renews event t⟩

/-- Renewals come in time: before a job is claimed again, each of its stored events is followed by a
renewal of the claim it comes from, and after that no other events of an earlier claim are stored. The
id of an admission is a new one. -/
def RenewedFirst (h : History) : Event → Prop
  | .call act => ∀ caller launch id, act.call = .admitJob caller launch id → h.cluster.claims id = []
  | .claim act _ => ∀ id nonce claim, act.call = .claim id nonce → act.reply = .ok (.claim claim) →
      ∀ t ∈ h.cluster.stored, t.event.job = id → h.renewed t
  | .store host deliveries true => ∀ t ∈ ((h.cluster.daemons host).writes.take deliveries).flatten,
      t.claim + 1 < (h.cluster.claims t.event.job).length → h.renewed t
  | _ => True

/-- Only an admission of its id lowers a record's `last_seq`. -/
theorem step_lastSeq {disk : Disk}
    (h : Step disk act disk') (hno : ∀ caller launch, act.call ≠ .admitJob caller launch id)
    (hp : disk' id = some p) : ∃ r, disk id = some r ∧ r.lastSeq ≤ p.lastSeq := by
  refine (step_made h).invariant
    (I := fun d => ∀ p, d id = some p → ∃ r, disk id = some r ∧ r.lastSeq ≤ p.lastSeq) ?_
    (fun p hp => ⟨p, hp, le_rfl⟩) p hp
  rintro d x d' ih ⟨hmakes, rfl⟩ p hp
  rcases hmakes.origin hp with ⟨caller, launch, hcall, -⟩ | ⟨-, r, hr, rfl | hu⟩
  · exact absurd hcall (hno caller launch)
  · exact ih p hr
  · obtain ⟨q, hq, hle⟩ := ih r hr
    exact ⟨q, hq, hle.trans hu.advances.lastSeq⟩

theorem renewal_lastSeq {disk : Disk} {nonce : String} {progress : Progress}
    (h : Step disk act disk') (hcall : act.call = .renew id nonce progress)
    (hwrote : act.writes ≠ []) (hp : disk' id = some p) : progress.lastSeq ≤ p.lastSeq := by
  have hmade := step_made h
  rw [hcall] at hmade
  refine hmade.history (I := fun ws d => ws ≠ [] → ∀ p, d id = some p → progress.lastSeq ≤ p.lastSeq)
    (fun hempty => absurd rfl hempty) ?_ hwrote p hp
  rintro ws d x d' - ⟨hmakes, rfl⟩ - p hp
  cases hmakes with
  | prune hprunes => cases hprunes
  | @update _ _ r r' hr hu =>
    have hrenew : r.id = id ∧ progress.lastSeq ≤ r'.lastSeq := by
      cases hu
      exact ⟨rfl, le_max_right _ _⟩
    obtain ⟨hid, hle⟩ := hrenew
    rcases Write.saved_apply_eq_some.mp hp with ⟨-, rfl⟩ | ⟨hne, -⟩
    · exact hle
    · exact absurd (hu.id_eq.trans hid).symm hne

section

variable {s s' : Cluster} {event : Event} {id : JobId}

theorem ClusterStep.claims (h : ClusterStep s event s') (id : JobId) : s'.claims id = s.claims id ∨
    ∃ r, s.disk id = some r ∧ s'.claims id = s.claims id ++ [r.lastSeq] := by
  cases h with
  | @claim _ _ id' _ _ _ hcall _ hstep hreply =>
    obtain ⟨r, hr, -, hlast⟩ := claimed_record hstep hcall hreply
    by_cases hid : id = id'
    · subst hid
      exact .inr ⟨r, hr, hlast ▸ Function.update_self _ _ _⟩
    · exact .inl (Function.update_of_ne hid _ _)
  | _ => exact .inl rfl

theorem ClusterStep.record (h : ClusterStep s event s')
    (hnew : ∀ act caller launch, event = .call act → act.call ≠ .admitJob caller launch id)
    (hp : s'.disk id = some p) : ∃ r, s.disk id = some r ∧ r.lastSeq ≤ p.lastSeq := by
  have hstep {act : Act} {disk' : Disk} (h : Step s.disk act disk')
      (hcall : isOther act.call = false) (hp : disk' id = some p) :
      ∃ r, s.disk id = some r ∧ r.lastSeq ≤ p.lastSeq := by
    refine step_lastSeq h (fun caller launch hadmits => ?_) hp
    rw [hadmits] at hcall
    cases hcall
  cases h with
  | call _ h => exact step_lastSeq h (fun caller launch => hnew _ caller launch rfl) hp
  | claim hcall _ h => exact hstep h (hcall ▸ rfl) hp
  | claimRefused hcall _ h => exact hstep h (hcall ▸ rfl) hp
  | report _ hcall h => exact hstep h (by generalize Act.call _ = call at hcall; cases hcall <;> rfl) hp
  | _ => exact ⟨p, hp, le_rfl⟩

end

/-- What the renewals have told the records, and the later claims found. -/
structure Told (h : History) : Prop where
  numbered : Numbered h.cluster
  known : ∀ t, h.renewed t → t.claim < (h.cluster.claims t.event.job).length
  record : ∀ t, h.renewed t → ∀ r, h.cluster.disk t.event.job = some r → t.event.seq ≤ r.lastSeq
  later : ∀ t, h.renewed t → ∀ k lastSeq, t.claim < k →
    (h.cluster.claims t.event.job)[k]? = some lastSeq → t.event.seq ≤ lastSeq

namespace Told

variable {h : History} {event : Event} {s' : Cluster}

theorem keepsUp (ht : Told h) (hfirst : RenewedFirst h event) : KeepsUp h.cluster event := by
  cases event with
  | claim act launch =>
    intro id nonce claim r hcall hreply hr t hstored hjob
    exact ht.record t (hfirst id nonce claim hcall hreply t hstored hjob) r (hjob ▸ hr)
  | store host deliveries taken =>
    cases taken with
    | false => trivial
    | true =>
      intro t hmem k lastSeq hk hstart
      have hlen := (List.getElem?_eq_some_iff.mp hstart).1
      exact ht.later t (hfirst t hmem (by omega)) k lastSeq hk hstart
  | _ => trivial

theorem old (ht : Told h) (hfirst : RenewedFirst h event) (hstep : ClusterStep h.cluster event s')
    (hren : h.renewed t) : t.claim < (s'.claims t.event.job).length ∧
      (∀ r, s'.disk t.event.job = some r → t.event.seq ≤ r.lastSeq) ∧
      ∀ k lastSeq, t.claim < k → (s'.claims t.event.job)[k]? = some lastSeq → t.event.seq ≤ lastSeq := by
  have hknown := ht.known t hren
  refine ⟨?_, fun p hp => ?_, fun k lastSeq hk hstart => ?_⟩
  · rcases hstep.claims t.event.job with hsame | ⟨r, -, hnew⟩
    · rwa [hsame]
    · rw [hnew, List.length_append]
      exact Nat.lt_add_right _ hknown
  · have hnew : ∀ act caller launch, event = .call act →
        act.call ≠ .admitJob caller launch t.event.job := by
      rintro act caller launch rfl hadmits
      rw [hfirst caller launch _ hadmits] at hknown
      exact absurd hknown (Nat.not_lt_zero _)
    obtain ⟨r, hr, hle⟩ := hstep.record hnew hp
    exact (ht.record t hren r hr).trans hle
  · rcases hstep.claims t.event.job with hsame | ⟨r, hr, hnew⟩
    · exact ht.later t hren k lastSeq hk (hsame ▸ hstart)
    · rw [hnew] at hstart
      rcases getElem?_snoc hstart with hold | rfl
      · exact ht.later t hren k lastSeq hk hold
      · exact ht.record t hren r hr

theorem new (ht : Told h) (hstep : ClusterStep h.cluster event s')
    (hren : h.cluster.Renews event t) : t.claim < (s'.claims t.event.job).length ∧
      (∀ r, s'.disk t.event.job = some r → t.event.seq ≤ r.lastSeq) ∧
      ∀ k lastSeq, t.claim < k → (s'.claims t.event.job)[k]? = some lastSeq → t.event.seq ≤ lastSeq := by
  cases hren with
  | mk hactive hlast hrun hcall hwrote hissued hjob hclaim =>
    subst hjob
    cases hstep with
    | report hactive' hreports hstep =>
      obtain rfl := Option.some.inj (hactive.symm.trans hactive')
      refine ⟨by dsimp only; omega, fun p hp => ?_, fun k lastSeq hk hstart => ?_⟩
      · have hprogress := renewal_lastSeq hstep hcall hwrote hp
        have hreached := ht.numbered.reached _ _ _ _ t hactive hrun hissued rfl hclaim
        rw [hcall] at hreports
        cases hreports
        rw [hrun] at hprogress
        exact hreached.trans hprogress
      · have hlen := (List.getElem?_eq_some_iff.mp hstart).1
        dsimp only at hlen
        omega

theorem step {h' : History} (ht : Told h) (hfirst : RenewedFirst h event)
    (hstep : HistoryStep h event h') : Told h' := by
  cases hstep with
  | mk hstep =>
    have hall {t : Logged} (hren : h.renewed t ∨ h.cluster.Renews event t) :=
      hren.elim (ht.old hfirst hstep) (ht.new hstep)
    exact ⟨ht.numbered.step (ht.keepsUp hfirst) hstep, fun t hren => (hall hren).1,
      fun t hren => (hall hren).2.1, fun t hren => (hall hren).2.2⟩

end Told

def History.empty : History := ⟨.empty, fun _ => False⟩

/-! ## A scrub whose host stops -/

def alone (r : JobRecord) : Disk := (Write.saved r).apply fun _ => none

/-- A scrub that was launched on `mox1`. -/
def admitted : JobRecord :=
  ((onMox1 0).newRecord root ⟨"scrub", [], "scrub", false⟩ scrub ⟨[], [], ["storage"], false⟩ mox1
    7).next

def running (nonce : String) (now : Int) (r : JobRecord) : JobRecord :=
  { r with
    state := .running, lease := some ⟨nonce, mox1, now, now + 60000⟩, attempts := r.attempts + 1
    cancelAllowed := true, phase := none, pendingRequest := none, message := none
    updatedAtMs := now }.next

/-- A renewal that tells of the job's first event. -/
def renewed (r : JobRecord) : JobRecord :=
  { r with
    lease := some ⟨"a", mox1, 1, 60002⟩, phase := some "Starting", lastSeq := 1, updatedAtMs := 2 }.next

def interrupted (r : JobRecord) : JobRecord :=
  { r with
    state := .interrupted
    message := some (s!"{mox1} restarted while it ran; " ++
      "inspect the live state before resuming or marking it failed")
    updatedAtMs := 3 }.next

def resumed (r : JobRecord) : JobRecord :=
  { r with
    state := .admitted, message := some "resumed by root@pam", admittedAtMs := 4, updatedAtMs := 4 }.next

end Bmac.Bmacd.Runner
