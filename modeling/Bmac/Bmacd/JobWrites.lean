import Bmac.Base.Run
import Bmac.Bmacd.Jobs

/-!
# What the job operations write

Each operation on the jobs directory makes a few writes: a new record, a change of one record, the
removal of a finished one. `Makes` says which writes a call can make on a directory, with the checks
that guard them, and `step_writes` that a call makes no others, whatever the storage does. The
properties of jobs are proved of these writes and hold at every moment, also inside a call.
-/

namespace Bmac.Bmacd

open Bmac.Base Bmac.Core

/-! ## Calls -/

inductive Call where
  | admitJob (caller : Caller) (launch : LaunchJob) (id : JobId)
  | claim (id : JobId) (nonce : String)
  | renew (id : JobId) (nonce : String) (progress : Progress)
  | finish (id : JobId) (nonce : String) (state : JobState) (message : String) (lastSeq : Nat)
  | cancel (caller : Caller) (id : JobId) (force : Bool)
  | resume (caller : Caller) (id : JobId)
  | interruptOwn (seen : List JobRecord)
  | resumeAfterRestart (id : JobId)
  | reconcile (caller : Caller) (id : JobId)
  | sweep (at_ : Int) (seen : List JobRecord)

inductive Reply where
  | admission (admission : Admission)
  | claim (claim : Claim)
  | job (record : JobRecord)
  | jobs (records : List JobRecord)

def Jobs.exec (jobs : Jobs) : Call → Op Reply
  | .admitJob caller launch id => do return .admission (← jobs.admitJob caller launch id)
  | .claim id nonce => do return .claim (← jobs.claim id nonce)
  | .renew id nonce progress => do return .job (← jobs.renew id nonce progress)
  | .finish id nonce state message lastSeq => do
    return .job (← jobs.finish id nonce state message lastSeq)
  | .cancel caller id force => do return .job (← jobs.cancel caller id force)
  | .resume caller id => do return .job (← jobs.resume caller id)
  | .interruptOwn seen => do return .jobs (← jobs.interruptOwn seen)
  | .resumeAfterRestart id => do return .job (← jobs.resumeAfterRestart id)
  | .reconcile caller id => do return .job (← jobs.reconcile caller id)
  | .sweep at_ seen => do return .jobs (← jobs.sweep at_ seen)

/-- `records` are the directory's, in some order: each file holds the record it is named for. -/
structure Lists (disk : Disk) (records : List JobRecord) : Prop where
  named : ∀ id r, disk id = some r → r.id = id
  nodup : (records.map (·.id)).Nodup
  mem : ∀ r, r ∈ records ↔ disk r.id = some r

/-- One call of a host: what it ran with, how the storage behaved, what it replied and wrote. -/
structure Act where
  jobs : Jobs
  call : Call
  faults : List Fault
  reply : Except ApiError Reply
  writes : List Write

/-- The call runs under the lock, so on the directory as the last one left it. -/
inductive Step : Disk → Act → Disk → Prop where
  | ok {disk : Disk} {records : List JobRecord} {jobs : Jobs} {call : Call} {faults : List Fault}
      {reply : Reply} {w : World} (hlist : Lists disk records)
      (hrun : jobs.exec call ⟨disk, records, faults, []⟩ = .ok reply w) :
      Step disk ⟨jobs, call, faults, .ok reply, w.writes⟩ w.disk
  | error {disk : Disk} {records : List JobRecord} {jobs : Jobs} {call : Call}
      {faults : List Fault} {e : ApiError} {w : World} (hlist : Lists disk records)
      (hrun : jobs.exec call ⟨disk, records, faults, []⟩ = .error e w) :
      Step disk ⟨jobs, call, faults, .error e, w.writes⟩ w.disk

/-- What a call of a host comes to on a directory read as `records`. -/
def Jobs.act (jobs : Jobs) (call : Call) (faults : List Fault) (disk : Disk)
    (records : List JobRecord) : Act × Disk :=
  match jobs.exec call ⟨disk, records, faults, []⟩ with
  | .ok reply w => (⟨jobs, call, faults, .ok reply, w.writes⟩, w.disk)
  | .error e w => (⟨jobs, call, faults, .error e, w.writes⟩, w.disk)

variable {disk : Disk}

theorem step_act {records : List JobRecord} (hlist : Lists disk records) (jobs : Jobs)
    (call : Call) (faults : List Fault) :
    Step disk (jobs.act call faults disk records).1 (jobs.act call faults disk records).2 := by
  unfold Jobs.act
  cases hrun : jobs.exec call ⟨disk, records, faults, []⟩ with
  | ok reply w => exact .ok hlist hrun
  | error e w => exact .error hlist hrun

theorem Lists.empty : Lists (fun _ => none) [] where
  named _ _ h := by cases h
  nodup := List.nodup_nil
  mem _ := by simp

theorem JobState.ne_of_isTerminal {s t : JobState} (hs : s.isTerminal = true)
    (ht : t.isTerminal = false) : s ≠ t := by
  rintro rfl
  rw [hs] at ht
  cases ht

/-! ## Writes -/

theorem Write.saved_apply_eq_some {r p : JobRecord} {id : JobId} :
    (Write.saved r).apply disk id = some p ↔
      (id = r.id ∧ p = r) ∨ (id ≠ r.id ∧ disk id = some p) := by
  unfold Write.apply
  by_cases h : id = r.id
  · subst h
    simp [eq_comm]
  · simp [h]

theorem Write.removed_apply_eq_some {p : JobRecord} {id id' : JobId} :
    (Write.removed id').apply disk id = some p ↔ id ≠ id' ∧ disk id = some p := by
  unfold Write.apply
  by_cases h : id = id' <;> simp [h]

/-- How a call changes a record, with what it checked. -/
inductive Update (jobs : Jobs) : Call → JobRecord → JobRecord → Prop where
  | claim {r : JobRecord} {nonce : String} (hstate : r.state = .admitted)
      (htarget : r.target = jobs.config.host) :
      Update jobs (.claim r.id nonce) r { r with
        state := .running
        lease := some ⟨nonce, jobs.config.host, jobs.now, jobs.now + jobs.config.leaseTtlMs⟩
        attempts := r.attempts + 1
        cancelAllowed := true, phase := none, pendingRequest := none, message := none
        updatedAtMs := jobs.now }.next
  | renew {r : JobRecord} {lease : JobLease} {progress : Progress} (hlease : r.lease = some lease)
      (hholder : lease.holder = jobs.config.host) (hstate : r.state = .running)
      (hnow : jobs.now < lease.expiresAtMs) :
      Update jobs (.renew r.id lease.nonce progress) r { r with
        lease := some { lease with expiresAtMs := jobs.now + jobs.config.leaseTtlMs }
        phase := progress.phase, cancelAllowed := progress.cancelAllowed
        pendingRequest := progress.pendingRequest
        lastSeq := max r.lastSeq progress.lastSeq, updatedAtMs := jobs.now }.next
  | finish {r : JobRecord} {lease : JobLease} {state : JobState} {message : String}
      {lastSeq : Nat} (hlease : r.lease = some lease)
      (hholder : lease.holder = jobs.config.host)
      (hstate : r.state = .running ∨ r.state = .interrupted) (hend : state.isTerminal = true) :
      Update jobs (.finish r.id lease.nonce state message lastSeq) r
        { r.finish state message jobs.now with lastSeq := max r.lastSeq lastSeq }.next
  | cancelAdmitted {r : JobRecord} {caller : Caller} {force : Bool} {message : String}
      (hstate : r.state = .admitted) :
      Update jobs (.cancel caller r.id force) r { r.finish .cancelled message jobs.now with
        cancel := some ⟨force, caller.user, jobs.now⟩ }.next
  | cancelRunning {r : JobRecord} {caller : Caller} {force : Bool} {order : CancelOrder}
      (hstate : r.state = .running) :
      Update jobs (.cancel caller r.id force) r
        { r with cancel := some order, updatedAtMs := jobs.now }.next
  | resume {r : JobRecord} {caller : Caller} (target : HostSlot) (message : String)
      (hstate : r.state = .interrupted) :
      Update jobs (.resume caller r.id) r { r with
        target := target, state := .admitted, message := some message
        admittedAtMs := jobs.now, updatedAtMs := jobs.now }.next
  | interruptOwn {r : JobRecord} {seen : List JobRecord} {lease : JobLease} {message : String}
      (hstate : r.state = .running) (hlease : r.lease = some lease)
      (hholder : lease.holder = jobs.config.host) :
      Update jobs (.interruptOwn seen) r { r with
        state := .interrupted, message := some message, updatedAtMs := jobs.now }.next
  | resumeAfterRestart {r : JobRecord} (message : String) (hstate : r.state = .interrupted) :
      Update jobs (.resumeAfterRestart r.id) r { r with
        state := .admitted, target := jobs.config.host, message := some message
        admittedAtMs := jobs.now, updatedAtMs := jobs.now }.next
  | reconcile {r : JobRecord} {caller : Caller} (message : String)
      (hstate : r.state = .interrupted) :
      Update jobs (.reconcile caller r.id) r (r.finish .failed message jobs.now).next
  | sweepRunning {r : JobRecord} {at_ : Int} {seen : List JobRecord} {lease : JobLease}
      {message : String} (hstate : r.state = .running) (hlease : r.lease = some lease)
      (hexpired : lease.expiresAtMs ≤ at_) :
      Update jobs (.sweep at_ seen) r { r with
        state := .interrupted, message := some message, updatedAtMs := jobs.now }.next
  | sweepAdmitted {r : JobRecord} {at_ : Int} {seen : List JobRecord} {message : String}
      (hstate : r.state = .admitted) :
      Update jobs (.sweep at_ seen) r (r.finish .failed message jobs.now).next

def Call.prunes : Call → Bool
  | .admitJob .. | .finish .. | .cancel .. | .reconcile .. | .sweep .. => true
  | _ => false

/-- The writes a call can make on a directory. -/
inductive Makes (jobs : Jobs) : Call → Disk → Write → Prop where
  | create {caller : Caller} {launch : LaunchJob} {id : JobId} {operation : Operation}
      {prepared : Prepared} {target : HostSlot} {disk : Disk}
      (hop : jobs.operation launch.operation = .ok operation)
      (hprep : prepare operation launch.parameters launch.dryRun = .ok prepared)
      (hkey : ∀ id r, disk id = some r →
        ¬ (r.user = caller.user ∧ r.idempotencyKey = launch.idempotencyKey))
      (hlocks : ∀ id r, disk id = some r → r.holdsLocks = true →
        ∀ a ∈ prepared.locks, ∀ b ∈ r.locks, locksConflict a b = false)
      (hid : disk id = none) :
      Makes jobs (.admitJob caller launch id) disk
        (.saved (jobs.newRecord caller launch operation prepared target id).next)
  | update {call : Call} {disk : Disk} {r r' : JobRecord} (hr : disk r.id = some r)
      (hu : Update jobs call r r') : Makes jobs call disk (.saved r')
  | prune {call : Call} {disk : Disk} {r : JobRecord} (hcall : call.prunes = true)
      (hr : disk r.id = some r) (hend : r.state.isTerminal = true) :
      Makes jobs call disk (.removed r.id)

def Put (disk : Disk) (x : Act × Write) (disk' : Disk) : Prop :=
  Makes x.1.jobs x.1.call disk x.2 ∧ x.2.apply disk = disk'

theorem Update.id_eq {jobs : Jobs} {call : Call} {r r' : JobRecord} (h : Update jobs call r r') :
    r'.id = r.id := by
  cases h <;> rfl

end Bmac.Bmacd
