import Bmac.Base.Split
import Bmac.Bmacd.JobCalls

/-!
# Mutual exclusion of jobs

Unfinished jobs hold their locks, and no two of them hold locks that overlap: `admitJob` checks a new
job's against all of them, and no call gives a job other locks or makes a finished one unfinished.
Locks overlap when the parts of one's name begin the other's.
-/

namespace Bmac.Bmacd

open Bmac.Base Bmac.Core

/-! ## When locks overlap -/

theorem split_isPrefix_iff {a b : String} :
    Text.split ':' a <+: Text.split ':' b ↔ b = a ∨ ∃ t, b.toList = a.toList ++ ':' :: t := by
  have hinj : Function.Injective String.ofList := fun x y h => by simpa using congrArg String.toList h
  unfold Text.split
  rw [List.prefix_map_iff_of_injective hinj, splitOn_isPrefix_iff, String.toList_inj]

theorem len_lt_of_longer {a b : String} {t : List Char} (h : b.toList = a.toList ++ ':' :: t) :
    Text.len a < Text.len b := by
  have hpos : 0 < (':' : Char).utf8Size := by decide
  unfold Text.len
  rw [h, List.map_append, List.sum_append, List.map_cons, List.sum_cons]
  omega

theorem conflict_of_le {a b : String} :
    (b == a || (Text.stripStart a b).any (Text.startsWith ':')) = true ↔
      b = a ∨ ∃ t, b.toList = a.toList ++ ':' :: t := by
  rw [Bool.or_eq_true, beq_iff_eq]
  refine or_congr_right ?_
  unfold Text.stripStart
  cases h : a.toList.isPrefixOf? b.toList with
  | none =>
    simp only [Option.map_none, Option.any_none, Bool.false_eq_true, false_iff]
    rintro ⟨t, ht⟩
    rw [isPrefixOf?_eq_some.mpr ht] at h
    cases h
  | some rest =>
    have hb := isPrefixOf?_eq_some.mp h
    simp only [Option.map_some, Option.any_some, Text.startsWith, String.toList_ofList, beq_iff_eq]
    constructor
    · intro hhead
      obtain ⟨t, rfl⟩ := List.head?_eq_some_iff.mp hhead
      exact ⟨t, hb⟩
    · rintro ⟨t, ht⟩
      rw [hb, List.append_cancel_left_eq] at ht
      rw [ht]
      rfl

theorem locksConflict_iff {a b : String} : locksConflict a b = true ↔
    Text.split ':' a <+: Text.split ':' b ∨ Text.split ':' b <+: Text.split ':' a := by
  unfold locksConflict
  rw [split_isPrefix_iff, split_isPrefix_iff]
  by_cases hle : Text.len a ≤ Text.len b
  · rw [if_pos hle]
    simp only []
    rw [conflict_of_le]
    constructor
    · exact .inl
    · rintro (h | rfl | ⟨t, ht⟩)
      · exact h
      · exact .inl rfl
      · have := len_lt_of_longer ht
        omega
  · rw [if_neg hle]
    simp only []
    rw [conflict_of_le]
    constructor
    · exact .inr
    · rintro ((rfl | ⟨t, ht⟩) | h)
      · exact .inl rfl
      · have := len_lt_of_longer ht
        omega
      · exact h

theorem locksConflict_comm (a b : String) : locksConflict a b = locksConflict b a := by
  rw [Bool.eq_iff_iff, locksConflict_iff, locksConflict_iff, or_comm]

/-! ## Exclusion -/

def Exclusive (disk : Disk) : Prop :=
  ∀ id id' r r', id ≠ id' → disk id = some r → disk id' = some r' → r.holdsLocks = true →
    r'.holdsLocks = true → ∀ a ∈ r.locks, ∀ b ∈ r'.locks, locksConflict a b = false

theorem Update.holdsLocks {jobs : Jobs} {call : Call} {r r' : JobRecord}
    (h : Update jobs call r r') : r.holdsLocks = true ∧ r'.locks = r.locks := by
  have hopen : ∀ state, r.state = state → state.isTerminal = false → r.holdsLocks = true := by
    intro state hstate hend
    unfold JobRecord.holdsLocks
    rw [hstate, hend]
    rfl
  cases h with
  | claim hstate => exact ⟨hopen _ hstate rfl, rfl⟩
  | renew _ _ hstate => exact ⟨hopen _ hstate rfl, rfl⟩
  | finish _ _ hstate => exact ⟨hstate.elim (hopen _ · rfl) (hopen _ · rfl), rfl⟩
  | cancelAdmitted hstate => exact ⟨hopen _ hstate rfl, rfl⟩
  | cancelRunning hstate => exact ⟨hopen _ hstate rfl, rfl⟩
  | resume _ _ hstate => exact ⟨hopen _ hstate rfl, rfl⟩
  | interruptOwn hstate => exact ⟨hopen _ hstate rfl, rfl⟩
  | resumeAfterRestart _ hstate => exact ⟨hopen _ hstate rfl, rfl⟩
  | reconcile _ hstate => exact ⟨hopen _ hstate rfl, rfl⟩
  | sweepRunning hstate => exact ⟨hopen _ hstate rfl, rfl⟩
  | sweepAdmitted hstate => exact ⟨hopen _ hstate rfl, rfl⟩

/-- A record in place of another keeps the exclusion, if against all others it does. -/
theorem Exclusive.save {disk : Disk} {r' : JobRecord} (h : Exclusive disk)
    (hr' : ∀ id r, id ≠ r'.id → disk id = some r → r.holdsLocks = true → r'.holdsLocks = true →
      ∀ a ∈ r'.locks, ∀ b ∈ r.locks, locksConflict a b = false) :
    Exclusive ((Write.saved r').apply disk) := by
  intro id id' p q hne hp hq hpl hql a ha b hb
  rw [Write.saved_apply_eq_some] at hp hq
  rcases hp with ⟨rfl, rfl⟩ | ⟨hid, hp⟩
  · obtain ⟨hid', hq⟩ := hq.resolve_left fun he => hne he.1.symm
    exact hr' id' q hid' hq hql hpl a ha b hb
  · rcases hq with ⟨rfl, rfl⟩ | ⟨hid', hq⟩
    · rw [locksConflict_comm]
      exact hr' id p hid hp hpl hql b hb a ha
    · exact h id id' p q hne hp hq hpl hql a ha b hb

theorem Exclusive.write {jobs : Jobs} {call : Call} {disk : Disk} {x : Write}
    (h : Exclusive disk) (hmakes : Makes jobs call disk x) : Exclusive (x.apply disk) := by
  cases hmakes with
  | create hop hprep hkey hlocks hid =>
    exact h.save fun id r _ hr hheld _ a ha b hb => hlocks id r hr hheld a ha b hb
  | @update _ _ r r' hr hu =>
    obtain ⟨hheld, hlocks⟩ := hu.holdsLocks
    refine h.save fun id q hid hq hqh _ a ha b hb => ?_
    rw [hu.id_eq] at hid
    rw [hlocks] at ha
    exact h r.id id r q hid.symm hr hq hheld hqh a ha b hb
  | @prune _ _ r _ _ _ =>
    intro id id' p q hne hp hq
    exact h id id' p q hne (Write.removed_apply_eq_some.mp hp).2
      (Write.removed_apply_eq_some.mp hq).2

/-- In every run from an empty directory, whatever the hosts call and however the storage fails, no
two unfinished jobs hold overlapping locks; locks overlap exactly when the components of one begin
the other's. -/
theorem jobs_exclusive (acts : List Act) (disk : Disk) (h : Run Step (fun _ => none) acts disk) :
    (∀ id id' r r', id ≠ id' → disk id = some r → disk id' = some r' → r.holdsLocks = true →
      r'.holdsLocks = true → ∀ a ∈ r.locks, ∀ b ∈ r'.locks, locksConflict a b = false) ∧
    ∀ a b, locksConflict a b = true ↔
      Text.split ':' a <+: Text.split ':' b ∨ Text.split ':' b <+: Text.split ':' a := by
  refine ⟨?_, fun a b => locksConflict_iff⟩
  have hempty : Exclusive fun _ => none := by
    intro _ _ _ _ _ hr
    cases hr
  exact run_invariant hempty Exclusive.write h

/-- A scrub and an update run side by side. -/
theorem jobs_exclusive_scrub_update :
    ∃ acts disk r r', Run Step (fun _ => none) acts disk ∧ disk 7 = some r ∧ disk 8 = some r' ∧
      r.holdsLocks = true ∧ r'.holdsLocks = true ∧ r.locks = ["storage"] ∧ r'.locks = ["update"] ∧
      locksConflict "storage" "update" = false := by
  have hrun := Run.cons (step_act Lists.empty (onMox1 0) (launch "scrub" 7) [])
    (.single (step_act Lists.empty.save (onMox1 0) (launch "update" 8) []))
  refine ⟨_, _, _, _, hrun, rfl, rfl, rfl, rfl, rfl, rfl, ?_⟩
  exact (jobs_exclusive _ _ hrun).1 7 8 _ _ (by decide) rfl rfl rfl rfl _
    (List.mem_singleton.mpr rfl) _ (List.mem_singleton.mpr rfl)

end Bmac.Bmacd
