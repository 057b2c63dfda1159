import Mathlib
import Bmac.Backup.Catalog
import Bmac.Backup.Retention

/-!
# Local retention

`bmac-backup/src/retention.rs`, `LocalRetention`: which PITs keep their snapshots on the cluster, and
which slots are captured with no appliance available. `claimsSlot` and `keep` count days and weeks each
for itself; `claims_agree` says that a slot is claimed when its PIT is the first of a day or week that
counts, and that the PIT is then kept.
-/

namespace Bmac.Backup

open Bmac.Base Bmac.Core

/-- The last `count` periods, the current one included. -/
def last (current : Int) : Nat → Periods
  | 0 => ⟨some (current + 1), current⟩
  | before + 1 => back current (some before)

theorem last_contains {current : Int} {count : Nat} (h : 0 < count) :
    (last current count).contains current = true := by
  cases count with
  | zero => cases h
  | succ before =>
    have hback : current - (before : Int) ≤ current := by omega
    simp [last, back, Periods.contains, hback]

structure LocalPit where
  pitUuid : Uuid
  takenS : Int
  backedUp : Bool

def LocalPit.stamp (pit : LocalPit) : Stamp := toLex (pit.takenS, pit.pitUuid)

namespace LocalRetention

/-- The PITs whose snapshots stay on the cluster: the newest that an appliance has published, and one for
each of the last days and weeks. `start` is the day of the VM's first PIT there. -/
def keep (policy : LocalRetention) (pits : List LocalPit) (calendar : Calendar) (start : Option Int)
    (nowS : Int) : List Uuid :=
  let backedUp := (pits.filter (·.backedUp)).mergeSort fun p q => decide (q.stamp ≤ p.stamp)
  let all := (pits.filter (·.takenS ≤ nowS)).map fun p => (p.pitUuid, calendar.day p.takenS, p.takenS)
  let today := calendar.day nowS
  let start := (start.or (firstDay calendar (pits.map (·.takenS)))).getD today
  let week : Period := ⟨start, weekDays⟩
  (backedUp.take policy.newest).map (·.pitUuid) ++
    winners all (fun d => d) (last today policy.days) ++
    winners all week.of (last (week.of today) policy.weeks)

/-- Whether a slot is captured even with no appliance available: it would be the first PIT of a day or
week that local retention keeps. -/
def claimsSlot (policy : LocalRetention) (pits : List LocalPit) (calendar : Calendar)
    (start : Option Int) (slotS : Int) : Bool :=
  let slotDay := calendar.day slotS
  let start := (start.or (firstDay calendar (pits.map (·.takenS)))).getD slotDay
  let week : Period := ⟨start, weekDays⟩
  let days := pits.map fun p => calendar.day p.takenS
  (policy.days > 0 && !days.contains slotDay) ||
    (policy.weeks > 0 && !days.any fun d => week.of d = week.of slotDay)

end LocalRetention

/-! ## Periods that hold a PIT -/

variable {calendar : Calendar} {periodOf : Int → Int} {pits before after : List LocalPit} {new : LocalPit}

def held (calendar : Calendar) (periodOf : Int → Int) (pits : List LocalPit) : Set Int :=
  {k | ∃ p ∈ pits, periodOf (calendar.day p.takenS) = k}

theorem held_insert : held calendar periodOf (before ++ new :: after) =
    insert (periodOf (calendar.day new.takenS)) (held calendar periodOf (before ++ after)) := by
  ext k
  simp only [held, Set.mem_ofPred_eq, Set.mem_insert_iff, List.mem_append, List.mem_cons]
  constructor
  · rintro ⟨p, hp | rfl | hp, rfl⟩
    · exact .inr ⟨p, .inl hp, rfl⟩
    · exact .inl rfl
    · exact .inr ⟨p, .inr hp, rfl⟩
  · rintro (rfl | ⟨p, hp | hp, rfl⟩)
    · exact ⟨new, .inr (.inl rfl), rfl⟩
    · exact ⟨p, .inl hp, rfl⟩
    · exact ⟨p, .inr (.inr hp), rfl⟩

/-- A PIT adds a period exactly when its own held none. -/
theorem held_ssubset : held calendar periodOf (before ++ after) ⊂
    held calendar periodOf (before ++ new :: after) ↔
      ∀ p ∈ before ++ after, periodOf (calendar.day p.takenS) ≠ periodOf (calendar.day new.takenS) := by
  rw [held_insert]
  constructor
  · intro h p hp heq
    have hin : periodOf (calendar.day new.takenS) ∈ held calendar periodOf (before ++ after) :=
      ⟨p, hp, heq⟩
    rw [Set.insert_eq_of_mem hin] at h
    exact h.ne rfl
  · intro h
    exact Set.ssubset_insert fun ⟨p, hp, heq⟩ => h p hp heq

/-- The only PIT of a period that counts wins it. -/
theorem mem_winners_of_first {all : List (Uuid × Int × Int)} {periods : Periods} {id : Uuid}
    {day taken : Int} (hmem : (id, day, taken) ∈ all) (hk : periods.contains (periodOf day) = true)
    (hfirst : ∀ id' day' taken', (id', day', taken') ∈ all → periodOf day' = periodOf day →
      (id', day', taken') = (id, day, taken)) : id ∈ winners all periodOf periods := by
  refine List.mem_map.mpr ⟨(periodOf day, toLex (taken, id)), mem_newest.mpr ⟨?_, ?_⟩, rfl⟩
  · exact List.mem_map.mpr ⟨(id, day, taken), List.mem_filter.mpr ⟨hmem, hk⟩, rfl⟩
  · intro stamp hstamp
    obtain ⟨⟨id', day', taken'⟩, hin, heq⟩ := List.mem_map.mp hstamp
    obtain ⟨hperiod, rfl⟩ := Prod.mk.inj heq
    have hsame := hfirst id' day' taken' (List.mem_filter.mp hin).1 hperiod
    obtain ⟨rfl, hrest⟩ := Prod.mk.inj hsame
    obtain ⟨-, rfl⟩ := Prod.mk.inj hrest
    exact le_rfl

theorem first_wins {count : Nat} (hcount : 0 < count)
    (hfirst : ∀ p ∈ before ++ after,
      periodOf (calendar.day p.takenS) ≠ periodOf (calendar.day new.takenS)) :
    new.pitUuid ∈ winners (((before ++ new :: after).filter (·.takenS ≤ new.takenS)).map fun p =>
      (p.pitUuid, calendar.day p.takenS, p.takenS)) periodOf
        (last (periodOf (calendar.day new.takenS)) count) := by
  refine @mem_winners_of_first _ _ _ _ (calendar.day new.takenS) new.takenS ?_
    (last_contains hcount) ?_
  · refine List.mem_map.mpr ⟨new, List.mem_filter.mpr ⟨?_, by simp⟩, rfl⟩
    exact List.mem_append_right _ List.mem_cons_self
  · intro id day taken hmem hperiod
    obtain ⟨p, hp, heq⟩ := List.mem_map.mp hmem
    obtain ⟨rfl, hrest⟩ := Prod.mk.inj heq
    obtain ⟨rfl, rfl⟩ := Prod.mk.inj hrest
    rcases List.mem_append.mp (List.mem_filter.mp hp).1 with hp | hp
    · exact absurd hperiod (hfirst p (List.mem_append_left _ hp))
    · rcases List.mem_cons.mp hp with rfl | hp
      · rfl
      · exact absurd hperiod (hfirst p (List.mem_append_right _ hp))

/-- A slot is claimed exactly when its PIT adds a day or a week that counts, and the PIT of a claimed slot
is kept. -/
theorem claims_agree (policy : LocalRetention) (before after : List LocalPit) (new : LocalPit)
    (calendar : Calendar) (start : Int) :
    let week : Period := ⟨start, weekDays⟩
    (policy.claimsSlot (before ++ after) calendar (some start) new.takenS = true ↔
      (0 < policy.days ∧ held calendar (fun d => d) (before ++ after) ⊂
        held calendar (fun d => d) (before ++ new :: after)) ∨
      (0 < policy.weeks ∧ held calendar week.of (before ++ after) ⊂
        held calendar week.of (before ++ new :: after))) ∧
    (policy.claimsSlot (before ++ after) calendar (some start) new.takenS = true →
      new.pitUuid ∈ policy.keep (before ++ new :: after) calendar (some start) new.takenS) := by
  intro week
  have hclaims : policy.claimsSlot (before ++ after) calendar (some start) new.takenS = true ↔
      (0 < policy.days ∧ ∀ p ∈ before ++ after, calendar.day p.takenS ≠ calendar.day new.takenS) ∨
      (0 < policy.weeks ∧ ∀ p ∈ before ++ after,
        week.of (calendar.day p.takenS) ≠ week.of (calendar.day new.takenS)) := by
    have hday : ((before ++ after).map fun p => calendar.day p.takenS).contains
        (calendar.day new.takenS) = false ↔
          ∀ p ∈ before ++ after, calendar.day p.takenS ≠ calendar.day new.takenS := by
      rw [← Bool.not_eq_true, List.contains_iff_mem, List.mem_map]
      exact ⟨fun h p hp heq => h ⟨p, hp, heq⟩, fun h ⟨p, hp, heq⟩ => h p hp heq⟩
    have hweek : (((before ++ after).map fun p => calendar.day p.takenS).any fun d =>
        decide (week.of d = week.of (calendar.day new.takenS))) = false ↔
          ∀ p ∈ before ++ after,
            week.of (calendar.day p.takenS) ≠ week.of (calendar.day new.takenS) := by
      rw [List.any_map, List.any_eq_false]
      simp
    simp only [LocalRetention.claimsSlot, Option.some_or, Option.getD_some, gt_iff_lt,
      Bool.or_eq_true, Bool.and_eq_true, decide_eq_true_eq, Bool.not_eq_true', hday]
    exact or_congr_right (and_congr_right fun _ => hweek)
  refine ⟨?_, fun h => ?_⟩
  · rw [hclaims, held_ssubset, held_ssubset]
  · rw [LocalRetention.keep]
    rcases hclaims.mp h with ⟨hcount, hfirst⟩ | ⟨hcount, hfirst⟩
    · exact List.mem_append_left _ (List.mem_append_right _ (first_wins hcount hfirst))
    · exact List.mem_append_right _ (first_wins hcount hfirst)

end Bmac.Backup
