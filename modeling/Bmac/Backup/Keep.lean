import Bmac.Backup.Retention

/-!
# What the keep set holds

Every reason of the keep set but today's, the branch crossings' and the caller's names the newest
PIT of a class of PITs: all of them, those of one period, those of one branch, the full receives
of one branch. `keeps_iff` reads the keep set that way; the results about retention go through it
and never unfold `applianceKeep`.
-/

namespace Bmac.Backup

open Bmac.Base Bmac.Core

structure NewestOf (S : Set AppliancePit) (C : AppliancePit → Prop) (p : AppliancePit) : Prop where
  mem : p ∈ S
  cls : C p
  max : ∀ q ∈ S, C q → q.stamp ≤ p.stamp

variable {C : AppliancePit → Prop} {S : Set AppliancePit} {p : AppliancePit} {clock : Clock}

theorem NewestOf.mono {T : Set AppliancePit}
    (h : NewestOf S C p) (hTS : T ⊆ S) (hp : p ∈ T) : NewestOf T C p :=
  ⟨hp, h.cls, fun q hq hC => h.max q (hTS hq) hC⟩

theorem NewestOf.pitUuid_eq {q : AppliancePit}
    (hp : NewestOf S C p) (hq : NewestOf S C q) : p.pitUuid = q.pitUuid := by
  have h : p.stamp = q.stamp := le_antisymm (hq.max p hp.mem hp.cls) (hp.max q hq.mem hq.cls)
  exact congrArg (fun s => (ofLex s).2) h

theorem exists_newestOf (hS : S.Finite) (hp : p ∈ S) (hC : C p) : ∃ m, NewestOf S C m := by
  obtain ⟨m, hm, hmax⟩ := Set.exists_max_image {q ∈ S | C q} AppliancePit.stamp
    (hS.subset fun q hq => hq.1) ⟨p, hp, hC⟩
  exact ⟨m, hm.1, hm.2, fun q hq hCq => hmax q ⟨hq, hCq⟩⟩

/-- The classes whose newest PIT the policy keeps on day `today`. -/
inductive Class (policy : ApplianceRetention) (calendar : Calendar) (start today : Int) :
    (AppliancePit → Prop) → Prop where
  | latest : Class policy calendar start today fun _ => True
  | tier {period : Period} {count : Option Nat} {why : KeepReason} (k : Int)
      (hmem : (period, count, why) ∈ tiers policy start)
      (hk : (back (period.of today) count).contains k = true) :
      Class policy calendar start today fun p => period.of (calendar.day p.takenS) = k
  | head (b : String) : Class policy calendar start today fun p => p.branch = b
  | seed (b : String) : Class policy calendar start today fun p => p.parent.isNone ∧ p.branch = b

/-! ## The parts of the keep set -/

theorem latestPit_snoc (pits : List AppliancePit) (p : AppliancePit) :
    latestPit (pits ++ [p]) = match latestPit pits with
      | none => some p
      | some q => if q.stamp ≤ p.stamp then some p else some q := by
  rw [latestPit, List.foldl_append]
  rfl

variable {pits : List AppliancePit} {id : Uuid}

theorem latestPit_none : latestPit pits = none ↔ pits = [] := by
  induction pits using List.reverseRecOn with
  | nil => simp [latestPit]
  | append_singleton pits p ih =>
    rw [latestPit_snoc]
    cases latestPit pits with
    | none => simp
    | some q => simp only; split <;> simp

theorem latestPit_newest {m : AppliancePit}
    (h : latestPit pits = some m) : NewestOf {p | p ∈ pits} (fun _ => True) m := by
  induction pits using List.reverseRecOn generalizing m with
  | nil => cases h
  | append_singleton pits p ih =>
    rw [latestPit_snoc] at h
    cases hq : latestPit pits with
    | none =>
      rw [latestPit_none] at hq
      subst hq
      cases h
      exact ⟨by simp, trivial, by simp⟩
    | some q =>
      rw [hq] at h
      have hn := ih hq
      simp only at h
      split at h
      · rename_i hle
        cases h
        refine ⟨by simp, trivial, fun r hr _ => ?_⟩
        rcases List.mem_append.mp hr with hr | hr
        · exact (hn.max r hr trivial).trans hle
        · rw [List.mem_singleton.mp hr]
      · rename_i hlt
        cases h
        refine ⟨List.mem_append_left _ hn.mem, trivial, fun r hr _ => ?_⟩
        rcases List.mem_append.mp hr with hr | hr
        · exact hn.max r hr trivial
        · rw [List.mem_singleton.mp hr]
          exact (not_le.mp hlt).le

theorem latestPit_iff :
    (∃ m, latestPit pits = some m ∧ m.pitUuid = id) ↔
      ∃ p, NewestOf {p | p ∈ pits} (fun _ => True) p ∧ p.pitUuid = id := by
  constructor
  · rintro ⟨m, hm, rfl⟩
    exact ⟨m, latestPit_newest hm, rfl⟩
  · rintro ⟨p, hp, rfl⟩
    cases hm : latestPit pits with
    | none =>
      rw [latestPit_none] at hm
      subst hm
      cases hp.mem
    | some m => exact ⟨m, rfl, (latestPit_newest hm).pitUuid_eq hp⟩

theorem mem_winners {calendar : Calendar} {periodOf : Int → Int} {periods : Periods} :
    id ∈ winners (dated pits calendar) periodOf periods ↔
      ∃ k, periods.contains k = true ∧ ∃ p,
        NewestOf {p | p ∈ pits} (fun p => periodOf (calendar.day p.takenS) = k) p ∧
          p.pitUuid = id := by
  simp only [winners, dated, List.mem_map, Prod.exists]
  constructor
  · rintro ⟨k, stamp, hmem, rfl⟩
    obtain ⟨hin, hmax⟩ := mem_newest.mp hmem
    simp only [List.mem_map, List.mem_filter, Prod.exists, Prod.mk.injEq] at hin
    obtain ⟨id, day, taken, ⟨⟨p, hp, rfl, rfl, rfl⟩, hk⟩, rfl, rfl⟩ := hin
    refine ⟨_, hk, p, ⟨hp, rfl, fun q hq hkq => hmax q.stamp ?_⟩, rfl⟩
    simp only [List.mem_map, List.mem_filter, Prod.exists, Prod.mk.injEq]
    exact ⟨_, _, _, ⟨⟨q, hq, rfl, rfl, rfl⟩, by rw [hkq]; exact hk⟩, hkq, rfl⟩
  · rintro ⟨k, hk, p, hp, rfl⟩
    refine ⟨k, p.stamp, mem_newest.mpr ⟨?_, fun s hs => ?_⟩, rfl⟩
    · simp only [List.mem_map, List.mem_filter, Prod.exists, Prod.mk.injEq]
      exact ⟨_, _, _, ⟨⟨p, hp.mem, rfl, rfl, rfl⟩, by rw [hp.cls]; exact hk⟩, hp.cls, rfl⟩
    · simp only [List.mem_map, List.mem_filter, Prod.exists, Prod.mk.injEq] at hs
      obtain ⟨id, day, taken, ⟨⟨q, hq, rfl, rfl, rfl⟩, -⟩, hkq, rfl⟩ := hs
      exact hp.max q hq hkq

theorem mem_branchNewest {sel : AppliancePit → Bool} :
    id ∈ branchNewest pits sel ↔ ∃ b p,
      NewestOf {p | p ∈ pits} (fun p => sel p ∧ p.branch = b) p ∧ p.pitUuid = id := by
  simp only [branchNewest, List.mem_map, Prod.exists]
  constructor
  · rintro ⟨b, stamp, hmem, rfl⟩
    obtain ⟨hin, hmax⟩ := mem_newest.mp hmem
    simp only [List.mem_map, List.mem_filter, Prod.mk.injEq] at hin
    obtain ⟨p, ⟨hp, hsel⟩, rfl, rfl⟩ := hin
    refine ⟨p.branch, p, ⟨hp, ⟨hsel, rfl⟩, fun q hq hC => hmax q.stamp ?_⟩, rfl⟩
    simp only [List.mem_map, List.mem_filter, Prod.mk.injEq]
    exact ⟨q, ⟨hq, hC.1⟩, hC.2, rfl⟩
  · rintro ⟨b, p, hp, rfl⟩
    refine ⟨b, p.stamp, mem_newest.mpr ⟨?_, fun s hs => ?_⟩, rfl⟩
    · simp only [List.mem_map, List.mem_filter, Prod.mk.injEq]
      exact ⟨p, ⟨hp.mem, hp.cls.1⟩, hp.cls.2, rfl⟩
    · simp only [List.mem_map, List.mem_filter, Prod.mk.injEq] at hs
      obtain ⟨q, ⟨hq, hsel⟩, hb, rfl⟩ := hs
      exact hp.max q hq ⟨hsel, hb⟩

theorem Reasons.keeps_append {k l : Reasons} :
    Reasons.Keeps (k ++ l) id ↔ k.Keeps id ∨ l.Keeps id := by
  simp only [Reasons.Keeps, List.mem_append, exists_or]

theorem Reasons.keeps_map {ids : List Uuid} {why : KeepReason} :
    Reasons.Keeps (ids.map fun id => (id, why)) id ↔ id ∈ ids := by
  simp [Reasons.Keeps]

/-! ## The whole -/

/-- The newest of a class that the policy keeps on day `today`, from start day `start`. -/
def KeptByClass (policy : ApplianceRetention) (calendar : Calendar) (start today : Int)
    (S : Set AppliancePit) (p : AppliancePit) : Prop :=
  ∃ C, Class policy calendar start today C ∧ NewestOf S C p

theorem keeps_latest :
    Reasons.Keeps ((latestPit pits).toList.map fun p => (p.pitUuid, .latest)) id ↔
      ∃ m, latestPit pits = some m ∧ m.pitUuid = id := by
  simp [Reasons.Keeps]

theorem keeps_today :
    Reasons.Keeps (((dated pits clock.calendar).filter fun (_, day, _) =>
        clock.calendar.day clock.nowS ≤ day).map fun (id, _) => (id, KeepReason.today)) id ↔
      ∃ p ∈ pits, clock.calendar.day clock.nowS ≤ clock.calendar.day p.takenS ∧ p.pitUuid = id := by
  simp [Reasons.Keeps, dated, and_assoc]

theorem keeps_tiers {policy : ApplianceRetention} :
    Reasons.Keeps ((tiers policy (startDay pits clock)).flatMap
        fun (period, count, why) => (winners (dated pits clock.calendar) period.of
          (back (period.of (clock.calendar.day clock.nowS)) count)).map fun id => (id, why)) id ↔
      ∃ period count why, (period, count, why) ∈ tiers policy (startDay pits clock) ∧
        id ∈ winners (dated pits clock.calendar) period.of
          (back (period.of (clock.calendar.day clock.nowS)) count) := by
  simp only [Reasons.Keeps, List.mem_flatMap, List.mem_map, Prod.exists, Prod.mk.injEq]
  constructor
  · rintro ⟨why, period, count, why', hmem, id', hid, rfl, rfl⟩
    exact ⟨period, count, why', hmem, hid⟩
  · rintro ⟨period, count, why, hmem, hid⟩
    exact ⟨why, period, count, why, hmem, id, hid, rfl, rfl⟩

theorem keeps_roots :
    Reasons.Keeps (pits.flatMap (crossing pits)) id ↔ ∃ p ∈ pits, (crossing pits p).Keeps id := by
  simp only [Reasons.Keeps, List.mem_flatMap]
  constructor
  · rintro ⟨why, p, hp, h⟩
    exact ⟨p, hp, why, h⟩
  · rintro ⟨p, hp, why, h⟩
    exact ⟨why, p, hp, h⟩

theorem keeps_iff {policy : ApplianceRetention} {pinned : Reasons} :
    (applianceKeep pits policy clock pinned).Keeps id ↔
      (∃ p, KeptByClass policy clock.calendar (startDay pits clock)
        (clock.calendar.day clock.nowS) {p | p ∈ pits} p ∧ p.pitUuid = id) ∨
      (∃ p ∈ pits, clock.calendar.day clock.nowS ≤ clock.calendar.day p.takenS ∧ p.pitUuid = id) ∨
      (∃ p ∈ pits, (crossing pits p).Keeps id) ∨ pinned.Keeps id := by
  simp only [applianceKeep, Reasons.keeps_append, Reasons.keeps_map, keeps_latest, keeps_today,
    keeps_tiers, keeps_roots, latestPit_iff, mem_winners, mem_branchNewest]
  constructor
  · rintro ((((((⟨p, hp, rfl⟩ | h) | ⟨period, count, why, hmem, k, hk, p, hp, rfl⟩) | h) |
      ⟨b, p, hp, rfl⟩) | ⟨b, p, hp, rfl⟩) | h)
    · exact .inl ⟨p, ⟨_, .latest, hp⟩, rfl⟩
    · exact .inr (.inl h)
    · exact .inl ⟨p, ⟨_, .tier k hmem hk, hp⟩, rfl⟩
    · exact .inr (.inr (.inl h))
    · exact .inl ⟨p, ⟨_, .head b, by simpa using hp⟩, rfl⟩
    · exact .inl ⟨p, ⟨_, .seed b, hp⟩, rfl⟩
    · exact .inr (.inr (.inr h))
  · rintro (⟨p, ⟨C, hC, hp⟩, rfl⟩ | h | h | h)
    · cases hC with
      | latest => exact .inl (.inl (.inl (.inl (.inl (.inl ⟨p, hp, rfl⟩)))))
      | tier k hmem hk => exact .inl (.inl (.inl (.inl (.inr ⟨_, _, _, hmem, k, hk, p, hp, rfl⟩))))
      | head b => exact .inl (.inl (.inr ⟨b, p, by simpa using hp, rfl⟩))
      | seed b => exact .inl (.inr ⟨b, p, hp, rfl⟩)
    · exact .inl (.inl (.inl (.inl (.inl (.inr h)))))
    · exact .inl (.inl (.inl (.inr h)))
    · exact .inr h

end Bmac.Backup
