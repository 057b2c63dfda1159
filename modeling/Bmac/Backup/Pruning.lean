import Bmac.Base.Rule
import Bmac.Backup.Weakens

/-!
# Pruning again and again

A VM's history on the appliance grows by one PIT at a time and is pruned in between to the keep
set of what is still held. The keep set is a `Rule` over calendar days, so each prune leaves what
one prune of everything ever added would. The days must not go back from one prune to the next:
civil time can take the date back although the clock goes forward, and then it doesn't hold.
-/

namespace Bmac.Backup

open Bmac.Base Bmac.Core

/-! ## The keep set as a rule -/

/-- `p` and `q` are the two ends of a branch point: one was received on top of the other, on
another branch. -/
def Crosses (p q : AppliancePit) : Prop :=
  (p.parent = some q.pitUuid ∨ q.parent = some p.pitUuid) ∧ p.branch ≠ q.branch

/-- What the policy keeps of the history `S` on day `today`. -/
def wanted (policy : ApplianceRetention) (calendar : Calendar) (start today : Int)
    (S : Set AppliancePit) : Set AppliancePit :=
  {p ∈ S | KeptByClass policy calendar start today S p ∨ today ≤ calendar.day p.takenS ∨
    ∃ q ∈ S, Crosses p q}

/-- Every PIT has its own UUID, and the PIT it was received on top of was added too. -/
structure IsHistory (S : Set AppliancePit) : Prop where
  finite : S.Finite
  unique : ∀ p ∈ S, ∀ q ∈ S, p.pitUuid = q.pitUuid → p = q
  parents : ∀ p ∈ S, ∀ id, p.parent = some id → ∃ q ∈ S, q.pitUuid = id

/-- A PIT that may join the history `S` of which `T` is held: a new UUID, on top of a held PIT. -/
structure Joins (S T : Set AppliancePit) (a : AppliancePit) : Prop where
  fresh : ∀ q ∈ S, q.pitUuid ≠ a.pitUuid
  parent : ∀ id, a.parent = some id → ∃ q ∈ T, q.pitUuid = id

variable {policy : ApplianceRetention} {calendar : Calendar} {start today today' : Int}
  {S T : Set AppliancePit} {p q a : AppliancePit}

theorem Crosses.symm (h : Crosses p q) : Crosses q p := ⟨h.1.symm, h.2.symm⟩

theorem wanted_subset : wanted policy calendar start today S ⊆ S := fun _ h => h.1

theorem KeptByClass.of_held (hS : S.Finite) (hkeep : wanted policy calendar start today S ⊆ T)
    (hTS : T ⊆ S) (h : KeptByClass policy calendar start today T p) :
    KeptByClass policy calendar start today S p := by
  obtain ⟨C, hC, hp⟩ := h
  obtain ⟨m, hm⟩ := exists_newestOf hS (hTS hp.mem) hp.cls
  have hmT : m ∈ T := hkeep ⟨hm.mem, .inl ⟨C, hC, hm⟩⟩
  have hmp : m.stamp ≤ p.stamp := hp.max m hmT hm.cls
  exact ⟨C, hC, hTS hp.mem, hp.cls, fun q hq hCq => (hm.max q hq hCq).trans hmp⟩

theorem wanted_outcast (hS : IsHistory S) (hkeep : wanted policy calendar start today S ⊆ T)
    (hTS : T ⊆ S) : wanted policy calendar start today T = wanted policy calendar start today S := by
  ext p
  constructor
  · rintro ⟨hp, hcls | htoday | ⟨q, hq, hcross⟩⟩
    · exact ⟨hTS hp, .inl (hcls.of_held hS.finite hkeep hTS)⟩
    · exact ⟨hTS hp, .inr (.inl htoday)⟩
    · exact ⟨hTS hp, .inr (.inr ⟨q, hTS hq, hcross⟩)⟩
  · intro h
    have hp : p ∈ T := hkeep h
    obtain ⟨hpS, ⟨C, hC, hnew⟩ | htoday | ⟨q, hq, hcross⟩⟩ := h
    · exact ⟨hp, .inl ⟨C, hC, hnew.mono hTS hp⟩⟩
    · exact ⟨hp, .inr (.inl htoday)⟩
    · -- the other end of a branch point is wanted as well, so it is held
      have hqT : q ∈ T := hkeep ⟨hq, .inr (.inr ⟨p, hpS, hcross.symm⟩)⟩
      exact ⟨hp, .inr (.inr ⟨q, hqT, hcross⟩)⟩

/-- A window that reaches back a fixed number of periods only loses PITs as the days pass: one in
a period still to come is kept as today's. -/
theorem KeptByClass.earlier (hle : today ≤ today')
    (h : KeptByClass policy calendar start today' S p) :
    KeptByClass policy calendar start today S p ∨ today ≤ calendar.day p.takenS := by
  obtain ⟨C, hC, hp⟩ := h
  cases hC with
  | latest => exact .inl ⟨_, .latest, hp⟩
  | head b => exact .inl ⟨_, .head b, hp⟩
  | seed b => exact .inl ⟨_, .seed b, hp⟩
  | @tier period count why k hmem hk =>
    have hpos := tier_days_pos hmem
    have hof : period.of today ≤ period.of today' := Period.of_mono hpos hle
    rw [contains_back] at hk
    by_cases hkt : k ≤ period.of today
    · left
      refine ⟨_, .tier k hmem (contains_back.mpr ⟨fun n hn => ?_, hkt⟩), hp⟩
      have := hk.1 n hn
      omega
    · right
      have hcls : period.of (calendar.day p.takenS) = k := hp.cls
      have hlt : period.of today < period.of (calendar.day p.takenS) := by omega
      exact (Period.lt_of_of_lt hpos hlt).le

theorem wanted_antitone (hle : today ≤ today') :
    wanted policy calendar start today' S ⊆ wanted policy calendar start today S := by
  rintro p ⟨hp, hcls | htoday | hcross⟩
  · rcases hcls.earlier hle with h | h
    · exact ⟨hp, .inl h⟩
    · exact ⟨hp, .inr (.inl h)⟩
  · exact ⟨hp, .inr (.inl (hle.trans htoday))⟩
  · exact ⟨hp, .inr (.inr hcross)⟩

theorem wanted_grow (hS : IsHistory S) (hkeep : wanted policy calendar start today S ⊆ T)
    (hTS : T ⊆ S) (hfit : Joins S T a) :
    wanted policy calendar start today (insert a S) ⊆ insert a T := by
  rintro p ⟨rfl | hp, h⟩
  · exact Set.mem_insert ..
  right
  obtain ⟨C, hC, hnew⟩ | htoday | ⟨q, rfl | hq, hcross, hbranch⟩ := h
  · exact hkeep ⟨hp, .inl ⟨C, hC, hnew.mono (Set.subset_insert ..) hp⟩⟩
  · exact hkeep ⟨hp, .inr (.inl htoday)⟩
  · rcases hcross with hpar | hpar
    · -- an old PIT's parent was added before it, so it isn't the new PIT
      obtain ⟨r, hr, hid⟩ := hS.parents p hp _ hpar
      exact absurd hid (hfit.fresh r hr)
    · obtain ⟨r, hr, hid⟩ := hfit.parent _ hpar
      rwa [← hS.unique r (hTS hr) p hp hid]
  · exact hkeep ⟨hp, .inr (.inr ⟨q, hq, hcross, hbranch⟩)⟩

theorem IsHistory.insert (hS : IsHistory S) (hTS : T ⊆ S) (hfit : Joins S T a) :
    IsHistory (insert a S) where
  finite := hS.finite.insert a
  unique := by
    rintro p (rfl | hp) q (rfl | hq) hid
    · rfl
    · exact absurd hid.symm (hfit.fresh q hq)
    · exact absurd hid (hfit.fresh p hp)
    · exact hS.unique p hp q hq hid
  parents := by
    rintro p (rfl | hp) id hpar
    · obtain ⟨q, hq, hid⟩ := hfit.parent id hpar
      exact ⟨q, .inr (hTS hq), hid⟩
    · obtain ⟨q, hq, hid⟩ := hS.parents p hp id hpar
      exact ⟨q, .inr hq, hid⟩

def keepRule (policy : ApplianceRetention) (calendar : Calendar) (start : Int) :
    Rule Int AppliancePit where
  Ok := IsHistory
  keep := wanted policy calendar start
  keep_subset _ _ := wanted_subset
  outcast := wanted_outcast
  antitone := wanted_antitone
  Fits := Joins
  ok_empty := ⟨Set.finite_empty, by simp, by simp⟩
  ok_insert := IsHistory.insert
  grow := wanted_grow

/-! ## The list of held PITs -/

/-- One prune: the PITs without an entry in the keep set go. -/
def prune (policy : ApplianceRetention) (clock : Clock) (pits : List AppliancePit) :
    List AppliancePit :=
  pits.filter fun p => (applianceKeep pits policy clock []).Keeps p.pitUuid

/-- A VM's PITs: all that were ever added, and those still held. -/
structure VmPits where
  added : List AppliancePit
  held : List AppliancePit

/-- A new PIT arrives, on top of a held one or as a full receive; or retention runs. -/
inductive Step (policy : ApplianceRetention) (calendar : Calendar) (start : Int) :
    VmPits → Rule.Act Int AppliancePit → VmPits → Prop where
  | add {s : VmPits} {p : AppliancePit} (fresh : ∀ q ∈ s.added, q.pitUuid ≠ p.pitUuid)
      (parent : ∀ id, p.parent = some id → ∃ q ∈ s.held, q.pitUuid = id) :
      Step policy calendar start s (.add p) ⟨s.added ++ [p], s.held ++ [p]⟩
  | prune {s : VmPits} (nowS : Int) :
      Step policy calendar start s (.prune nowS)
        ⟨s.added, prune policy ⟨calendar, some start, nowS⟩ s.held⟩

variable {pits : List AppliancePit} {id : Uuid} {ls : List (Rule.Act Int AppliancePit)}

theorem byId_eq_some (hu : ∀ p ∈ pits, ∀ q ∈ pits, p.pitUuid = q.pitUuid → p = q) :
    byId pits id = some q ↔ q ∈ pits ∧ q.pitUuid = id := by
  constructor
  · intro h
    have hid : q.pitUuid = id := by simpa using List.find?_some h
    exact ⟨List.mem_reverse.mp (List.mem_of_find?_eq_some h), hid⟩
  · rintro ⟨hq, rfl⟩
    cases h : byId pits q.pitUuid with
    | none =>
      have := List.find?_eq_none.mp h q (List.mem_reverse.mpr hq)
      simp at this
    | some r =>
      have hid : r.pitUuid = q.pitUuid := by simpa using List.find?_some h
      rw [hu r (List.mem_reverse.mp (List.mem_of_find?_eq_some h)) q hq hid]

theorem crossing_keeps (hu : ∀ p ∈ pits, ∀ q ∈ pits, p.pitUuid = q.pitUuid → p = q) :
    (crossing pits p).Keeps id ↔ ∃ q ∈ pits, p.parent = some q.pitUuid ∧ q.branch ≠ p.branch ∧
      (p.pitUuid = id ∨ q.pitUuid = id) := by
  have hpar : ∀ q, p.parent.bind (byId pits) = some q ↔ q ∈ pits ∧ p.parent = some q.pitUuid := by
    intro q
    cases p.parent with
    | none => simp
    | some id => simp [byId_eq_some hu, eq_comm]
  unfold crossing
  cases h : p.parent.bind (byId pits) with
  | none =>
    simp only [Reasons.Keeps, List.not_mem_nil, exists_false, false_iff]
    rintro ⟨q, hq, hp, -⟩
    rw [(hpar q).mpr ⟨hq, hp⟩] at h
    cases h
  | some q =>
    have hq := (hpar q).mp h
    have hone : ∀ r ∈ pits, p.parent = some r.pitUuid → r = q := by
      intro r hr hpr
      have := (hpar r).mpr ⟨hr, hpr⟩
      rw [h] at this
      exact (Option.some.inj this).symm
    constructor
    · intro hk
      simp only at hk
      split at hk
      · rename_i hne
        refine ⟨q, hq.1, hq.2, hne, ?_⟩
        simpa [Reasons.Keeps, exists_or, eq_comm] using hk
      · simp [Reasons.Keeps] at hk
    · rintro ⟨r, hr, hpr, hne, hid⟩
      obtain rfl := hone r hr hpr
      simp only [hne, ne_eq, not_false_eq_true, ↓reduceIte]
      simpa [Reasons.Keeps, exists_or, eq_comm] using hid

theorem keeps_iff_wanted (hu : ∀ p ∈ pits, ∀ q ∈ pits,
    p.pitUuid = q.pitUuid → p = q) (nowS : Int) (hp : p ∈ pits) :
    (applianceKeep pits policy ⟨calendar, some start, nowS⟩ []).Keeps p.pitUuid ↔
      p ∈ wanted policy calendar start (calendar.day nowS) {q | q ∈ pits} := by
  rw [keeps_iff]
  show (∃ q, KeptByClass policy calendar start _ _ q ∧ _) ∨ (∃ q ∈ pits, _ ∧ _) ∨ _ ∨ _ ↔ _
  constructor
  · rintro (⟨q, hq, hid⟩ | ⟨q, hq, htoday, hid⟩ | ⟨q, hq, hk⟩ | ⟨why, hk⟩)
    · obtain ⟨C, hC, hn⟩ := hq
      rw [hu q hn.mem p hp hid] at hn
      exact ⟨hp, .inl ⟨C, hC, hn⟩⟩
    · rw [hu q hq p hp hid] at htoday
      exact ⟨hp, .inr (.inl htoday)⟩
    · obtain ⟨r, hr, hpar, hne, hid | hid⟩ := (crossing_keeps hu).mp hk
      · rw [hu q hq p hp hid] at hpar hne
        exact ⟨hp, .inr (.inr ⟨r, hr, .inl hpar, hne.symm⟩)⟩
      · rw [hu r hr p hp hid] at hpar hne
        exact ⟨hp, .inr (.inr ⟨q, hq, .inr hpar, hne⟩)⟩
    · cases hk
  · rintro ⟨-, hcls | htoday | ⟨q, hq, hpar | hpar, hne⟩⟩
    · exact .inl ⟨p, hcls, rfl⟩
    · exact .inr (.inl ⟨p, hp, htoday, rfl⟩)
    · exact .inr (.inr (.inl ⟨p, hp, (crossing_keeps hu).mpr ⟨q, hq, hpar, hne.symm, .inl rfl⟩⟩))
    · exact .inr (.inr (.inl ⟨q, hq, (crossing_keeps hu).mpr ⟨p, hp, hpar, hne, .inr rfl⟩⟩))

theorem mem_prune (hu : ∀ p ∈ pits, ∀ q ∈ pits, p.pitUuid = q.pitUuid → p = q) (nowS : Int) :
    p ∈ prune policy ⟨calendar, some start, nowS⟩ pits ↔
      p ∈ wanted policy calendar start (calendar.day nowS) {q | q ∈ pits} := by
  unfold prune
  rw [List.mem_filter, decide_eq_true_eq]
  constructor
  · rintro ⟨hp, hk⟩
    exact (keeps_iff_wanted hu nowS hp).mp hk
  · intro h
    exact ⟨h.1, (keeps_iff_wanted hu nowS h.1).mpr h⟩

/-! ## Refinement -/

/-- The rule's store that a VM's PITs stand for. -/
structure Refines (s : VmPits) (t : Rule.Store AppliancePit) : Prop where
  added : t.added = {p | p ∈ s.added}
  held : t.held = {p | p ∈ s.held}
  sub : ∀ p ∈ s.held, p ∈ s.added
  unique : ∀ p ∈ s.added, ∀ q ∈ s.added, p.pitUuid = q.pitUuid → p = q

def onDay (calendar : Calendar) : Rule.Act Int AppliancePit → Rule.Act Int AppliancePit
  | .add p => .add p
  | .prune nowS => .prune (calendar.day nowS)

theorem prunes_onDay (calendar : Calendar) (ls : List (Rule.Act Int AppliancePit)) :
    Rule.prunes (ls.map (onDay calendar)) = (Rule.prunes ls).map calendar.day := by
  induction ls with
  | nil => rfl
  | cons l ls ih => cases l <;> simp [Rule.prunes, onDay, ih]

theorem Refines.step {s s' : VmPits} {t : Rule.Store AppliancePit}
    {l : Rule.Act Int AppliancePit} (hR : Refines s t) (hs : Step policy calendar start s l s') :
    ∃ t', (keepRule policy calendar start).Step t (onDay calendar l) t' ∧ Refines s' t' := by
  obtain ⟨added, held⟩ := t
  obtain ⟨rfl, rfl, hsub, hu⟩ := hR
  cases hs with
  | @add p fresh parent =>
    refine ⟨_, .add ⟨fresh, parent⟩, ?_, ?_, ?_, ?_⟩
    · ext q; simp [or_comm]
    · ext q; simp [or_comm]
    · intro q hq
      simp only [List.mem_append, List.mem_singleton] at hq ⊢
      exact hq.imp_left (hsub q)
    · intro q hq r hr hid
      simp only [List.mem_append, List.mem_singleton] at hq hr
      rcases hq with hq | rfl <;> rcases hr with hr | rfl
      · exact hu q hq r hr hid
      · exact absurd hid (fresh q hq)
      · exact absurd hid.symm (fresh r hr)
      · rfl
  | prune nowS =>
    have hu' : ∀ p ∈ s.held, ∀ q ∈ s.held, p.pitUuid = q.pitUuid → p = q :=
      fun p hp q hq => hu p (hsub p hp) q (hsub q hq)
    refine ⟨_, .prune (calendar.day nowS), rfl, ?_, ?_, hu⟩
    · ext p
      exact (mem_prune hu' nowS).symm
    · intro p hp
      exact hsub p ((mem_prune hu' nowS).mp hp).1

theorem Refines.run {s : VmPits} (h : Run (Step policy calendar start) ⟨[], []⟩ ls s) :
    ∃ t, Run (keepRule policy calendar start).Step ⟨∅, ∅⟩ (ls.map (onDay calendar)) t ∧
      Refines s t :=
  h.simulate (fun _ _ _ _ hR hs => hR.step hs) ⟨by simp, by simp, by simp, by simp⟩

/-- The days of a run's prunes never go back. -/
def DaysForward (calendar : Calendar) (ls : List (Rule.Act Int AppliancePit)) : Prop :=
  (Rule.prunes ls).Pairwise fun s t => calendar.day s ≤ calendar.day t

theorem DaysForward.sorted (h : DaysForward calendar ls) :
    (Rule.prunes (ls.map (onDay calendar))).Pairwise (· ≤ ·) := by
  rw [prunes_onDay, List.pairwise_map]
  exact h

/-- What was pruned stays pruned: its UUID is taken, so it isn't added again. -/
theorem not_held_of_run {s s' : VmPits} (h : Run (Step policy calendar start) s ls s')
    (hp : p ∈ s.added) (hn : p ∉ s.held) : p ∈ s'.added ∧ p ∉ s'.held := by
  refine h.invariant (I := fun s => p ∈ s.added ∧ p ∉ s.held) ?_ ⟨hp, hn⟩
  rintro s l s' ⟨hp, hn⟩ hs
  cases hs with
  | @add q fresh parent =>
    refine ⟨List.mem_append_left _ hp, fun hmem => ?_⟩
    rcases List.mem_append.mp hmem with hmem | hmem
    · exact hn hmem
    · rw [List.mem_singleton] at hmem
      exact fresh p hp (by rw [hmem])
  | prune nowS => exact ⟨hp, fun hmem => hn (List.mem_filter.mp hmem).1⟩

theorem exists_of_keeps {clock : Clock} (hu : ∀ p ∈ pits, ∀ q ∈ pits, p.pitUuid = q.pitUuid → p = q)
    (h : (applianceKeep pits policy clock []).Keeps id) : ∃ p ∈ pits, p.pitUuid = id := by
  rcases keeps_iff.mp h with ⟨p, ⟨C, hC, hp⟩, hid⟩ | ⟨p, hp, -, hid⟩ | ⟨p, hp, hk⟩ | ⟨why, hk⟩
  · exact ⟨p, hp.mem, hid⟩
  · exact ⟨p, hp, hid⟩
  · obtain ⟨q, hq, -, -, hid | hid⟩ := (crossing_keeps hu).mp hk
    · exact ⟨p, hp, hid⟩
    · exact ⟨q, hq, hid⟩
  · cases hk

/-- After any prune, the held PITs are those that one pass over everything ever added keeps, and
what is no longer held is never kept again, however the history goes on. -/
theorem pruned_eq_keep_all (policy : ApplianceRetention) (calendar : Calendar) (start nowS : Int)
    (ls : List (Rule.Act Int AppliancePit)) (s : VmPits)
    (hdays : DaysForward calendar (ls ++ [.prune nowS]))
    (hrun : Run (Step policy calendar start) ⟨[], []⟩ (ls ++ [.prune nowS]) s) :
    (∀ id, (∃ p ∈ s.held, p.pitUuid = id) ↔
      (applianceKeep s.added policy ⟨calendar, some start, nowS⟩ []).Keeps id) ∧
    ∀ p ∈ s.added, p ∉ s.held → ∀ ms nowS' s',
      DaysForward calendar (ls ++ [.prune nowS] ++ ms ++ [.prune nowS']) →
      Run (Step policy calendar start) s ms s' →
      ¬ (applianceKeep s'.added policy ⟨calendar, some start, nowS'⟩ []).Keeps p.pitUuid := by
  constructor
  · intro id
    obtain ⟨t, hr, hR⟩ := Refines.run hrun
    have hsort := hdays.sorted
    rw [List.map_append] at hr hsort
    have hheld := Rule.pruned hsort hr
    rw [hR.held, hR.added] at hheld
    constructor
    · rintro ⟨p, hp, rfl⟩
      exact (keeps_iff_wanted hR.unique nowS (hR.sub p hp)).mpr (hheld.subset hp)
    · intro hk
      obtain ⟨p, hp, rfl⟩ := exists_of_keeps hR.unique hk
      exact ⟨p, hheld.superset ((keeps_iff_wanted hR.unique nowS hp).mp hk), rfl⟩
  · intro p hp hn ms nowS' s' hdays' hms hk
    obtain ⟨hp', hn'⟩ := not_held_of_run hms hp hn
    obtain ⟨t, hr, hR⟩ := Refines.run (hrun.append hms)
    have hsort := hdays'.sorted
    rw [List.map_append] at hsort
    obtain ⟨hsort, hle⟩ := Rule.sorted_snoc hsort
    -- everything the whole history keeps on a later day is still held
    have hkept := (Rule.holds_of_run hsort hr).kept _ hle
    rw [hR.added, hR.held] at hkept
    exact hn' (hkept ((keeps_iff_wanted hR.unique nowS' hp').mp hk))

/-! ## A date that goes back -/

/-- America/St_Johns in 2006: summer time ended at 00:01, which took the date back to 23:01 of the
day before. -/
def stJohns2006 : Calendar := .new ⟨-12600, [(1143948660, -9000), (1162089060, -12600)]⟩ none

/-- Three PITs of 2006-10-28, day 13449. -/
def october28 : List AppliancePit :=
  [⟨1, 1162036800, "a", none⟩, ⟨2, 1162040400, "a", some 1⟩, ⟨3, 1162044000, "a", some 2⟩]

theorem october28_run : Run (Step .default stJohns2006 13449) ⟨[], []⟩
    (october28.map .add) ⟨october28, october28⟩ :=
  .cons (.add (by simp) (by simp)) (.cons (.add (by simp) (by simp))
    (.cons (.add (by simp) (by simp)) (.nil _)))

/-- In the first minute of the next day the second PIT goes, as one pass over all three has it. -/
theorem pruned_eq_keep_all_midnight :
    let held := prune .default ⟨stJohns2006, some 13449, 1162089030⟩ october28
    held.map (·.pitUuid) = [1, 3] ∧ ∀ id, (∃ p ∈ held, p.pitUuid = id) ↔
      (applianceKeep october28 .default ⟨stJohns2006, some 13449, 1162089030⟩ []).Keeps id :=
  ⟨by decide, (pruned_eq_keep_all .default stJohns2006 13449 1162089030 _ _
    (by unfold DaysForward; decide) (october28_run.append (.single (.prune 1162089030)))).1⟩

/-- With a clock that only goes forward: after the prune of the first minute the date goes back,
and October 28's PITs are today's again. -/
theorem not_pruned_eq_keep_all_of_clock :
    ¬ ∀ (policy : ApplianceRetention) (calendar : Calendar) (start nowS : Int)
      (ls : List (Rule.Act Int AppliancePit)) (s : VmPits),
      (Rule.prunes (ls ++ [.prune nowS])).Pairwise (· ≤ ·) →
      Run (Step policy calendar start) ⟨[], []⟩ (ls ++ [.prune nowS]) s →
      ∀ id, (∃ p ∈ s.held, p.pitUuid = id) ↔
        (applianceKeep s.added policy ⟨calendar, some start, nowS⟩ []).Keeps id := by
  intro h
  have hrun := (october28_run.append (.single (.prune 1162089030))).append
    (.single (.prune 1162089090))
  have h2 := h _ _ _ 1162089090 _ _ (by decide) hrun 2
  exact absurd (h2.mpr (by decide)) (by decide)

end Bmac.Backup
