import Mathlib.Data.Prod.Lex
import Mathlib.Data.String.Basic
import Bmac.Base.Checks
import Bmac.Base.Split
import Bmac.Base.Thin
import Bmac.Core.Dict
import Bmac.Core.Text

/-!
# The recovery manifests kept

`keepManifest` writes a new revision of the cluster's recovery manifest and thins what is kept:
the newest 48, and the newest of each day for 90 days. A manifest's file name starts with the time
it was made, which is all that thinning reads.
-/

namespace Bmac.Backupd

open Bmac.Base Bmac.Core

namespace Recovery

structure RecoveryManifest where
  clusterUuid : String
  generatedAtMs : Int
  /-- SHA-256 over `files`, so an unchanged manifest is kept once. -/
  revision : String
  /-- Each file's path and its contents. -/
  files : Dict String
deriving DecidableEq, Repr

/-- The manifests directory of a cluster: the manifest in each file. -/
abbrev Manifests := Dict RecoveryManifest

/-- When a manifest was made, and its file's name. -/
abbrev Listed := Int ×ₗ String

def keepRecent : Nat := 48

def keepDays : Int := 90

def dayMs : Int := 24 * 3600 * 1000

/-- A name the appliance writes under: no separators, no leading dot. -/
def safe (name : String) : Bool :=
  name ≠ "" && !Text.startsWith '.' name &&
    name.toList.all fun c => Text.isAlphanumeric c || c = '-' || c = '_' || c = '.'

/-- `{:013}`. -/
def padded (n : Nat) : List Char := List.replicate (13 - n.repr.length) '0' ++ n.repr.toList

def fileName (manifest : RecoveryManifest) : String :=
  String.ofList (padded manifest.generatedAtMs.toNat ++ '-' :: manifest.revision.toList.take 16 ++
    ".json".toList)

/-- The time a file's name starts with. -/
def madeAt (name : String) : Option Int := do
  let stem ← Text.stripEnd ".json" name
  let first ← (Text.split '-' stem).head?
  Text.parseInt first

def listed (dir : Manifests) : List Listed :=
  (dir.filterMap fun (name, _) => (madeAt name).map fun made => toLex (made, name)).insertionSort
    fun a b => b ≤ a

def newest (dir : Manifests) : Option RecoveryManifest :=
  (listed dir).head?.bind fun item => dir.get? (ofLex item).2

/-- The newest young manifest of each day that is not among `days`. -/
def newestOfDays (now : Int) : List Int → List Listed → List Listed
  | _, [] => []
  | days, item :: all =>
    if now - (ofLex item).1 < keepDays * dayMs ∧ (ofLex item).1 / dayMs ∉ days then
      item :: newestOfDays now ((ofLex item).1 / dayMs :: days) all
    else newestOfDays now days all

def pruneManifests (dir : Manifests) (now : Int) : Manifests :=
  let all := listed dir
  let keep := all.take keepRecent ++ newestOfDays now [] all
  let removed := all.filter (· ∉ keep)
  dir.filter fun (name, _) => name ∉ removed.map fun item => (ofLex item).2

/-- Checks and keeps a pulled manifest; whether it was a new revision. -/
def keepManifest (revisionOf : Dict String → String) (dir : Manifests) (cluster : String)
    (manifest : RecoveryManifest) (now : Int) : Except String (Manifests × Bool) := do
  if manifest.clusterUuid ≠ cluster then
    throw s!"the recovery manifest is for cluster {manifest.clusterUuid}"
  if revisionOf manifest.files ≠ manifest.revision ∨ safe manifest.revision = false then
    throw "the recovery manifest doesn't match its revision"
  if (newest dir).any (·.revision = manifest.revision) then return (dir, false)
  else return (pruneManifests (dir.insert (fileName manifest) manifest) now, true)

section

variable {revisionOf : Dict String → String} {dir dir' : Manifests} {cluster : String}
  {manifest : RecoveryManifest} {now : Int}

theorem keepManifest_eq_ok {fresh : Bool}
    (h : keepManifest revisionOf dir cluster manifest now = .ok (dir', fresh)) :
    (dir' = dir ∧ fresh = false) ∨
      (dir' = pruneManifests (dir.insert (fileName manifest) manifest) now ∧ fresh = true) := by
  rw [keepManifest, check_eq_ok, check_eq_ok] at h
  obtain ⟨-, -, h⟩ := h
  split at h
  · cases h
    exact .inl ⟨rfl, rfl⟩
  · cases h
    exact .inr ⟨rfl, rfl⟩

end

/-! ### The time in a file's name -/

theorem stripEnd_append (ending : String) (cs : List Char) :
    Text.stripEnd ending (String.ofList (cs ++ ending.toList)) = some (String.ofList cs) := by
  unfold Text.stripEnd
  rw [String.toList_ofList, List.reverse_append, isPrefixOf?_eq_some.mpr rfl]
  simp

theorem madeAt_fileName (manifest : RecoveryManifest) :
    madeAt (fileName manifest) = some (manifest.generatedAtMs.toNat : Int) := by
  have hdash : '-' ∉ padded manifest.generatedAtMs.toNat := fun hmem => by
    have hdigit : Text.isDigit '-' = true := Text.isDigit_of_mem_padded hmem
    simp [Text.isDigit] at hdigit
  have hnumber : Text.parseInt (String.ofList (padded manifest.generatedAtMs.toNat)) = _ :=
    Text.parseInt_padded 13 _
  unfold madeAt fileName
  rw [stripEnd_append]
  simp only [Option.bind_eq_bind, Option.bind_some, Text.split, String.toList_ofList]
  rw [List.splitOn_append_cons_self_of_not_mem hdash, List.map_cons, List.head?_cons,
    Option.bind_some, hnumber]

/-! ### What is listed -/

/-- How a manifest is listed once it is kept. -/
def stamp (manifest : RecoveryManifest) : Listed :=
  toLex ((manifest.generatedAtMs.toNat : Int), fileName manifest)

variable {m : RecoveryManifest} {dir : Manifests} {now : Int}

theorem stamp_eq_of_fileName_eq {m' : RecoveryManifest} (h : fileName m = fileName m') :
    stamp m = stamp m' := by
  have hmade : (m.generatedAtMs.toNat : Int) = m'.generatedAtMs.toNat :=
    Option.some.inj (by rw [← madeAt_fileName, ← madeAt_fileName, h])
  rw [stamp, stamp, hmade, h]

theorem fileName_eq_of_stamp_eq {m' : RecoveryManifest} (h : stamp m = stamp m') :
    fileName m = fileName m' :=
  congrArg (fun item => (ofLex item).2) h

/-- A directory of manifests, each in the file named after it. -/
structure Filed (dir : Manifests) : Prop where
  sorted : dir.Sorted
  named : ∀ e ∈ dir, e.1 = fileName e.2

theorem filed_nil : Filed [] := ⟨List.Pairwise.nil, fun _ h => absurd h List.not_mem_nil⟩

theorem Filed.insert {dir : Manifests} (h : Filed dir) (m : RecoveryManifest) :
    Filed (dir.insert (fileName m) m) := by
  refine ⟨h.sorted.insert _ _, fun e he => ?_⟩
  rcases Dict.mem_insert he with rfl | he
  · rfl
  · exact h.named e he

theorem Filed.filter {dir : Manifests} (h : Filed dir) (p : String × RecoveryManifest → Bool) :
    Filed (dir.filter p) :=
  ⟨h.sorted.sublist List.filter_sublist, fun e he => h.named e (List.mem_filter.mp he).1⟩

variable {item : Listed}

theorem mem_listed (h : Filed dir) :
    item ∈ listed dir ↔ ∃ m, (fileName m, m) ∈ dir ∧ stamp m = item := by
  rw [listed, List.mem_insertionSort, List.mem_filterMap]
  constructor
  · rintro ⟨⟨name, m⟩, hmem, hitem⟩
    obtain rfl : name = fileName m := h.named _ hmem
    simp only [madeAt_fileName, Option.map_some, Option.some.injEq] at hitem
    exact ⟨m, hmem, hitem⟩
  · rintro ⟨m, hmem, hitem⟩
    refine ⟨_, hmem, ?_⟩
    simp only [madeAt_fileName, Option.map_some, Option.some.injEq]
    exact hitem

theorem listed_sorted (h : Filed dir) : (listed dir).Pairwise (· > ·) := by
  have hnodup : (listed dir).Nodup := by
    refine (List.perm_insertionSort _ _).nodup_iff.mpr ?_
    refine List.Pairwise.filterMap _ (fun e e' hne item hitem item' hitem' => ?_) h.sorted
    obtain ⟨made, -, rfl⟩ := Option.map_eq_some_iff.mp hitem
    obtain ⟨made', -, rfl⟩ := Option.map_eq_some_iff.mp hitem'
    intro heq
    exact absurd (congrArg (fun item => (ofLex item).2) heq) hne.ne
  have hsorted : (listed dir).Pairwise fun a b => b ≤ a := List.pairwise_insertionSort _ _
  refine (hsorted.and hnodup).imp fun {a b} hab => ?_
  exact lt_of_le_of_ne hab.1 (Ne.symm hab.2)

def items (dir : Manifests) : Set Listed := {item | item ∈ listed dir}

theorem mem_items : item ∈ items dir ↔ item ∈ listed dir := .rfl

theorem items_insert (h : Filed dir) (m : RecoveryManifest) :
    items (dir.insert (fileName m) m) = insert (stamp m) (items dir) := by
  have hnew : (fileName m, m) ∈ dir.insert (fileName m) m :=
    Dict.mem_of_get? (Dict.get?_insert ..)
  ext item
  rw [mem_items, mem_listed (h.insert m), Set.mem_insert_iff, mem_items, mem_listed h]
  constructor
  · rintro ⟨m', hmem, rfl⟩
    rcases Dict.mem_insert hmem with heq | hmem
    · obtain ⟨hname, -⟩ := Prod.mk.inj heq
      exact .inl (stamp_eq_of_fileName_eq hname)
    · exact .inr ⟨m', hmem, rfl⟩
  · rintro (rfl | ⟨m', hmem, rfl⟩)
    · exact ⟨m, hnew, rfl⟩
    · by_cases hname : fileName m' = fileName m
      · exact ⟨m, hnew, (stamp_eq_of_fileName_eq hname).symm⟩
      · refine ⟨m', Dict.mem_of_get? ?_, rfl⟩
        rw [Dict.get?_insert_of_ne _ _ hname, Dict.get?_of_mem h.sorted hmem]

/-! ### Thinning -/

/-- The newest 48, and the newest of each day for 90 days. -/
def thinning : Thinning Int Listed Int where
  recent := keepRecent
  slot item := (ofLex item).1 / dayMs
  young now item := now - (ofLex item).1 < keepDays * dayMs
  young_of_le := by
    intro now a b hle hyoung
    have hmade : (ofLex a).1 ≤ (ofLex b).1 := Prod.Lex.monotone_fst _ _ hle
    rw [decide_eq_true_eq] at hyoung ⊢
    omega
  young_earlier := by
    intro now now' a hle hyoung
    rw [decide_eq_true_eq] at hyoung ⊢
    omega

theorem newestOfDays_eq (now : Int) (days : List Int) (all : List Listed) :
    newestOfDays now days all = thinning.firsts now days all := by
  induction all generalizing days with
  | nil => rfl
  | cons item all ih => simp [newestOfDays, Thinning.firsts, thinning, ih]

theorem mem_pruneManifests (h : Filed dir) :
    (fileName m, m) ∈ pruneManifests dir now ↔
      (fileName m, m) ∈ dir ∧ stamp m ∈ thinning.keep now (items dir) := by
  have hkept : ∀ item, item ∈ (listed dir).take keepRecent ++ newestOfDays now [] (listed dir) ↔
      item ∈ thinning.keep now (items dir) := fun item => by
    rw [newestOfDays_eq]
    exact Thinning.mem_kept (R := thinning) (listed_sorted h)
  rw [pruneManifests, List.mem_filter]
  refine and_congr_right fun hmem => ?_
  simp only [decide_eq_true_eq, List.mem_map, List.mem_filter, not_exists, not_and, hkept]
  constructor
  · intro hnot
    by_contra hlost
    exact hnot (stamp m) ⟨(mem_listed h).mpr ⟨m, hmem, rfl⟩, hlost⟩ rfl
  · rintro hkeep item ⟨hitem, hlost⟩ hname
    obtain ⟨m', -, rfl⟩ := (mem_listed h).mp hitem
    exact hlost (stamp_eq_of_fileName_eq (show fileName m' = fileName m from hname) ▸ hkeep)

theorem Filed.pruneManifests {dir : Manifests} (h : Filed dir) (now : Int) :
    Filed (pruneManifests dir now) :=
  h.filter _

theorem items_pruneManifests (h : Filed dir) (now : Int) :
    items (pruneManifests dir now) = thinning.keep now (items dir) := by
  ext item
  rw [mem_items, mem_listed (h.pruneManifests now)]
  constructor
  · rintro ⟨m, hmem, rfl⟩
    exact ((mem_pruneManifests h).mp hmem).2
  · intro hkeep
    obtain ⟨m, hmem, rfl⟩ := (mem_listed h).mp hkeep.1
    exact ⟨m, (mem_pruneManifests h).mpr ⟨hmem, hkeep⟩, rfl⟩

/-! ### The newest -/

theorem newest_of_max (h : Filed dir) (hmem : (fileName m, m) ∈ dir)
    (hmax : ∀ e ∈ dir, stamp e.2 ≤ stamp m) : newest dir = some m := by
  have hlisted : stamp m ∈ listed dir := (mem_listed h).mpr ⟨m, hmem, rfl⟩
  cases heq : listed dir with
  | nil => rw [heq] at hlisted; exact absurd hlisted List.not_mem_nil
  | cons item rest =>
    have hsorted := listed_sorted h
    rw [heq, List.pairwise_cons] at hsorted
    have hle : item ≤ stamp m := by
      obtain ⟨m', hm', rfl⟩ := (mem_listed h).mp (heq ▸ List.mem_cons_self)
      exact hmax _ hm'
    obtain rfl : stamp m = item := by
      rcases List.mem_cons.mp (heq ▸ hlisted) with hitem | hrest
      · exact hitem
      · exact absurd hle (not_le.mpr (hsorted.1 _ hrest))
    rw [newest, heq, List.head?_cons, Option.bind_some]
    exact Dict.get?_of_mem h.sorted hmem

/-- The newest one stays. -/
theorem mem_keep_of_max {S : Set Listed} (now : Int) (hmem : item ∈ S)
    (hmax : ∀ y ∈ S, y ≤ item) : item ∈ thinning.keep now S := by
  have hnone : {y ∈ S | item < y} = ∅ :=
    Set.eq_empty_of_forall_notMem fun y hy => not_le.mpr hy.2 (hmax y hy.1)
  refine ⟨hmem, .inl ?_⟩
  rw [hnone, Set.ncard_empty]
  decide

/-! ### Calls one after another -/

/-- The manifests of `stored`, in order, each in its file. -/
def allOf (stored : List RecoveryManifest) : Manifests :=
  stored.foldl (fun dir m => dir.insert (fileName m) m) []

theorem allOf_snoc (stored : List RecoveryManifest) (m : RecoveryManifest) :
    allOf (stored ++ [m]) = (allOf stored).insert (fileName m) m := by
  rw [allOf, List.foldl_append]
  rfl

theorem filed_allOf (stored : List RecoveryManifest) : Filed (allOf stored) := by
  induction stored using List.reverseRecOn with
  | nil => exact filed_nil
  | append_singleton stored m ih =>
    rw [allOf_snoc]
    exact ih.insert m

theorem items_allOf (stored : List RecoveryManifest) :
    items (allOf stored) = {item | ∃ m ∈ stored, stamp m = item} := by
  induction stored using List.reverseRecOn with
  | nil =>
    refine Set.eq_of_subset_of_subset (fun item h => absurd h List.not_mem_nil) ?_
    rintro item ⟨m, hm, -⟩
    exact absurd hm List.not_mem_nil
  | append_singleton stored m ih =>
    rw [allOf_snoc, items_insert (filed_allOf _), ih]
    ext item
    simp only [Set.mem_insert_iff, Set.mem_ofPred_eq, List.mem_append, List.mem_singleton]
    constructor
    · rintro (rfl | ⟨m', hm', rfl⟩)
      · exact ⟨m, .inr rfl, rfl⟩
      · exact ⟨m', .inl hm', rfl⟩
    · rintro ⟨m', hm' | rfl, rfl⟩
      · exact .inr ⟨m', hm', rfl⟩
      · exact .inl rfl

theorem mem_of_mem_allOf {stored : List RecoveryManifest} {e : String × RecoveryManifest}
    (h : e ∈ allOf stored) : e.2 ∈ stored := by
  induction stored using List.reverseRecOn with
  | nil => exact absurd h List.not_mem_nil
  | append_singleton stored m ih =>
    rw [allOf_snoc] at h
    rcases Dict.mem_insert h with rfl | h
    · exact List.mem_append_right _ (List.mem_singleton_self _)
    · exact List.mem_append_left _ (ih h)

theorem sorted_ext {d d' : Manifests} (h : d.Sorted) (h' : d'.Sorted)
    (hmem : ∀ e, e ∈ d ↔ e ∈ d') : d = d' := by
  have hnodup : ∀ {d : Manifests}, d.Sorted → d.Nodup := fun h => h.imp fun hlt heq => by
    rw [heq] at hlt
    exact String.lt_irrefl _ hlt
  refine List.Perm.eq_of_pairwise (fun a b _ _ hab hba => ?_) h h'
    ((List.perm_ext_iff_of_nodup (hnodup h) (hnodup h')).mpr hmem)
  exact absurd (String.lt_trans hab hba) (String.lt_irrefl _)

theorem insert_subset {d d' : Manifests} (h : d.Sorted) (h' : d'.Sorted)
    (hsub : ∀ e ∈ d, e ∈ d') (key : String) (m : RecoveryManifest) :
    ∀ e ∈ d.insert key m, e ∈ d'.insert key m := by
  rintro ⟨name, x⟩ he
  have hget := Dict.get?_of_mem (h.insert key m) he
  refine Dict.mem_of_get? ?_
  by_cases hname : name = key
  · subst hname
    rw [Dict.get?_insert] at hget ⊢
    exact hget
  · rw [Dict.get?_insert_of_ne _ _ hname] at hget ⊢
    exact Dict.get?_of_mem h' (hsub _ (Dict.mem_of_get? hget))

/-- Pruning part of a directory leaves what pruning all of it does, if that lists the same. -/
theorem pruneManifests_eq {d all : Manifests} (h : Filed d) (hall : Filed all)
    (hsub : ∀ e ∈ d, e ∈ all)
    (hitems : items (pruneManifests d now) = items (pruneManifests all now)) :
    pruneManifests d now = pruneManifests all now := by
  have hpruned : ∀ e ∈ pruneManifests d now, e ∈ all := fun e he =>
    hsub e (List.mem_filter.mp he).1
  refine sorted_ext (h.pruneManifests now).sorted (hall.pruneManifests now).sorted fun e => ?_
  constructor
  · intro he
    obtain ⟨name, m⟩ := e
    obtain rfl : name = fileName m := (h.pruneManifests now).named _ he
    refine (mem_pruneManifests hall).mpr ⟨hpruned _ he, ?_⟩
    rw [← items_pruneManifests hall, ← hitems]
    exact (mem_listed (h.pruneManifests now)).mpr ⟨m, he, rfl⟩
  · intro he
    obtain ⟨name, m⟩ := e
    obtain rfl : name = fileName m := (hall.pruneManifests now).named _ he
    have hitem : stamp m ∈ items (pruneManifests d now) := by
      rw [hitems]
      exact (mem_listed (hall.pruneManifests now)).mpr ⟨m, he, rfl⟩
    obtain ⟨m', hm', hstamp⟩ := (mem_listed (h.pruneManifests now)).mp hitem
    -- one file of that name, so one manifest
    have hname := fileName_eq_of_stamp_eq hstamp
    have hm := Dict.get?_of_mem hall.sorted (List.mem_filter.mp he).1
    rw [← hname, Dict.get?_of_mem hall.sorted (hpruned _ hm')] at hm
    obtain rfl := Option.some.inj hm
    exact hm'

/-- What is kept, when the last call was, and every manifest stored, in order. -/
structure World where
  kept : Manifests
  clock : Int
  stored : List RecoveryManifest

/-- `keepManifest` is called with a manifest, not before the last call. -/
inductive Pull (revisionOf : Dict String → String) (cluster : String) :
    World → RecoveryManifest × Int → World → Prop where
  | stored {w : World} {m : RecoveryManifest} {now : Int} {dir : Manifests} : w.clock ≤ now →
      keepManifest revisionOf w.kept cluster m now = .ok (dir, true) →
      Pull revisionOf cluster w (m, now) ⟨dir, now, w.stored ++ [m]⟩
  | same {w : World} {m : RecoveryManifest} {now : Int} {dir : Manifests} : w.clock ≤ now →
      keepManifest revisionOf w.kept cluster m now = .ok (dir, false) →
      Pull revisionOf cluster w (m, now) ⟨dir, now, w.stored⟩
  | refused {w : World} {m : RecoveryManifest} {now : Int} {error : String} : w.clock ≤ now →
      keepManifest revisionOf w.kept cluster m now = .error error →
      Pull revisionOf cluster w (m, now) ⟨w.kept, now, w.stored⟩

/-- Everything stored was added to what is listed, and thinned at the times of `acts`. -/
structure Thinned (w : World) (acts : List (Rule.Act Int Listed)) : Prop where
  filed : Filed w.kept
  subset : ∀ e ∈ w.kept, e ∈ allOf w.stored
  order : (Rule.prunes acts).Pairwise (· ≤ ·)
  past : ∀ t ∈ Rule.prunes acts, t ≤ w.clock
  run : Run thinning.rule.Step ⟨∅, ∅⟩ acts ⟨items (allOf w.stored), items w.kept⟩
  last : ∀ l m, w.stored = l ++ [m] → (∀ p ∈ l, stamp p ≤ stamp m) → newest w.kept = some m

theorem thinned_nil (clock : Int) : Thinned ⟨[], clock, []⟩ [] where
  filed := filed_nil
  subset := fun _ h => absurd h List.not_mem_nil
  order := List.Pairwise.nil
  past := fun _ h => absurd h List.not_mem_nil
  run := by
    have hnone : items [] = ∅ := Set.eq_empty_of_forall_notMem fun _ h => List.not_mem_nil h
    show Run thinning.rule.Step ⟨∅, ∅⟩ [] ⟨items [], items []⟩
    rw [hnone]
    exact .nil _
  last := fun l m h => absurd h.symm (by simp)

theorem Thinned.wait {w : World} {acts : List (Rule.Act Int Listed)} (h : Thinned w acts)
    (hnow : w.clock ≤ now) : Thinned ⟨w.kept, now, w.stored⟩ acts :=
  { h with past := fun t ht => (h.past t ht).trans hnow }

section

variable {w : World} {acts : List (Rule.Act Int Listed)} {m : RecoveryManifest} {now : Int}

theorem Thinned.run_snoc (h : Thinned w acts) (m : RecoveryManifest) (now : Int) :
    Run thinning.rule.Step ⟨∅, ∅⟩ (acts ++ [.add (stamp m)] ++ [.prune now])
      ⟨items (allOf (w.stored ++ [m])),
        items (pruneManifests (w.kept.insert (fileName m) m) now)⟩ := by
  refine Run.snoc_iff.mpr ⟨_, Run.snoc_iff.mpr ⟨_, h.run, .add (a := stamp m) trivial⟩, ?_⟩
  rw [allOf_snoc, items_insert (filed_allOf _), items_pruneManifests (h.filed.insert m),
    items_insert h.filed]
  exact .prune now

theorem Thinned.order_snoc (h : Thinned w acts) (m : RecoveryManifest) (hnow : w.clock ≤ now) :
    (Rule.prunes (acts ++ [.add (stamp m)] ++ [.prune now])).Pairwise (· ≤ ·) := by
  rw [Rule.prunes_append, Rule.prunes_append, List.pairwise_append]
  refine ⟨by simpa [Rule.prunes] using h.order, List.pairwise_singleton .., fun t ht t' ht' => ?_⟩
  obtain rfl : t' = now := by simpa [Rule.prunes] using ht'
  exact (h.past t (by simpa [Rule.prunes] using ht)).trans hnow

theorem Thinned.pruned (h : Thinned w acts) (m : RecoveryManifest) (hnow : w.clock ≤ now) :
    pruneManifests (w.kept.insert (fileName m) m) now =
      pruneManifests (allOf (w.stored ++ [m])) now := by
  refine pruneManifests_eq (h.filed.insert m) (filed_allOf _) ?_ ?_
  · rw [allOf_snoc]
    exact insert_subset h.filed.sorted (filed_allOf _).sorted h.subset _ _
  · rw [items_pruneManifests (filed_allOf _)]
    exact Rule.pruned (h.order_snoc m hnow) (h.run_snoc m now)

theorem Thinned.store (h : Thinned w acts) (m : RecoveryManifest) (hnow : w.clock ≤ now) :
    Thinned ⟨pruneManifests (w.kept.insert (fileName m) m) now, now, w.stored ++ [m]⟩
      (acts ++ [.add (stamp m)] ++ [.prune now]) := by
  have hpruned := h.pruned m hnow
  have hfiled : Filed (pruneManifests (w.kept.insert (fileName m) m) now) :=
    (h.filed.insert m).pruneManifests now
  have hsubset : ∀ e ∈ pruneManifests (w.kept.insert (fileName m) m) now,
      e ∈ allOf (w.stored ++ [m]) := fun e he => by
    rw [hpruned] at he
    exact (List.mem_filter.mp he).1
  refine ⟨hfiled, hsubset, h.order_snoc m hnow, fun t ht => ?_, h.run_snoc m now, ?_⟩
  · rw [Rule.prunes_append, Rule.prunes_append] at ht
    rcases List.mem_append.mp ht with ht | ht
    · exact (h.past t (by simpa [Rule.prunes] using ht)).trans hnow
    · exact (show t = now by simpa [Rule.prunes] using ht).le
  · intro l m' hstored hmax
    obtain ⟨rfl, hlast⟩ := List.append_inj' hstored rfl
    obtain rfl := List.singleton_inj.mp hlast
    have hle : ∀ e ∈ allOf (w.stored ++ [m]), stamp e.2 ≤ stamp m := by
      intro e he
      rcases List.mem_append.mp (mem_of_mem_allOf he) with hold | hnew
      · exact hmax _ hold
      · rw [List.mem_singleton.mp hnew]
    have hmem : (fileName m, m) ∈ allOf (w.stored ++ [m]) := by
      rw [allOf_snoc]
      exact Dict.mem_of_get? (Dict.get?_insert ..)
    refine newest_of_max hfiled ?_ fun e he => hle e (hsubset e he)
    rw [hpruned]
    refine (mem_pruneManifests (filed_allOf _)).mpr ⟨hmem, mem_keep_of_max now ?_ ?_⟩
    · exact (mem_listed (filed_allOf _)).mpr ⟨m, hmem, rfl⟩
    · rintro y hy
      obtain ⟨m', hm', rfl⟩ := (mem_listed (filed_allOf _)).mp hy
      exact hle _ hm'

end

variable {revisionOf : Dict String → String} {cluster : String}

theorem Thinned.pull {w w' : World} {acts : List (Rule.Act Int Listed)}
    {call : RecoveryManifest × Int} (h : Thinned w acts) (hpull : Pull revisionOf cluster w call w') :
    ∃ acts, Thinned w' acts := by
  cases hpull with
  | stored hnow hcall =>
    rcases keepManifest_eq_ok hcall with ⟨-, hfresh⟩ | ⟨rfl, -⟩
    · cases hfresh
    · exact ⟨_, h.store _ hnow⟩
  | same hnow hcall =>
    rcases keepManifest_eq_ok hcall with ⟨rfl, -⟩ | ⟨-, hfresh⟩
    · exact ⟨_, h.wait hnow⟩
    · cases hfresh
  | refused hnow hcall => exact ⟨_, h.wait hnow⟩

theorem thinned_of_run {clock : Int} {ls : List (RecoveryManifest × Int)} {w : World}
    (h : Run (Pull revisionOf cluster) ⟨[], clock, []⟩ ls w) : ∃ acts, Thinned w acts :=
  h.invariant (I := fun w => ∃ acts, Thinned w acts) (fun _ _ _ ⟨_, hw⟩ hpull => hw.pull hpull)
    ⟨_, thinned_nil clock⟩

/-- However often what is kept was thinned, a call that stores a manifest leaves what thinning
everything ever stored would: the newest 48, and the newest of each day for 90 days. And the
newest is the one stored last, if none stored before it comes later by its time and name. -/
theorem manifests_thin {clock : Int} {ls : List (RecoveryManifest × Int)} {w : World}
    (h : Run (Pull revisionOf cluster) ⟨[], clock, []⟩ ls w) :
    (∀ m now dir, w.clock ≤ now →
      keepManifest revisionOf w.kept cluster m now = .ok (dir, true) →
      dir = pruneManifests (allOf (w.stored ++ [m])) now ∧
      ∀ x, (fileName x, x) ∈ dir ↔ (fileName x, x) ∈ allOf (w.stored ++ [m]) ∧
        ({y ∈ items (allOf (w.stored ++ [m])) | stamp x < y}.ncard < keepRecent ∨
          now - x.generatedAtMs.toNat < keepDays * dayMs ∧
          ∀ y ∈ items (allOf (w.stored ++ [m])),
            (ofLex y).1 / dayMs = x.generatedAtMs.toNat / dayMs → y ≤ stamp x)) ∧
    ∀ l m, w.stored = l ++ [m] → (∀ p ∈ l, stamp p ≤ stamp m) → newest w.kept = some m := by
  obtain ⟨acts, hw⟩ := thinned_of_run h
  refine ⟨fun m now dir hnow hcall => ?_, hw.last⟩
  rcases keepManifest_eq_ok hcall with ⟨-, hfresh⟩ | ⟨rfl, -⟩
  · cases hfresh
  · rw [hw.pruned m hnow]
    refine ⟨rfl, fun x => ?_⟩
    rw [mem_pruneManifests (filed_allOf _)]
    refine and_congr_right fun hmem => ?_
    have hlisted : stamp x ∈ items (allOf (w.stored ++ [m])) :=
      (mem_listed (filed_allOf _)).mpr ⟨x, hmem, rfl⟩
    constructor
    · rintro ⟨-, hrecent | ⟨hyoung, hnewest⟩⟩
      · exact .inl hrecent
      · exact .inr ⟨of_decide_eq_true hyoung, hnewest⟩
    · rintro (hrecent | ⟨hyoung, hnewest⟩)
      · exact ⟨hlisted, .inl hrecent⟩
      · exact ⟨hlisted, .inr ⟨decide_eq_true hyoung, hnewest⟩⟩

/-! ### A manifest every ten minutes -/

theorem keepManifest_fresh {revisionOf : Dict String → String} {cluster : String}
    {manifest : RecoveryManifest} (hcluster : manifest.clusterUuid = cluster)
    (hrevision : revisionOf manifest.files = manifest.revision) (hsafe : safe manifest.revision = true)
    (hnew : ∀ m, newest dir = some m → m.revision ≠ manifest.revision) :
    keepManifest revisionOf dir cluster manifest now =
      .ok (pruneManifests (dir.insert (fileName manifest) manifest) now, true) := by
  have hany : (newest dir).any (·.revision = manifest.revision) = false := by
    cases hnewest : newest dir with
    | none => rfl
    | some m => simpa using hnew m hnewest
  rw [keepManifest, check_eq_ok, check_eq_ok]
  refine ⟨not_not.mpr hcluster, ?_, ?_⟩
  · simp [hrevision, hsafe]
  · rw [hany]
    rfl

/-- SHA-256 over the files of these runs. -/
def clusterRevision (files : Dict String) : String :=
  if files = [("config/cluster.json", "a")] then
    "b05c181333b36d9139fa46f1a757857cefebce3d2df6b9da44a449ddf8718506"
  else "1a33949c456875d54ae1a2226a798618d806d5b84999062eb8547bf2736c96f6"

def made (text : String) (generatedAtMs : Int) : RecoveryManifest where
  clusterUuid := "c1"
  generatedAtMs := generatedAtMs
  revision := clusterRevision [("config/cluster.json", text)]
  files := [("config/cluster.json", text)]

/-- The cluster's file changes every ten minutes of a day, to and fro. -/
def tenth (i : Nat) : RecoveryManifest :=
  made (if i % 2 = 0 then "a" else "b") (1759968000000 + 600000 * i)

/-- It is pulled a minute later. -/
def tenthPull (i : Nat) : RecoveryManifest × Int := (tenth i, 1759968060000 + 600000 * i)

theorem strictMono_stamp_tenth : StrictMono fun i => stamp (tenth i) := by
  intro i j h
  refine Prod.Lex.toLex_lt_toLex.mpr (.inl ?_)
  simp only [tenth, made]
  omega

theorem revision_tenth_ne (i : Nat) : (tenth i).revision ≠ (tenth (i + 1)).revision := by
  have hne : clusterRevision [("config/cluster.json", "a")] ≠ clusterRevision [("config/cluster.json", "b")] := by
    decide
  rcases Nat.mod_two_eq_zero_or_one i with h | h
  · have h' : ¬ (i + 1) % 2 = 0 := by omega
    simpa only [tenth, made, if_pos h, if_neg h'] using hne
  · have h' : (i + 1) % 2 = 0 := by omega
    simpa only [tenth, made, if_neg (show ¬ i % 2 = 0 by omega), if_pos h'] using hne.symm

theorem safe_tenth (i : Nat) : safe (tenth i).revision = true := by
  have hsafe : safe (clusterRevision [("config/cluster.json", "a")]) = true ∧
      safe (clusterRevision [("config/cluster.json", "b")]) = true := by decide
  rcases Nat.mod_two_eq_zero_or_one i with h | h
  · simpa only [tenth, made, if_pos h] using hsafe.1
  · simpa only [tenth, made, if_neg (show ¬ i % 2 = 0 by omega)] using hsafe.2

theorem range_tenths (n : Nat) : (List.range (n + 1)).map tenth = (List.range n).map tenth ++ [tenth n] := by
  rw [List.range_succ, List.map_append, List.map_singleton]

theorem run_tenths (n : Nat) : ∃ w, Run (Pull clusterRevision "c1") ⟨[], 0, []⟩
    ((List.range n).map tenthPull) w ∧ w.stored = (List.range n).map tenth ∧
    w.clock ≤ (tenthPull n).2 ∧ ∃ dir, keepManifest clusterRevision w.kept "c1" (tenth n) (tenthPull n).2 =
      .ok (dir, true) := by
  induction n with
  | zero =>
    refine ⟨_, .nil _, rfl, by decide, _, keepManifest_fresh rfl rfl (safe_tenth 0) ?_⟩
    intro m hm
    cases hm
  | succ n ih =>
    obtain ⟨w, hrun, hstored, hclock, dir, hkeep⟩ := ih
    have hrun' : Run (Pull clusterRevision "c1") ⟨[], 0, []⟩ ((List.range (n + 1)).map tenthPull)
        ⟨dir, (tenthPull n).2, w.stored ++ [tenth n]⟩ := by
      rw [List.range_succ, List.map_append]
      exact hrun.append (.single (.stored hclock hkeep))
    obtain ⟨acts, hthinned⟩ := thinned_of_run hrun'
    have hnewest : newest dir = some (tenth n) := by
      refine hthinned.last w.stored (tenth n) rfl fun p hp => ?_
      rw [hstored] at hp
      obtain ⟨i, hi, rfl⟩ := List.mem_map.mp hp
      exact strictMono_stamp_tenth.monotone (List.mem_range.mp hi).le
    refine ⟨_, hrun', by rw [hstored, range_tenths], ?_, _,
      keepManifest_fresh rfl rfl (safe_tenth (n + 1)) fun m hm => ?_⟩
    · simp only [tenthPull]
      omega
    · rw [hnewest] at hm
      cases hm
      exact revision_tenth_ne n

theorem ncard_later_tenths (i n : Nat) :
    {y ∈ items (allOf ((List.range (n + 1)).map tenth)) | stamp (tenth i) < y}.ncard = n - i := by
  have hlater : {y ∈ items (allOf ((List.range (n + 1)).map tenth)) | stamp (tenth i) < y} =
      (fun j => stamp (tenth j)) '' (Finset.Ioc i n : Set Nat) := by
    ext y
    simp only [items_allOf, Set.mem_ofPred_eq, List.mem_map, List.mem_range, Set.mem_image, Finset.mem_coe,
      Finset.mem_Ioc]
    constructor
    · rintro ⟨⟨_, ⟨j, hj, rfl⟩, rfl⟩, hlt⟩
      exact ⟨j, ⟨strictMono_stamp_tenth.lt_iff_lt.mp hlt, by omega⟩, rfl⟩
    · rintro ⟨j, ⟨hij, hjn⟩, rfl⟩
      exact ⟨⟨_, ⟨j, by omega, rfl⟩, rfl⟩, strictMono_stamp_tenth hij⟩
  rw [hlater, Set.ncard_image_of_injective _ strictMono_stamp_tenth.injective, Set.ncard_coe_finset,
    Nat.card_Ioc]

theorem mem_tenths {i n : Nat} (h : i < n) :
    (fileName (tenth i), tenth i) ∈ allOf ((List.range n).map tenth) := by
  induction n with
  | zero => omega
  | succ n ih =>
    rw [range_tenths, allOf_snoc]
    refine Dict.mem_of_get? ?_
    rcases Nat.lt_succ_iff_lt_or_eq.mp h with hlt | rfl
    · have hname : fileName (tenth i) ≠ fileName (tenth n) := fun heq =>
        absurd (stamp_eq_of_fileName_eq heq) (strictMono_stamp_tenth hlt).ne
      rw [Dict.get?_insert_of_ne _ _ hname]
      exact Dict.get?_of_mem (filed_allOf _).sorted (ih hlt)
    · exact Dict.get?_insert ..

/-- The forty-ninth manifest of a day drops its first, and the one before it was the newest till then. -/
theorem manifests_thin_day : ∃ w dir, Run (Pull clusterRevision "c1") ⟨[], 0, []⟩
      ((List.range 48).map tenthPull) w ∧
    keepManifest clusterRevision w.kept "c1" (tenth 48) (tenthPull 48).2 = .ok (dir, true) ∧
    dir = pruneManifests (allOf ((List.range 49).map tenth)) (tenthPull 48).2 ∧
    (fileName (tenth 0), tenth 0) ∉ dir ∧ (fileName (tenth 1), tenth 1) ∈ dir ∧
    newest w.kept = some (tenth 47) := by
  obtain ⟨w, hrun, hstored, hclock, dir, hkeep⟩ := run_tenths 48
  have hthin := manifests_thin hrun
  obtain ⟨hdir, hmem⟩ := hthin.1 _ _ _ hclock hkeep
  rw [hstored, ← range_tenths] at hdir hmem
  refine ⟨w, dir, hrun, hkeep, hdir, fun hkept => ?_, (hmem _).mpr ⟨mem_tenths (by decide), .inl ?_⟩, ?_⟩
  · obtain ⟨-, hrecent | ⟨-, hnewest⟩⟩ := (hmem _).mp hkept
    · rw [ncard_later_tenths] at hrecent
      exact absurd hrecent (by decide)
    · -- the next is of the same day
      have hnext : stamp (tenth 1) ∈ items (allOf ((List.range 49).map tenth)) :=
        (mem_listed (filed_allOf _)).mpr ⟨tenth 1, mem_tenths (by decide), rfl⟩
      exact absurd (hnewest _ hnext (by decide)) (strictMono_stamp_tenth (by decide)).not_ge
  · rw [ncard_later_tenths]
    decide
  · refine hthin.2 ((List.range 47).map tenth) (tenth 47) (hstored.trans (range_tenths 47)) fun p hp => ?_
    obtain ⟨i, hi, rfl⟩ := List.mem_map.mp hp
    exact strictMono_stamp_tenth.monotone (List.mem_range.mp hi).le

/-! ### Two manifests of one time -/

def first : RecoveryManifest := made "a" 5

def second : RecoveryManifest := made "b" 5

theorem keepManifest_first : keepManifest clusterRevision [] "c1" first 6 =
    .ok ([("0000000000005-b05c181333b36d91.json", first)], true) := by
  decide +kernel

theorem keepManifest_second :
    keepManifest clusterRevision [("0000000000005-b05c181333b36d91.json", first)] "c1" second 7 =
      .ok ([("0000000000005-1a33949c456875d5.json", second),
        ("0000000000005-b05c181333b36d91.json", first)], true) := by
  decide +kernel

/-- A manifest with the time of the newest and a smaller revision isn't the newest. -/
theorem not_newest : ¬ ∀ (revisionOf : Dict String → String) (cluster : String) (clock : Int)
    (ls : List (RecoveryManifest × Int)) (w : World) (l : List RecoveryManifest) (m : RecoveryManifest),
    Run (Pull revisionOf cluster) ⟨[], clock, []⟩ ls w → w.stored = l ++ [m] →
    w.stored.Pairwise (fun p q => p.generatedAtMs ≤ q.generatedAtMs ∧
      p.revision.toList.take 16 ≠ q.revision.toList.take 16) → newest w.kept = some m := by
  intro hall
  have hnewest := hall _ _ 0 _ _ [first] second
    (.cons (.stored (by decide) keepManifest_first)
      (.cons (.stored (by decide) keepManifest_second) (.nil _))) rfl (by decide)
  exact absurd hnewest (by decide +kernel)

end Recovery

end Bmac.Backupd
