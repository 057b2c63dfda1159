import Bmac.Base.Forest
import Bmac.Core.Dict
import Bmac.Backupd.Journal
import Bmac.Backupd.Settings

/-!
# Pruning the journal

`bmac-backupd/src/retention.rs`, `prune` from the plan on and `destroy_pit`: each PIT that the plan
names is destroyed in the pool and unpublished, its children go to its parent, and zvols and
quarantined receives that nothing uses any more go too. `prune_reparents` says what the remaining
PITs' parents are.
-/

namespace Bmac.Backupd

open Bmac.Base Bmac.Core

/-- The appliance's ZFS operations, on a pool in state `σ`. -/
structure Pool (σ : Type) where
  guids : List String → σ → Except String (Dict SnapshotGuid) × σ
  snapshots : String → σ → Except String (List (String × SnapshotGuid)) × σ
  hold : String → String → σ → Except String Unit × σ
  release : String → String → σ → Except String Unit × σ
  destroy : String → σ → Except String Unit × σ
  destroyTree : String → σ → Except String Unit × σ

def retainTag : String := "bmac-retain"

/-- Why a PIT was not destroyed: it stays published after `untouched`, and can't be restored any
more after `partly`. -/
inductive Failed where
  | untouched (e : String)
  | partly (e : String)

def Settings.release (s : Settings) (cluster : String) (pit : Uuid) : Settings :=
  { s with holds := s.holds.filter fun h => ¬ (h.clusterUuid = cluster ∧ h.pitUuid = pit) }

section

variable {σ : Type} (pool : Pool σ)

/-- The snapshots of `pit` that exist, if each has the GUID the journal recorded. -/
def present (pit : StoredPit) (live : Dict SnapshotGuid) :
    List StoredVolume → Except Failed (List String)
  | [] => .ok []
  | volume :: rest =>
    match live.get? (pit.snapshot volume) with
    | none => present pit live rest
    | some guid =>
      if guid = volume.guid then (present pit live rest).map (pit.snapshot volume :: ·)
      else .error (.untouched s!"{pit.snapshot volume} isn't the snapshot the journal recorded")

/-- Destroys the snapshots in turn; a failure puts back the hold it released. `whole` is whether
none was gone before. -/
def destroyAll (whole : Bool) (destroyed : Nat) : List String → σ → Except Failed Unit × σ
  | [], s => (.ok (), s)
  | name :: rest, s =>
    let (result, s) :=
      match pool.release retainTag name s with
      | (.ok (), s) => pool.destroy name s
      | (.error e, s) => (.error e, s)
    match result with
    | .ok () => destroyAll whole (destroyed + 1) rest s
    | .error e =>
      let (_, s) := pool.hold retainTag name s
      (.error (if destroyed = 0 ∧ whole then .untouched e else .partly e), s)

/-- Destroys a PIT's snapshots once each still has the GUID the journal recorded; a snapshot already
gone is fine. -/
def destroyPit (pit : StoredPit) (s : σ) : Except Failed Unit × σ :=
  let names := pit.volumes.map pit.snapshot
  match pool.guids names s with
  | (.error e, s) => (.error (.untouched e), s)
  | (.ok live, s) =>
    match present pit live pit.volumes with
    | .error e => (.error e, s)
    | .ok existing => destroyAll pool (existing.length = names.length) 0 existing s

end

structure Doomed where
  clusterUuid : String
  pitUuid : Uuid

structure Plan where
  prune : List Doomed
  quarantine : List Uuid

/-- What a prune did. -/
structure PruneReport where
  pruned : List Uuid
  /-- PITs the plan named that stay, and why. -/
  skipped : List (Uuid × String)
  zvols : List String
  quarantine : List Uuid

/-- A prune under way: `freed` holds the datasets of the PITs that are gone. -/
structure Pruning (σ : Type) where
  journal : Journal
  settings : Settings
  freed : Dict Unit
  report : PruneReport
  pool : σ

namespace StoredPit

def key (pit : StoredPit) : String × Uuid := (pit.clusterUuid, pit.pitUuid)

/-- The parent's key: parents are PITs of the same cluster. -/
def parentKey (pit : StoredPit) : Option (String × Uuid) := pit.parent.map (pit.clusterUuid, ·)

end StoredPit

/-- Takes `doomed` out of the published PITs. Its children descend from its parent. -/
def Journal.unpublish (journal : Journal) (doomed : Doomed) (parent : Option Uuid) : Journal :=
  { journal with
    pits :=
      (journal.pits.filter fun p =>
        ¬ (p.clusterUuid = doomed.clusterUuid ∧ p.pitUuid = doomed.pitUuid)).map fun p =>
          if p.clusterUuid = doomed.clusterUuid ∧ p.parent = some doomed.pitUuid then
            { p with parent := parent }
          else p }

namespace Pruning

variable {σ : Type} (pool : Pool σ)

def skip (p : Pruning σ) (doomed : Doomed) (e : String) : Pruning σ :=
  { p with report := { p.report with skipped := p.report.skipped ++ [(doomed.pitUuid, e)] } }

def remove (p : Pruning σ) (doomed : Doomed) (stored : StoredPit) : Pruning σ :=
  { p with
    journal := p.journal.unpublish doomed stored.parent
    settings := p.settings.release doomed.clusterUuid doomed.pitUuid
    freed := stored.volumes.foldl (fun freed v => freed.insert v.dataset ()) p.freed
    report := { p.report with pruned := p.report.pruned ++ [doomed.pitUuid] } }

def pruneOne (p : Pruning σ) (doomed : Doomed) : Pruning σ :=
  match p.journal.pit doomed.clusterUuid doomed.pitUuid with
  | none => p
  | some stored =>
    match destroyPit pool stored p.pool with
    | (.ok (), s) => { p with pool := s }.remove doomed stored
    | (.error (.untouched e), s) => { p with pool := s }.skip doomed e
    | (.error (.partly e), s) => ({ p with pool := s }.skip doomed e).remove doomed stored

/-- A zvol that no PIT and no receive uses any more, if it has no snapshots left. -/
def dropZvol (p : Pruning σ) (dataset : String) : Pruning σ :=
  match pool.snapshots dataset p.pool with
  | (.ok [], s) =>
    match pool.destroy dataset s with
    | (.ok (), s) =>
      { p with pool := s, report := { p.report with zvols := p.report.zvols ++ [dataset] } }
    | (.error _, s) => { p with pool := s }
  | (_, s) => { p with pool := s }

/-- Destroys the datasets a quarantined receive left; whether all are gone. -/
def destroyTrees : List String → σ → Bool × σ
  | [], s => (true, s)
  | dataset :: rest, s =>
    let (result, s) := pool.destroyTree dataset s
    let (gone, s) := destroyTrees rest s
    (result.isOk && gone, s)

def dropQuarantined (used : List String) (p : Pruning σ) (id : Uuid) : Pruning σ :=
  match p.journal.quarantined.find? (·.pitUuid = id) with
  | none => p
  | some q =>
    let (gone, s) := destroyTrees pool (q.datasets.filter (· ∉ used)) p.pool
    if gone then
      { p with
        pool := s
        journal :=
          { p.journal with quarantined := p.journal.quarantined.eraseP (·.pitUuid = id) }
        report := { p.report with quarantine := p.report.quarantine ++ [id] } }
    else { p with pool := s }

end Pruning

/-- Carries out the plan: the journal and settings to be saved, the report and the pool. -/
def prune {σ : Type} (pool : Pool σ) (journal : Journal) (settings : Settings) (plan : Plan)
    (s : σ) : Pruning σ :=
  let p : Pruning σ := ⟨journal, settings, [], ⟨[], [], [], []⟩, s⟩
  let p := plan.prune.foldl (Pruning.pruneOne pool) p
  let used := p.journal.datasets
  let p := ((p.freed.map Prod.fst).filter (· ∉ used)).foldl (Pruning.dropZvol pool) p
  let p := plan.quarantine.foldl (Pruning.dropQuarantined pool used) p
  if p.report.pruned = [] then p
  else { p with journal := { p.journal with revision := p.journal.revision + 1 } }

/-! ## What a prune does to the published PITs -/

def Journal.link (journal : Journal) (k : String × Uuid) : Option (Option (String × Uuid)) :=
  (journal.pit k.1 k.2).map StoredPit.parentKey

def Journal.keys (journal : Journal) : List (String × Uuid) := journal.pits.map StoredPit.key

theorem StoredPit.key_eq {p : StoredPit} {cluster : String} {id : Uuid} :
    p.key = (cluster, id) ↔ p.clusterUuid = cluster ∧ p.pitUuid = id := Prod.mk_inj

section

variable {σ : Type} (pool : Pool σ)

theorem pruneOne_cases (p : Pruning σ) (doomed : Doomed) :
    (p.pruneOne pool doomed).journal = p.journal ∨
    ∃ stored, p.journal.pit doomed.clusterUuid doomed.pitUuid = some stored ∧
      (p.pruneOne pool doomed).journal = p.journal.unpublish doomed stored.parent := by
  unfold Pruning.pruneOne
  cases hstored : p.journal.pit doomed.clusterUuid doomed.pitUuid with
  | none => exact .inl rfl
  | some stored =>
    dsimp only
    split
    · exact .inr ⟨stored, rfl, rfl⟩
    · exact .inl rfl
    · exact .inr ⟨stored, rfl, rfl⟩

theorem dropZvol_pits (p : Pruning σ) (dataset : String) :
    (p.dropZvol pool dataset).journal = p.journal := by
  unfold Pruning.dropZvol
  split
  · split <;> rfl
  · rfl

theorem dropQuarantined_pits (used : List String) (p : Pruning σ) (id : Uuid) :
    (p.dropQuarantined pool used id).journal.pits = p.journal.pits := by
  unfold Pruning.dropQuarantined
  split
  · rfl
  · dsimp only
    split <;> rfl

theorem prune_pits (journal : Journal) (settings : Settings) (plan : Plan) (s : σ) :
    (prune pool journal settings plan s).journal.pits =
      (plan.prune.foldl (Pruning.pruneOne pool)
        ⟨journal, settings, [], ⟨[], [], [], []⟩, s⟩).journal.pits := by
  unfold prune
  dsimp only
  set p := plan.prune.foldl (Pruning.pruneOne pool) ⟨journal, settings, [], ⟨[], [], [], []⟩, s⟩
  have hzvols : ∀ (datasets : List String) (p : Pruning σ),
      (datasets.foldl (Pruning.dropZvol pool) p).journal.pits = p.journal.pits := by
    intro datasets
    induction datasets with
    | nil => exact fun p => rfl
    | cons d ds ih => exact fun p => (ih _).trans (congrArg Journal.pits (dropZvol_pits pool p d))
  have hquarantine : ∀ (used : List String) (ids : List Uuid) (p : Pruning σ),
      (ids.foldl (Pruning.dropQuarantined pool used) p).journal.pits = p.journal.pits := by
    intro used ids
    induction ids with
    | nil => exact fun p => rfl
    | cons id ids ih => exact fun p => (ih _).trans (dropQuarantined_pits pool used p id)
  split
  · rw [hquarantine, hzvols]
  · dsimp only
    rw [hquarantine, hzvols]

end

/-- `p` is `q` after a prune: the same but for the parent, which is the nearest kept one. -/
structure Rehomed (journal : Journal) (kept : String × Uuid → Prop) (q p : StoredPit) : Prop where
  same : p = { q with parent := p.parent }
  nearest : Forest.Nearest journal.link kept q.parentKey p.parentKey

variable {gone : List (String × Uuid)}

section

variable {journal : Journal} {kept kept' : String × Uuid → Prop} {q p : StoredPit}

theorem Rehomed.key (h : Rehomed journal kept q p) : p.key = q.key := by
  rw [h.same]
  rfl

theorem Rehomed.cluster (h : Rehomed journal kept q p) : p.clusterUuid = q.clusterUuid := by
  rw [h.same]

theorem Rehomed.refl (hall : ∀ k, kept k) (q : StoredPit) : Rehomed journal kept q q :=
  ⟨rfl, .refl hall _⟩

theorem Rehomed.congr (h : Rehomed journal kept q p)
    (hiff : ∀ k, journal.link k ≠ none → (kept k ↔ kept' k)) : Rehomed journal kept' q p :=
  ⟨h.same, h.nearest.congr hiff⟩

variable {k : String × Uuid}

/-- What `unpublish` does to one of the PITs that stay. -/
theorem Rehomed.unpublish {first stored : StoredPit} (hacyclic : Forest.Acyclic journal.link)
    (h : Rehomed journal kept q p) (hlink : journal.link k = some first.parentKey)
    (hfirst : Rehomed journal kept first stored) (hkey : stored.key = k) :
    Rehomed journal (fun x => kept x ∧ x ≠ k) q
      (if p.clusterUuid = k.1 ∧ p.parent = some k.2 then { p with parent := stored.parent } else p) := by
  split
  · rename_i hchild
    have hparent : p.parentKey = some k := by
      rw [StoredPit.parentKey, hchild.1, hchild.2]
      rfl
    have hstored : StoredPit.parentKey { p with parent := stored.parent } = stored.parentKey := by
      rw [← hkey] at hchild
      rw [StoredPit.parentKey, StoredPit.parentKey]
      dsimp only
      rw [hchild.1]
      rfl
    refine ⟨by rw [h.same], ?_⟩
    rw [hstored]
    exact (hparent ▸ h.nearest).splice hacyclic hlink hfirst.nearest
  · rename_i hchild
    refine ⟨h.same, h.nearest.shrink fun hparent => hchild ?_⟩
    obtain ⟨parent, hp, rfl⟩ := Option.map_eq_some_iff.mp hparent
    exact ⟨rfl, hp⟩

theorem Rehomed.unique {p' : StoredPit} (h : Rehomed journal kept q p)
    (h' : Rehomed journal kept q p') : p = p' := by
  have hparent : p.parentKey = p'.parentKey := h.nearest.unique h'.nearest
  rw [StoredPit.parentKey, StoredPit.parentKey, h.cluster, h'.cluster] at hparent
  have hinj : Function.Injective fun u : Uuid => (q.clusterUuid, u) :=
    fun _ _ heq => (Prod.mk.inj heq).2
  rw [h.same, h'.same, Option.map_injective hinj hparent]

theorem find?_forall₂ {α β : Type} {R : α → β → Prop} {f : α → Bool} {g : β → Bool} {as : List α}
    {bs : List β} (h : List.Forall₂ R as bs) (hfg : ∀ a b, R a b → f a = g b) {b : β}
    (hb : bs.find? g = some b) : ∃ a, as.find? f = some a ∧ R a b := by
  induction h with
  | nil => cases hb
  | @cons a b' as bs hR _ ih =>
    rw [List.find?_cons] at hb ⊢
    rw [hfg a b' hR]
    split at hb
    · cases hb
      exact ⟨a, by simp [*], hR⟩
    · obtain ⟨a', ha', hR'⟩ := ih hb
      exact ⟨a', by simp [*], hR'⟩

/-- The published PITs after the PITs `gone` were taken out. -/
def Remain (journal : Journal) (gone : List (String × Uuid)) (pits : List StoredPit) : Prop :=
  List.Forall₂ (Rehomed journal (· ∉ gone)) (journal.pits.filter (·.key ∉ gone)) pits

theorem remain_nil (journal : Journal) : Remain journal [] journal.pits := by
  unfold Remain
  rw [List.filter_eq_self.mpr fun p _ => by simp]
  exact List.forall₂_same.mpr fun q _ => .refl (by simp) q

theorem Remain.unpublish {gone : List (String × Uuid)} {current : Journal} {doomed : Doomed}
    {stored : StoredPit} (hacyclic : Forest.Acyclic journal.link)
    (h : Remain journal gone current.pits)
    (hstored : current.pit doomed.clusterUuid doomed.pitUuid = some stored) :
    Remain journal ((doomed.clusterUuid, doomed.pitUuid) :: gone)
      (current.unpublish doomed stored.parent).pits := by
  set k := (doomed.clusterUuid, doomed.pitUuid)
  have hkey : stored.key = k := StoredPit.key_eq.mpr (Journal.pit_eq_some hstored).2
  -- The entry that is taken out was the first of its key from the start.
  obtain ⟨first, hfind, hfirst⟩ : ∃ first,
      (journal.pits.filter (·.key ∉ gone)).find?
        (fun q => q.clusterUuid = k.1 ∧ q.pitUuid = k.2) = some first ∧
      Rehomed journal (· ∉ gone) first stored := by
    refine find?_forall₂ h (fun q p hR => ?_) hstored
    rw [hR.same]
  have hkept : k ∉ gone := by
    have hmem := (List.mem_filter.mp (List.mem_of_find?_eq_some hfind)).2
    rw [← hkey, hfirst.key]
    simpa using hmem
  have hlink : journal.link k = some first.parentKey := by
    rw [List.find?_filter] at hfind
    have hpit : journal.pit k.1 k.2 = some first := by
      rw [← hfind]
      refine List.find?_congr fun q _ => ?_
      by_cases hq : q.clusterUuid = k.1 ∧ q.pitUuid = k.2
      · have hqk : q.key = k := StoredPit.key_eq.mpr hq
        simp [hq, hqk, hkept]
      · simp [hq]
    rw [Journal.link, hpit, Option.map_some]
  have hfilter : journal.pits.filter (·.key ∉ k :: gone) =
      (journal.pits.filter (·.key ∉ gone)).filter (·.key ≠ k) := by
    rw [List.filter_filter]
    refine List.filter_congr fun q _ => ?_
    simp [List.mem_cons, not_or]
  unfold Remain Journal.unpublish
  rw [hfilter, List.forall₂_map_right_iff]
  refine (List.rel_filter (fun q p hR => ?_) h).imp fun q p hR => ?_
  · have hiff : q.key = k ↔ p.clusterUuid = doomed.clusterUuid ∧ p.pitUuid = doomed.pitUuid := by
      rw [← hR.key]
      exact StoredPit.key_eq
    simp only [decide_eq_true_iff, ne_eq, hiff]
  · refine (hR.unpublish hacyclic hlink hfirst hkey).congr fun x _ => ?_
    rw [List.mem_cons, not_or, and_comm]

theorem foldl_remain {σ : Type} (pool : Pool σ) (hacyclic : Forest.Acyclic journal.link)
    (plan : List Doomed) {p : Pruning σ} (h : Remain journal gone p.journal.pits) :
    ∃ gone', Remain journal gone' (plan.foldl (Pruning.pruneOne pool) p).journal.pits := by
  induction plan generalizing gone p with
  | nil => exact ⟨gone, h⟩
  | cons doomed plan ih =>
    rcases pruneOne_cases pool p doomed with hsame | ⟨stored, hstored, hgone⟩
    · exact ih (p := p.pruneOne pool doomed) (hsame ▸ h)
    · exact ih (p := p.pruneOne pool doomed) (hgone ▸ h.unpublish hacyclic hstored)

theorem Remain.keys {gone : List (String × Uuid)} {after : Journal}
    (h : Remain journal gone after.pits) :
    after.keys = (journal.pits.filter (·.key ∉ gone)).map StoredPit.key := by
  unfold Journal.keys
  rw [← List.forall₂_eq_eq_eq, List.forall₂_map_left_iff, List.forall₂_map_right_iff]
  exact h.flip.imp fun p q hR => hR.key

/-- What is left is what is still published. -/
theorem Remain.mem_keys {after : Journal} (h : Remain journal gone after.pits)
    (hk : k ∈ journal.keys) : k ∉ gone ↔ k ∈ after.keys := by
  rw [h.keys, List.mem_map]
  constructor
  · intro hkept
    obtain ⟨q, hq, rfl⟩ := List.mem_map.mp hk
    exact ⟨q, List.mem_filter.mpr ⟨hq, decide_eq_true hkept⟩, rfl⟩
  · rintro ⟨q, hq, rfl⟩
    exact of_decide_eq_true (List.mem_filter.mp hq).2

theorem mem_keys_of_link (h : journal.link k ≠ none) : k ∈ journal.keys := by
  unfold Journal.link at h
  cases hp : journal.pit k.1 k.2 with
  | none => exact absurd (by rw [hp]; rfl) h
  | some p =>
    obtain ⟨hmem, hkey⟩ := Journal.pit_eq_some hp
    exact List.mem_map.mpr ⟨p, hmem, StoredPit.key_eq.mpr hkey⟩

end

/-- The PITs of `after` are those of `journal` that are still published, in their order and the
same but for the parent: that is the nearest PIT still published on the chain of parents. -/
def Reparents (journal after : Journal) : Prop :=
  List.Forall₂ (Rehomed journal (· ∈ after.keys)) (journal.pits.filter (·.key ∈ after.keys)) after.pits

theorem Remain.reparents {journal after : Journal}
    (h : Remain journal gone after.pits) : Reparents journal after := by
  have hfilter : journal.pits.filter (·.key ∈ after.keys) = journal.pits.filter (·.key ∉ gone) := by
    refine List.filter_congr fun q hq => ?_
    rw [decide_eq_decide]
    exact (h.mem_keys (List.mem_map_of_mem hq)).symm
  unfold Reparents
  rw [hfilter]
  exact h.imp fun q p hR => hR.congr fun k hk => h.mem_keys (mem_keys_of_link hk)

theorem Reparents.unique {journal after after' : Journal} (h : Reparents journal after)
    (h' : Reparents journal after') (hkeys : ∀ k, k ∈ after.keys ↔ k ∈ after'.keys) :
    after.pits = after'.pits := by
  unfold Reparents at h h'
  have hfilter : journal.pits.filter (·.key ∈ after'.keys) =
      journal.pits.filter (·.key ∈ after.keys) :=
    List.filter_congr fun q _ => by rw [decide_eq_decide, hkeys]
  rw [hfilter] at h'
  have hsame : List.Forall₂ (Rehomed journal (· ∈ after.keys))
      (journal.pits.filter (·.key ∈ after.keys)) after'.pits :=
    h'.imp fun q p hR => hR.congr fun k _ => (hkeys k).symm
  have hunique : Relator.RightUnique (Rehomed journal (· ∈ after.keys)) :=
    fun _ _ _ => Rehomed.unique
  exact List.right_unique_forall₂' hunique h hsame

/-- Whatever the plan names and whichever of its PITs the pool fails to destroy, the remaining
PITs' parents are the nearest ones left, and they depend only on which PITs are left. -/
theorem prune_reparents {σ τ : Type} {journal : Journal} (hacyclic : Forest.Acyclic journal.link)
    (pool : Pool σ) (settings : Settings) (plan : Plan) (s : σ) (pool' : Pool τ)
    (settings' : Settings) (plan' : Plan) (t : τ) :
    Reparents journal (prune pool journal settings plan s).journal ∧
      ((∀ k, k ∈ (prune pool journal settings plan s).journal.keys ↔
          k ∈ (prune pool' journal settings' plan' t).journal.keys) →
        (prune pool journal settings plan s).journal.pits =
          (prune pool' journal settings' plan' t).journal.pits) := by
  have hreparents : ∀ {σ : Type} (pool : Pool σ) (settings : Settings) (plan : Plan) (s : σ),
      Reparents journal (prune pool journal settings plan s).journal := by
    intro σ pool settings plan s
    obtain ⟨gone, hremain⟩ := foldl_remain pool hacyclic plan.prune
      (p := ⟨journal, settings, [], ⟨[], [], [], []⟩, s⟩) (remain_nil journal)
    rw [← prune_pits] at hremain
    exact hremain.reparents
  exact ⟨hreparents pool settings plan s, (hreparents ..).unique (hreparents ..)⟩

/-- A pool that no longer has any of the snapshots. -/
def emptyPool : Pool Unit where
  guids _ s := (.ok [], s)
  snapshots _ s := (.ok [], s)
  hold _ _ s := (.ok (), s)
  release _ _ s := (.ok (), s)
  destroy _ s := (.ok (), s)
  destroyTree _ s := (.ok (), s)

def pitOf (id : Uuid) (parent : Option Uuid) : StoredPit where
  clusterUuid := "a"
  vmUuid := 7
  branchUuid := 9
  pitUuid := id
  parent := parent
  name := "bmac"
  takenS := 0
  publishedAtMs := 0
  volumes := []
  bytes := 0
  manifestSha256 := ""
  receivedFrom := none

/-- PIT 3 on 2 on 1. -/
def chain : Journal := { Journal.new with pits := [pitOf 1 none, pitOf 2 (some 1), pitOf 3 (some 2)] }

theorem chain_acyclic : Forest.Acyclic chain.link := by
  refine Forest.acyclic_of_rank (fun k => k.2.val) fun a b hparent => ?_
  obtain ⟨p, hp, hlink⟩ := Option.map_eq_some_iff.mp hparent
  obtain ⟨hmem, -, hid⟩ := Journal.pit_eq_some hp
  have hcases : p = pitOf 1 none ∨ p = pitOf 2 (some 1) ∨ p = pitOf 3 (some 2) := by
    simpa [chain] using hmem
  rw [← hid]
  rcases hcases with rfl | rfl | rfl
  · cases hlink
  · cases hlink
    decide
  · cases hlink
    decide

theorem chain_reparents :
    Reparents chain (prune emptyPool chain .default ⟨[⟨"a", 2⟩], []⟩ ()).journal :=
  (prune_reparents chain_acyclic emptyPool .default ⟨[⟨"a", 2⟩], []⟩ () emptyPool .default
    ⟨[], []⟩ ()).1

end Bmac.Backupd
