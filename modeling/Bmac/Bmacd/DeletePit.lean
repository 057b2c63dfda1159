import Bmac.Base.Forest
import Bmac.Base.Through
import Bmac.Bmacd.UpkeepWorld

/-!
# Deleting a PIT's record

`bmacd/src/backup/store.rs`, `delete_pit`: the writes it makes one by one, any of which may be the
last. `deletePit_keeps_chains` is what every prefix of them leaves of the ancestor lists that
`ancestors` computes.
-/

namespace Bmac.Bmacd

open Bmac.Base Bmac.Core Bmac.Backup

inductive CatalogWrite where
  | save (pit : PitRecord)
  | remove (pit : Uuid)

def CatalogWrite.apply (pits : List PitRecord) : CatalogWrite → List PitRecord
  | .save pit => storePit pits pit
  | .remove pit => pits.filter (·.pitUuid ≠ pit)

/-- Removes the PIT's record; its children then descend from its parent. The children's records
are written first. -/
def deletePit (pits : List PitRecord) (pit : Uuid) : List CatalogWrite :=
  match pits.find? (·.pitUuid = pit) with
  | none => []
  | some gone =>
    ((pits.filter (·.parent = some pit)).map fun child => .save { child with parent := gone.parent }) ++
      [.remove pit]

def pitLink (pits : List PitRecord) (k : Uuid) : Option (Option Uuid) :=
  (pits.find? (·.pitUuid = k)).map (·.parent)

def ancestorIds (pits : List PitRecord) (pit : PitRecord) : List Uuid :=
  (ancestors pits pit).map (·.pitUuid)

theorem ancestorsFrom_ids (pits : List PitRecord) (n : Nat) (next : Option Uuid) :
    (ancestorsFrom pits n next).map (·.pitUuid) = Forest.walkFrom (pitLink pits) n next := by
  induction n generalizing next with
  | zero => rfl
  | succ n ih =>
    cases next with
    | none =>
      have hnone : pits.find? (fun p => some p.pitUuid = (none : Option Uuid)) = none := by simp
      rw [ancestorsFrom, hnone]
      rfl
    | some k =>
      have hfind : pits.find? (fun p => some p.pitUuid = some k) = pits.find? (·.pitUuid = k) := by
        simp only [Option.some.injEq]
      rw [ancestorsFrom, Forest.walkFrom, pitLink, hfind]
      cases hk : pits.find? (·.pitUuid = k) with
      | none => rfl
      | some parent =>
        have hid : parent.pitUuid = k := by simpa using List.find?_some hk
        rw [Option.map_some]
        dsimp only
        rw [List.map_cons, ih, hid]

theorem length_ancestors_le (pits : List PitRecord) (pit : PitRecord) :
    (ancestors pits pit).length ≤ pits.length := by
  rw [← List.length_map (·.pitUuid), ancestors, ancestorsFrom_ids]
  exact Forest.length_walkFrom_le ..

variable {pits cs : List PitRecord}

theorem mem_ids_of_link {k : Uuid} (h : pitLink pits k ≠ none) : k ∈ pits.map (·.pitUuid) := by
  unfold pitLink at h
  cases hk : pits.find? (·.pitUuid = k) with
  | none => exact absurd (by rw [hk]; rfl) h
  | some p =>
    have hid : p.pitUuid = k := by simpa using List.find?_some hk
    exact List.mem_map.mpr ⟨p, List.mem_of_find?_eq_some hk, hid⟩

theorem ancestorIds_walk (hacyclic : Forest.Acyclic (pitLink pits))
    (pit : PitRecord) : Forest.Walk (pitLink pits) pit.parent (ancestorIds pits pit) := by
  rw [ancestorIds, ancestors, ancestorsFrom_ids]
  exact Forest.walkFrom_walk hacyclic (fun k => mem_ids_of_link) (by rw [List.length_map]) _

/-- A chain without repetitions is what `ancestors` computes. -/
theorem ancestorIds_eq {pit : PitRecord} {ks : List Uuid}
    (h : Forest.Walk (pitLink pits) pit.parent ks) (hnodup : ks.Nodup) : ancestorIds pits pit = ks := by
  rw [ancestorIds, ancestors, ancestorsFrom_ids]
  refine h.walkFrom_eq ?_
  have hsub : ks ⊆ pits.map (·.pitUuid) := fun k hk => mem_ids_of_link (h.entry hk)
  have hle : ks.length ≤ (pits.map (·.pitUuid)).length :=
    (List.subperm_of_subset hnodup hsub).length_le
  rwa [List.length_map] at hle

/-! ### What the writes do to the links -/

section

variable {pits : List PitRecord}

theorem storePit_ids (pits : List PitRecord) (new : PitRecord) :
    (storePit pits new).map (·.pitUuid) = pits.map (·.pitUuid) := by
  unfold storePit
  rw [List.map_map]
  refine List.map_congr_left fun p _ => ?_
  dsimp only [Function.comp_apply]
  split
  · rename_i h
    exact h.symm
  · rfl

theorem pitLink_storePit {new : PitRecord} (hmem : new.pitUuid ∈ pits.map (·.pitUuid)) (k : Uuid) :
    pitLink (storePit pits new) k = if k = new.pitUuid then some new.parent else pitLink pits k := by
  obtain ⟨old, hold, hid⟩ := List.mem_map.mp hmem
  unfold pitLink storePit
  rw [List.find?_map]
  have hids : ((fun p : PitRecord => decide (p.pitUuid = k)) ∘ fun pit =>
      if pit.pitUuid = new.pitUuid then { new with revision := pit.revision + 1 } else pit) =
      fun p => decide (p.pitUuid = k) := by
    funext p
    dsimp only [Function.comp_apply]
    split
    · rename_i h
      rw [h]
    · rfl
  rw [hids, Option.map_map]
  split
  · rename_i hk
    subst hk
    cases hfind : pits.find? (·.pitUuid = new.pitUuid) with
    | none => exact absurd hid (by simpa using List.find?_eq_none.mp hfind old hold)
    | some p =>
      have hp : p.pitUuid = new.pitUuid := by simpa using List.find?_some hfind
      rw [Option.map_some, Function.comp_apply, if_pos hp]
  · rename_i hk
    cases hfind : pits.find? (·.pitUuid = k) with
    | none => rfl
    | some p =>
      have hp : p.pitUuid = k := by simpa using List.find?_some hfind
      rw [Option.map_some, Option.map_some, Function.comp_apply, if_neg (hp ▸ hk)]

/-- The writes of the records `cs` with the parent `parent`. -/
def saves (parent : Option Uuid) (cs : List PitRecord) : List CatalogWrite :=
  cs.map fun child => .save { child with parent := parent }

theorem saves_spec (parent : Option Uuid) {pits : List PitRecord}
    (hmem : ∀ c ∈ cs, c.pitUuid ∈ pits.map (·.pitUuid)) :
    ((saves parent cs).foldl CatalogWrite.apply pits).map (·.pitUuid) = pits.map (·.pitUuid) ∧
    ∀ k, pitLink ((saves parent cs).foldl CatalogWrite.apply pits) k =
      if k ∈ cs.map (·.pitUuid) then some parent else pitLink pits k := by
  induction cs generalizing pits with
  | nil => exact ⟨rfl, fun k => rfl⟩
  | cons c cs ih =>
    have hids := storePit_ids pits { c with parent := parent }
    obtain ⟨ihids, ihlink⟩ := @ih (storePit pits { c with parent := parent }) fun c' hc' => by
      rw [hids]
      exact hmem c' (List.mem_cons_of_mem _ hc')
    refine ⟨ihids.trans hids, fun k => (ihlink k).trans ?_⟩
    have hnew : pitLink (storePit pits { c with parent := parent }) k =
        if k = c.pitUuid then some parent else pitLink pits k :=
      @pitLink_storePit pits { c with parent := parent } (hmem c List.mem_cons_self) k
    rw [hnew, List.map_cons]
    by_cases hk : k ∈ cs.map (·.pitUuid)
    · rw [if_pos hk, if_pos (List.mem_cons_of_mem _ hk)]
    · rw [if_neg hk]
      exact if_congr (by simp [hk]) rfl rfl

theorem pitLink_remove (pit k : Uuid) :
    pitLink (pits.filter (·.pitUuid ≠ pit)) k = if k = pit then none else pitLink pits k := by
  unfold pitLink
  rw [List.find?_filter]
  split
  · rename_i hk
    subst hk
    rw [List.find?_eq_none.mpr (by simp), Option.map_none]
  · rename_i hk
    refine congrArg _ (List.find?_congr fun p _ => ?_)
    by_cases hp : p.pitUuid = k
    · simp [hp, hk]
    · simp [hp]

end

/-! ### The ancestor lists -/

/-- The remaining PITs are those of `pits` but `pit`, and their ancestor lists are as before or
without `pit`. -/
def KeepsChains (pits : PitList) (pit : Uuid) (after : List PitRecord) : Prop :=
  (after.map (·.pitUuid)).filter (· ≠ pit) = (pits.pits.map (·.pitUuid)).filter (· ≠ pit) ∧
    ∀ q ∈ after, q.pitUuid ≠ pit → ∀ old ∈ pits.pits, old.pitUuid = q.pitUuid →
      ancestorIds after q = ancestorIds pits.pits old ∨
        ancestorIds after q = (ancestorIds pits.pits old).filter (· ≠ pit)

/-- The remaining PITs are those of `pits` but `pit`, which is left out of their ancestor lists. -/
def LeavesOut (pits : PitList) (pit : Uuid) (after : List PitRecord) : Prop :=
  after.map (·.pitUuid) = (pits.pits.map (·.pitUuid)).filter (· ≠ pit) ∧
    ∀ q ∈ after, ∀ old ∈ pits.pits, old.pitUuid = q.pitUuid →
      ancestorIds after q = (ancestorIds pits.pits old).filter (· ≠ pit)

section

variable {pits : PitList} {pit : Uuid}

theorem pitLink_eq {p : PitRecord} (hp : p ∈ pits.pits) :
    pitLink pits.pits p.pitUuid = some p.parent := by
  rw [pitLink, PitList.find?_pitUuid hp, Option.map_some]

def PitList.ofIds (pits : PitList) (after : List PitRecord)
    (h : after.map (·.pitUuid) = pits.pits.map (·.pitUuid)) : PitList where
  pits := after
  unique := by
    have hnodup : (pits.pits.map (·.pitUuid)).Nodup := List.pairwise_map.mpr pits.unique
    rw [← h] at hnodup
    exact List.pairwise_map.mp hnodup

/-- Some of `gone`'s children are moved to its parent: the chain from a PIT that stays. -/
theorem walk_after (hacyclic : Forest.Acyclic (pitLink pits.pits)) {gone : PitRecord}
    (hgone : gone ∈ pits.pits) {after : List PitRecord}
    (hids : after.map (·.pitUuid) = pits.pits.map (·.pitUuid))
    (hmoved : Forest.Moved (pitLink pits.pits) (pitLink after) gone.pitUuid gone.parent)
    {q old : PitRecord} (hq : q ∈ after) (hstays : q.pitUuid ≠ gone.pitUuid) (hold : old ∈ pits.pits)
    (hid : old.pitUuid = q.pitUuid) :
    Forest.Walk (pitLink after) q.parent (ancestorIds pits.pits old) ∨
      Forest.Walk (pitLink after) q.parent
        ((ancestorIds pits.pits old).filter (· ≠ gone.pitUuid)) := by
  have hwalk : Forest.Walk (pitLink pits.pits) (some q.pitUuid)
      (q.pitUuid :: ancestorIds pits.pits old) :=
    .up (hid ▸ pitLink_eq hold) (ancestorIds_walk hacyclic old)
  have hlink : pitLink after q.pitUuid = some q.parent :=
    @pitLink_eq (pits.ofIds after hids) q hq
  have htail : ∀ ks, Forest.Walk (pitLink after) (some q.pitUuid) (q.pitUuid :: ks) →
      Forest.Walk (pitLink after) q.parent ks := by
    intro ks h
    cases h with
    | up hsome hup =>
      obtain rfl := Option.some.inj (hsome.symm.trans hlink)
      exact hup
  refine (hwalk.moved hacyclic (pitLink_eq hgone) hmoved).imp (htail _) fun h => htail _ ?_
  rwa [List.filter_cons_of_pos (by simpa using hstays)] at h

theorem ancestorIds_nodup (hacyclic : Forest.Acyclic (pitLink pits.pits)) (p : PitRecord) :
    (ancestorIds pits.pits p).Nodup :=
  (ancestorIds_walk hacyclic p).nodup hacyclic

theorem filter_eq_self_of_not_mem {ks : List Uuid} (h : pit ∉ ks) : ks.filter (· ≠ pit) = ks :=
  List.filter_eq_self.mpr fun _ hk => decide_eq_true fun heq => h (heq ▸ hk)

variable {gone : PitRecord}

/-- `gone`'s children, as `delete_pit` reads them, are never `gone` itself. -/
theorem moved_saves (hacyclic : Forest.Acyclic (pitLink pits.pits)) (hcs : ∀ c ∈ cs, c ∈ pits.pits ∧ c.parent = some gone.pitUuid) :
    Forest.Moved (pitLink pits.pits)
      (pitLink ((saves gone.parent cs).foldl CatalogWrite.apply pits.pits)) gone.pitUuid gone.parent := by
  intro k
  rw [(saves_spec gone.parent fun c hc => List.mem_map_of_mem (hcs c hc).1).2]
  split
  · rename_i hk
    obtain ⟨c, hc, rfl⟩ := List.mem_map.mp hk
    obtain ⟨hmem, hparent⟩ := hcs c hc
    have hlink : pitLink pits.pits c.pitUuid = some (some gone.pitUuid) := hparent ▸ pitLink_eq hmem
    refine .inr ⟨fun heq => hacyclic c.pitUuid (.single ?_), hlink, rfl⟩
    rw [Forest.Parent, hlink, heq]
  · exact .inl rfl

theorem saves_keepsChains (hacyclic : Forest.Acyclic (pitLink pits.pits)) (hgone : gone ∈ pits.pits)
    (hcs : ∀ c ∈ cs, c ∈ pits.pits ∧ c.parent = some gone.pitUuid) :
    KeepsChains pits gone.pitUuid ((saves gone.parent cs).foldl CatalogWrite.apply pits.pits) := by
  have hids := (saves_spec gone.parent fun c hc => List.mem_map_of_mem (hcs c hc).1).1
  refine ⟨congrArg _ hids, fun q hq hstays old hold hid => ?_⟩
  have hnodup := ancestorIds_nodup hacyclic old
  exact (walk_after hacyclic hgone hids (moved_saves hacyclic hcs) hq hstays hold hid).imp
    (ancestorIds_eq · hnodup) (ancestorIds_eq · (hnodup.filter _))

/-- All of `gone`'s children. -/
def childrenOf (pits : List PitRecord) (pit : Uuid) : List PitRecord :=
  pits.filter (·.parent = some pit)

theorem mem_childrenOf {pits : List PitRecord} {c : PitRecord} :
    c ∈ childrenOf pits pit ↔ c ∈ pits ∧ c.parent = some pit := by
  rw [childrenOf, List.mem_filter, decide_eq_true_iff]

/-- Once its children are moved, nothing leads to `gone`, and its record can go. -/
theorem deletePit_leavesOut (hacyclic : Forest.Acyclic (pitLink pits.pits)) (hgone : gone ∈ pits.pits) :
    LeavesOut pits gone.pitUuid
      (((saves gone.parent (childrenOf pits.pits gone.pitUuid)).foldl CatalogWrite.apply
        pits.pits).filter (·.pitUuid ≠ gone.pitUuid)) := by
  set cs := childrenOf pits.pits gone.pitUuid
  have hcs : ∀ c ∈ cs, c ∈ pits.pits ∧ c.parent = some gone.pitUuid := fun c => mem_childrenOf.mp
  set after := (saves gone.parent cs).foldl CatalogWrite.apply pits.pits
  obtain ⟨hids, hlink⟩ := saves_spec gone.parent fun c hc => List.mem_map_of_mem (hcs c hc).1
  have hfilter : (after.filter (·.pitUuid ≠ gone.pitUuid)).map (·.pitUuid) =
      (pits.pits.map (·.pitUuid)).filter (· ≠ gone.pitUuid) := by
    rw [← hids, List.filter_map]
    rfl
  refine ⟨hfilter, fun q hq old hold hid => ?_⟩
  obtain ⟨hq, hstays⟩ := List.mem_filter.mp hq
  have hne : q.pitUuid ≠ gone.pitUuid := of_decide_eq_true hstays
  have hchild : ∀ k, pitLink after k ≠ some (some gone.pitUuid) := by
    intro k hk
    rw [hlink] at hk
    split at hk
    · have hparent : gone.parent = some gone.pitUuid := Option.some.inj hk
      exact hacyclic gone.pitUuid (.single ((pitLink_eq hgone).trans hk))
    · rename_i hnot
      obtain ⟨c, hc, hparent⟩ := Option.map_eq_some_iff.mp hk
      have hck : c.pitUuid = k := by simpa using List.find?_some hc
      exact hnot (List.mem_map.mpr
        ⟨c, mem_childrenOf.mpr ⟨List.mem_of_find?_eq_some hc, hparent⟩, hck⟩)
  have hstart : q.parent ≠ some gone.pitUuid := fun heq =>
    hchild q.pitUuid (heq ▸ @pitLink_eq (pits.ofIds after hids) q hq)
  have hgoes : ∀ ks, Forest.Walk (pitLink after) q.parent ks → gone.pitUuid ∉ ks ∧
      Forest.Walk (pitLink (after.filter (·.pitUuid ≠ gone.pitUuid))) q.parent ks := by
    intro ks h
    have hnot := h.not_mem hchild hstart
    refine ⟨hnot, h.taken ?_ (fun k hk => ?_) hnot⟩
    · rw [pitLink_remove, if_pos rfl]
    · rw [pitLink_remove, if_neg hk]
  have hnodup := ancestorIds_nodup hacyclic old
  refine ancestorIds_eq ?_ (hnodup.filter _)
  rcases walk_after hacyclic hgone hids (moved_saves hacyclic hcs) hq hne hold hid with
    hwalk | hwalk
  · obtain ⟨hnot, hwalk⟩ := hgoes _ hwalk
    rwa [filter_eq_self_of_not_mem hnot]
  · exact (hgoes _ hwalk).2

theorem keepsChains_refl : KeepsChains pits pit pits.pits :=
  ⟨rfl, fun _ hq _ _ hold hid => .inl (by rw [PitList.eq_of_pitUuid hold hq hid])⟩

theorem LeavesOut.keepsChains {after : List PitRecord} (h : LeavesOut pits pit after) :
    KeepsChains pits pit after := by
  refine ⟨?_, fun q hq _ old hold hid => .inr (h.2 q hq old hold hid)⟩
  rw [h.1, List.filter_filter]
  simp

/-- A PIT that is not in the catalog is in no ancestor list. -/
theorem leavesOut_absent (hacyclic : Forest.Acyclic (pitLink pits.pits))
    (h : pit ∉ pits.pits.map (·.pitUuid)) : LeavesOut pits pit pits.pits := by
  refine ⟨(filter_eq_self_of_not_mem h).symm, fun q hq old hold hid => ?_⟩
  rw [PitList.eq_of_pitUuid hold hq hid, filter_eq_self_of_not_mem fun hmem =>
    h (mem_ids_of_link ((ancestorIds_walk hacyclic q).entry hmem))]

end

/-- In a catalog whose parents make no circle, each prefix of the writes that delete a PIT leaves
the ancestor lists of the others as they were or without it, and all of them leave it out; and
`ancestors` ends for every catalog. -/
theorem deletePit_keeps_chains :
    (∀ pits : PitList, Forest.Acyclic (pitLink pits.pits) → ∀ pit : Uuid,
      Through CatalogWrite.apply (KeepsChains pits pit) pits.pits (deletePit pits.pits pit) ∧
        LeavesOut pits pit ((deletePit pits.pits pit).foldl CatalogWrite.apply pits.pits)) ∧
    ∀ (pits : List PitRecord) (pit : PitRecord), (ancestors pits pit).length ≤ pits.length := by
  refine ⟨fun pits hacyclic pit => ?_, length_ancestors_le⟩
  unfold deletePit
  cases hfind : pits.pits.find? (·.pitUuid = pit) with
  | none =>
    have habsent : pit ∉ pits.pits.map (·.pitUuid) := by
      rintro hmem
      obtain ⟨p, hp, hid⟩ := List.mem_map.mp hmem
      simpa [hid] using List.find?_eq_none.mp hfind p hp
    exact ⟨through_nil.mpr keepsChains_refl, leavesOut_absent hacyclic habsent⟩
  | some gone =>
    have hgone : gone ∈ pits.pits := List.mem_of_find?_eq_some hfind
    obtain rfl : gone.pitUuid = pit := by simpa using List.find?_some hfind
    have hout := deletePit_leavesOut hacyclic hgone
    have hsaves : Through CatalogWrite.apply (KeepsChains pits gone.pitUuid) pits.pits
        (saves gone.parent (childrenOf pits.pits gone.pitUuid)) := by
      intro k
      rw [saves, ← List.map_take]
      exact saves_keepsChains hacyclic hgone fun c hc => mem_childrenOf.mp (List.mem_of_mem_take hc)
    refine ⟨hsaves.append (.single hsaves.finish hout.keepsChains), ?_⟩
    rw [List.foldl_append]
    exact hout

/-! ### A write that fails half-way -/

def pitUnder (id : Uuid) (parent : Option Uuid) : PitRecord :=
  { offeredPit with pitUuid := id, parent := parent }

/-- PITs 3 and 4 on 2 on 1. -/
def forked : PitList :=
  ⟨[pitUnder 1 none, pitUnder 2 (some 1), pitUnder 3 (some 2), pitUnder 4 (some 2)], by decide⟩

theorem forked_acyclic : Forest.Acyclic (pitLink forked.pits) := by
  refine Forest.acyclic_of_rank Fin.val fun a b hparent => ?_
  obtain ⟨p, hp, hlink⟩ := Option.map_eq_some_iff.mp hparent
  have hid : p.pitUuid = a := by simpa using List.find?_some hp
  have hmem : ∀ p ∈ forked.pits, ∀ b, p.parent = some b → b.val < p.pitUuid.val := by
    intro p hp
    have hcases : p = pitUnder 1 none ∨ p = pitUnder 2 (some 1) ∨ p = pitUnder 3 (some 2) ∨
        p = pitUnder 4 (some 2) := by simpa [forked] using hp
    rcases hcases with rfl | rfl | rfl | rfl <;> rintro b ⟨⟩ <;> decide
  exact hid ▸ hmem p (List.mem_of_find?_eq_some hp) b hlink

/-- The write of PIT 4 fails: 4 still has the deleted PIT 2 among its ancestors. -/
theorem not_left_out : ¬ ∀ pits : PitList, Forest.Acyclic (pitLink pits.pits) → ∀ pit : Uuid,
    Through CatalogWrite.apply (fun after => ∀ q ∈ after, q.pitUuid ≠ pit →
      ∀ old ∈ pits.pits, old.pitUuid = q.pitUuid →
        ancestorIds after q = (ancestorIds pits.pits old).filter (· ≠ pit))
      pits.pits (deletePit pits.pits pit) := by
  intro hall
  exact absurd (hall forked forked_acyclic 2 1 (pitUnder 4 (some 2)) (by decide) (by decide)
    (pitUnder 4 (some 2)) (by decide) rfl) (by decide)

theorem forked_keeps_chains :
    Through CatalogWrite.apply (KeepsChains forked 2) forked.pits (deletePit forked.pits 2) ∧
      LeavesOut forked 2 ((deletePit forked.pits 2).foldl CatalogWrite.apply forked.pits) :=
  deletePit_keeps_chains.1 forked forked_acyclic 2

end Bmac.Bmacd
