import Bmac.Adapters.Layout
import Bmac.Adapters.Tree

/-!
# A disk with no reason to be in use

`Free i root`: nothing on the disk `root`, or below it in `lsblk`'s tree, is in use. A row of the layout
with no reasons is that of a free disk (`free_of_reasons`): what is below such a disk are partitions of
its own, which the map keeps as the tree has them.
-/

namespace Bmac.Adapters

open Bmac.Core

/-- The node is the root, or below it. -/
inductive Node.On (root : Node) : Node → Prop where
  | root : On root root
  | child {n c : Node} : On root n → c ∈ n.children → On root c

namespace Inputs

variable (i : Inputs)

/-- The disk `root` isn't in use. -/
structure Free (root : Node) : Prop where
  /-- No leaf of any class of any imported pool is on it. -/
  unpooled : ∀ n, root.On n → ∀ leaf ∈ i.poolLeaves, ∀ k, n.knameOf = some k → i.resolved leaf ≠ some k
  /-- Nothing is mounted, or active swap. -/
  unmounted : ∀ n, root.On n → n.facts.mountpoints.filterMap nonEmpty = []
  /-- Only partitions are below it. -/
  unheld : ∀ n, root.On n → ∀ c ∈ n.children, c.facts.kind = some "part"
  /-- No registered boot partition is on it. -/
  unregistered : ∀ n, root.On n → ∀ uuid, n.facts.uuid = some uuid → uuid ≠ "" →
    i.upper uuid ∉ i.bootUuids
  /-- crypttab names nothing on it. -/
  unlisted : ∀ n, root.On n → ∀ uuid, n.facts.uuid = some uuid → uuid ∉ crypttabUuids i.crypttab

end Inputs

/-! ## Reading a row -/

theorem foldl_insert_ne_nil {kinds : List String} {d : Dict Unit} (h : d ≠ []) :
    kinds.foldl (fun d kind => Dict.insert d kind ()) d ≠ [] := by
  induction kinds generalizing d with
  | nil => exact h
  | cons kind kinds ih => exact ih (Dict.insert_ne_nil d kind ())

/-- A disk that nothing holds has only partitions below it. -/
theorem holders_nil {below : List BlockDevice} (h : Inputs.holders below = []) :
    ∀ x ∈ below, ∀ kind, x.kind = some kind → kind = "part" := by
  intro x hx kind hkind
  by_contra hne
  have hmem : kind ∈ (below.filterMap (·.kind)).filter (· ≠ "part") := by
    refine List.mem_filter.mpr ⟨List.mem_filterMap.mpr ⟨x, hx, hkind⟩, ?_⟩
    simpa using hne
  unfold Inputs.holders at h
  cases hkinds : (below.filterMap (·.kind)).filter (· ≠ "part") with
  | nil =>
    rw [hkinds] at hmem
    exact absurd hmem List.not_mem_nil
  | cons first rest =>
    rw [hkinds] at h
    exact foldl_insert_ne_nil (List.cons_ne_nil _ _) (List.map_eq_nil_iff.mp h)

/-- What it says of a disk that it has no reasons to be in use. -/
structure Reasonless (i : Inputs) (kname : String) (descendants : List BlockDevice) : Prop where
  unpooled : kname ∉ i.importedPoolDisks
  unmounted : ∀ x ∈ descendants, x.mountpoints = []
  unheld : ∀ x ∈ descendants.tail, ∀ kind, x.kind = some kind → kind = "part"
  unregistered : kname ∉ i.espDisks
  unlisted : ∀ x ∈ descendants, ∀ uuid, x.uuid = some uuid → uuid ∉ crypttabUuids i.crypttab

theorem reasonless_of_row {i : Inputs} {device : BlockDevice} {descendants : List BlockDevice}
    (h : (i.diskRow device descendants).inUseReasons = []) :
    Reasonless i device.kname descendants := by
  unfold Inputs.diskRow at h
  simp only [List.append_eq_nil_iff] at h
  obtain ⟨⟨⟨⟨hpool, hmount⟩, hhold⟩, hesp⟩, hlist⟩ := h
  constructor
  · simpa using hpool
  · simpa using hmount
  · refine holders_nil ?_
    simpa using hhold
  · simpa using hesp
  · intro x hx uuid huuid hmem
    have hall : descendants.any (fun d => d.uuid.any fun u => (crypttabUuids i.crypttab).contains u) =
        true := by
      refine List.any_eq_true.mpr ⟨x, hx, ?_⟩
      simpa [huuid] using hmem
    rw [if_pos hall] at hlist
    cases hlist

variable {i : Inputs} {roots : List Node} {depth : Nat} {row : DiskRow} {root : Node}

theorem mem_rows {rows : List DiskRow} (hparse : BlockDevices.parse roots = .ok i.devices)
    (h : i.rows depth = some rows) (hrow : row ∈ rows) :
    ∃ n k size l, n ∈ roots ∧ n.facts.kind = some "disk" ∧ n.knameOf = some k ∧
      i.devices.get? k = some (n.device k size none none) ∧ i.devices.subtree depth k = some l ∧
      row = i.diskRow (n.device k size none none) l := by
  have hv := visitAll_visited roots hparse
  obtain ⟨⟨k, device⟩, hmem, hsub⟩ := (mapM_some h).2 row hrow
  obtain ⟨l, hl, rfl⟩ := Option.map_eq_some_iff.mp hsub
  obtain ⟨hdev, hcond⟩ := List.mem_filter.mp hmem
  simp only [decide_eq_true_eq] at hcond
  obtain ⟨hkind, hparent, -⟩ := hcond
  have hget := Dict.get?_of_mem (hv.sorted List.Pairwise.nil) hdev
  rcases hv.from_ k device hget with hnil | ⟨p, d, n, size, hn, hk, rfl⟩
  · cases hnil
  cases hparent
  cases hn with
  | root hmem => exact ⟨n, k, size, l, hmem, hkind, hk, hget, hl, rfl⟩

/-- What is below a disk without reasons are partitions, which the map has as the tree does. -/
theorem on_of_reasonless {k : String} {l : List BlockDevice} (ht : LsblkTree roots)
    (hparse : BlockDevices.parse roots = .ok i.devices) (hroot : root ∈ roots)
    (hdisk : root.facts.kind = some "disk") (hk : root.knameOf = some k)
    (hsub : i.devices.subtree depth k = some l) (hfree : Reasonless i k l) {n : Node} (hn : root.On n) :
    (∃ p d, Seen none none roots p d n) ∧ ∃ kn size p d, Sole roots n kn k ∧
      i.devices.get? kn = some (n.device kn size p d) ∧ n.facts.diskBelow kn d = some k ∧
      n.device kn size p d ∈ l ∧ ∀ c ∈ n.children, c.facts.kind = some "part" := by
  -- a child is a partition, since it is in the subtree and nothing holds the disk
  have hparts : ∀ n kn size p d p' d', Seen none none roots p' d' n → Sole roots n kn k →
      n.device kn size p d ∈ l → ∀ c ∈ n.children, c.facts.kind = some "part" := by
    intro n kn size p d p' d' hseen hsole hmem c hc
    have hcs : Seen none none roots (some kn) _ c := .child hseen hsole.1 hc
    obtain ⟨kc, hkc⟩ := ht.named hcs
    obtain ⟨kind, hkind⟩ := ht.typed hcs
    have hv := visitAll_visited roots hparse
    obtain ⟨dev, hdev⟩ := Option.isSome_iff_exists.mp (hv.seen _ _ _ _ hcs hkc)
    have hin : dev ∈ l.tail :=
      subtree_closed hsub hmem (List.mem_filterMap.mpr ⟨c, hc, hkc⟩) hdev
    rcases hv.from_ kc dev hdev with hnil | ⟨q, e, m, size', hm, hmk, rfl⟩
    · cases hnil
    have hsame := ht.sameKind hcs hm (hkc.trans hmk.symm)
    rw [hkind] at hsame
    rw [hkind, hfree.unheld _ hin kind hsame.symm]
  induction hn with
  | root =>
    have hseen : Seen none none roots none none root := .root hroot
    have hsole := sole_root ht hroot hdisk hk
    obtain ⟨size, p, d, hget, hbelow⟩ := hsole.get hparse hseen
    obtain ⟨depth', below, -, -, rfl⟩ := subtree_some hsub hget
    exact ⟨⟨none, none, hseen⟩, k, size, p, d, hsole, hget, hbelow, List.mem_cons_self,
      hparts root k size p d none none hseen hsole List.mem_cons_self⟩
  | @child n c _ hc ih =>
    obtain ⟨⟨p', d', hseen⟩, kn, size, p, d, hsole, hget, hbelow, hmem, hall⟩ := ih
    have hcs : Seen none none roots (some kn) _ c := .child hseen hsole.1 hc
    obtain ⟨kc, hkc⟩ := ht.named hcs
    have hcsole := sole_child ht hseen hsole hc (hall c hc) hkc
    obtain ⟨size', p'', d'', hcget, hcbelow⟩ := hcsole.get hparse hcs
    have hin : c.device kc size' p'' d'' ∈ l :=
      List.mem_of_mem_tail (subtree_closed hsub hmem (List.mem_filterMap.mpr ⟨c, hc, hkc⟩) hcget)
    exact ⟨⟨_, _, hcs⟩, kc, size', p'', d'', hcsole, hcget, hcbelow, hin,
      hparts c kc size' p'' d'' _ _ hcs hcsole hin⟩

/-- A disk of the tree without reasons isn't in use. -/
theorem free_of_reasonless {k : String} {l : List BlockDevice} (ht : LsblkTree roots)
    (hparse : BlockDevices.parse roots = .ok i.devices) (hroot : root ∈ roots)
    (hdisk : root.facts.kind = some "disk") (hk : root.knameOf = some k)
    (hsub : i.devices.subtree depth k = some l) (hfree : Reasonless i k l) : i.Free root := by
  have hon := fun n hn => @on_of_reasonless i roots depth root k l ht hparse hroot hdisk hk hsub hfree n hn
  constructor
  · intro n hn leaf hleaf kn hkn hresolved
    obtain ⟨-, kn', size, p, d, hsole, hget, hbelow, -, -⟩ := hon n hn
    cases hkn.symm.trans hsole.1
    refine hfree.unpooled (List.mem_filterMap.mpr ⟨leaf, hleaf, ?_⟩)
    rw [hresolved, Option.bind_some, hget, Option.bind_some]
    exact hbelow
  · intro n hn
    obtain ⟨-, kn, size, p, d, -, -, -, hmem, -⟩ := hon n hn
    exact hfree.unmounted _ hmem
  · intro n hn
    obtain ⟨-, -, -, -, -, -, -, -, -, hall⟩ := hon n hn
    exact hall
  · intro n hn uuid huuid hne hboot
    obtain ⟨-, kn, size, p, d, hsole, hget, hbelow, -, -⟩ := hon n hn
    refine hfree.unregistered (List.mem_filterMap.mpr ⟨kn, ?_, ?_⟩)
    · refine List.mem_map.mpr ⟨(kn, n.device kn size p d), List.mem_filter.mpr ⟨?_, ?_⟩, rfl⟩
      · exact Dict.mem_of_get? hget
      · simp [Inputs.isEsp, Node.device, huuid, hne, hboot]
    · rw [hget, Option.bind_some]
      exact hbelow
  · intro n hn uuid huuid
    obtain ⟨-, kn, size, p, d, -, -, -, hmem, -⟩ := hon n hn
    exact hfree.unlisted _ hmem uuid huuid

/-- A row without reasons is that of a disk that isn't in use. -/
theorem free_of_row {layout : Layout} (ht : LsblkTree roots)
    (hparse : BlockDevices.parse roots = .ok i.devices) (hbuild : build i depth = some layout)
    (hrow : row ∈ layout.allDisks) (hnone : row.inUseReasons = []) :
    ∃ root ∈ roots, root.knameOf = some row.disk ∧ i.Free root := by
  obtain ⟨rows, hrows, hlayout⟩ := Option.bind_eq_some_iff.mp hbuild
  cases hlayout
  obtain ⟨n, k, size, l, hn, hdisk, hk, hget, hsub, rfl⟩ := mem_rows hparse hrows hrow
  exact ⟨n, hn, hk, free_of_reasonless ht hparse hn hdisk hk hsub (reasonless_of_row hnone)⟩

end Bmac.Adapters
