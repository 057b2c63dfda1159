import Bmac.Adapters.Disks

/-!
# What the map keeps of the tree

`Seen parent disk nodes p d n`: visiting `nodes` under `parent` and `disk` comes to the node `n` under `p`
and `d`. Every device of the map is a node so seen, and every node with a name is in the map
(`visitAll_get`). Where a kernel name is seen only as one node, on one disk, the map has that node
(`Sole`).
-/

namespace Bmac.Adapters

open Bmac.Core

inductive Seen (parent disk : Option String) (nodes : List Node) :
    Option String → Option String → Node → Prop where
  | root {n : Node} : n ∈ nodes → Seen parent disk nodes parent disk n
  | child {p d : Option String} {n c : Node} {k : String} : Seen parent disk nodes p d n →
      n.knameOf = some k → c ∈ n.children → Seen parent disk nodes (some k) (n.facts.diskBelow k d) c

variable {parent disk p d : Option String} {nodes rest : List Node} {n m c : Node} {k : String}

theorem Seen.mono {nodes' : List Node} (h : Seen parent disk nodes p d n) (hsub : nodes ⊆ nodes') :
    Seen parent disk nodes' p d n := by
  induction h with
  | root hmem => exact .root (hsub hmem)
  | child _ hk hc ih => exact .child ih hk hc

theorem Seen.of_children (hk : n.knameOf = some k)
    (h : Seen (some k) (n.facts.diskBelow k disk) n.children p d m) : Seen parent disk [n] p d m := by
  induction h with
  | root hmem => exact .child (.root (List.mem_singleton_self n)) hk hmem
  | child _ hk hc ih => exact .child ih hk hc

theorem seen_singleton (h : Seen parent disk [n] p d m) :
    (p = parent ∧ d = disk ∧ m = n) ∨
      ∃ k, n.knameOf = some k ∧ Seen (some k) (n.facts.diskBelow k disk) n.children p d m := by
  induction h with
  | root hmem => exact .inl ⟨rfl, rfl, List.mem_singleton.mp hmem⟩
  | child _ hk hc ih =>
    rcases ih with ⟨rfl, rfl, rfl⟩ | ⟨k', hk', hseen⟩
    · exact .inr ⟨_, hk, .root hc⟩
    · exact .inr ⟨k', hk', .child hseen hk hc⟩

theorem seen_cons (h : Seen parent disk (n :: rest) p d m) :
    Seen parent disk [n] p d m ∨ Seen parent disk rest p d m := by
  induction h with
  | root hmem =>
    rcases List.mem_cons.mp hmem with rfl | hmem
    · exact .inl (.root (List.mem_singleton_self _))
    · exact .inr (.root hmem)
  | child _ hk hc ih => exact ih.imp (.child · hk hc) (.child · hk hc)

theorem seen_nil (h : Seen parent disk [] p d m) : False := by
  induction h with
  | root hmem => exact List.not_mem_nil hmem
  | child _ _ _ ih => exact ih

def FromSeen (parent disk : Option String) (nodes : List Node) (k : String) (dev : BlockDevice) : Prop :=
  ∃ p d n size, Seen parent disk nodes p d n ∧ n.knameOf = some k ∧ dev = n.device k size p d

theorem FromSeen.mono {nodes' : List Node} {dev : BlockDevice} (h : FromSeen parent disk nodes k dev)
    (hsub : nodes ⊆ nodes') : FromSeen parent disk nodes' k dev := by
  obtain ⟨p, d, n, size, hseen, hk, rfl⟩ := h
  exact ⟨p, d, n, size, hseen.mono hsub, hk, rfl⟩

/-- What visiting `nodes` makes of the map. -/
structure Visited (parent disk : Option String) (nodes : List Node) (before after : BlockDevices) :
    Prop where
  from_ : ∀ k dev, after.get? k = some dev → before.get? k = some dev ∨ FromSeen parent disk nodes k dev
  keeps : ∀ k, (before.get? k).isSome → (after.get? k).isSome
  seen : ∀ p d n k, Seen parent disk nodes p d n → n.knameOf = some k → (after.get? k).isSome
  sorted : before.Sorted → after.Sorted

theorem Visited.trans {before between after : BlockDevices}
    (h1 : Visited parent disk [n] before between) (h2 : Visited parent disk rest between after) :
    Visited parent disk (n :: rest) before after where
  from_ k dev hdev := by
    rcases h2.from_ k dev hdev with hdev | hseen
    · exact (h1.from_ k dev hdev).imp_right (·.mono (by simp))
    · exact .inr (hseen.mono (by simp))
  keeps k hk := h2.keeps k (h1.keeps k hk)
  seen p d m k hm hk := by
    rcases seen_cons hm with hm | hm
    · exact h2.keeps k (h1.seen p d m k hm hk)
    · exact h2.seen p d m k hm hk
  sorted h := h2.sorted (h1.sorted h)

theorem isSome_insert {devices : BlockDevices} {kname : String} {dev : BlockDevice}
    (h : (devices.get? k).isSome) : ((devices.insert kname dev).get? k).isSome := by
  by_cases hk : k = kname
  · subst hk
    rw [Dict.get?_insert]
    rfl
  · rwa [Dict.get?_insert_of_ne _ _ hk]

theorem visited_node {before after : BlockDevices} {size : Option Nat} (hk : n.knameOf = some k)
    (h : Visited (some k) (n.facts.diskBelow k disk) n.children
      (before.insert k (n.device k size parent disk)) after) : Visited parent disk [n] before after where
  from_ k' dev hdev := by
    rcases h.from_ k' dev hdev with hdev | ⟨p, d, m, size', hm, hk', rfl⟩
    · by_cases heq : k' = k
      · subst heq
        rw [Dict.get?_insert] at hdev
        cases hdev
        exact .inr ⟨parent, disk, n, size, .root (List.mem_singleton_self n), hk, rfl⟩
      · rw [Dict.get?_insert_of_ne _ _ heq] at hdev
        exact .inl hdev
    · exact .inr ⟨p, d, m, size', .of_children hk hm, hk', rfl⟩
  keeps k' hk' := h.keeps k' (isSome_insert hk')
  seen p d m k' hm hk' := by
    rcases seen_singleton hm with ⟨rfl, rfl, rfl⟩ | ⟨k'', hk'', hm⟩
    · rw [hk] at hk'
      cases hk'
      refine h.keeps k ?_
      rw [Dict.get?_insert]
      rfl
    · rw [hk] at hk''
      cases hk''
      exact h.seen p d m k' hm hk'
  sorted hb := h.sorted (hb.insert _ _)

mutual

theorem visit_visited {parent disk : Option String} {before after : BlockDevices} :
    (n : Node) → visit parent disk before n = .ok after → Visited parent disk [n] before after
  | .mk facts children, h => by
    unfold visit at h
    split at h
    · rename_i hnone
      cases h
      refine ⟨fun k dev hdev => .inl hdev, fun k hk => hk, fun p d m k hm hk => ?_, id⟩
      rcases seen_singleton hm with ⟨rfl, rfl, rfl⟩ | ⟨k', hk', -⟩
      · cases hnone.symm.trans hk
      · cases hnone.symm.trans hk'
    · rename_i kname hk
      split at h
      · cases h
      · exact visited_node hk (visitAll_visited children h)

theorem visitAll_visited {parent disk : Option String} {before after : BlockDevices} :
    (nodes : List Node) → visitAll parent disk before nodes = .ok after →
      Visited parent disk nodes before after
  | [], h => by
    unfold visitAll at h
    cases h
    exact ⟨fun k dev hdev => .inl hdev, fun k hk => hk, fun p d m k hm => (seen_nil hm).elim, id⟩
  | node :: rest, h => by
    unfold visitAll at h
    split at h
    · cases h
    · rename_i between hnode
      exact (visit_visited node hnode).trans (visitAll_visited rest h)

end

/-! ## Trees of devices -/

/-- What `lsblk` prints: each node has a name and a type, which is the device's; a node lists a device
once; disks are roots only, and each partition is under one parent. -/
structure LsblkTree (roots : List Node) : Prop where
  named : ∀ {p d n}, Seen none none roots p d n → ∃ k, n.knameOf = some k
  typed : ∀ {p d n}, Seen none none roots p d n → ∃ kind, n.facts.kind = some kind
  sameKind : ∀ {p d n p' d' n'}, Seen none none roots p d n → Seen none none roots p' d' n' →
    n.knameOf = n'.knameOf → n.facts.kind = n'.facts.kind
  rootsOnce : roots.Pairwise (·.knameOf ≠ ·.knameOf)
  childrenOnce : ∀ {p d n}, Seen none none roots p d n → n.children.Pairwise (·.knameOf ≠ ·.knameOf)
  disks : ∀ {p d n}, Seen none none roots p d n → n.facts.kind = some "disk" → p = none
  parts : ∀ {p d n p' d' n'}, Seen none none roots p d n → Seen none none roots p' d' n' →
    n.facts.kind = some "part" → n.knameOf = n'.knameOf → p = p'

mutual

/-- The nodes that visiting comes to, with what they are visited under. -/
def sights (parent disk : Option String) : Node → List (Option String × Option String × Node)
  | .mk facts children => (parent, disk, .mk facts children) ::
    match facts.knameOf with
    | none => []
    | some kname => sightsAll (some kname) (facts.diskBelow kname disk) children

def sightsAll (parent disk : Option String) : List Node → List (Option String × Option String × Node)
  | [] => []
  | node :: rest => sights parent disk node ++ sightsAll parent disk rest

end

theorem mem_sightsAll (hn : n ∈ nodes) : (parent, disk, n) ∈ sightsAll parent disk nodes := by
  induction nodes with
  | nil => cases hn
  | cons node rest ih =>
    rw [sightsAll, List.mem_append]
    rcases List.mem_cons.mp hn with rfl | hn
    · obtain ⟨facts, children⟩ := n
      rw [sights]
      exact .inl List.mem_cons_self
    · exact .inr (ih hn)

mutual

theorem sights_closed {parent disk : Option String} : (node : Node) → (p, d, n) ∈ sights parent disk node →
    n.knameOf = some k → c ∈ n.children → (some k, n.facts.diskBelow k d, c) ∈ sights parent disk node
  | .mk facts children, hn, hk, hc => by
    rw [sights, List.mem_cons] at hn ⊢
    rcases hn with heq | hn
    · obtain ⟨rfl, rfl, rfl⟩ : p = parent ∧ d = disk ∧ n = .mk facts children := by simpa using heq
      have hname : facts.knameOf = some k := hk
      rw [hname]
      exact .inr (mem_sightsAll hc)
    · cases hname : facts.knameOf with
      | none =>
        rw [hname] at hn
        cases hn
      | some kname =>
        rw [hname] at hn
        exact .inr (sightsAll_closed children hn hk hc)

theorem sightsAll_closed {parent disk : Option String} : (nodes : List Node) →
    (p, d, n) ∈ sightsAll parent disk nodes → n.knameOf = some k → c ∈ n.children →
      (some k, n.facts.diskBelow k d, c) ∈ sightsAll parent disk nodes
  | [], hn, _, _ => by
    rw [sightsAll] at hn
    cases hn
  | node :: rest, hn, hk, hc => by
    rw [sightsAll, List.mem_append] at hn ⊢
    exact hn.imp (sights_closed node · hk hc) (sightsAll_closed rest · hk hc)

end

theorem Seen.sighted (h : Seen parent disk nodes p d n) : (p, d, n) ∈ sightsAll parent disk nodes := by
  induction h with
  | root hmem => exact mem_sightsAll hmem
  | child _ hk hc ih => exact sightsAll_closed nodes ih hk hc

variable {roots : List Node}

theorem lsblkTree_of_sights {listed : List (Option String × Option String × Node)}
    (hlisted : sightsAll none none roots = listed)
    (hnamed : ∀ x ∈ listed, x.2.2.knameOf.isSome ∧ x.2.2.facts.kind.isSome)
    (hsame : ∀ x ∈ listed, ∀ y ∈ listed, x.2.2.knameOf = y.2.2.knameOf →
      x.2.2.facts.kind = y.2.2.facts.kind ∧ (x.2.2.facts.kind = some "part" → x.1 = y.1))
    (honce : (roots.map (·.knameOf)).Nodup ∧ ∀ x ∈ listed, (x.2.2.children.map (·.knameOf)).Nodup)
    (hdisks : ∀ x ∈ listed, x.2.2.facts.kind = some "disk" → x.1 = none) : LsblkTree roots := by
  have hmem {p d n} (h : Seen none none roots p d n) : (p, d, n) ∈ listed := hlisted ▸ h.sighted
  exact {
    named := fun h => Option.isSome_iff_exists.mp (hnamed _ (hmem h)).1
    typed := fun h => Option.isSome_iff_exists.mp (hnamed _ (hmem h)).2
    sameKind := fun h h' heq => (hsame _ (hmem h) _ (hmem h') heq).1
    rootsOnce := List.pairwise_map.mp honce.1
    childrenOnce := fun h => List.pairwise_map.mp (honce.2 _ (hmem h))
    disks := fun h => hdisks _ (hmem h)
    parts := fun h h' hpart heq => (hsame _ (hmem h) _ (hmem h') heq).2 hpart }

/-- The device `k` is seen as this node only, on the disk `D`. -/
def Sole (roots : List Node) (n : Node) (k D : String) : Prop :=
  n.knameOf = some k ∧ ∀ p d m, Seen none none roots p d m → m.knameOf = some k →
    m = n ∧ m.facts.diskBelow k d = some D

section

variable {roots : List Node} {r : Node} {D : String}

theorem eq_of_pairwise {l : List Node} (h : l.Pairwise (·.knameOf ≠ ·.knameOf)) (hn : n ∈ l) (hm : m ∈ l)
    (heq : n.knameOf = m.knameOf) : n = m := by
  induction l with
  | nil => exact absurd hn List.not_mem_nil
  | cons first rest ih =>
    obtain ⟨hfirst, hrest⟩ := List.pairwise_cons.mp h
    rcases List.mem_cons.mp hn with hnf | hnr
    · rcases List.mem_cons.mp hm with hmf | hmr
      · rw [hnf, hmf]
      · exact absurd (hnf ▸ heq) (hfirst m hmr)
    · rcases List.mem_cons.mp hm with hmf | hmr
      · exact absurd (hmf ▸ heq).symm (hfirst n hnr)
      · exact ih hrest hnr hmr

theorem sole_root (ht : LsblkTree roots) (hr : r ∈ roots) (hdisk : r.facts.kind = some "disk")
    (hk : r.knameOf = some D) : Sole roots r D D := by
  refine ⟨hk, fun p d m hm hmk => ?_⟩
  have hkind : m.facts.kind = some "disk" :=
    (ht.sameKind hm (.root hr) (hmk.trans hk.symm)).trans hdisk
  have hp := ht.disks hm hkind
  cases hm with
  | root hmem =>
    refine ⟨eq_of_pairwise ht.rootsOnce hmem hr (hmk.trans hk.symm), ?_⟩
    simp [Facts.diskBelow, hkind]
  | child _ _ _ => cases hp

theorem sole_child (ht : LsblkTree roots) {p d : Option String} {kc : String}
    (hn : Seen none none roots p d n) (hsole : Sole roots n k D) (hc : c ∈ n.children)
    (hpart : c.facts.kind = some "part") (hkc : c.knameOf = some kc) : Sole roots c kc D := by
  refine ⟨hkc, fun q e m hm hmk => ?_⟩
  have hq := ht.parts (.child hn hsole.1 hc) hm hpart (hkc.trans hmk.symm)
  cases hm with
  | root _ => cases hq
  | child hparent hpk hmem =>
    cases hq
    obtain ⟨rfl, hdisk⟩ := hsole.2 _ _ _ hparent hpk
    refine ⟨eq_of_pairwise (ht.childrenOnce hparent) hmem hc (hmk.trans hkc.symm), ?_⟩
    rw [hdisk]
    rfl

theorem Sole.get {devices : BlockDevices} (hparse : BlockDevices.parse roots = .ok devices)
    (hsole : Sole roots n k D) (hn : Seen none none roots p d n) :
    ∃ size parent disk, devices.get? k = some (n.device k size parent disk) ∧
      n.facts.diskBelow k disk = some D := by
  have hv := visitAll_visited roots hparse
  obtain ⟨dev, hdev⟩ := Option.isSome_iff_exists.mp (hv.seen _ _ _ _ hn hsole.1)
  rcases hv.from_ k dev hdev with h | ⟨p, d, m, size, hm, hmk, rfl⟩
  · cases h
  · obtain ⟨rfl, hdisk⟩ := hsole.2 _ _ _ hm hmk
    exact ⟨size, p, d, hdev, hdisk⟩

end

/-! ## What is below a device -/

theorem mapM_some {α β : Type} {f : α → Option β} {l : List α} {l' : List β}
    (h : l.mapM f = some l') : (∀ a ∈ l, ∃ b ∈ l', f a = some b) ∧ ∀ b ∈ l', ∃ a ∈ l, f a = some b := by
  induction l generalizing l' with
  | nil =>
    cases h
    exact ⟨fun a ha => absurd ha List.not_mem_nil, fun b hb => absurd hb List.not_mem_nil⟩
  | cons a l ih =>
    rw [List.mapM_cons] at h
    obtain ⟨b, hb, hrest⟩ := Option.bind_eq_some_iff.mp h
    obtain ⟨bs, hbs, hcons⟩ := Option.bind_eq_some_iff.mp hrest
    cases hcons
    obtain ⟨hl, hl'⟩ := ih hbs
    constructor
    · intro x hx
      rcases List.mem_cons.mp hx with rfl | hx
      · exact ⟨b, List.mem_cons_self, hb⟩
      · obtain ⟨y, hy, hxy⟩ := hl x hx
        exact ⟨y, List.mem_cons_of_mem _ hy, hxy⟩
    · intro y hy
      rcases List.mem_cons.mp hy with rfl | hy
      · exact ⟨a, List.mem_cons_self, hb⟩
      · obtain ⟨x, hx, hxy⟩ := hl' y hy
        exact ⟨x, List.mem_cons_of_mem _ hx, hxy⟩

section

variable {k' : String} {devices : BlockDevices} {depth : Nat} {l : List BlockDevice} {dev x y : BlockDevice}

theorem subtree_some (h : devices.subtree depth k = some l) (hdev : devices.get? k = some dev) :
    ∃ depth' below, dev.children.mapM (devices.subtree depth') = some below ∧
      depth = depth' + 1 ∧ l = dev :: below.flatten := by
  unfold BlockDevices.subtree at h
  rw [hdev] at h
  cases depth with
  | zero => cases h
  | succ depth =>
    obtain ⟨below, hbelow, rfl⟩ := Option.map_eq_some_iff.mp h
    exact ⟨depth, below, hbelow, rfl, rfl⟩

theorem subtree_closed (h : devices.subtree depth k = some l) (hx : x ∈ l) (hc : k' ∈ x.children)
    (hy : devices.get? k' = some y) : y ∈ l.tail := by
  induction depth generalizing k l with
  | zero =>
    cases hdev : devices.get? k with
    | none =>
      unfold BlockDevices.subtree at h
      rw [hdev] at h
      cases h
      exact absurd hx List.not_mem_nil
    | some dev =>
      obtain ⟨depth', below, -, hdepth, -⟩ := subtree_some h hdev
      cases hdepth
  | succ depth ih =>
    cases hdev : devices.get? k with
    | none =>
      unfold BlockDevices.subtree at h
      rw [hdev] at h
      cases h
      exact absurd hx List.not_mem_nil
    | some dev =>
      obtain ⟨depth', below, hbelow, hdepth, rfl⟩ := subtree_some h hdev
      cases hdepth
      rw [List.tail_cons]
      rcases List.mem_cons.mp hx with rfl | hx
      · obtain ⟨lc, hlc, hsub⟩ := (mapM_some hbelow).1 k' hc
        obtain ⟨depth'', below', hbelow', hdepth', rfl⟩ := subtree_some hsub hy
        exact List.mem_flatten.mpr ⟨_, hlc, List.mem_cons_self⟩
      · obtain ⟨lc, hlc, hxc⟩ := List.mem_flatten.mp hx
        obtain ⟨c, -, hsub⟩ := (mapM_some hbelow).2 lc hlc
        exact List.mem_flatten.mpr ⟨lc, hlc, List.mem_of_mem_tail (ih hsub hxc)⟩

theorem mapM_isSome {α β : Type} {f : α → Option β} {l : List α} (h : ∀ a ∈ l, (f a).isSome) :
    (l.mapM f).isSome := by
  induction l with
  | nil => rfl
  | cons a l ih =>
    obtain ⟨b, hb⟩ := Option.isSome_iff_exists.mp (h a List.mem_cons_self)
    obtain ⟨bs, hbs⟩ := Option.isSome_iff_exists.mp (ih fun a ha => h a (List.mem_cons_of_mem _ ha))
    rw [List.mapM_cons, hb, hbs]
    rfl

theorem sizeOf_seen (h : Seen none none roots p d n) : sizeOf n < sizeOf roots := by
  induction h with
  | root hmem => exact List.sizeOf_lt_of_mem hmem
  | @child p d n c k _ _ hc ih =>
    obtain ⟨facts, children⟩ := n
    have hlt := List.sizeOf_lt_of_mem hc
    simp only [Node.children_mk, Node.mk.sizeOf_spec] at hlt ih
    omega

/-- Where a device that is listed twice is listed with the same below it, the recursion ends. -/
theorem subtree_ends (hparse : BlockDevices.parse roots = .ok devices)
    (hsame : ∀ p d n p' d' n', Seen none none roots p d n → Seen none none roots p' d' n' →
      n.knameOf = n'.knameOf → n = n') (k : String) :
    (devices.subtree (sizeOf roots) k).isSome := by
  have hv := visitAll_visited roots hparse
  -- by the size of the node that the map has of the device
  have hnode : ∀ depth p d n k, Seen none none roots p d n → n.knameOf = some k → sizeOf n ≤ depth →
      (devices.subtree depth k).isSome := by
    intro depth
    induction depth with
    | zero =>
      intro p d n k _ _ hsize
      obtain ⟨facts, children⟩ := n
      simp at hsize
    | succ depth ih =>
      intro p d n k hn hk hsize
      obtain ⟨dev, hdev⟩ := Option.isSome_iff_exists.mp (hv.seen p d n k hn hk)
      rcases hv.from_ k dev hdev with hnil | ⟨p', d', n', size, hn', hk', rfl⟩
      · cases hnil
      obtain rfl := hsame _ _ _ _ _ _ hn hn' (hk.trans hk'.symm)
      have hall : ∀ c ∈ (n.device k size p' d').children, (devices.subtree depth c).isSome := by
        intro c hc
        obtain ⟨child, hchild, hkc⟩ := List.mem_filterMap.mp hc
        refine ih _ _ child c (.child hn hk hchild) hkc ?_
        obtain ⟨facts, children⟩ := n
        have hlt := List.sizeOf_lt_of_mem hchild
        simp only [Node.children_mk, Node.mk.sizeOf_spec] at hlt hsize
        omega
      obtain ⟨below, hbelow⟩ := Option.isSome_iff_exists.mp (mapM_isSome hall)
      unfold BlockDevices.subtree
      rw [hdev]
      simp [hbelow]
  cases hdev : devices.get? k with
  | none =>
    unfold BlockDevices.subtree
    rw [hdev]
    rfl
  | some dev =>
    rcases hv.from_ k dev hdev with hnil | ⟨p, d, n, size, hn, hk, -⟩
    · cases hnil
    · exact hnode _ p d n k hn hk (sizeOf_seen hn).le

end

end Bmac.Adapters
