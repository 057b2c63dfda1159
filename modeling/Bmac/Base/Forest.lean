import Mathlib.Tactic

/-!
# Parent links and the nearest kept ancestor

`link k` is `none` where `k` has no entry, and else the parent of `k`, `none` for a root. A parent
without an entry is a dangling end. When entries are taken out one at a time and each one's children
go to its parent, what each entry ends up with is its nearest kept ancestor (`Nearest.splice`,
`Nearest.shrink`), whatever the order (`Nearest.unique`).
-/

namespace Bmac.Base.Forest

variable {κ : Type} {link : κ → Option (Option κ)} {kept kept' : κ → Prop}

/-- `a`'s parent is `b`. -/
def Parent (link : κ → Option (Option κ)) (a b : κ) : Prop := link a = some (some b)

/-- No entry is its own ancestor. -/
def Acyclic (link : κ → Option (Option κ)) : Prop := ∀ k, ¬ Relation.TransGen (Parent link) k k

/-- Links down a rank make no circle. -/
theorem acyclic_of_rank (rank : κ → Nat) (h : ∀ a b, Parent link a b → rank b < rank a) :
    Acyclic link := by
  intro k hcircle
  have hlt : ∀ a b, Relation.TransGen (Parent link) a b → rank b < rank a := by
    intro a b hpath
    induction hpath with
    | single hab => exact h _ _ hab
    | tail _ hbc ih => exact (h _ _ hbc).trans ih
  exact lt_irrefl _ (hlt k k hcircle)

/-- From a parent link on, the first end of the chain or kept entry. -/
inductive Nearest (link : κ → Option (Option κ)) (kept : κ → Prop) :
    Option κ → Option κ → Prop where
  | root : Nearest link kept none none
  | dangling {k : κ} (h : link k = none) : Nearest link kept (some k) (some k)
  | kept {k : κ} (h : link k ≠ none) (hkept : kept k) : Nearest link kept (some k) (some k)
  | up {k : κ} {o r : Option κ} (h : link k = some o) (hkept : ¬ kept k)
      (hup : Nearest link kept o r) : Nearest link kept (some k) r

namespace Nearest

variable {a o r r' : Option κ} {k : κ}

theorem unique (h : Nearest link kept a r) (h' : Nearest link kept a r') : r = r' := by
  induction h with
  | root => cases h'; rfl
  | dangling hnone =>
    cases h' with
    | dangling => rfl
    | kept => rfl
    | up hsome => exact nomatch hnone.symm.trans hsome
  | kept _ hkept =>
    cases h' with
    | dangling => rfl
    | kept => rfl
    | up _ hgone => exact absurd hkept hgone
  | up hsome hgone _ ih =>
    cases h' with
    | dangling hnone => exact nomatch hsome.symm.trans hnone
    | kept _ hkept => exact absurd hkept hgone
    | up hsome' _ hup =>
      obtain rfl := Option.some.inj (hsome.symm.trans hsome')
      exact ih hup

/-- What is kept counts only for entries. -/
theorem congr (h : Nearest link kept a r) (hiff : ∀ k, link k ≠ none → (kept k ↔ kept' k)) :
    Nearest link kept' a r := by
  induction h with
  | root => exact .root
  | dangling hnone => exact .dangling hnone
  | kept hsome hkept => exact .kept hsome ((hiff _ hsome).mp hkept)
  | up hsome hgone _ ih =>
    have hne := Option.ne_none_iff_exists'.mpr ⟨_, hsome⟩
    exact .up hsome (fun hkept => hgone ((hiff _ hne).mpr hkept)) ih

theorem reach (h : Nearest link kept a (some k)) :
    ∃ x, a = some x ∧ Relation.ReflTransGen (Parent link) x k := by
  generalize hr : some k = r at h
  induction h with
  | root => cases hr
  | dangling => cases hr; exact ⟨k, rfl, .refl⟩
  | kept => cases hr; exact ⟨k, rfl, .refl⟩
  | up hsome _ _ ih =>
    obtain ⟨y, rfl, hreach⟩ := ih hr
    exact ⟨_, rfl, .head hsome hreach⟩

theorem refl (hall : ∀ k, kept k) (a : Option κ) : Nearest link kept a a := by
  cases a with
  | none => exact .root
  | some k =>
    cases h : link k with
    | none => exact .dangling h
    | some o => exact .kept (Option.ne_none_iff_exists'.mpr ⟨o, h⟩) (hall k)

/-- Taking out another entry than the nearest one changes nothing. -/
theorem shrink (h : Nearest link kept a r) (hne : r ≠ some k) :
    Nearest link (fun x => kept x ∧ x ≠ k) a r := by
  induction h with
  | root => exact .root
  | dangling hnone => exact .dangling hnone
  | kept hsome hkept => exact .kept hsome ⟨hkept, fun heq => hne (congrArg some heq)⟩
  | up hsome hgone _ ih => exact .up hsome (fun hkept => hgone hkept.1) (ih hne)

/-- An entry is not among the ancestors that its own link leads to. -/
theorem ne_self (hacyclic : Acyclic link) (hlink : link k = some o) (h : Nearest link kept o r) :
    r ≠ some k := by
  rintro rfl
  obtain ⟨x, rfl, hreach⟩ := h.reach
  exact hacyclic k (.head' hlink hreach)

theorem splice (hacyclic : Acyclic link) (h : Nearest link kept a (some k)) (hlink : link k = some o)
    (hup : Nearest link kept o r) : Nearest link (fun x => kept x ∧ x ≠ k) a r := by
  have hnext : Nearest link (fun x => kept x ∧ x ≠ k) o r := hup.shrink (hup.ne_self hacyclic hlink)
  generalize hr : some k = r' at h
  induction h with
  | root => cases hr
  | dangling hnone =>
    cases hr
    exact nomatch hlink.symm.trans hnone
  | kept =>
    cases hr
    exact .up hlink (fun hkept => hkept.2 rfl) hnext
  | up hsome hgone _ ih => exact .up hsome (fun hkept => hgone hkept.1) (ih hr)

end Nearest

/-! ### Walks -/

/-- `ks` is the whole chain of entries from a parent link on. -/
inductive Walk (link : κ → Option (Option κ)) : Option κ → List κ → Prop where
  | root : Walk link none []
  | dangling {k : κ} (h : link k = none) : Walk link (some k) []
  | up {k : κ} {o : Option κ} {ks : List κ} (h : link k = some o) (hup : Walk link o ks) :
      Walk link (some k) (k :: ks)

/-- The first `n` entries of the chain. -/
def walkFrom (link : κ → Option (Option κ)) : Nat → Option κ → List κ
  | 0, _ => []
  | _ + 1, none => []
  | n + 1, some k =>
    match link k with
    | none => []
    | some o => k :: walkFrom link n o

theorem length_walkFrom_le (link : κ → Option (Option κ)) (n : Nat) (o : Option κ) :
    (walkFrom link n o).length ≤ n := by
  induction n generalizing o with
  | zero => exact le_rfl
  | succ n ih =>
    cases o with
    | none => exact Nat.zero_le _
    | some k =>
      rw [walkFrom]
      cases link k with
      | none => exact Nat.zero_le _
      | some o => exact Nat.succ_le_succ (ih o)

namespace Walk

variable {o : Option κ} {ks : List κ} {g : κ}

theorem entry (h : Walk link o ks) {k : κ} (hk : k ∈ ks) : link k ≠ none := by
  induction h with
  | root => cases hk
  | dangling => cases hk
  | up hsome _ ih =>
    rcases List.mem_cons.mp hk with rfl | hk
    · rw [hsome]
      exact Option.some_ne_none _
    · exact ih hk

/-- Every entry of a chain is an ancestor of the one the chain starts from. -/
theorem transGen {k : κ} (h : Walk link o ks) (hlink : link k = some o) {a : κ} (ha : a ∈ ks) :
    Relation.TransGen (Parent link) k a := by
  induction h generalizing k with
  | root => cases ha
  | dangling => cases ha
  | up hsome _ ih =>
    rcases List.mem_cons.mp ha with rfl | ha
    · exact .single hlink
    · exact .head hlink (ih hsome ha)

theorem nodup (hacyclic : Acyclic link) (h : Walk link o ks) : ks.Nodup := by
  induction h with
  | root => exact List.nodup_nil
  | dangling => exact List.nodup_nil
  | up hsome hup ih => exact List.nodup_cons.mpr ⟨fun hmem => hacyclic _ (hup.transGen hsome hmem), ih⟩

theorem walkFrom_eq (h : Walk link o ks) {n : Nat} (hn : ks.length ≤ n) :
    walkFrom link n o = ks := by
  induction h generalizing n with
  | root => cases n <;> rfl
  | dangling hnone =>
    cases n with
    | zero => rfl
    | succ n => rw [walkFrom, hnone]
  | @up k o ks hsome _ ih =>
    cases n with
    | zero => exact absurd hn (by simp)
    | succ n =>
      rw [walkFrom, hsome]
      exact congrArg (k :: ·) (ih (Nat.le_of_succ_le_succ hn))

/-- An entry without children is in no chain from another link. -/
theorem not_mem (h : Walk link o ks) (hchild : ∀ k, link k ≠ some (some g))
    (ho : o ≠ some g) : g ∉ ks := by
  induction h with
  | root => exact List.not_mem_nil
  | dangling => exact List.not_mem_nil
  | @up k o ks hsome _ ih =>
    intro hmem
    rcases List.mem_cons.mp hmem with rfl | hmem
    · exact ho rfl
    · exact ih (fun heq => hchild k (heq ▸ hsome)) hmem

end Walk

/-- `n` steps walk the whole chain, unless it has more than `n` entries. -/
theorem walk_or_more (link : κ → Option (Option κ)) (n : Nat) (o : Option κ) :
    Walk link o (walkFrom link n o) ∨
      ∃ ks : List κ, ks.length = n + 1 ∧ (∀ k ∈ ks, link k ≠ none) ∧
        ks.Pairwise (fun a b => Relation.TransGen (Parent link) a b) ∧
        ∀ k, link k = some o → ∀ a ∈ ks, Relation.TransGen (Parent link) k a := by
  induction n generalizing o with
  | zero =>
    cases o with
    | none => exact .inl .root
    | some k =>
      cases hlink : link k with
      | none => exact .inl (.dangling hlink)
      | some o =>
        refine .inr ⟨[k], rfl, ?_, List.pairwise_singleton .., fun c hc a ha => ?_⟩
        · simp [hlink]
        · obtain rfl := List.mem_singleton.mp ha
          exact .single hc
  | succ n ih =>
    cases o with
    | none => exact .inl .root
    | some k =>
      cases hlink : link k with
      | none =>
        rw [walkFrom, hlink]
        exact .inl (.dangling hlink)
      | some o =>
        rcases ih o with hwalk | ⟨ks, hlength, hentries, hpairs, habove⟩
        · rw [walkFrom, hlink]
          exact .inl (.up hlink hwalk)
        · refine .inr ⟨k :: ks, by rw [List.length_cons, hlength], fun k' hk' => ?_,
            List.pairwise_cons.mpr ⟨habove k hlink, hpairs⟩, fun c hc a ha => ?_⟩
          · rcases List.mem_cons.mp hk' with rfl | hk'
            · rw [hlink]
              exact Option.some_ne_none _
            · exact hentries k' hk'
          · rcases List.mem_cons.mp ha with rfl | ha
            · exact .single hc
            · exact .head hc (habove k hlink a ha)

/-- Without circles a chain has no more entries than there are. -/
theorem walkFrom_walk (hacyclic : Acyclic link) {keys : List κ} (hkeys : ∀ k, link k ≠ none → k ∈ keys)
    {n : Nat} (hn : keys.length ≤ n) (o : Option κ) : Walk link o (walkFrom link n o) := by
  rcases walk_or_more link n o with hwalk | ⟨ks, hlength, hentries, hpairs, -⟩
  · exact hwalk
  · have hnodup : ks.Nodup := hpairs.imp fun {a b} hab heq => by
      subst heq
      exact hacyclic a hab
    have hsub : ks ⊆ keys := fun k hk => hkeys k (hentries k hk)
    have hle : ks.length ≤ keys.length := (List.subperm_of_subset hnodup hsub).length_le
    omega

/-! ### Taking one entry out -/

section

variable [DecidableEq κ] {link' : κ → Option (Option κ)} {g : κ} {og o : Option κ} {ks : List κ}

/-- The links where some of `g`'s children already go to `g`'s parent `og`. -/
def Moved (link link' : κ → Option (Option κ)) (g : κ) (og : Option κ) : Prop :=
  ∀ k, link' k = link k ∨ k ≠ g ∧ link k = some (some g) ∧ link' k = some og

/-- Each chain is as before, or `g` alone is left out of it. -/
theorem Walk.moved (hacyclic : Acyclic link) (hg : link g = some og) (hmoved : Moved link link' g og)
    (h : Walk link o ks) : Walk link' o ks ∨ Walk link' o (ks.filter (· ≠ g)) := by
  induction h with
  | root => exact .inl .root
  | @dangling k hnone =>
    rcases hmoved k with hsame | ⟨-, hchild, -⟩
    · exact .inl (.dangling (hsame.trans hnone))
    · exact nomatch hnone.symm.trans hchild
  | @up k o ks hsome hup ih =>
    have hnot : g ∉ ks → ks.filter (· ≠ g) = ks := fun hmem =>
      List.filter_eq_self.mpr fun x hx => decide_eq_true fun heq => hmem (heq ▸ hx)
    by_cases hk : k = g
    · subst hk
      have hmem : k ∉ ks := fun hmem => hacyclic k (hup.transGen hsome hmem)
      rw [hnot hmem, or_self] at ih
      rcases hmoved k with hsame | ⟨hne, -, -⟩
      · exact .inl (.up (hsame.trans hsome) ih)
      · exact absurd rfl hne
    · rw [List.filter_cons_of_pos (by simpa using hk)]
      rcases hmoved k with hsame | ⟨-, hchild, hmovedk⟩
      · exact ih.imp (.up (hsame.trans hsome)) (.up (hsame.trans hsome))
      · -- `k` was `g`'s child and now is its parent's.
        obtain rfl : o = some g := Option.some.inj (hsome.symm.trans hchild)
        cases hup with
        | dangling hnone => exact nomatch hg.symm.trans hnone
        | @up _ o ks hg' hup =>
          obtain rfl : o = og := Option.some.inj (hg'.symm.trans hg)
          have hmem : g ∉ ks := fun hmem => hacyclic g (hup.transGen hg hmem)
          have hfilter : ks.filter (· ≠ g) = ks := List.filter_eq_self.mpr fun x hx =>
            decide_eq_true fun heq => hmem (heq ▸ hx)
          rw [List.filter_cons_of_neg (by simp), hfilter] at ih ⊢
          have hrest : Walk link' o ks := by
            have hg'' : link' g = some o := by
              rcases hmoved g with hsame | ⟨hne, -, -⟩
              · exact hsame.trans hg
              · exact absurd rfl hne
            rcases ih with hwalk | hwalk
            · cases hwalk with
              | up hlink hwalk =>
                obtain rfl := Option.some.inj (hlink.symm.trans hg'')
                exact hwalk
            · cases hwalk with
              | dangling hnone => exact nomatch hg''.symm.trans hnone
              | up => exact absurd List.mem_cons_self hmem
          exact .inr (.up hmovedk hrest)

/-- Taking out an entry leaves the chains that it is not in. -/
theorem Walk.taken (h : Walk link o ks) (hgone : link' g = none)
    (hsame : ∀ k, k ≠ g → link' k = link k) (hnot : g ∉ ks) : Walk link' o ks := by
  induction h with
  | root => exact .root
  | @dangling k hnone =>
    by_cases hk : k = g
    · exact .dangling (hk ▸ hgone)
    · exact .dangling ((hsame k hk).trans hnone)
  | @up k o ks hsome hup ih =>
    have hne : k ≠ g := fun heq => hnot (heq ▸ List.mem_cons_self)
    exact .up ((hsame k hne).trans hsome) (ih fun hmem => hnot (List.mem_cons_of_mem _ hmem))

end

end Bmac.Base.Forest
