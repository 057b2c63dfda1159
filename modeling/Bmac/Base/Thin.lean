import Mathlib.Data.Set.Card
import Bmac.Base.Rule

/-!
# Thinning to the newest and the newest of each slot

Of a history in a linear order, newer items above older ones: the newest `recent` stay, and while they
are young the newest of each slot. `Thinning.rule` makes it a `Rule`, so thinning again and again loses
nothing; `mem_kept` is the computation over the list of items, newest first.
-/

namespace Bmac.Base

structure Thinning (τ α δ : Type) [Preorder τ] [LinearOrder α] where
  recent : Nat
  slot : α → δ
  young : τ → α → Bool
  young_of_le : ∀ {t a b}, a ≤ b → young t a → young t b
  young_earlier : ∀ {t t' a}, t ≤ t' → young t' a → young t a

namespace Thinning

variable {τ α δ : Type} [Preorder τ] [LinearOrder α] (R : Thinning τ α δ)

/-- `x` is one of the newest of `S`, or is young and the newest of its slot. -/
def keep (t : τ) (S : Set α) : Set α :=
  {x ∈ S | {y ∈ S | x < y}.ncard < R.recent ∨
    R.young t x ∧ ∀ y ∈ S, R.slot y = R.slot x → y ≤ x}

variable {R} {t t' : τ} {S T : Set α} {x a : α}

/-- With fewer than `recent` newer ones among those held, `x` has no more in the whole history: the
newest one that isn't held would itself be among the newest. -/
theorem recent_of_held (hS : S.Finite) (hkeep : R.keep t S ⊆ T) (hTS : T ⊆ S)
    (h : {y ∈ T | x < y}.ncard < R.recent) : {y ∈ S | x < y}.ncard < R.recent := by
  have hfinite : {y ∈ T | x < y}.Finite := (hS.subset hTS).subset fun _ hy => hy.1
  have hheld : {y ∈ S | x < y} ⊆ {y ∈ T | x < y} := by
    by_contra hnot
    obtain ⟨y, hy, hyT⟩ := Set.not_subset.mp hnot
    have hlost : {z ∈ S | x < z ∧ z ∉ T}.Finite := hS.subset fun z hz => hz.1
    obtain ⟨m, ⟨hmS, hxm, hmT⟩, hmax⟩ := Set.exists_max_image _ id hlost
      ⟨y, hy.1, hy.2, fun hyt => hyT ⟨hyt, hy.2⟩⟩
    have hnewer : {z ∈ S | m < z} ⊆ {z ∈ T | x < z} := by
      intro z hz
      refine ⟨?_, hxm.trans hz.2⟩
      by_contra hzT
      exact absurd (hmax z ⟨hz.1, hxm.trans hz.2, hzT⟩) (not_le.mpr hz.2)
    exact hmT (hkeep ⟨hmS, .inl ((Set.ncard_le_ncard hnewer hfinite).trans_lt h)⟩)
  exact (Set.ncard_le_ncard hheld hfinite).trans_lt h

theorem keep_outcast (hS : S.Finite) (hkeep : R.keep t S ⊆ T) (hTS : T ⊆ S) :
    R.keep t T = R.keep t S := by
  ext x
  constructor
  · rintro ⟨hx, hrecent | ⟨hyoung, hnewest⟩⟩
    · exact ⟨hTS hx, .inl (recent_of_held hS hkeep hTS hrecent)⟩
    · -- the newest of the slot in the whole history is kept, so it is `x`
      have hslot : {y ∈ S | R.slot y = R.slot x}.Finite := hS.subset fun y hy => hy.1
      obtain ⟨m, ⟨hmS, hm⟩, hmax⟩ := Set.exists_max_image _ id hslot ⟨x, hTS hx, rfl⟩
      have hmkept : m ∈ R.keep t S := by
        refine ⟨hmS, .inr ⟨R.young_of_le (hmax x ⟨hTS hx, rfl⟩) hyoung, fun y hy hys => ?_⟩⟩
        exact hmax y ⟨hy, hys.trans hm⟩
      obtain rfl : m = x := le_antisymm (hnewest m (hkeep hmkept) hm) (hmax x ⟨hTS hx, rfl⟩)
      exact hmkept
  · intro h
    have hx : x ∈ T := hkeep h
    obtain ⟨-, hrecent | ⟨hyoung, hnewest⟩⟩ := h
    · have hle : {y ∈ T | x < y}.ncard ≤ {y ∈ S | x < y}.ncard :=
        Set.ncard_le_ncard (fun y hy => ⟨hTS hy.1, hy.2⟩) (hS.subset fun y hy => hy.1)
      exact ⟨hx, .inl (hle.trans_lt hrecent)⟩
    · exact ⟨hx, .inr ⟨hyoung, fun y hy => hnewest y (hTS hy)⟩⟩

theorem keep_antitone (hle : t ≤ t') : R.keep t' S ⊆ R.keep t S := by
  rintro x ⟨hx, hrecent | ⟨hyoung, hnewest⟩⟩
  · exact ⟨hx, .inl hrecent⟩
  · exact ⟨hx, .inr ⟨R.young_earlier hle hyoung, hnewest⟩⟩

theorem keep_grow (hS : S.Finite) (hkeep : R.keep t S ⊆ T) :
    R.keep t (insert a S) ⊆ insert a T := by
  rintro x ⟨rfl | hx, h⟩
  · exact Set.mem_insert ..
  · refine .inr (hkeep ⟨hx, h.imp (fun hrecent => ?_) fun ⟨hyoung, hnewest⟩ => ?_⟩)
    · have hle : {y ∈ S | x < y}.ncard ≤ {y ∈ insert a S | x < y}.ncard :=
        Set.ncard_le_ncard (fun y hy => ⟨.inr hy.1, hy.2⟩)
          ((hS.insert a).subset fun y hy => hy.1)
      exact hle.trans_lt hrecent
    · exact ⟨hyoung, fun y hy => hnewest y (.inr hy)⟩

variable (R)

def rule : Rule τ α where
  Ok := Set.Finite
  keep := R.keep
  keep_subset _ _ := fun _ h => h.1
  outcast := keep_outcast
  antitone := keep_antitone
  Fits _ _ _ := True
  ok_empty := Set.finite_empty
  ok_insert hS _ _ := hS.insert _
  grow hS hkeep _ _ := keep_grow hS hkeep

/-! ### Over a list, newest first -/

variable [DecidableEq δ]

/-- The first young item of each slot that is not among `seen`. -/
def firsts (t : τ) : List δ → List α → List α
  | _, [] => []
  | seen, a :: rest =>
    if R.young t a ∧ R.slot a ∉ seen then a :: firsts t (R.slot a :: seen) rest
    else firsts t seen rest

def kept (t : τ) (items : List α) : List α := items.take R.recent ++ R.firsts t [] items

variable {R}

variable {items : List α}

theorem mem_take_iff (h : items.Pairwise (· > ·)) (n : Nat) :
    x ∈ items.take n ↔ x ∈ items ∧ {y ∈ {y | y ∈ items} | x < y}.ncard < n := by
  induction items generalizing n with
  | nil => simp
  | cons a rest ih =>
    obtain ⟨ha, hrest⟩ := List.pairwise_cons.mp h
    cases n with
    | zero => simp
    | succ n =>
      rw [List.take_succ_cons, List.mem_cons, List.mem_cons, ih hrest]
      by_cases hx : x = a
      · subst hx
        have hempty : {y ∈ {y | y ∈ x :: rest} | x < y} = ∅ := by
          refine Set.eq_empty_of_forall_notMem fun y hy => ?_
          rcases List.mem_cons.mp hy.1 with rfl | hmem
          · exact lt_irrefl _ hy.2
          · exact lt_asymm (ha y hmem) hy.2
        rw [hempty, Set.ncard_empty]
        simp
      · have hmem : x ∈ rest → {y ∈ {y | y ∈ a :: rest} | x < y} =
            insert a {y ∈ {y | y ∈ rest} | x < y} := by
          intro hxr
          ext y
          constructor
          · rintro ⟨hy, hlt⟩
            exact (List.mem_cons.mp hy).imp id fun hy => ⟨hy, hlt⟩
          · rintro (rfl | ⟨hy, hlt⟩)
            · exact ⟨List.mem_cons_self, ha x hxr⟩
            · exact ⟨List.mem_cons_of_mem _ hy, hlt⟩
        have hnot : a ∉ {y ∈ {y | y ∈ rest} | x < y} := fun hy => lt_irrefl _ (ha a hy.1)
        have hfinite : {y ∈ {y | y ∈ rest} | x < y}.Finite :=
          (List.finite_toSet rest).subset fun y hy => hy.1
        constructor
        · rintro (rfl | ⟨hxr, hlt⟩)
          · exact absurd rfl hx
          · rw [hmem hxr, Set.ncard_insert_of_notMem hnot hfinite]
            exact ⟨.inr hxr, by omega⟩
        · rintro ⟨rfl | hxr, hlt⟩
          · exact absurd rfl hx
          · rw [hmem hxr, Set.ncard_insert_of_notMem hnot hfinite] at hlt
            exact .inr ⟨hxr, by omega⟩

theorem mem_firsts_iff (h : items.Pairwise (· > ·)) (seen : List δ) :
    x ∈ R.firsts t seen items ↔ x ∈ items ∧ R.young t x ∧ R.slot x ∉ seen ∧
      ∀ y ∈ items, R.slot y = R.slot x → y ≤ x := by
  induction items generalizing seen with
  | nil => simp [firsts]
  | cons a rest ih =>
    obtain ⟨ha, hrest⟩ := List.pairwise_cons.mp h
    have hold : ∀ y ∈ rest, ¬ a ≤ y := fun y hy => not_le.mpr (ha y hy)
    unfold firsts
    split
    · rename_i hcond
      rw [List.mem_cons, ih hrest]
      constructor
      · rintro (rfl | ⟨hx, hyoung, hseen, hnewest⟩)
        · refine ⟨List.mem_cons_self, hcond.1, hcond.2, fun y hy _ => ?_⟩
          rcases List.mem_cons.mp hy with rfl | hy
          · exact le_rfl
          · exact (ha y hy).le
        · rw [List.mem_cons, not_or] at hseen
          refine ⟨List.mem_cons_of_mem _ hx, hyoung, hseen.2, fun y hy hslot => ?_⟩
          rcases List.mem_cons.mp hy with rfl | hy
          · exact absurd hslot.symm hseen.1
          · exact hnewest y hy hslot
      · rintro ⟨hx, hyoung, hseen, hnewest⟩
        rcases List.mem_cons.mp hx with rfl | hx
        · exact .inl rfl
        · refine .inr ⟨hx, hyoung, ?_, fun y hy => hnewest y (List.mem_cons_of_mem _ hy)⟩
          rw [List.mem_cons, not_or]
          exact ⟨fun hslot => hold x hx (hnewest a List.mem_cons_self hslot.symm), hseen⟩
    · rename_i hcond
      rw [ih hrest]
      constructor
      · rintro ⟨hx, hyoung, hseen, hnewest⟩
        refine ⟨List.mem_cons_of_mem _ hx, hyoung, hseen, fun y hy hslot => ?_⟩
        rcases List.mem_cons.mp hy with rfl | hy
        · exact absurd ⟨R.young_of_le (ha x hx).le hyoung, hslot ▸ hseen⟩ hcond
        · exact hnewest y hy hslot
      · rintro ⟨hx, hyoung, hseen, hnewest⟩
        rcases List.mem_cons.mp hx with rfl | hx
        · exact absurd ⟨hyoung, hseen⟩ hcond
        · exact ⟨hx, hyoung, hseen, fun y hy => hnewest y (List.mem_cons_of_mem _ hy)⟩

theorem mem_kept (h : items.Pairwise (· > ·)) :
    x ∈ R.kept t items ↔ x ∈ R.keep t {y | y ∈ items} := by
  rw [kept, List.mem_append, mem_take_iff h, mem_firsts_iff h]
  constructor
  · rintro (⟨hx, hrecent⟩ | ⟨hx, hyoung, -, hnewest⟩)
    · exact ⟨hx, .inl hrecent⟩
    · exact ⟨hx, .inr ⟨hyoung, hnewest⟩⟩
  · rintro ⟨hx, hrecent | ⟨hyoung, hnewest⟩⟩
    · exact .inl ⟨hx, hrecent⟩
    · exact .inr ⟨hx, hyoung, List.not_mem_nil, hnewest⟩

end Thinning

end Bmac.Base
