import Mathlib.Tactic

/-!
# Replacing in a list

Each hit of a list, `len` elements long, is replaced by `new`, from left to right. What shares no end
with `new` (`Apart`) is in the result only if it was there before, and what is always a hit is gone.
-/

namespace Bmac.Base

variable {α β : Type}

/-- The replacement, after `skip` more elements; `hit` is asked of the whole rest. -/
def replaceBy (hit : List α → Bool) (len : Nat) (new : List α) : Nat → List α → List α
  | _, [] => []
  | skip + 1, _ :: xs => replaceBy hit len new skip xs
  | 0, x :: xs =>
    if hit (x :: xs) then new ++ replaceBy hit len new (len - 1) xs
    else x :: replaceBy hit len new 0 xs

theorem replaceBy_zero_cons (hit : List α → Bool) (len : Nat) (new : List α) (x : α) (xs : List α) :
    replaceBy hit len new 0 (x :: xs) =
      if hit (x :: xs) then new ++ replaceBy hit len new (len - 1) xs
      else x :: replaceBy hit len new 0 xs := rfl

/-- Neither end of `s` is a part of an end of `new`, and neither is inside the other. -/
structure Apart (new s : List α) : Prop where
  start : ∀ a ∈ new.tails, a ≠ [] → ¬ a <+: s
  ending : ∀ a ∈ new.inits, a ≠ [] → ¬ a <:+ s
  inside : ¬ s <:+: new
  around : ¬ new <:+: s

instance [DecidableEq α] (new s : List α) : Decidable (Apart new s) :=
  decidable_of_iff ((∀ a ∈ new.tails, a ≠ [] → ¬ a <+: s) ∧ (∀ a ∈ new.inits, a ≠ [] → ¬ a <:+ s) ∧
      ¬ s <:+: new ∧ ¬ new <:+: s)
    ⟨fun ⟨h1, h2, h3, h4⟩ => ⟨h1, h2, h3, h4⟩, fun h => ⟨h.start, h.ending, h.inside, h.around⟩⟩

/-- Lists without a common element are apart. -/
theorem Apart.of_disjoint {new s : List α} (hs : s ≠ []) (hnew : new ≠ [])
    (h : ∀ x ∈ s, x ∉ new) : Apart new s where
  start a ha hne hprefix := by
    obtain ⟨x, hx⟩ := List.exists_mem_of_ne_nil a hne
    exact h x (List.IsPrefix.subset hprefix hx) (((List.mem_tails a new).mp ha).subset hx)
  ending a ha hne hsuffix := by
    obtain ⟨x, hx⟩ := List.exists_mem_of_ne_nil a hne
    exact h x (hsuffix.subset hx) (((List.mem_inits a new).mp ha).subset hx)
  inside hinfix := by
    obtain ⟨x, hx⟩ := List.exists_mem_of_ne_nil s hs
    exact h x hx (List.IsInfix.subset hinfix hx)
  around hinfix := by
    obtain ⟨x, hx⟩ := List.exists_mem_of_ne_nil new hnew
    exact h x (List.IsInfix.subset hinfix hx) hx

section

variable {hit : List α → Bool} {len : Nat} {new s : List α}

theorem infix_of_infix_new_append {rest : List α} (ha : Apart new s) (h : s <:+: new ++ rest) :
    s <:+: rest := by
  rcases List.infix_append_iff_ne_nil.mp h with hnew | hrest | ⟨a, b, hne, -, rfl, hsuffix, -⟩
  · exact absurd hnew ha.inside
  · exact hrest
  · exact absurd (List.prefix_append a b) (ha.start a ((List.mem_tails a new).mpr hsuffix) hne)

/-- An end of `s` that the result begins with was there before. -/
theorem prefix_of_replaceBy (ha : Apart new s) (xs : List α) :
    ∀ u, u <:+ s → u <+: replaceBy hit len new 0 xs → u <+: xs := by
  induction xs with
  | nil =>
    intro u _ hu
    exact hu
  | cons x xs ih =>
    intro u hus hu
    rw [replaceBy_zero_cons] at hu
    split at hu
    · -- The end of `s` would begin with a part of `new`, or with all of it.
      rcases List.prefix_or_prefix_of_prefix hu (List.prefix_append new _) with hnew | hall
      · by_cases hne : u = []
        · rw [hne]
          exact List.nil_prefix
        · exact absurd hus (ha.ending u ((List.mem_inits u new).mpr hnew) hne)
      · exact absurd (hall.isInfix.trans hus.isInfix) ha.around
    · rcases List.prefix_cons_iff.mp hu with rfl | ⟨v, rfl, hv⟩
      · exact List.nil_prefix
      · exact List.cons_prefix_cons.mpr ⟨rfl, ih v ((List.suffix_cons x v).trans hus) hv⟩

theorem infix_of_replaceBy (ha : Apart new s) (skip : Nat) (xs : List α)
    (h : s <:+: replaceBy hit len new skip xs) : s <:+: xs := by
  induction xs generalizing skip with
  | nil =>
    cases skip with
    | zero => exact h
    | succ skip => exact h
  | cons x xs ih =>
    cases skip with
    | succ skip => exact List.infix_cons (ih skip h)
    | zero =>
      rw [replaceBy_zero_cons] at h
      split at h
      · exact List.infix_cons (ih _ (infix_of_infix_new_append ha h))
      · rcases List.infix_cons_iff.mp h with hprefix | hinfix
        · rcases List.prefix_cons_iff.mp hprefix with rfl | ⟨u, rfl, hu⟩
          · exact List.nil_infix
          · have hu' := prefix_of_replaceBy ha xs u (List.suffix_cons x u) hu
            exact (List.cons_prefix_cons.mpr ⟨rfl, hu'⟩).isInfix
        · exact List.infix_cons (ih 0 hinfix)

theorem not_infix_replaceBy (ha : Apart new s) (hhit : ∀ xs, s <+: xs → hit xs = true) (skip : Nat)
    (xs : List α) : ¬ s <:+: replaceBy hit len new skip xs := by
  have hne : s ≠ [] := fun hnil => ha.inside (hnil ▸ List.nil_infix)
  induction xs generalizing skip with
  | nil =>
    intro h
    cases skip with
    | zero => exact hne (List.infix_nil.mp h)
    | succ skip => exact hne (List.infix_nil.mp h)
  | cons x xs ih =>
    cases skip with
    | succ skip => exact ih skip
    | zero =>
      intro h
      rw [replaceBy_zero_cons] at h
      split at h
      · exact ih _ (infix_of_infix_new_append ha h)
      · rename_i hmiss
        rcases List.infix_cons_iff.mp h with hprefix | hinfix
        · rcases List.prefix_cons_iff.mp hprefix with hnil | ⟨u, hs, hu⟩
          · exact hne hnil
          · have hus : u <:+ s := hs ▸ List.suffix_cons x u
            have hu' := prefix_of_replaceBy ha xs u hus hu
            refine hmiss (hhit _ ?_)
            rw [hs]
            exact List.cons_prefix_cons.mpr ⟨rfl, hu'⟩
        · exact ih 0 hinfix

theorem replaceBy_of_miss {xs : List α} (h : ∀ suffix, suffix <:+ xs → suffix ≠ [] → hit suffix = false) :
    replaceBy hit len new 0 xs = xs := by
  induction xs with
  | nil => rfl
  | cons x xs ih =>
    rw [replaceBy_zero_cons, if_neg, ih fun suffix hs => h suffix (hs.trans (List.suffix_cons x xs))]
    rw [h (x :: xs) List.suffix_rfl (List.cons_ne_nil x xs)]
    exact Bool.false_ne_true

theorem infix_replaceBy {xs suffix : List α} (hs : suffix <:+ xs) (hne : suffix ≠ [])
    (h : hit suffix = true) : new <:+: replaceBy hit len new 0 xs := by
  induction xs with
  | nil => exact absurd (List.suffix_nil.mp hs) hne
  | cons x xs ih =>
    rw [replaceBy_zero_cons]
    split
    · exact List.infix_append_left
    · rename_i hmiss
      rcases List.suffix_cons_iff.mp hs with rfl | hs
      · exact absurd h hmiss
      · exact List.infix_cons (ih hs)

theorem map_replaceBy (f : β → α) (hit : List α → Bool) (new : List β) (skip : Nat) (ys : List β) :
    (replaceBy (fun ys => hit (ys.map f)) len new skip ys).map f =
      replaceBy hit len (new.map f) skip (ys.map f) := by
  induction ys generalizing skip with
  | nil =>
    cases skip with
    | zero => rfl
    | succ skip => rfl
  | cons y ys ih =>
    cases skip with
    | succ skip => exact ih skip
    | zero =>
      rw [List.map_cons, replaceBy_zero_cons, replaceBy_zero_cons, ← List.map_cons]
      split
      · rw [List.map_append, ih]
      · rw [List.map_cons, ih]

end

end Bmac.Base
