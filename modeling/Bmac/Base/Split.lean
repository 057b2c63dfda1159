import Mathlib.Tactic

/-!
# Components of a list

A list split at a separator into its components: when those of one list are the first ones of
another's.
-/

namespace Bmac.Base

variable {α : Type} {xs : List (List α)} {sep : List α}

theorem intercalate_append {ys : List (List α)} (hx : xs ≠ []) (hy : ys ≠ []) :
    sep.intercalate (xs ++ ys) = sep.intercalate xs ++ sep ++ sep.intercalate ys := by
  induction xs with
  | nil => exact absurd rfl hx
  | cons x xs ih =>
    rw [List.cons_append, List.intercalate_cons_of_ne_nil (by simp [hy])]
    by_cases h : xs = []
    · subst h
      simp
    · rw [ih h, List.intercalate_cons_of_ne_nil h]
      simp only [List.append_assoc]

theorem mem_intercalate {a : α} (h : a ∈ sep.intercalate xs) : a ∈ sep ∨ ∃ x ∈ xs, a ∈ x := by
  induction xs with
  | nil => simp at h
  | cons x xs ih =>
    by_cases hxs : xs = []
    · subst hxs
      exact .inr ⟨x, by simp, by simpa using h⟩
    · rw [List.intercalate_cons_of_ne_nil hxs, List.append_assoc, List.mem_append,
        List.mem_append] at h
      rcases h with h | h | h
      · exact .inr ⟨x, by simp, h⟩
      · exact .inl h
      · rcases ih h with hs | ⟨y, hy, ha⟩
        · exact .inl hs
        · exact .inr ⟨y, by simp [hy], ha⟩

theorem takeWhile_component [DecidableEq α] {c : α} {x : List α}
    (h : c ∉ x) : ((c :: sep).intercalate (x :: xs)).takeWhile (· ≠ c) = x := by
  have hx : ∀ a ∈ x, decide (a ≠ c) = true := by
    intro a ha
    rw [decide_eq_true_eq]
    rintro rfl
    exact h ha
  by_cases hxs : xs = []
  · subst hxs
    have hall := @List.takeWhile_append_of_pos _ _ _ [] hx
    simpa using hall
  · rw [List.intercalate_cons_of_ne_nil hxs, List.append_assoc, List.takeWhile_append_of_pos hx]
    simp

/-- Components without the separator's first element can be told from their intercalation. -/
theorem intercalate_injective {c : α} {ys : List (List α)} (hx : ∀ x ∈ xs, c ∉ x)
    (hy : ∀ y ∈ ys, c ∉ y) (hne : xs ≠ []) (hne' : ys ≠ [])
    (h : (c :: sep).intercalate xs = (c :: sep).intercalate ys) : xs = ys := by
  classical
  induction xs generalizing ys with
  | nil => exact absurd rfl hne
  | cons x xs ih =>
    cases ys with
    | nil => exact absurd rfl hne'
    | cons y ys =>
      have hxy : x = y := by
        rw [← takeWhile_component (hx x (by simp)), h, takeWhile_component (hy y (by simp))]
      subst hxy
      have hlen := congrArg List.length h
      by_cases hxs : xs = []
      · by_cases hys : ys = []
        · rw [hxs, hys]
        · rw [hxs, List.intercalate_cons_of_ne_nil hys] at hlen
          simp at hlen
      · by_cases hys : ys = []
        · rw [hys, List.intercalate_cons_of_ne_nil hxs] at hlen
          simp at hlen
        · rw [List.intercalate_cons_of_ne_nil hxs, List.intercalate_cons_of_ne_nil hys] at h
          rw [ih (fun z hz => hx z (by simp [hz])) (fun z hz => hy z (by simp [hz])) hxs hys
            (List.append_cancel_left h)]

theorem isPrefixOf?_eq_some [DecidableEq α] {x y t : List α} :
    x.isPrefixOf? y = some t ↔ y = x ++ t := by
  induction x generalizing y with
  | nil => simp [List.isPrefixOf?]
  | cons c x ih =>
    cases y with
    | nil => simp [List.isPrefixOf?]
    | cons d y =>
      rw [List.isPrefixOf?]
      by_cases h : c = d
      · simp [h, ih]
      · have h' : ¬ d = c := fun he => h he.symm
        simp [h, h']

/-- The components of `x` come first in `y` if `y` is `x`, or goes on after it with a separator. -/
theorem splitOn_isPrefix_iff [DecidableEq α] {sep : α} {x y : List α} :
    x.splitOn sep <+: y.splitOn sep ↔ y = x ∨ ∃ t, y = x ++ sep :: t := by
  constructor
  · rintro ⟨zs, hzs⟩
    have hx : [sep].intercalate (x.splitOn sep) = x := List.intercalate_splitOn sep
    have hy : [sep].intercalate (y.splitOn sep) = y := List.intercalate_splitOn sep
    by_cases h : zs = []
    · left
      rw [h, List.append_nil] at hzs
      rw [← hy, ← hzs, hx]
    · right
      refine ⟨[sep].intercalate zs, ?_⟩
      rw [← hzs, intercalate_append (List.splitOn_ne_nil _ _) h, hx] at hy
      rw [← hy]
      simp
  · rintro (rfl | ⟨t, rfl⟩)
    · exact List.prefix_rfl
    · rw [List.splitOn_append_cons_self]
      exact List.prefix_append _ _

end Bmac.Base
