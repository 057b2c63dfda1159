import Mathlib.Tactic

/-!
# Lists compared as if padded

Two lists are compared element by element, the shorter one as if `pad` went on after its end. It is a
total preorder, and what follows two terminated prefixes decides where these are the same
(`cmpPadded_terminated`).
-/

namespace Bmac.Base

open Std

variable {α : Type} [Ord α] {pad : α}

def cmpEnded (pad : α) : List α → Ordering
  | [] => .eq
  | y :: ys => (compare pad y).then (cmpEnded pad ys)

def cmpPadded (pad : α) : List α → List α → Ordering
  | [], ys => cmpEnded pad ys
  | x :: xs, ys => (compare x (ys.headD pad)).then (cmpPadded pad xs ys.tail)

theorem cmpPadded_nil_cons (y : α) (ys : List α) :
    cmpPadded pad [] (y :: ys) = (compare pad y).then (cmpPadded pad [] ys) := rfl

theorem cmpPadded_cons_nil (x : α) (xs : List α) :
    cmpPadded pad (x :: xs) [] = (compare x pad).then (cmpPadded pad xs []) := rfl

theorem cmpPadded_cons (x y : α) (xs ys : List α) :
    cmpPadded pad (x :: xs) (y :: ys) = (compare x y).then (cmpPadded pad xs ys) := rfl

section

variable [TransOrd α]

theorem cmpPadded_step (xs ys : List α) : cmpPadded pad xs ys =
    (compare (xs.headD pad) (ys.headD pad)).then (cmpPadded pad xs.tail ys.tail) := by
  cases xs with
  | cons x xs => rfl
  | nil =>
    cases ys with
    | nil =>
      have hpad : compare pad pad = .eq := ReflCmp.compare_self
      exact (congrArg (·.then Ordering.eq) hpad).symm
    | cons y ys => rfl

theorem cmpPadded_swap (xs ys : List α) : cmpPadded pad xs ys = (cmpPadded pad ys xs).swap := by
  obtain ⟨n, hx, hy⟩ : ∃ n, xs.length ≤ n ∧ ys.length ≤ n := ⟨xs.length + ys.length, by omega, by omega⟩
  induction n generalizing xs ys with
  | zero =>
    obtain rfl := List.length_eq_zero_iff.mp (Nat.le_zero.mp hx)
    obtain rfl := List.length_eq_zero_iff.mp (Nat.le_zero.mp hy)
    rfl
  | succ n ih =>
    have htail := ih xs.tail ys.tail (by rw [List.length_tail]; omega) (by rw [List.length_tail]; omega)
    rw [cmpPadded_step xs, cmpPadded_step ys, Ordering.swap_then, ← OrientedCmp.eq_swap, htail]

theorem cmpPadded_trans {xs ys zs : List α} (h : (cmpPadded pad xs ys).isLE) (h' : (cmpPadded pad ys zs).isLE) :
    (cmpPadded pad xs zs).isLE := by
  obtain ⟨n, hx, hy, hz⟩ : ∃ n, xs.length ≤ n ∧ ys.length ≤ n ∧ zs.length ≤ n :=
    ⟨xs.length + ys.length + zs.length, by omega, by omega, by omega⟩
  induction n generalizing xs ys zs with
  | zero =>
    obtain rfl := List.length_eq_zero_iff.mp (Nat.le_zero.mp hx)
    obtain rfl := List.length_eq_zero_iff.mp (Nat.le_zero.mp hz)
    rfl
  | succ n ih =>
    rw [cmpPadded_step, Ordering.isLE_then_iff_or] at h h' ⊢
    rcases h with hlt | ⟨heq, h⟩
    · rcases h' with hlt' | ⟨heq', -⟩
      · exact .inl (TransCmp.lt_trans hlt hlt')
      · exact .inl (TransCmp.lt_of_lt_of_eq hlt heq')
    · rcases h' with hlt' | ⟨heq', h'⟩
      · exact .inl (TransCmp.lt_of_eq_of_lt heq hlt')
      · refine .inr ⟨TransCmp.eq_trans heq heq', ih h h' ?_ ?_ ?_⟩
        all_goals
          rw [List.length_tail]
          omega

instance : TransCmp (cmpPadded pad) where
  eq_swap := cmpPadded_swap _ _
  isLE_trans := cmpPadded_trans

theorem cmpPadded_append (ps xs : List α) : cmpPadded pad (ps ++ xs) ps = cmpPadded pad xs [] := by
  induction ps with
  | nil => rfl
  | cons p ps ih =>
    have hp : compare p p = .eq := ReflCmp.compare_self
    rw [List.cons_append, cmpPadded_cons, hp, ih]
    rfl

/-- Prefixes without the pad, each with one after it, are compared first. -/
theorem cmpPadded_terminated {ps qs : List α} (hp : ∀ x ∈ ps, compare x pad ≠ .eq)
    (hq : ∀ y ∈ qs, compare y pad ≠ .eq) (xs ys : List α) :
    cmpPadded pad (ps ++ pad :: xs) (qs ++ pad :: ys) = (cmpPadded pad ps qs).then (cmpPadded pad xs ys) := by
  induction ps generalizing qs with
  | nil =>
    cases qs with
    | nil =>
      have hpad : compare pad pad = .eq := ReflCmp.compare_self
      rw [List.nil_append, List.nil_append, cmpPadded_cons, hpad]
      rfl
    | cons y qs =>
      have hne : compare pad y ≠ .eq := fun h => hq y List.mem_cons_self (OrientedCmp.eq_symm h)
      rw [List.nil_append, List.cons_append, cmpPadded_cons, cmpPadded_nil_cons]
      cases hcmp : compare pad y with
      | eq => exact absurd hcmp hne
      | lt => rfl
      | gt => rfl
  | cons x ps ih =>
    cases qs with
    | nil =>
      rw [List.nil_append, List.cons_append, cmpPadded_cons, cmpPadded_cons_nil]
      cases hcmp : compare x pad with
      | eq => exact absurd hcmp (hp x List.mem_cons_self)
      | lt => rfl
      | gt => rfl
    | cons y qs =>
      rw [List.cons_append, List.cons_append, cmpPadded_cons, cmpPadded_cons, Ordering.then_assoc,
        ih (fun x hx => hp x (List.mem_cons_of_mem _ hx)) fun y hy => hq y (List.mem_cons_of_mem _ hy)]

end

/-- Lists without the pad that compare as equal are equal. -/
theorem cmpPadded_eq_iff [TransOrd α] [LawfulEqOrd α] {ps qs : List α} (hp : pad ∉ ps) (hq : pad ∉ qs) :
    cmpPadded pad ps qs = .eq ↔ ps = qs := by
  induction ps generalizing qs with
  | nil =>
    cases qs with
    | nil => exact ⟨fun _ => rfl, fun _ => rfl⟩
    | cons y qs =>
      rw [cmpPadded_nil_cons, Ordering.then_eq_eq, LawfulEqCmp.compare_eq_iff_eq]
      constructor
      · rintro ⟨rfl, -⟩
        exact absurd List.mem_cons_self hq
      · intro h
        cases h
  | cons x ps ih =>
    cases qs with
    | nil =>
      rw [cmpPadded_cons_nil, Ordering.then_eq_eq, LawfulEqCmp.compare_eq_iff_eq]
      constructor
      · rintro ⟨rfl, -⟩
        exact absurd List.mem_cons_self hp
      · intro h
        cases h
    | cons y qs =>
      have hps : pad ∉ ps := fun h => hp (List.mem_cons_of_mem x h)
      have hqs : pad ∉ qs := fun h => hq (List.mem_cons_of_mem y h)
      rw [cmpPadded_cons, Ordering.then_eq_eq, LawfulEqCmp.compare_eq_iff_eq, ih hps hqs, List.cons.injEq]

end Bmac.Base
