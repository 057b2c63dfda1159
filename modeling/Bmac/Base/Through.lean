import Mathlib.Tactic

/-!
# What holds at every point of a list of steps

`Through f P a ls`: `P` holds of `a` and after each of the steps `ls`, so also where they are broken
off.
-/

namespace Bmac.Base

variable {σ ι : Type} {f : σ → ι → σ} {P Q : σ → Prop} {a : σ} {l : ι} {ls ms : List ι}

def Through (f : σ → ι → σ) (P : σ → Prop) (a : σ) (ls : List ι) : Prop :=
  ∀ k, P ((ls.take k).foldl f a)

theorem through_nil : Through f P a [] ↔ P a := by
  simp [Through]

theorem through_cons : Through f P a (l :: ls) ↔ P a ∧ Through f P (f a l) ls := by
  constructor
  · exact fun h => ⟨h 0, fun k => h (k + 1)⟩
  · rintro ⟨h0, h⟩ k
    cases k with
    | zero => exact h0
    | succ k => exact h k

namespace Through

theorem start (h : Through f P a ls) : P a := h 0

theorem finish (h : Through f P a ls) : P (ls.foldl f a) := by
  have hall := h ls.length
  rwa [List.take_length] at hall

theorem append (h : Through f P a ls) (h' : Through f P (ls.foldl f a) ms) :
    Through f P a (ls ++ ms) := by
  induction ls generalizing a with
  | nil => exact h'
  | cons l ls ih =>
    obtain ⟨h0, h⟩ := through_cons.mp h
    exact through_cons.mpr ⟨h0, ih h h'⟩

theorem single (h : P a) (h' : P (f a l)) : Through f P a [l] :=
  through_cons.mpr ⟨h, through_nil.mpr h'⟩

theorem of_step (h : P a) (hstep : ∀ l ∈ ls, ∀ s, P s → P (f s l)) : Through f P a ls := by
  induction ls generalizing a with
  | nil => exact through_nil.mpr h
  | cons l ls ih =>
    refine through_cons.mpr ⟨h, ih (hstep l (by simp) a h) fun m hm => ?_⟩
    exact hstep m (List.mem_cons_of_mem _ hm)

/-- What two steps leave together holds at every point but between them. -/
theorem skip {x y : ι} (h : Through f P a ls) (h' : Through f P (f (f (ls.foldl f a) x) y) ms)
    {k : ℕ} (hk : k ≠ ls.length + 1) : P (((ls ++ x :: y :: ms).take k).foldl f a) := by
  rcases Nat.lt_or_ge ls.length k with hlt | hle
  · obtain ⟨j, rfl⟩ : ∃ j, k = ls.length + (j + 2) := ⟨k - ls.length - 2, by omega⟩
    rw [List.take_append, List.take_of_length_le (by omega), Nat.add_sub_cancel_left,
      List.foldl_append]
    exact h' j
  · rw [List.take_append_of_le_length hle]
    exact h k

theorem mono (h : Through f P a ls) (hPQ : ∀ s, P s → Q s) : Through f Q a ls :=
  fun k => hPQ _ (h k)

end Through

end Bmac.Base
