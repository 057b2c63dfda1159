import Mathlib.Data.Set.Finite.Basic
import Bmac.Base.Run

/-!
# Keep rules and incremental pruning

A `Rule` says at each time which items of a history to keep. Two laws make pruning forgettable:
what isn't kept has no influence on what is (`outcast`), and what is kept later is kept earlier
(`antitone`). Under them, pruning again and again what is left holds, after each prune, exactly
what one prune of the whole history would (`Rule.pruned`).
-/

namespace Bmac.Base

structure Rule (τ α : Type) [Preorder τ] where
  /-- The histories the rule is for. -/
  Ok : Set α → Prop
  keep : τ → Set α → Set α
  keep_subset : ∀ t S, keep t S ⊆ S
  outcast : ∀ {t S T}, Ok S → keep t S ⊆ T → T ⊆ S → keep t T = keep t S
  antitone : ∀ {t t' S}, t ≤ t' → keep t' S ⊆ keep t S
  /-- `a` may join history `S` while `T` of it is held. -/
  Fits : Set α → Set α → α → Prop
  ok_empty : Ok ∅
  ok_insert : ∀ {S T a}, Ok S → T ⊆ S → Fits S T a → Ok (insert a S)
  grow : ∀ {t S T a}, Ok S → keep t S ⊆ T → T ⊆ S → Fits S T a →
    keep t (insert a S) ⊆ insert a T

namespace Rule

inductive Act (τ α : Type) where
  | add (a : α)
  | prune (t : τ)

/-- Everything ever added, and what is held of it. -/
structure Store (α : Type) where
  added : Set α
  held : Set α

variable {τ α : Type}

/-- The times of a run's prunes, in order. -/
def prunes : List (Act τ α) → List τ
  | [] => []
  | .add _ :: ls => prunes ls
  | .prune t :: ls => t :: prunes ls

theorem prunes_append (ls ms : List (Act τ α)) : prunes (ls ++ ms) = prunes ls ++ prunes ms := by
  induction ls with
  | nil => rfl
  | cons l ls ih => cases l <;> simp [prunes, ih]

variable [Preorder τ]

theorem sorted_snoc {ls : List (Act τ α)} {t : τ}
    (h : (prunes (ls ++ [.prune t])).Pairwise (· ≤ ·)) :
    (prunes ls).Pairwise (· ≤ ·) ∧ ∀ t' ∈ prunes ls, t' ≤ t := by
  rw [prunes_append, List.pairwise_append] at h
  exact ⟨h.1, fun t' ht' => h.2.2 t' ht' t (List.mem_cons_self ..)⟩

variable (R : Rule τ α)

inductive Step : Store α → Act τ α → Store α → Prop where
  | add {s : Store α} {a : α} : R.Fits s.added s.held a →
      Step s (.add a) ⟨insert a s.added, insert a s.held⟩
  | prune {s : Store α} (t : τ) : Step s (.prune t) ⟨s.added, R.keep t s.held⟩

variable {R} {ls : List (Act τ α)} {s : Store α}

/-- At every time not before the prunes made so far, what the whole history would keep is held. -/
structure Holds (R : Rule τ α) (ls : List (Act τ α)) (s : Store α) : Prop where
  ok : R.Ok s.added
  sub : s.held ⊆ s.added
  kept : ∀ t, (∀ t' ∈ prunes ls, t' ≤ t) → R.keep t s.added ⊆ s.held

theorem Holds.prune {t : τ} (h : Holds R ls s) (ht : ∀ t' ∈ prunes ls, t' ≤ t) :
    R.keep t s.held = R.keep t s.added :=
  R.outcast h.ok (h.kept t ht) h.sub

theorem Holds.step {l : Act τ α} {s' : Store α} (h : Holds R ls s) (hs : R.Step s l s')
    (hsort : (prunes (ls ++ [l])).Pairwise (· ≤ ·)) : Holds R (ls ++ [l]) s' := by
  cases hs with
  | add hfit =>
    refine ⟨R.ok_insert h.ok h.sub hfit, Set.insert_subset_insert h.sub, fun t ht => ?_⟩
    have ht' : ∀ t' ∈ prunes ls, t' ≤ t := by simpa [prunes_append, prunes] using ht
    exact R.grow h.ok (h.kept t ht') h.sub hfit
  | prune t =>
    refine ⟨h.ok, (R.keep_subset t _).trans h.sub, fun u hu => ?_⟩
    show R.keep u s.added ⊆ R.keep t s.held
    rw [h.prune (sorted_snoc hsort).2]
    exact R.antitone (hu t (by simp [prunes_append, prunes]))

theorem holds_of_run (hsort : (prunes ls).Pairwise (· ≤ ·)) (h : Run R.Step ⟨∅, ∅⟩ ls s) :
    Holds R ls s := by
  revert hsort
  refine h.history (I := fun ls s => (prunes ls).Pairwise (· ≤ ·) → Holds R ls s) ?_ ?_
  · exact fun _ => ⟨R.ok_empty, subset_rfl, fun t _ => R.keep_subset t ∅⟩
  · intro ls s l s' ih hs hsort
    refine (ih ?_).step hs hsort
    rw [prunes_append, List.pairwise_append] at hsort
    exact hsort.1

theorem pruned {t : τ} (hsort : (prunes (ls ++ [.prune t])).Pairwise (· ≤ ·))
    (h : Run R.Step ⟨∅, ∅⟩ (ls ++ [.prune t]) s) : s.held = R.keep t s.added := by
  obtain ⟨s0, hr, hs⟩ := Run.snoc_iff.mp h
  obtain ⟨hsort, hle⟩ := sorted_snoc hsort
  cases hs with
  | prune => exact (holds_of_run hsort hr).prune hle

end Rule

end Bmac.Base
