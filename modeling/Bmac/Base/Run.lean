import Mathlib.Tactic

/-!
# Labelled runs

`Run step a ls b`: the transition relation `step` takes `a` to `b` through the labels `ls`, one
step for each label. An invariant of a system is proved by `Run.invariant` from what one step
preserves; `Run.append_iff` cuts a run at a position.
-/

namespace Bmac.Base

inductive Run {σ ι : Type} (step : σ → ι → σ → Prop) : σ → List ι → σ → Prop where
  | nil (a : σ) : Run step a [] a
  | cons {a b c : σ} {l : ι} {ls : List ι} : step a l b → Run step b ls c → Run step a (l :: ls) c

namespace Run

variable {σ ι : Type} {step : σ → ι → σ → Prop} {a b c : σ} {l : ι} {ls ms : List ι}

theorem append (h1 : Run step a ls b) (h2 : Run step b ms c) : Run step a (ls ++ ms) c := by
  induction h1 with
  | nil => exact h2
  | cons hs _ ih => exact .cons hs (ih h2)

theorem append_iff : Run step a (ls ++ ms) c ↔ ∃ b, Run step a ls b ∧ Run step b ms c := by
  constructor
  · intro h
    induction ls generalizing a with
    | nil => exact ⟨a, .nil a, h⟩
    | cons l ls ih =>
      cases h with
      | cons hs hr =>
        obtain ⟨b, h1, h2⟩ := ih hr
        exact ⟨b, .cons hs h1, h2⟩
  · rintro ⟨b, h1, h2⟩
    exact h1.append h2

theorem nil_iff : Run step a [] b ↔ b = a := by
  constructor
  · rintro ⟨⟩
    rfl
  · rintro rfl
    exact .nil b

theorem cons_iff : Run step a (l :: ls) c ↔ ∃ b, step a l b ∧ Run step b ls c := by
  constructor
  · rintro (_ | ⟨hs, hr⟩)
    exact ⟨_, hs, hr⟩
  · rintro ⟨b, hs, hr⟩
    exact .cons hs hr

theorem single (h : step a l b) : Run step a [l] b := .cons h (.nil b)

theorem snoc_iff : Run step a (ls ++ [l]) c ↔ ∃ b, Run step a ls b ∧ step b l c := by
  rw [append_iff]
  constructor
  · rintro ⟨b, h1, h2⟩
    obtain ⟨d, hs, hd⟩ := cons_iff.mp h2
    obtain rfl := nil_iff.mp hd
    exact ⟨b, h1, hs⟩
  · rintro ⟨b, h1, hs⟩
    exact ⟨b, h1, single hs⟩

variable {I : σ → Prop}

/-- What holds at the start and is preserved by every step with one of the run's labels holds at
the end. -/
theorem invariant_of (h : Run step a ls b)
    (hstep : ∀ s l s', l ∈ ls → I s → step s l s' → I s') (h0 : I a) : I b := by
  induction h with
  | nil => exact h0
  | cons hs _ ih =>
    refine ih (fun s l s' hl => hstep s l s' (List.mem_cons_of_mem _ hl)) ?_
    exact hstep _ _ _ (List.mem_cons_self ..) h0 hs

/-- What holds at the start and is preserved by every step holds at the end. -/
theorem invariant (hstep : ∀ s l s', I s → step s l s' → I s') (h : Run step a ls b)
    (h0 : I a) : I b :=
  h.invariant_of (fun s l s' _ => hstep s l s') h0

/-- An invariant that also speaks of the labels taken so far: by induction on the run from its
end. -/
theorem history {I : List ι → σ → Prop} (h0 : I [] a)
    (hstep : ∀ ls s l s', I ls s → step s l s' → I (ls ++ [l]) s') (h : Run step a ls b) :
    I ls b := by
  induction ls using List.reverseRecOn generalizing b with
  | nil => cases h; exact h0
  | append_singleton ls l ih =>
    obtain ⟨s, hr, hs⟩ := snoc_iff.mp h
    exact hstep ls s l b (ih hr) hs

/-- Forward simulation: each step of `step` is matched by one of `step'`, with its label mapped. -/
theorem simulate {τ κ : Type} {step' : τ → κ → τ → Prop} {R : σ → τ → Prop} {f : ι → κ}
    (hstep : ∀ s l s' t, R s t → step s l s' → ∃ t', step' t (f l) t' ∧ R s' t')
    (h : Run step a ls b) {t : τ} (h0 : R a t) : ∃ t', Run step' t (ls.map f) t' ∧ R b t' := by
  induction h generalizing t with
  | nil => exact ⟨t, .nil t, h0⟩
  | cons hs _ ih =>
    obtain ⟨u, hu, hR⟩ := hstep _ _ _ _ h0 hs
    obtain ⟨t', hr, ht'⟩ := ih hR
    exact ⟨t', .cons hu hr, ht'⟩

/-- Each step of `step` is itself a run of smaller steps. -/
theorem refine_steps {κ : Type} {step' : σ → κ → σ → Prop} {f : ι → List κ}
    (hstep : ∀ s l s', step s l s' → Run step' s (f l) s') (h : Run step a ls b) :
    Run step' a (ls.flatMap f) b := by
  induction h with
  | nil => exact .nil _
  | cons hs _ ih => exact (hstep _ _ _ hs).append ih

theorem of_foldlM {f : σ → ι → Option σ} (h : ls.foldlM f a = some b) :
    Run (fun a l b => f a l = some b) a ls b := by
  induction ls generalizing a with
  | nil =>
    obtain rfl : a = b := Option.some.inj h
    exact .nil a
  | cons l ls ih =>
    rw [List.foldlM_cons] at h
    obtain ⟨c, hs, hr⟩ := Option.bind_eq_some_iff.mp h
    exact .cons hs (ih hr)

/-- A run out of `I` takes a step out of `I`. -/
theorem exists_leave (h : Run step a ls b) (ha : I a) (hb : ¬ I b) :
    ∃ ls1 l ls2 s s', ls = ls1 ++ l :: ls2 ∧ Run step a ls1 s ∧ step s l s' ∧ Run step s' ls2 b ∧
      I s ∧ ¬ I s' := by
  induction h with
  | nil => exact absurd ha hb
  | @cons a s' b l ls hs hr ih =>
    by_cases hI : I s'
    · obtain ⟨ls1, l', ls2, t, t', rfl, h1, h2, h3, h4⟩ := ih hI hb
      exact ⟨l :: ls1, l', ls2, t, t', rfl, .cons hs h1, h2, h3, h4⟩
    · exact ⟨[], l, ls, a, s', rfl, .nil a, hs, hr, ha, hI⟩

end Run

end Bmac.Base
