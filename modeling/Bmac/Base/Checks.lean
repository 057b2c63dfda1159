import Mathlib.Tactic

/-!
# Programs that stop with an error

A program in `Except` returns a result when each of its parts does. The lemmas take the equation
`program = .ok result` apart along the code, one part at a time.
-/

namespace Bmac.Base

variable {ε α β : Type} {x : Except ε α} {a : α} {xs : List α} {f : α → Except ε β} {e : ε}

theorem bind_eq_ok {b : β} : x >>= f = .ok b ↔ ∃ a, x = .ok a ∧ f a = .ok b := by
  cases x with
  | error e => simp [bind, Except.bind]
  | ok a => simp [bind, Except.bind]

theorem ok_bind (a : α) (f : α → Except ε β) : (.ok a : Except ε α) >>= f = f a := rfl

theorem error_bind (e : ε) (f : α → Except ε β) : (.error e : Except ε α) >>= f = .error e := rfl

theorem pure_eq_ok {b : α} : (pure a : Except ε α) = .ok b ↔ a = b := by
  simp [pure, Except.pure]

theorem throw_ne_ok : (throw e : Except ε α) ≠ .ok a := by
  simp [throw, throwThe, MonadExceptOf.throw]

/-- A check that stops the program when `c` holds, as `do` writes it. -/
theorem check_eq_ok {c : Prop} [Decidable c] {k : β → Except ε α} :
    (if c then throw e >>= k else x) = .ok a ↔ ¬ c ∧ x = .ok a := by
  by_cases h : c
  · simp [h, bind_eq_ok, throw_ne_ok]
  · simp [h]

theorem last_check_eq_ok {c : Prop} [Decidable c] :
    (if c then throw e else x) = .ok a ↔ ¬ c ∧ x = .ok a := by
  by_cases h : c
  · simp [h, throw_ne_ok]
  · simp [h]

theorem map_eq_ok {f : α → β} {b : β} : x.map f = .ok b ↔ ∃ a, x = .ok a ∧ f a = b := by
  cases x <;> simp [Except.map]

theorem toOption_eq_some : x.toOption = some a ↔ x = .ok a := by
  cases x <;> simp [Except.toOption]

theorem ok_of_toOption_any {p : α → Bool} (h : x.toOption.any p = true) :
    ∃ a, x = .ok a ∧ p a = true := by
  obtain ⟨a, ha, hp⟩ := (Option.any_eq_true p x.toOption).mp h
  exact ⟨a, toOption_eq_some.mp ha, hp⟩

/-- `ok_or`. -/
def ofOption (x : Option α) (e : ε) : Except ε α :=
  match x with
  | some a => .ok a
  | none => .error e

theorem ofOption_some (a : α) (e : ε) : ofOption (some a) e = .ok a := rfl

theorem ofOption_none (e : ε) : (ofOption none e : Except ε α) = .error e := rfl

theorem ofOption_eq_ok {x : Option α} : ofOption x e = .ok a ↔ x = some a := by
  cases x <;> simp [ofOption]

theorem mapError_eq_ok {ε' : Type} {f : ε → ε'} : x.mapError f = .ok a ↔ x = .ok a := by
  cases x <;> simp [Except.mapError]

/-! ## Loops -/

/-- A loop of checks passes if each does. -/
theorem forM_eq_ok {f : α → Except ε PUnit} (h : xs.forM f = .ok ⟨⟩) : ∀ x ∈ xs, f x = .ok ⟨⟩ := by
  induction xs with
  | nil => simp
  | cons x xs ih =>
    change (f x >>= fun _ => xs.forM f) = .ok ⟨⟩ at h
    cases hx : f x with
    | error e => rw [hx] at h; cases h
    | ok u =>
      rw [hx] at h
      intro y hy
      rcases List.mem_cons.mp hy with rfl | hy
      · exact hx
      · exact ih h y hy

theorem forM_eq_ok_iff {f : α → Except ε Unit} : xs.forM f = .ok () ↔ ∀ x ∈ xs, f x = .ok () := by
  refine ⟨forM_eq_ok, fun h => ?_⟩
  induction xs with
  | nil => rfl
  | cons x xs ih =>
    obtain ⟨hx, hxs⟩ := List.forall_mem_cons.mp h
    show (f x >>= fun _ => xs.forM f) = .ok ()
    rw [hx, ok_bind, ih hxs]

theorem mapM_eq_ok_iff {ys : List β} :
    xs.mapM f = .ok ys ↔ List.Forall₂ (fun x y => f x = .ok y) xs ys := by
  induction xs generalizing ys with
  | nil =>
    rw [List.mapM_nil, pure_eq_ok, List.forall₂_nil_left_iff]
    exact eq_comm
  | cons x xs ih =>
    simp only [List.mapM_cons, bind_eq_ok, pure_eq_ok, List.forall₂_cons_left_iff, ih]
    constructor
    · rintro ⟨y, hy, ys, hys, rfl⟩
      exact ⟨y, ys, hy, hys, rfl⟩
    · rintro ⟨y, ys, hy, hys, rfl⟩
      exact ⟨y, hy, ys, hys, rfl⟩

theorem mem_of_mapM_eq_ok {ys : List β}
    (h : xs.mapM f = .ok ys) {y : β} (hy : y ∈ ys) : ∃ x ∈ xs, f x = .ok y := by
  induction mapM_eq_ok_iff.mp h with
  | nil => cases hy
  | @cons x z xs ys hx hxs ih =>
    rcases List.mem_cons.mp hy with rfl | hy
    · exact ⟨x, by simp, hx⟩
    · obtain ⟨w, hw, hfw⟩ := ih (mapM_eq_ok_iff.mpr hxs) hy
      exact ⟨w, List.mem_cons_of_mem _ hw, hfw⟩

section

variable {σ : Type} {f : σ → α → Except ε σ} {s t : σ} {a : α} {l m : List α}

theorem foldlM_append_eq_ok :
    (l ++ m).foldlM f s = .ok t ↔ ∃ u, l.foldlM f s = .ok u ∧ m.foldlM f u = .ok t := by
  rw [List.foldlM_append, bind_eq_ok]

theorem foldlM_cons_eq_ok :
    (a :: l).foldlM f s = .ok t ↔ ∃ u, f s a = .ok u ∧ l.foldlM f u = .ok t := by
  rw [List.foldlM_cons, bind_eq_ok]

theorem foldlM_snoc_eq_ok :
    (l ++ [a]).foldlM f s = .ok t ↔ ∃ u, l.foldlM f s = .ok u ∧ f u a = .ok t := by
  rw [foldlM_append_eq_ok]
  constructor
  · rintro ⟨u, hl, ha⟩
    obtain ⟨v, hv, hnil⟩ := foldlM_cons_eq_ok.mp ha
    rw [List.foldlM_nil, pure_eq_ok] at hnil
    exact ⟨u, hl, hnil ▸ hv⟩
  · rintro ⟨u, hl, ha⟩
    exact ⟨u, hl, foldlM_cons_eq_ok.mpr ⟨t, ha, by rw [List.foldlM_nil, pure_eq_ok]⟩⟩

/-- What every pass of a loop that ends well keeps holds at its end. -/
theorem foldlM_invariant {I : σ → Prop} (hstep : ∀ s a s', I s → f s a = .ok s' → I s')
    (h : l.foldlM f s = .ok t) (h0 : I s) : I t := by
  induction l generalizing s with
  | nil =>
    rw [List.foldlM_nil, pure_eq_ok] at h
    exact h ▸ h0
  | cons a l ih =>
    obtain ⟨u, hu, hl⟩ := foldlM_cons_eq_ok.mp h
    exact ih hl (hstep s a u h0 hu)

end

end Bmac.Base
