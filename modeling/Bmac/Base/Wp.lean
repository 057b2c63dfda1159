import Bmac.Base.Checks

/-!
# Weakest preconditions of programs that stop with an error

`EStateM` keeps the state when a program stops: what was done before an error stays done.
`wp m Q E s` says what holds after `m` from `s`, `Q` of a result and `E` of an error. The simp
lemmas take a program apart along its code, and `wp_mapM` is the rule for a loop over a list.
-/

namespace Bmac.Base

variable {ε σ α β : Type}

def wp (m : EStateM ε σ α) (Q : α → σ → Prop) (E : ε → σ → Prop) (s : σ) : Prop :=
  match m s with
  | .ok a s' => Q a s'
  | .error e s' => E e s'

variable {Q Q' : α → σ → Prop} {E E' : ε → σ → Prop} {s : σ}

@[simp] theorem wp_pure (a : α) : wp (pure a) Q E s = Q a s := rfl

@[simp] theorem wp_throw (e : ε) : wp (throw e : EStateM ε σ α) Q E s = E e s := rfl

@[simp] theorem wp_get {Q : σ → σ → Prop} : wp (get : EStateM ε σ σ) Q E s = Q s s := rfl

@[simp] theorem wp_set {Q : PUnit → σ → Prop} (s' : σ) :
    wp (set s' : EStateM ε σ PUnit) Q E s = Q ⟨⟩ s' := rfl

@[simp] theorem wp_modify {Q : PUnit → σ → Prop} (f : σ → σ) :
    wp (modify f : EStateM ε σ PUnit) Q E s = Q ⟨⟩ (f s) := rfl

@[simp] theorem wp_bind {R : β → σ → Prop} (m : EStateM ε σ α) (f : α → EStateM ε σ β) :
    wp (m >>= f) R E s = wp m (fun a s' => wp (f a) R E s') E s := by
  show (match EStateM.bind m f s with | .ok a s' => R a s' | .error e s' => E e s') = _
  unfold EStateM.bind wp
  cases m s <;> rfl

theorem wp_ofExcept {x : Except ε α} :
    wp (ofExcept x : EStateM ε σ α) Q E s ↔ (∀ a, x = .ok a → Q a s) ∧ ∀ e, x = .error e → E e s := by
  cases x <;> simp [ofExcept]

variable {m : EStateM ε σ α}

theorem wp_ite {c : Prop} [Decidable c] {m' : EStateM ε σ α} :
    wp (if c then m else m') Q E s ↔ (c → wp m Q E s) ∧ (¬ c → wp m' Q E s) := by
  by_cases h : c <;> simp [h]

theorem wp_mono (h : wp m Q E s) (hQ : ∀ a s', Q a s' → Q' a s')
    (hE : ∀ e s', E e s' → E' e s') : wp m Q' E' s := by
  unfold wp at h ⊢
  cases hm : m s with
  | ok a s' => rw [hm] at h; exact hQ a s' h
  | error e s' => rw [hm] at h; exact hE e s' h

variable {s' : σ} {f : α → EStateM ε σ β}

theorem wp_ok {a : α} (h : wp m Q E s) (hm : m s = .ok a s') : Q a s' := by
  unfold wp at h
  rwa [hm] at h

theorem wp_error {e : ε} (h : wp m Q E s) (hm : m s = .error e s') : E e s' := by
  unfold wp at h
  rwa [hm] at h

theorem run_bind_ok {a : α} (h : m s = .ok a s') : (m >>= f) s = f a s' := by
  show EStateM.bind m f s = f a s'
  unfold EStateM.bind
  rw [h]

theorem run_bind_error {e : ε} (h : m s = .error e s') : (m >>= f) s = .error e s' := by
  show EStateM.bind m f s = .error e s'
  unfold EStateM.bind
  rw [h]

/-- The loop rule: `I rest done` holds when the items `rest` are still to come and the others gave
`done`. -/
theorem wp_mapM {I : List α → List β → σ → Prop} {xs : List α}
    (done : List β) (hstep : ∀ x rest done s, I (x :: rest) done s →
      wp (f x) (fun y => I rest (done ++ [y])) E s)
    (h : I xs done s) : wp (xs.mapM f) (fun ys => I [] (done ++ ys)) E s := by
  induction xs generalizing s done with
  | nil => simpa using h
  | cons x xs ih =>
    rw [List.mapM_cons]
    simp only [wp_bind, wp_pure]
    refine wp_mono (hstep x xs done s h) (fun y s' hs' => ?_) (fun _ _ he => he)
    refine wp_mono (ih (done ++ [y]) hs') (fun ys s'' hs'' => ?_) (fun _ _ he => he)
    rwa [List.append_assoc] at hs''

end Bmac.Base
