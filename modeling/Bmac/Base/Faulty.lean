import Bmac.Base.Checks

/-!
# Programs whose statements may fail

A program that counts the statements it has run, each of which may fail for a reason of its own. It refines
the program without such failures when it gives the same, or the error of a statement that failed; the
rules take that relation through the parts of a program.
-/

namespace Bmac.Base

abbrev Faulty (ε α : Type) := StateT Nat (Except ε) α

namespace Faulty

variable {ε α β σ : Type}

def statement (faults : Nat → Option ε) : Faulty ε Unit := fun n =>
  match faults n with
  | some e => .error e
  | none => .ok ((), n + 1)

def result (x : Faulty ε α) : Except ε α := (x.run 0).map (·.1)

/-- A program and the one without failing statements. -/
def Refines (faults : Nat → Option ε) (x : Faulty ε α) (y : Except ε α) : Prop := ∀ n,
  (∃ k e, faults k = some e ∧ x n = .error e) ∨ (∃ e, x n = .error e ∧ y = .error e) ∨
    ∃ a n', x n = .ok (a, n') ∧ y = .ok a

namespace Refines

variable {faults : Nat → Option ε} {x : Faulty ε α} {y : Except ε α} {f : α → Faulty ε β}
  {g : α → Except ε β}

theorem pure (a : α) : Refines faults (Pure.pure a) (Pure.pure a) := fun n => .inr (.inr ⟨a, n, rfl, rfl⟩)

theorem lift (y : Except ε α) : Refines faults (liftM y) y := by
  intro n
  cases y with
  | error e => exact .inr (.inl ⟨e, rfl, rfl⟩)
  | ok a => exact .inr (.inr ⟨a, n, rfl, rfl⟩)

theorem throw (e : ε) : Refines faults (MonadExcept.throw e : Faulty ε α) (MonadExcept.throw e) :=
  fun _ => .inr (.inl ⟨e, rfl, rfl⟩)

theorem bind (hx : Refines faults x y) (hf : ∀ a, Refines faults (f a) (g a)) :
    Refines faults (x >>= f) (y >>= g) := by
  intro n
  have hbind : (x >>= f) n = (x n).bind fun p => f p.1 p.2 := rfl
  rcases hx n with ⟨k, e, hfault, hrun⟩ | ⟨e, hrun, rfl⟩ | ⟨a, n', hrun, rfl⟩
  · exact .inl ⟨k, e, hfault, by rw [hbind, hrun]; rfl⟩
  · exact .inr (.inl ⟨e, by rw [hbind, hrun]; rfl, rfl⟩)
  · rw [hbind, hrun]
    exact hf a n'

/-- A statement that doesn't fail changes nothing. -/
theorem statement_bind {f : Unit → Faulty ε α} (hf : Refines faults (f ()) y) :
    Refines faults (statement faults >>= f) y := by
  intro n
  have hbind : (statement faults >>= f) n = (statement faults n).bind fun p => f p.1 p.2 := rfl
  cases hfault : faults n with
  | some e => exact .inl ⟨n, e, hfault, by rw [hbind, statement, hfault]; rfl⟩
  | none =>
    rw [hbind, statement, hfault]
    exact hf (n + 1)

/-- A check that stops the program, as `do` writes it. -/
theorem check {c : Prop} [Decidable c] {e : ε} {k : β → Faulty ε α} {k' : β → Except ε α}
    (h : Refines faults x y) :
    Refines faults (if c then MonadExcept.throw e >>= k else x) (if c then MonadExcept.throw e >>= k' else y) := by
  split
  · exact fun n => .inr (.inl ⟨e, rfl, rfl⟩)
  · exact h

theorem foldlM {f : σ → α → Faulty ε σ} {g : σ → α → Except ε σ}
    (h : ∀ s a, Refines faults (f s a) (g s a)) (l : List α) (s : σ) :
    Refines faults (l.foldlM f s) (l.foldlM g s) := by
  induction l generalizing s with
  | nil => exact pure s
  | cons a l ih => exact bind (h s a) ih

/-- What a program gives is what the one without failing statements gives. -/
theorem of_ok {a : α} (h : Refines faults x y) (hx : x.result = .ok a) : y = .ok a := by
  have hrun : x.result = (x 0).map (·.1) := rfl
  rw [hrun] at hx
  rcases h 0 with ⟨k, e, -, he⟩ | ⟨e, he, -⟩ | ⟨a', n', hok, hy⟩
  · rw [he] at hx
    cases hx
  · rw [he] at hx
    cases hx
  · rw [hok] at hx
    rw [hy, ← Except.ok.inj hx]

/-- Where no statement fails they give the same. -/
theorem result_eq (h : Refines (fun _ => none) x y) : x.result = y := by
  have hrun : x.result = (x 0).map (·.1) := rfl
  rw [hrun]
  rcases h 0 with ⟨k, e, hfault, -⟩ | ⟨e, he, rfl⟩ | ⟨a, n', hok, rfl⟩
  · cases hfault
  · rw [he]
    rfl
  · rw [hok]
    rfl

end Refines

end Faulty

end Bmac.Base
