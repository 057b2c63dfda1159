import Bmac.Base.Trace

/-!
# Programs judged by the calls before

Under `history allowed` the state of a program is the trace so far, and `allowed` says what each call
may come after. A job that resumes starts its program again from what the trace holds, however often the
attempts before were cut off (`Resumed`); a program that is safe after every trace keeps `allowed` in all
of them together (`Resumed.kept`).
-/

namespace Bmac.Base

namespace Prog

variable {C : Type} {R : C → Type} {ε α : Type}

/-- What a program has done when it is cut off, or at its end. -/
inductive Begins : Prog C R ε α → List (Event C R) → Prop where
  | cut (p : Prog C R ε α) : Begins p []
  | call {c : C} {k : R c → Prog C R ε α} (r : R c) {tr : List (Event C R)} :
      Begins (k r) tr → Begins (call c k) (⟨c, r⟩ :: tr)

variable {p : Prog C R ε α} {tr tr' : List (Event C R)} {y : Except ε α}

theorem Runs.begins (h : Runs p tr y) : Begins p tr := by
  induction h with
  | ret a => exact .cut _
  | fail e => exact .cut _
  | call r _ ih => exact .call r ih

/-- Each call of the trace is one that `allowed` lets come after those before it. -/
def Kept (allowed : List (Event C R) → C → Prop) (tr : List (Event C R)) : Prop :=
  ∀ before e after, tr = before ++ e :: after → allowed before e.1

def history (allowed : List (Event C R) → C → Prop) : Rules (List (Event C R)) C R where
  exec tr c r tr' := tr' = tr ++ [⟨c, r⟩]
  rely tr tr' := tr' = tr
  guar := allowed
  inv := Kept allowed
  rely_trans := by
    rintro tr tr' tr'' rfl rfl
    rfl

variable {allowed : List (Event C R) → C → Prop}

theorem kept_nil : Kept allowed [] := by
  intro before e after h
  simp at h

theorem Kept.snoc {e : Event C R} (h : Kept allowed tr) (he : allowed tr e.1) : Kept allowed (tr ++ [e]) := by
  intro before e' after heq
  rcases List.eq_nil_or_concat after with rfl | ⟨after, last, rfl⟩
  · obtain ⟨rfl, hlast⟩ := List.append_inj' heq rfl
    cases hlast
    exact he
  · have hcut : tr ++ [e] = (before ++ e' :: after) ++ [last] := by
      rw [heq, List.concat_eq_append, List.append_assoc, List.cons_append]
    obtain ⟨rfl, -⟩ := List.append_inj' hcut rfl
    exact h before e' after rfl

theorem Kept.before (h : Kept allowed (tr ++ tr')) : Kept allowed tr := by
  rintro before e after rfl
  exact h before e (after ++ tr') (by rw [List.append_assoc, List.cons_append])

theorem stable_history {A : List (Event C R) → Prop} : Stable (history allowed) A := by
  rintro tr tr' rfl - h
  exact h

theorem history_ask {E : ε → List (Event C R) → Prop} {c : C} {T : R c → List (Event C R) → Prop}
    (hc : Kept allowed tr → allowed tr c) (hT : ∀ r, T r (tr ++ [⟨c, r⟩])) :
    Safe (history allowed) T E (ask c : Prog C R ε (R c)) tr := by
  rintro _ rfl hkept
  refine ⟨hc hkept, fun r tr' he _ => ?_⟩
  obtain rfl := he
  exact hT r

theorem history_calls {P : C → Prop} {A : List (Event C R) → Prop} (hp : Calls P p)
    (hfree : ∀ tr c, P c → allowed tr c) (hkeep : ∀ tr c r, P c → A tr → A (tr ++ [⟨c, r⟩])) (h : A tr) :
    Safe (history allowed) (fun _ => A) (fun _ => A) p tr := by
  refine safe_of_calls stable_history (fun c hc tr' _ ha => ⟨hfree tr' c hc, ?_⟩) hp h
  rintro r _ rfl -
  exact hkeep tr' c r hc ha

/-- What a safe program does keeps to `allowed`, also when it is cut off. -/
theorem Begins.kept {Q : α → List (Event C R) → Prop} {E : ε → List (Event C R) → Prop}
    (hb : Begins p tr') (hs : Safe (history allowed) Q E p tr) (hk : Kept allowed tr) :
    Kept allowed (tr ++ tr') := by
  induction hb generalizing tr with
  | cut p =>
    rw [List.append_nil]
    exact hk
  | @call c k r tr' _ ih =>
    obtain ⟨hg, hnext⟩ := hs tr rfl hk
    have hk' : Kept allowed (tr ++ [⟨c, r⟩]) := hk.snoc hg
    have := ih (hnext r _ rfl hk') hk'
    rwa [List.append_assoc] at this

end Prog

/-- The attempts of a job: each starts from the trace of those before, and ends anywhere. -/
inductive Resumed {C : Type} {R : C → Type} {ε α : Type} (start : List (Event C R) → Prog C R ε α) :
    List (Event C R) → Prop where
  | new : Resumed start []
  | attempt {tr tr' : List (Event C R)} : Resumed start tr → (start tr).Begins tr' →
      Resumed start (tr ++ tr')

/-- A job keeps to `allowed` when each attempt does after the ones before. -/
theorem Resumed.kept {C : Type} {R : C → Type} {ε α : Type} {start : List (Event C R) → Prog C R ε α}
    {allowed : List (Event C R) → C → Prop} {Q : α → List (Event C R) → Prop}
    {E : ε → List (Event C R) → Prop}
    (hsafe : ∀ tr, Prog.Kept allowed tr → (start tr).Safe (Prog.history allowed) Q E tr)
    {tr : List (Event C R)} (h : Resumed start tr) : Prog.Kept allowed tr := by
  induction h with
  | new => exact Prog.kept_nil
  | attempt _ hb ih => exact hb.kept (hsafe _ ih) ih

theorem resumed_play {C : Type} {R : C → Type} {ε α : Type} {start : List (Event C R) → Prog C R ε α}
    (answers : List (Event C R) → (c : C) → R c) : Resumed start (Prog.play answers (start []) []).1 :=
  .attempt .new (Prog.runs_play answers []).begins

end Bmac.Base
