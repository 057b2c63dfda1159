import Bmac.Base.Prog

/-!
# Traces of programs

`Runs p tr y`: the program `p` makes the calls of the trace `tr`, in order and with the replies there,
and ends with `y`. What a program ends with is told by its trace (`Runs.det`), and the trace of a
program of parts is made of theirs (`runs_bind`, `runs_attempt`).
-/

namespace Bmac.Base

/-- A call and its reply. -/
abbrev Event (C : Type) (R : C → Type) := Sigma R

namespace Prog

variable {C : Type} {R : C → Type} {ε ε' α β : Type}

inductive Runs : Prog C R ε α → List (Event C R) → Except ε α → Prop where
  | ret (a : α) : Runs (ret a) [] (.ok a)
  | fail (e : ε) : Runs (fail e) [] (.error e)
  | call {c : C} {k : R c → Prog C R ε α} (r : R c) {tr : List (Event C R)} {y : Except ε α} :
      Runs (k r) tr y → Runs (call c k) (⟨c, r⟩ :: tr) y

variable {p : Prog C R ε α} {tr : List (Event C R)} {y : Except ε α}

theorem runs_ret {a : α} : Runs (ret a : Prog C R ε α) tr y ↔ tr = [] ∧ y = .ok a := by
  constructor
  · rintro ⟨⟩
    exact ⟨rfl, rfl⟩
  · rintro ⟨rfl, rfl⟩
    exact .ret a

theorem runs_pure {a : α} : Runs (pure a : Prog C R ε α) tr y ↔ tr = [] ∧ y = .ok a := runs_ret

theorem runs_fail {e : ε} : Runs (fail e : Prog C R ε α) tr y ↔ tr = [] ∧ y = .error e := by
  constructor
  · rintro ⟨⟩
    exact ⟨rfl, rfl⟩
  · rintro ⟨rfl, rfl⟩
    exact .fail e

theorem runs_call {c : C} {k : R c → Prog C R ε α} :
    Runs (call c k) tr y ↔ ∃ r tr', tr = ⟨c, r⟩ :: tr' ∧ Runs (k r) tr' y := by
  constructor
  · rintro (_ | _ | @⟨_, _, r, tr', _, h⟩)
    exact ⟨r, tr', rfl, h⟩
  · rintro ⟨r, tr', rfl, h⟩
    exact .call r h

theorem runs_ask {c : C} {y : Except ε (R c)} :
    Runs (ask c : Prog C R ε (R c)) tr y ↔ ∃ r, tr = [⟨c, r⟩] ∧ y = .ok r := by
  unfold ask
  rw [runs_call]
  constructor
  · rintro ⟨r, tr', rfl, h⟩
    obtain ⟨rfl, rfl⟩ := runs_ret.mp h
    exact ⟨r, rfl, rfl⟩
  · rintro ⟨r, rfl, rfl⟩
    exact ⟨r, [], rfl, .ret r⟩

theorem runs_bind {f : α → Prog C R ε β} {y : Except ε β} : Runs (p >>= f) tr y ↔
    (∃ tr1 tr2 a, tr = tr1 ++ tr2 ∧ Runs p tr1 (.ok a) ∧ Runs (f a) tr2 y) ∨
      ∃ e, Runs p tr (.error e) ∧ y = .error e := by
  show Runs (p.bind f) tr y ↔ _
  induction p generalizing tr with
  | ret a =>
    constructor
    · exact fun h => .inl ⟨[], tr, a, rfl, .ret a, h⟩
    · rintro (⟨tr1, tr2, b, rfl, ⟨⟩, h⟩ | ⟨e, ⟨⟩, -⟩)
      exact h
  | fail e =>
    constructor
    · intro h
      obtain ⟨rfl, rfl⟩ := runs_fail.mp h
      exact .inr ⟨e, .fail e, rfl⟩
    · rintro (⟨tr1, tr2, b, rfl, ⟨⟩, h⟩ | ⟨e, ⟨⟩, rfl⟩)
      exact .fail e
  | call c k ih =>
    constructor
    · intro h
      obtain ⟨r, tr', rfl, hk⟩ := runs_call.mp h
      rcases (ih r).mp hk with ⟨tr1, tr2, a, rfl, h1, h2⟩ | ⟨e, h1, rfl⟩
      · exact .inl ⟨_ :: tr1, tr2, a, rfl, .call r h1, h2⟩
      · exact .inr ⟨e, .call r h1, rfl⟩
    · rintro (⟨tr1, tr2, a, rfl, h1, h2⟩ | ⟨e, h1, rfl⟩)
      · obtain ⟨r, tr', rfl, hk⟩ := runs_call.mp h1
        exact .call r ((ih r).mpr (.inl ⟨tr', tr2, a, rfl, hk, h2⟩))
      · obtain ⟨r, tr', rfl, hk⟩ := runs_call.mp h1
        exact .call r ((ih r).mpr (.inr ⟨e, hk, rfl⟩))

theorem runs_bind_ok {f : α → Prog C R ε β} {b : β} (h : Runs (p >>= f) tr (.ok b)) :
    ∃ tr1 tr2 a, tr = tr1 ++ tr2 ∧ Runs p tr1 (.ok a) ∧ Runs (f a) tr2 (.ok b) := by
  rcases runs_bind.mp h with h | ⟨e, -, he⟩
  · exact h
  · cases he

theorem runs_ask_bind {c : C} {f : R c → Prog C R ε β} {y : Except ε β} :
    Runs (ask c >>= f) tr y ↔ ∃ r tr', tr = ⟨c, r⟩ :: tr' ∧ Runs (f r) tr' y :=
  runs_call

theorem runs_orFail {p : Prog C R ε (Except ε α)} :
    Runs p.orFail tr y ↔ Runs p tr (.ok y) ∨ ∃ e, Runs p tr (.error e) ∧ y = .error e := by
  unfold orFail
  rw [runs_bind]
  constructor
  · rintro (⟨tr1, tr2, r, rfl, hp, hr⟩ | h)
    · cases r with
      | ok a =>
        obtain ⟨rfl, rfl⟩ := runs_ret.mp hr
        rw [List.append_nil]
        exact .inl hp
      | error e =>
        obtain ⟨rfl, rfl⟩ := runs_fail.mp hr
        rw [List.append_nil]
        exact .inl hp
    · exact .inr h
  · rintro (hp | h)
    · refine .inl ⟨tr, [], y, (List.append_nil tr).symm, hp, ?_⟩
      cases y with
      | ok a => exact .ret a
      | error e => exact .fail e
    · exact .inr h

theorem runs_orFail_ok {p : Prog C R ε (Except ε α)} {a : α} (h : Runs p.orFail tr (.ok a)) :
    Runs p tr (.ok (.ok a)) := by
  rcases runs_orFail.mp h with h | ⟨e, -, he⟩
  · exact h
  · cases he

theorem runs_attempt {y : Except ε' (Except ε α)} : Runs (p.attempt : Prog C R ε' (Except ε α)) tr y ↔
    ∃ z, y = .ok z ∧ Runs p tr z := by
  induction p generalizing tr with
  | ret a =>
    constructor
    · intro h
      obtain ⟨rfl, rfl⟩ := runs_ret.mp h
      exact ⟨_, rfl, .ret a⟩
    · rintro ⟨z, rfl, ⟨⟩⟩
      exact .ret _
  | fail e =>
    constructor
    · intro h
      obtain ⟨rfl, rfl⟩ := runs_ret.mp h
      exact ⟨_, rfl, .fail e⟩
    · rintro ⟨z, rfl, ⟨⟩⟩
      exact .ret _
  | call c k ih =>
    constructor
    · intro h
      obtain ⟨r, tr', rfl, hk⟩ := runs_call.mp h
      obtain ⟨z, rfl, hz⟩ := (ih r).mp hk
      exact ⟨z, rfl, .call r hz⟩
    · rintro ⟨z, rfl, hz⟩
      obtain ⟨r, tr', rfl, hk⟩ := runs_call.mp hz
      exact .call r ((ih r).mpr ⟨z, rfl, hk⟩)

/-- The run in which each call is answered by `answers`, which sees the calls before it, the last
first. -/
def play (answers : List (Event C R) → (c : C) → R c) :
    Prog C R ε α → List (Event C R) → List (Event C R) × Except ε α
  | ret a, _ => ([], .ok a)
  | fail e, _ => ([], .error e)
  | call c k, before =>
    let r := answers before c
    let (tr, y) := play answers (k r) (⟨c, r⟩ :: before)
    (⟨c, r⟩ :: tr, y)

theorem runs_play (answers : List (Event C R) → (c : C) → R c) (before : List (Event C R)) :
    Runs p (play answers p before).1 (play answers p before).2 := by
  induction p generalizing before with
  | ret a => exact .ret a
  | fail e => exact .fail e
  | call c k ih => exact .call _ (ih _ _)

theorem play_answered {answers : List (Event C R) → (c : C) → R c} {before : List (Event C R)}
    {e : Event C R} (h : e ∈ (play answers p before).1) : ∃ before', e.2 = answers before' e.1 := by
  induction p generalizing before with
  | ret a => exact absurd h List.not_mem_nil
  | fail e => exact absurd h List.not_mem_nil
  | call c k ih =>
    rcases List.mem_cons.mp h with rfl | h
    · exact ⟨before, rfl⟩
    · exact ih _ h

/-- A trace tells where its program ended, and with what. -/
theorem Runs.det {tr' rest rest' : List (Event C R)} {y' : Except ε α} (h : Runs p tr y)
    (h' : Runs p tr' y') (heq : tr ++ rest = tr' ++ rest') : tr = tr' ∧ rest = rest' ∧ y = y' := by
  induction h generalizing tr' with
  | ret a =>
    obtain ⟨rfl, rfl⟩ := runs_ret.mp h'
    exact ⟨rfl, heq, rfl⟩
  | fail e =>
    obtain ⟨rfl, rfl⟩ := runs_fail.mp h'
    exact ⟨rfl, heq, rfl⟩
  | call r hk ih =>
    obtain ⟨r', tr', rfl, hk'⟩ := runs_call.mp h'
    obtain ⟨hhead, htail⟩ := List.cons.inj heq
    obtain ⟨-, hr⟩ := Sigma.mk.inj hhead
    obtain rfl := eq_of_heq hr
    obtain ⟨rfl, hrest, hy⟩ := ih hk' htail
    exact ⟨rfl, hrest, hy⟩

theorem Calls.mono {P Q : C → Prop} (hp : Calls P p) (h : ∀ c, P c → Q c) : Calls Q p := by
  induction p with
  | ret a => trivial
  | fail e => trivial
  | call c k ih => exact ⟨h c hp.1, fun r => ih r (hp.2 r)⟩

/-- What holds of every call that a program can make holds in its traces. -/
theorem Calls.of_runs {P : C → Prop} (hp : Calls P p) (h : Runs p tr y) : ∀ e ∈ tr, P e.1 := by
  induction h with
  | ret a => exact fun _ h => absurd h List.not_mem_nil
  | fail e => exact fun _ h => absurd h List.not_mem_nil
  | call r hk ih =>
    intro e he
    rcases List.mem_cons.mp he with rfl | he
    · exact hp.1
    · exact ih (hp.2 r) e he

end Prog

end Bmac.Base
