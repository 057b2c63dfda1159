import Bmac.Base.Run

/-!
# Programs of atomic calls under interference

A `Prog` makes one call after another, each with a reply, and returns or fails. Several of them run
on one state, which also changes by itself between two calls.

`Safe` is a rely-guarantee triple: whatever the others do within `rely` before each call, the call
satisfies `guar`, and the end satisfies `Q` or `E`. Its rules follow the program (`safe_bind`,
`safe_attempt`, `safe_ask`, `safe_forEach`), and `allSafe_step` puts the programs together: if each is
safe and none leaves what the others rely on, every call of a run satisfies its guarantee.
-/

namespace Bmac.Base

/-- A program that returns `α` or fails with `ε`. A call `c` is answered in `R c`. -/
inductive Prog (C : Type) (R : C → Type) (ε α : Type) where
  | ret (a : α)
  | fail (e : ε)
  | call (c : C) (k : R c → Prog C R ε α)

namespace Prog

variable {C : Type} {R : C → Type} {ε ε' α β : Type}

def bind : Prog C R ε α → (α → Prog C R ε β) → Prog C R ε β
  | ret a, f => f a
  | fail e, _ => fail e
  | call c k, f => call c fun r => (k r).bind f

instance : Monad (Prog C R ε) where
  pure := ret
  bind := bind

def ask (c : C) : Prog C R ε (R c) := call c ret

/-- The result of a program as a value: its caller goes on after a failure. -/
def attempt : Prog C R ε α → Prog C R ε' (Except ε α)
  | ret a => ret (.ok a)
  | fail e => ret (.error e)
  | call c k => call c fun r => (k r).attempt

def ofExcept : Except ε α → Prog C R ε α
  | .ok a => ret a
  | .error e => fail e

/-- A program whose result may be a failure, which ends it. -/
def orFail (p : Prog C R ε (Except ε α)) : Prog C R ε α := p >>= ofExcept

def forEach (f : α → Prog C R ε Unit) : List α → Prog C R ε Unit
  | [] => ret ()
  | a :: as => (f a).bind fun _ => forEach f as

end Prog

/-! ## Safety -/

/-- What a program's calls do, what the others may do between them, what its calls must satisfy,
and what every state satisfies. -/
structure Rules (S C : Type) (R : C → Type) where
  exec : S → (c : C) → R c → S → Prop
  rely : S → S → Prop
  guar : S → C → Prop
  inv : S → Prop
  rely_trans : ∀ {s s' s''}, rely s s' → rely s' s'' → rely s s''

namespace Prog

variable {S C : Type} {R : C → Type} {ε ε' α β : Type} (x : Rules S C R)

def Safe (Q : α → S → Prop) (E : ε → S → Prop) : Prog C R ε α → S → Prop
  | ret a, s => Q a s
  | fail e, s => E e s
  | call c k, s => ∀ s', x.rely s s' → x.inv s' →
      x.guar s' c ∧ ∀ r s'', x.exec s' c r s'' → x.inv s'' → Safe Q E (k r) s''

variable {x} {Q Q' : α → S → Prop} {E E' : ε → S → Prop} {s s' : S}

theorem safe_pure {a : α} : Safe x Q E (pure a) s ↔ Q a s := Iff.rfl

variable {p : Prog C R ε α}

theorem safe_mono (h : Safe x Q E p s) (hQ : ∀ a t, Q a t → Q' a t)
    (hE : ∀ e t, E e t → E' e t) : Safe x Q' E' p s := by
  induction p generalizing s with
  | ret a => exact hQ a s h
  | fail e => exact hE e s h
  | call c k ih =>
    intro s' hr hi
    obtain ⟨hg, hk⟩ := h s' hr hi
    exact ⟨hg, fun r s'' he hi' => ih r (hk r s'' he hi')⟩

theorem safe_bind {f : α → Prog C R ε β} {T : β → S → Prop} :
    Safe x T E (p >>= f) s ↔ Safe x (fun a t => Safe x T E (f a) t) E p s := by
  show Safe x T E (p.bind f) s ↔ _
  induction p generalizing s with
  | ret a => exact Iff.rfl
  | fail e => exact Iff.rfl
  | call c k ih =>
    constructor
    · intro h s' hr hi
      obtain ⟨hg, hk⟩ := h s' hr hi
      exact ⟨hg, fun r s'' he hi' => (ih r).mp (hk r s'' he hi')⟩
    · intro h s' hr hi
      obtain ⟨hg, hk⟩ := h s' hr hi
      exact ⟨hg, fun r s'' he hi' => (ih r).mpr (hk r s'' he hi')⟩

theorem safe_ask {c : C} {T : R c → S → Prop} :
    Safe x T E (ask c : Prog C R ε (R c)) s ↔ ∀ s', x.rely s s' → x.inv s' →
      x.guar s' c ∧ ∀ r s'', x.exec s' c r s'' → x.inv s'' → T r s'' :=
  Iff.rfl

theorem safe_attempt {T : Except ε α → S → Prop} {E' : ε' → S → Prop} :
    Safe x T E' (p.attempt : Prog C R ε' (Except ε α)) s ↔
      Safe x (fun a t => T (.ok a) t) (fun e t => T (.error e) t) p s := by
  induction p generalizing s with
  | ret a => exact Iff.rfl
  | fail e => exact Iff.rfl
  | call c k ih =>
    constructor
    · intro h s' hr hi
      obtain ⟨hg, hk⟩ := h s' hr hi
      exact ⟨hg, fun r s'' he hi' => (ih r).mp (hk r s'' he hi')⟩
    · intro h s' hr hi
      obtain ⟨hg, hk⟩ := h s' hr hi
      exact ⟨hg, fun r s'' he hi' => (ih r).mpr (hk r s'' he hi')⟩

theorem safe_ofExcept {y : Except ε α} : Safe x Q E (ofExcept y) s ↔
    (∀ a, y = .ok a → Q a s) ∧ ∀ e, y = .error e → E e s := by
  cases y <;> simp [ofExcept, Safe]

theorem safe_orFail {p : Prog C R ε (Except ε α)} : Safe x Q E p.orFail s ↔
    Safe x (fun y t => (∀ a, y = .ok a → Q a t) ∧ ∀ e, y = .error e → E e t) E p s := by
  rw [orFail, safe_bind]
  exact ⟨fun h => safe_mono h (fun _ _ hy => safe_ofExcept.mp hy) fun _ _ he => he,
    fun h => safe_mono h (fun _ _ hy => safe_ofExcept.mpr hy) fun _ _ he => he⟩

/-- The loop rule: `I rest` holds when the items `rest` are still to come. -/
theorem safe_forEach {f : α → Prog C R ε Unit} {I : List α → S → Prop} {as : List α}
    (hstep : ∀ a rest t, I (a :: rest) t → Safe x (fun _ => I rest) E (f a) t) (h : I as s) :
    Safe x (fun _ => I []) E (forEach f as) s := by
  induction as generalizing s with
  | nil => exact h
  | cons a as ih =>
    show Safe x (fun _ => I []) E (f a >>= fun _ => forEach f as) s
    rw [safe_bind]
    exact safe_mono (hstep a as s h) (fun _ t ht => ih ht) fun _ _ he => he

/-- What holds before a call still holds after what the others did. -/
def Stable (x : Rules S C R) (A : S → Prop) : Prop :=
  ∀ s s', x.rely s s' → x.inv s' → A s → A s'

/-- The call meets its guarantee where `A` holds, and `T` holds after it. -/
def Meets (x : Rules S C R) (A : S → Prop) (c : C) (T : R c → S → Prop) : Prop :=
  ∀ s, x.inv s → A s → x.guar s c ∧ ∀ r s', x.exec s c r s' → x.inv s' → T r s'

theorem safe_ask_of {A : S → Prop} {c : C} {T : R c → S → Prop} (hA : Stable x A)
    (hc : Meets x A c T) (h : A s) : Safe x T E (ask c : Prog C R ε (R c)) s :=
  fun s' hr hi => hc s' hi (hA s s' hr hi h)

/-- Every call that the program can make satisfies `P`. -/
def Calls (P : C → Prop) : Prog C R ε α → Prop
  | ret _ => True
  | fail _ => True
  | call c k => P c ∧ ∀ r, Calls P (k r)

section

variable {P : C → Prop}

theorem calls_ask {c : C} (h : P c) : Calls P (ask c : Prog C R ε (R c)) := ⟨h, fun _ => trivial⟩

theorem calls_bind {p : Prog C R ε α} {f : α → Prog C R ε β} (hp : Calls P p)
    (hf : ∀ a, Calls P (f a)) : Calls P (p >>= f) := by
  show Calls P (p.bind f)
  induction p with
  | ret a => exact hf a
  | fail e => trivial
  | call c k ih => exact ⟨hp.1, fun r => ih r (hp.2 r)⟩

theorem calls_ofExcept {y : Except ε α} : Calls P (ofExcept y : Prog C R ε α) := by
  cases y <;> trivial

theorem calls_orFail {p : Prog C R ε (Except ε α)} (h : Calls P p) : Calls P p.orFail :=
  calls_bind h fun _ => calls_ofExcept

theorem calls_attempt {p : Prog C R ε α} (h : Calls P p) :
    Calls P (p.attempt : Prog C R ε' (Except ε α)) := by
  induction p with
  | ret a => trivial
  | fail e => trivial
  | call c k ih => exact ⟨h.1, fun r => ih r (h.2 r)⟩

theorem calls_forEach {f : α → Prog C R ε Unit} {as : List α} (h : ∀ a, Calls P (f a)) :
    Calls P (forEach f as) := by
  induction as with
  | nil => trivial
  | cons a as ih => exact calls_bind (h a) fun _ => ih

theorem safe_of_calls {A : S → Prop} {p : Prog C R ε α} (hA : Stable x A)
    (hP : ∀ c, P c → Meets x A c fun _ => A) (hp : Calls P p) (h : A s) :
    Safe x (fun _ => A) (fun _ => A) p s := by
  induction p generalizing s with
  | ret a => exact h
  | fail e => exact h
  | call c k ih =>
    intro s' hr hi
    obtain ⟨hg, hk⟩ := hP c hp.1 s' hi (hA s s' hr hi h)
    exact ⟨hg, fun r s'' he hi' => ih r (hp.2 r) (hk r s'' he hi')⟩

end

/-- Safety lasts while the others keep to `rely`. -/
theorem safe_rely (h : Safe x Q E p s) (hr : x.rely s s')
    (hQ : ∀ a, Q a s → Q a s') (hE : ∀ e, E e s → E e s') : Safe x Q E p s' := by
  cases p with
  | ret a => exact hQ a h
  | fail e => exact hE e h
  | call c k => exact fun t ht hi => h t (x.rely_trans hr ht) hi

end Prog

/-! ## Programs side by side -/

/-- The state, and what each program has still to do. -/
structure Config (ι S C : Type) (R : C → Type) (ε : Type) where
  state : S
  prog : ι → Prog C R ε Unit

inductive Label (ι C : Type) (R : C → Type) (V : Type) where
  | call (p : ι) (c : C) (r : R c)
  | env (v : V)
  /-- the program is given up where it stands, and starts anew -/
  | start (p : ι)

section

variable {ι S C : Type} {R : C → Type} {ε V : Type} [DecidableEq ι]

inductive ParStep (exec : ι → S → (c : C) → R c → S → Prop) (env : S → V → S → Prop)
    (starts : ι → S → Prog C R ε Unit → S → Prop) :
    Config ι S C R ε → Label ι C R V → Config ι S C R ε → Prop where
  | call {g : Config ι S C R ε} {p : ι} {c : C} {k : R c → Prog C R ε Unit} {r : R c} {s : S} :
      g.prog p = .call c k → exec p g.state c r s →
      ParStep exec env starts g (.call p c r) ⟨s, Function.update g.prog p (k r)⟩
  | env {g : Config ι S C R ε} {v : V} {s : S} : env g.state v s →
      ParStep exec env starts g (.env v) ⟨s, g.prog⟩
  | start {g : Config ι S C R ε} {p : ι} {new : Prog C R ε Unit} {s : S} :
      starts p g.state new s →
      ParStep exec env starts g (.start p) ⟨s, Function.update g.prog p new⟩

/-- Each program is safe where it stands. -/
def Config.AllSafe (rules : ι → Rules S C R) (g : Config ι S C R ε) : Prop :=
  (∀ p, (rules p).inv g.state) ∧
    ∀ p, (g.prog p).Safe (rules p) (fun _ _ => True) (fun _ _ => True) g.state

variable {exec : ι → S → (c : C) → R c → S → Prop} {env : S → V → S → Prop}
  {starts : ι → S → Prog C R ε Unit → S → Prop} {rules : ι → Rules S C R}

/-- One step keeps every program safe: a call keeps to what the others rely on, and so does what
happens by itself. -/
theorem allSafe_step
    (hexec : ∀ p s c r s', exec p s c r s' → (rules p).exec s c r s')
    (hcall : ∀ p s c r s', (∀ q, (rules q).inv s) → (rules p).guar s c → exec p s c r s' →
      (∀ q, (rules q).inv s') ∧ ∀ q, q ≠ p → (rules q).rely s s')
    (henv : ∀ s v s', (∀ q, (rules q).inv s) → env s v s' →
      (∀ q, (rules q).inv s') ∧ ∀ q, (rules q).rely s s')
    (hstart : ∀ p s new s', (∀ q, (rules q).inv s) → starts p s new s' →
      (∀ q, (rules q).inv s') ∧ (∀ q, q ≠ p → (rules q).rely s s') ∧
        new.Safe (rules p) (fun _ _ => True) (fun _ _ => True) s')
    (hrefl : ∀ p s, (rules p).rely s s)
    {g g' : Config ι S C R ε} {l : Label ι C R V} (h : ParStep exec env starts g l g')
    (hg : g.AllSafe rules) : g'.AllSafe rules := by
  obtain ⟨hinv, hsafe⟩ := hg
  cases h with
  | @call p c k r s' hp he =>
    have hc := hsafe p
    rw [hp] at hc
    obtain ⟨hguar, hk⟩ := hc g.state (hrefl p _) (hinv p)
    obtain ⟨hinv', hrely⟩ := hcall p g.state c r s' hinv hguar he
    refine ⟨hinv', fun q => ?_⟩
    by_cases hq : q = p
    · subst hq
      simpa using hk r s' (hexec q _ _ _ _ he) (hinv' q)
    · have := Prog.safe_rely (hsafe q) (hrely q hq) (fun _ h => h) (fun _ h => h)
      simpa [hq] using this
  | env he =>
    obtain ⟨hinv', hrely⟩ := henv _ _ _ hinv he
    exact ⟨hinv', fun q => Prog.safe_rely (hsafe q) (hrely q) (fun _ h => h) (fun _ h => h)⟩
  | @start p new s' hnew =>
    obtain ⟨hinv', hrely, hsafe'⟩ := hstart p g.state new s' hinv hnew
    refine ⟨hinv', fun q => ?_⟩
    by_cases hq : q = p
    · subst hq
      simpa using hsafe'
    · have := Prog.safe_rely (hsafe q) (hrely q hq) (fun _ h => h) (fun _ h => h)
      simpa [hq] using this

omit [DecidableEq ι] in
theorem Config.AllSafe.guar {g : Config ι S C R ε} (hg : g.AllSafe rules)
    (hrefl : ∀ p s, (rules p).rely s s) {p : ι} {c : C} {k : R c → Prog C R ε Unit}
    (hp : g.prog p = .call c k) : (rules p).guar g.state c := by
  have hc := hg.2 p
  rw [hp] at hc
  exact (hc g.state (hrefl p _) (hg.1 p)).1

end

end Bmac.Base
