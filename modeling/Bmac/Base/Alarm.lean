import Bmac.Base.Run

/-!
# An alarm with retried deliveries

A target that answers or does not is observed at times that never decrease. An `Alarm` declares an
outage once no answer came for the wait in force, and owes a `down` notice for it; when the target
answers again after an accepted `down`, it owes the `up`. A notice is produced again by each
observation until one delivery is accepted. `Alarm.Run.paired` says how the notices of any run fit
together: what is produced or accepted after which history.
-/

namespace Bmac.Base

/-- `up` is the end owed for an outage whose `down` was accepted. -/
structure Alarm (U : Type) where
  outage : Option Int
  sent : Bool
  up : Option (Int × U)

namespace Alarm

variable {U : Type}

inductive Notice (U : Type) where
  | down (since : Int)
  | up (since : Int) (what : U)
  deriving DecidableEq

def new : Alarm U := ⟨none, false, none⟩

def due (a : Alarm U) : Option (Notice U) :=
  match a.outage, a.up with
  | some since, _ => if a.sent then none else some (.down since)
  | none, some (since, what) => some (.up since what)
  | none, none => none

def answer (a : Alarm U) (what : U) : Alarm U where
  outage := none
  sent := false
  up :=
    match a.outage with
    | some since => if a.sent then some (since, what) else a.up
    | none => a.up

def declare (a : Alarm U) (since : Int) : Alarm U := { a with outage := some since, up := none }

def accept (a : Alarm U) : Notice U → Alarm U
  | .down _ => { a with sent := true }
  | .up .. => { a with up := none }

/-! ### Runs and their histories -/

/-- What a history holds: an observation at `now` under the wait in force, with whether the target
answered and the notice produced, or a notice that was accepted. -/
inductive Entry (U : Type) where
  | observed (now wait : Int) (answered : Bool) (notice : Option (Notice U))
  | accepted (notice : Notice U)
  deriving DecidableEq

namespace Entry

def answer? : Entry U → Option Int
  | .observed now _ true _ => some now
  | _ => none

def notice? : Entry U → Option (Notice U)
  | .observed _ _ _ notice => notice
  | .accepted notice => some notice

/-- At this observation no answer had come for the wait, counted from `since`. -/
def Declares (since : Int) : Entry U → Prop
  | .observed now wait answered _ => answered = false ∧ 0 < wait ∧ wait ≤ now - since
  | .accepted _ => False

def acceptsDown (since : Int) : Entry U → Bool
  | .accepted (.down s) => s == since
  | _ => false

end Entry

/-- The alarm between two calls: the time of the last call, that of the last answer, and the notice
that the last observation produced and whose delivery is under way. -/
structure World (U : Type) where
  alarm : Alarm U
  clock : Int
  last : Int
  flight : Option (Notice U)

def World.new (start : Int) : World U := ⟨.new, start, start, none⟩

/-- One call. An observation may hold a notice back, and never produces one that is not owed. -/
inductive Step : World U → Entry U → World U → Prop where
  | answer {w : World U} {now wait : Int} {notice : Option (Notice U)} (what : U)
      (hclock : w.clock ≤ now)
      (howed : ∀ n, notice = some n → (w.alarm.answer what).due = some n) :
      Step w (.observed now wait true notice) ⟨w.alarm.answer what, now, now, notice⟩
  | declare {w : World U} {now wait : Int} {notice : Option (Notice U)} (since : Int)
      (hclock : w.clock ≤ now) (hnone : w.alarm.outage = none) (hlast : w.last ≤ since)
      (hwait : 0 < wait) (hover : wait ≤ now - since)
      (howed : ∀ n, notice = some n → (w.alarm.declare since).due = some n) :
      Step w (.observed now wait false notice) ⟨w.alarm.declare since, now, w.last, notice⟩
  | silent {w : World U} {now wait : Int} {notice : Option (Notice U)} (hclock : w.clock ≤ now)
      (howed : ∀ n, notice = some n → w.alarm.due = some n) :
      Step w (.observed now wait false notice) ⟨w.alarm, now, w.last, notice⟩
  | accept {w : World U} {n : Notice U} (hflight : w.flight = some n) :
      Step w (.accepted n) { w with alarm := w.alarm.accept n, flight := none }

/-! ### How notices fit a history -/

/-- Every accepted `down` of the history is of an earlier outage: its start is below `bar`, and the
target answered after it. -/
def Over (bar : Int) (log : List (Entry U)) : Prop :=
  ∀ before s after, log = before ++ .accepted (.down s) :: after →
    s < bar ∧ ∃ e ∈ after, e.answer? ≠ none

/-- What the history must hold for the entry that comes next.
A `down`: the target does not answer and has not since its start, and no answer had come for the
wait when it was first noticed. An `up`: exactly one `down` of the same start was accepted, every
other `up` of that start was the same notice, and none was accepted. An accepted notice: it is
the one just produced; the earlier accepted ones of its kind have smaller starts, and after each
earlier `down` the target answered. -/
def Fits (log : List (Entry U)) (e : Entry U) : Prop :=
  match e with
  | .observed _ _ _ none => True
  | .observed _ _ answered (some (.down since)) =>
    answered = false ∧ (∀ e' ∈ log, ∀ t, e'.answer? = some t → t ≤ since) ∧
      ∃ e' ∈ log ++ [e], e'.Declares since
  | .observed _ _ _ (some (.up since what)) =>
    log.countP (Entry.acceptsDown since) = 1 ∧
      (∀ e' ∈ log, ∀ what', e'.notice? = some (.up since what') → what' = what) ∧
      ∀ what', .accepted (.up since what') ∉ log
  | .accepted n =>
    (∃ before now wait answered, log = before ++ [.observed now wait answered (some n)]) ∧
      match n with
      | .down since => Over since log
      | .up since _ => ∀ s what, .accepted (.up s what) ∈ log → s < since

/-- Every entry fits the history before it. -/
def Paired (log : List (Entry U)) : Prop :=
  ∀ before e, before ++ [e] <+: log → Fits before e

theorem paired_nil : Paired ([] : List (Entry U)) := by
  intro before e h
  exact absurd (List.prefix_nil.mp h) (by simp)

variable {log : List (Entry U)} {e : Entry U} {since : Int}

theorem Paired.snoc (h : Paired log) (he : Fits log e) : Paired (log ++ [e]) := by
  intro before e' hprefix
  rcases List.prefix_concat_iff.mp hprefix with heq | hprefix
  · obtain ⟨rfl, hlast⟩ := List.append_inj' heq rfl
    obtain rfl := List.singleton_inj.mp hlast
    exact he
  · exact h before e' hprefix

theorem over_nil (bar : Int) : Over bar ([] : List (Entry U)) := by
  intro before s after h
  exact absurd h (by simp)

theorem Over.mono {bar bar' : Int} (h : Over bar log) (hle : bar ≤ bar') : Over bar' log := by
  intro before s after heq
  obtain ⟨hlt, hanswer⟩ := h before s after heq
  exact ⟨hlt.trans_le hle, hanswer⟩

theorem split_snoc {before after : List (Entry U)} {e' : Entry U}
    (h : log ++ [e] = before ++ e' :: after) :
    (log = before ∧ e = e' ∧ after = []) ∨
      ∃ rest, after = rest ++ [e] ∧ log = before ++ e' :: rest := by
  rcases List.eq_nil_or_concat after with rfl | ⟨rest, x, rfl⟩
  · obtain ⟨rfl, hlast⟩ := List.append_inj' h rfl
    exact .inl ⟨rfl, List.singleton_inj.mp hlast, rfl⟩
  · rw [List.concat_eq_append, ← List.cons_append, ← List.append_assoc] at h
    obtain ⟨rfl, hlast⟩ := List.append_inj' h rfl
    obtain rfl := List.singleton_inj.mp hlast
    exact .inr ⟨rest, List.concat_eq_append .., rfl⟩

theorem Over.snoc {bar : Int} (h : Over bar log)
    (he : ∀ s, e ≠ .accepted (.down s)) : Over bar (log ++ [e]) := by
  intro before s after heq
  rcases split_snoc heq with ⟨-, rfl, -⟩ | ⟨rest, rfl, hlog⟩
  · exact absurd rfl (he s)
  · obtain ⟨hlt, e', he', hanswer⟩ := h before s rest hlog
    exact ⟨hlt, e', List.mem_append_left _ he', hanswer⟩

/-- After an answer every accepted `down` is of an earlier outage. -/
theorem over_of_answer {bar : Int} (hlt : ∀ s, .accepted (.down s) ∈ log → s < bar)
    (he : e.answer? ≠ none) : Over bar (log ++ [e]) := by
  intro before s after heq
  rcases split_snoc heq with ⟨-, rfl, -⟩ | ⟨rest, rfl, rfl⟩
  · exact absurd rfl he
  · exact ⟨hlt s (by simp), e, by simp, he⟩

variable {s : Int}

theorem Over.lt {bar : Int} (h : Over bar log) (hs : .accepted (.down s) ∈ log) : s < bar := by
  obtain ⟨before, after, heq⟩ := List.append_of_mem hs
  exact (h before s after heq).1

theorem Over.count (h : Over since log) : log.countP (Entry.acceptsDown since) = 0 := by
  refine List.countP_eq_zero.mpr fun e he haccepts => ?_
  unfold Entry.acceptsDown at haccepts
  split at haccepts
  · obtain rfl := beq_iff_eq.mp haccepts
    exact absurd (h.lt he) (lt_irrefl _)
  · cases haccepts

/-! ### The invariant -/

/-- What a current or coming outage's start is not below. -/
def World.bar (w : World U) : Int := w.alarm.outage.getD w.last

/-- The end owed for the outage from `since` is `what`: one `down` of it was accepted, every `up`
of it is this one, and none was accepted. -/
def Owes (log : List (Entry U)) (since : Int) (what : U) : Prop :=
  log.countP (Entry.acceptsDown since) = 1 ∧
    (∀ e ∈ log, ∀ what', e.notice? = some (.up since what') → what' = what) ∧
    ∀ s what', .accepted (.up s what') ∈ log → s < since

/-- What the state says of the history. -/
structure Knows (log : List (Entry U)) (w : World U) : Prop where
  answers : ∀ e ∈ log, ∀ t, e.answer? = some t → t ≤ w.last
  last_le : w.last ≤ w.clock
  unsent : w.alarm.outage = none → w.alarm.sent = false
  declared : ∀ since, w.alarm.outage = some since →
    w.last ≤ since ∧ since < w.clock ∧ ∃ e ∈ log, e.Declares since
  ended : w.alarm.sent = false → Over w.bar log
  sent : w.alarm.sent = true → log.countP (Entry.acceptsDown w.bar) = 1 ∧
    ∀ s, .accepted (.down s) ∈ log → s ≤ w.bar
  ups : ∀ e ∈ log, ∀ s what, e.notice? = some (.up s what) → s < w.bar
  up : ∀ s what, w.alarm.up = some (s, what) → w.alarm.outage = none ∧ s < w.last ∧ Owes log s what

structure Holds (log : List (Entry U)) (w : World U) : Prop where
  paired : Paired log
  flight : ∀ n, w.flight = some n → w.alarm.due = some n ∧
    ∃ before now wait answered, log = before ++ [.observed now wait answered (some n)]
  knows : Knows log w

theorem holds_new (start : Int) : Holds ([] : List (Entry U)) (.new start) where
  paired := paired_nil
  flight := by simp [World.new]
  knows :=
    { answers := by simp
      last_le := le_rfl
      unsent := fun _ => rfl
      declared := by simp [World.new, Alarm.new]
      ended := fun _ => over_nil _
      sent := by simp [World.new, Alarm.new]
      ups := by simp
      up := by simp [World.new, Alarm.new] }

theorem due_eq_down {a : Alarm U} (h : a.due = some (.down since)) :
    a.outage = some since ∧ a.sent = false := by
  unfold due at h
  split at h
  · split at h
    · cases h
    · cases h
      exact ⟨by assumption, Bool.eq_false_iff.mpr ‹_›⟩
  · cases h
  · cases h

theorem due_eq_up {a : Alarm U} {what : U} (h : a.due = some (.up since what)) :
    a.up = some (since, what) := by
  unfold due at h
  split at h
  · split at h <;> cases h
  · cases h
    assumption
  · cases h

section

variable {log : List (Entry U)} {w : World U}

theorem countP_observed (since now wait : Int) (answered : Bool) (notice : Option (Notice U)) :
    (log ++ [Entry.observed now wait answered notice]).countP (Entry.acceptsDown since) =
      log.countP (Entry.acceptsDown since) := by
  rw [List.countP_append]
  rfl

variable {notice : Option (Notice U)} {now wait : Int}

theorem mem_observed {n : Notice U} {answered : Bool} :
    Entry.accepted n ∈ log ++ [.observed now wait answered notice] ↔ .accepted n ∈ log := by
  simp

theorem Knows.fits {answered : Bool} (h : Knows (log ++ [.observed now wait answered notice]) w)
    (hclock : w.clock = now) (howed : ∀ n, notice = some n → w.alarm.due = some n) :
    Fits log (.observed now wait answered notice) := by
  cases notice with
  | none => trivial
  | some n =>
    cases n with
    | down since =>
      obtain ⟨houtage, -⟩ := due_eq_down (howed _ rfl)
      obtain ⟨hlast, hsince, hdeclared⟩ := h.declared since houtage
      refine ⟨?_, fun e he t ht => ?_, hdeclared⟩
      · cases answered with
        | false => rfl
        | true =>
          have hnow : now ≤ w.last := h.answers _ List.mem_concat_self now rfl
          omega
      · exact (h.answers e (List.mem_append_left _ he) t ht).trans hlast
    | up since what =>
      obtain ⟨-, -, hcount, hsame, hbelow⟩ := h.up since what (due_eq_up (howed _ rfl))
      rw [countP_observed] at hcount
      refine ⟨hcount, fun e he => hsame e (List.mem_append_left _ he), fun what' hmem => ?_⟩
      exact absurd (hbelow since what' (mem_observed.mpr hmem)) (lt_irrefl _)

theorem Knows.bar_le (h : Knows log w) : w.bar ≤ w.clock := by
  unfold World.bar
  cases houtage : w.alarm.outage with
  | none => exact h.last_le
  | some since => exact (h.declared since houtage).2.1.le

theorem bar_eq (h : w.alarm.outage = some since) : w.bar = since := by
  rw [World.bar, h, Option.getD_some]

theorem bar_eq_last (h : w.alarm.outage = none) : w.bar = w.last := by
  rw [World.bar, h, Option.getD_none]

/-- Every accepted `down` started before now. -/
theorem Knows.down_lt (h : Knows log w) (hs : .accepted (.down s) ∈ log) : s < w.clock := by
  cases hsent : w.alarm.sent with
  | false => exact ((h.ended hsent).lt hs).trans_le h.bar_le
  | true =>
    cases houtage : w.alarm.outage with
    | none => exact absurd ((h.unsent houtage).symm.trans hsent) (by decide)
    | some since =>
      have hle : s ≤ w.bar := (h.sent hsent).2 s hs
      rw [bar_eq houtage] at hle
      exact hle.trans_lt (h.declared since houtage).2.1

/-- The `up` owed after an answer: that of the outage that ends, or the one owed before. -/
theorem answer_up {a : Alarm U} {what what' : U} (h : (a.answer what).up = some (s, what')) :
    (a.outage = some s ∧ a.sent = true ∧ what' = what) ∨ a.up = some (s, what') := by
  unfold Alarm.answer at h
  dsimp only at h
  split at h
  · split at h
    · cases h
      exact .inl ⟨by assumption, by assumption, rfl⟩
    · exact .inr h
  · exact .inr h

theorem Owes.observed {now wait : Int} {answered : Bool} {notice : Option (Notice U)} {s : Int}
    {what : U} (h : Owes log s what) (hown : ∀ what', notice = some (.up s what') → what' = what) :
    Owes (log ++ [.observed now wait answered notice]) s what := by
  obtain ⟨hcount, hsame, hbelow⟩ := h
  refine ⟨(countP_observed ..).trans hcount, fun e he what' hn => ?_,
    fun s' what' hmem => hbelow s' what' (mem_observed.mp hmem)⟩
  rcases List.mem_append.mp he with he | he
  · exact hsame e he what' hn
  · obtain rfl := List.mem_singleton.mp he
    exact hown what' hn

/-- An `up` produced by an observation is the one the state after it owes. -/
theorem own_eq {a : Alarm U} {what what' : U} (howed : ∀ n, notice = some n → a.due = some n)
    (hup : a.up = some (s, what)) (hn : notice = some (.up s what')) : what' = what := by
  have hown : a.up = some (s, what') := due_eq_up (howed _ hn)
  exact (Prod.mk.inj (Option.some.inj (hown.symm.trans hup))).2

/-- The target answers: the outage is over, and the `up` is owed if its `down` was accepted. -/
theorem Knows.answer {now wait : Int} {notice : Option (Notice U)} (h : Knows log w) (what : U)
    (hclock : w.clock ≤ now) (howed : ∀ n, notice = some n → (w.alarm.answer what).due = some n) :
    Knows (log ++ [.observed now wait true notice]) ⟨w.alarm.answer what, now, now, notice⟩ := by
  have hbar : w.bar ≤ now := h.bar_le.trans hclock
  have hup : ∀ s what', (w.alarm.answer what).up = some (s, what') → s < now ∧ Owes log s what' := by
    intro s what' heq
    rcases answer_up heq with ⟨houtage, hsent, rfl⟩ | hold
    · have hcount : log.countP (Entry.acceptsDown w.bar) = 1 := (h.sent hsent).1
      have hups := h.ups
      rw [bar_eq houtage] at hcount hups
      refine ⟨(h.declared s houtage).2.1.trans_le hclock, hcount, fun e he w' hn => ?_,
        fun s' w' hmem => hups _ hmem s' w' rfl⟩
      exact absurd (hups e he s w' hn) (lt_irrefl _)
    · obtain ⟨-, hlt, howes⟩ := h.up s what' hold
      exact ⟨hlt.trans_le (h.last_le.trans hclock), howes⟩
  constructor
  case answers =>
    intro e he t ht
    rcases List.mem_append.mp he with he | he
    · exact (h.answers e he t ht).trans (h.last_le.trans hclock)
    · obtain rfl := List.mem_singleton.mp he
      cases ht
      exact le_rfl
  case last_le => exact le_rfl
  case unsent => exact fun _ => rfl
  case declared => exact fun since houtage => nomatch houtage
  case ended =>
    exact fun _ =>
      over_of_answer (fun s hs => (h.down_lt hs).trans_le hclock) (by simp [Entry.answer?])
  case sent => exact fun hsent => nomatch hsent
  case ups =>
    intro e he s what' hn
    rcases List.mem_append.mp he with he | he
    · exact (h.ups e he s what' hn).trans_le hbar
    · obtain rfl := List.mem_singleton.mp he
      exact (hup s what' (due_eq_up (howed _ hn))).1
  case up =>
    intro s what' heq
    obtain ⟨hlt, howes⟩ := hup s what' heq
    exact ⟨rfl, hlt, howes.observed fun w' => own_eq howed heq⟩

/-- The facts that an observation without an answer leaves as they are. -/
theorem Knows.answers_silent (h : Knows log w) :
    ∀ e ∈ log ++ [.observed now wait false notice], ∀ t, e.answer? = some t → t ≤ w.last := by
  intro e he t ht
  rcases List.mem_append.mp he with he | he
  · exact h.answers e he t ht
  · obtain rfl := List.mem_singleton.mp he
    cases ht

/-- No answer came for the wait: the outage from `since` is noticed. -/
theorem Knows.declare {now wait since : Int} {notice : Option (Notice U)} (h : Knows log w)
    (hclock : w.clock ≤ now) (hnone : w.alarm.outage = none) (hlast : w.last ≤ since)
    (hwait : 0 < wait) (hover : wait ≤ now - since)
    (howed : ∀ n, notice = some n → (w.alarm.declare since).due = some n) :
    Knows (log ++ [.observed now wait false notice])
      ⟨w.alarm.declare since, now, w.last, notice⟩ := by
  have hbar : w.bar ≤ since := (bar_eq_last hnone).trans_le hlast
  have hunsent : w.alarm.sent = false := h.unsent hnone
  constructor
  case answers => exact h.answers_silent
  case last_le => exact h.last_le.trans hclock
  case unsent => exact fun houtage => nomatch houtage
  case declared =>
    intro s hs
    obtain rfl : since = s := Option.some.inj hs
    exact ⟨hlast, by dsimp only; omega, _, List.mem_concat_self, rfl, hwait, hover⟩
  case ended => exact fun _ => ((h.ended hunsent).mono hbar).snoc (by simp)
  case sent => exact fun hsent => absurd (hunsent.symm.trans hsent) (by decide)
  case ups =>
    intro e he s what hn
    rcases List.mem_append.mp he with he | he
    · exact (h.ups e he s what hn).trans_le hbar
    · obtain rfl := List.mem_singleton.mp he
      cases due_eq_up (howed _ hn)
  case up => exact fun s what hup => nomatch hup

theorem Knows.silent (h : Knows log w)
    (hclock : w.clock ≤ now) (howed : ∀ n, notice = some n → w.alarm.due = some n) :
    Knows (log ++ [.observed now wait false notice]) ⟨w.alarm, now, w.last, notice⟩ := by
  constructor
  case answers => exact h.answers_silent
  case last_le => exact h.last_le.trans hclock
  case unsent => exact h.unsent
  case declared =>
    intro since houtage
    obtain ⟨hlast, hsince, e, he, hdeclares⟩ := h.declared since houtage
    exact ⟨hlast, hsince.trans_le hclock, e, List.mem_append_left _ he, hdeclares⟩
  case ended => exact fun hsent => (h.ended hsent).snoc (by simp)
  case sent =>
    intro hsent
    obtain ⟨hcount, hle⟩ := h.sent hsent
    exact ⟨(countP_observed ..).trans hcount, fun s hs => hle s (mem_observed.mp hs)⟩
  case ups =>
    intro e he s what hn
    rcases List.mem_append.mp he with he | he
    · exact h.ups e he s what hn
    · obtain rfl := List.mem_singleton.mp he
      obtain ⟨houtage, hlt, -⟩ := h.up s what (due_eq_up (howed _ hn))
      exact hlt.trans_eq (bar_eq_last houtage).symm
  case up =>
    intro s what heq
    obtain ⟨houtage, hlt, howes⟩ := h.up s what heq
    exact ⟨houtage, hlt, howes.observed fun w' => own_eq howed heq⟩

theorem Knows.answers_accepted {n : Notice U} (h : Knows log w) :
    ∀ e ∈ log ++ [.accepted n], ∀ t, e.answer? = some t → t ≤ w.last := by
  intro e he t ht
  rcases List.mem_append.mp he with he | he
  · exact h.answers e he t ht
  · obtain rfl := List.mem_singleton.mp he
    cases ht

theorem Knows.accept_down (h : Knows log w) (hdue : w.alarm.due = some (.down since)) :
    Knows (log ++ [.accepted (.down since)])
      { w with alarm := w.alarm.accept (.down since), flight := none } := by
  obtain ⟨houtage, hsent⟩ := due_eq_down hdue
  have hover : Over since log := bar_eq houtage ▸ h.ended hsent
  constructor
  case answers => exact h.answers_accepted
  case last_le => exact h.last_le
  case unsent => exact fun hnone => nomatch houtage.symm.trans hnone
  case declared =>
    intro s hs
    obtain ⟨hlast, hsince, e, he, hdeclares⟩ := h.declared s hs
    exact ⟨hlast, hsince, e, List.mem_append_left _ he, hdeclares⟩
  case ended => exact fun hfalse => nomatch hfalse
  case sent =>
    intro _
    have hbar : World.bar { w with alarm := w.alarm.accept (.down since), flight := none } = since :=
      bar_eq houtage
    rw [hbar]
    refine ⟨?_, fun s hs => ?_⟩
    · rw [List.countP_append, hover.count]
      simp [Entry.acceptsDown]
    · rcases List.mem_append.mp hs with hs | hs
      · exact (hover.lt hs).le
      · cases List.mem_singleton.mp hs
        exact le_rfl
  case ups =>
    intro e he s what hn
    rcases List.mem_append.mp he with he | he
    · exact h.ups e he s what hn
    · obtain rfl := List.mem_singleton.mp he
      cases hn
  case up =>
    intro s what heq
    exact nomatch houtage.symm.trans (h.up s what heq).1

theorem Knows.accept_up {what : U} (h : Knows log w) (hdue : w.alarm.due = some (.up since what)) :
    Knows (log ++ [.accepted (.up since what)])
      { w with alarm := w.alarm.accept (.up since what), flight := none } := by
  obtain ⟨houtage, hlt, -⟩ := h.up since what (due_eq_up hdue)
  constructor
  case answers => exact h.answers_accepted
  case last_le => exact h.last_le
  case unsent => exact h.unsent
  case declared => exact fun s hs => nomatch houtage.symm.trans hs
  case ended => exact fun hsent => (h.ended hsent).snoc (by simp)
  case sent => exact fun hsent => absurd ((h.unsent houtage).symm.trans hsent) (by decide)
  case ups =>
    intro e he s what' hn
    rcases List.mem_append.mp he with he | he
    · exact h.ups e he s what' hn
    · obtain rfl := List.mem_singleton.mp he
      cases hn
      exact hlt.trans_eq (bar_eq_last houtage).symm
  case up => exact fun s what' heq => nomatch heq

end

/-! ### Runs -/

theorem Holds.observed {log : List (Entry U)} {w : World U} {now wait : Int} {answered : Bool}
    (h : Holds log w) (w' : World U) (hclock : w'.clock = now)
    (howed : ∀ n, w'.flight = some n → w'.alarm.due = some n)
    (hknows : Knows (log ++ [.observed now wait answered w'.flight]) w') :
    Holds (log ++ [.observed now wait answered w'.flight]) w' where
  paired := h.paired.snoc (hknows.fits hclock howed)
  flight := fun n hn => ⟨howed n hn, log, now, wait, answered, by rw [hn]⟩
  knows := hknows

theorem Holds.step {log : List (Entry U)} {w w' : World U} {e : Entry U} (h : Holds log w)
    (hstep : Step w e w') : Holds (log ++ [e]) w' := by
  cases hstep with
  | answer what hclock howed =>
    exact h.observed ⟨_, _, _, _⟩ rfl howed (h.knows.answer what hclock howed)
  | declare since hclock hnone hlast hwait hover howed =>
    exact h.observed ⟨_, _, _, _⟩ rfl howed
      (h.knows.declare hclock hnone hlast hwait hover howed)
  | silent hclock howed =>
    exact h.observed ⟨_, _, _, _⟩ rfl howed (h.knows.silent hclock howed)
  | @accept n hflight =>
    obtain ⟨hdue, hproduced⟩ := h.flight n hflight
    cases n with
    | down since =>
      obtain ⟨houtage, hsent⟩ := due_eq_down hdue
      have hover : Over since log := bar_eq houtage ▸ h.knows.ended hsent
      exact ⟨h.paired.snoc ⟨hproduced, hover⟩, (fun n hn => nomatch hn), h.knows.accept_down hdue⟩
    | up since what =>
      obtain ⟨-, -, howes⟩ := h.knows.up since what (due_eq_up hdue)
      exact ⟨h.paired.snoc ⟨hproduced, howes.2.2⟩, (fun n hn => nomatch hn), h.knows.accept_up hdue⟩

theorem Run.paired {start : Int} {log : List (Entry U)} {w : World U}
    (h : Run Step (.new start) log w) : Paired log :=
  (h.history (holds_new start) fun _ _ _ _ => Holds.step).paired

end Alarm

end Bmac.Base
