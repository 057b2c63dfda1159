import Mathlib.Data.List.TakeWhile
import Mathlib.Tactic

/-!
# Trees from indented rows

`nest` makes a forest of rows in listing order: a stack of the rows that are still open, of which a row
closes those that it isn't deeper than. `forest` says what it makes (`nest_eq_forest`): a row takes the
deeper rows right after it as its children. So the rows in preorder are the rows in their order, and each
one's parent is the nearest earlier row with a smaller indent (`nest_nested`). The rows of a forest, each
deeper than its parent, make that forest again (`nest_rows`).
-/

namespace Bmac.Base.Indent

variable {α : Type}

inductive Rose (α : Type) where
  | node (label : α) (children : List (Rose α))

namespace Rose

def label : Rose α → α
  | node label _ => label

def children : Rose α → List (Rose α)
  | node _ children => children

def leaf (label : α) : Rose α := node label []

def push (t child : Rose α) : Rose α := node t.label (t.children ++ [child])

end Rose

open Rose

/-! ## The stack machine -/

/-- The open rows with their indents, the innermost first, and the trees that are done. -/
structure State (α : Type) where
  stack : List (Nat × Rose α) := []
  top : List (Rose α) := []

namespace State

/-- A finished tree goes to the innermost open row. -/
def attach (s : State α) (t : Rose α) : State α :=
  match s.stack with
  | [] => { s with top := s.top ++ [t] }
  | (depth, parent) :: stack => { s with stack := (depth, parent.push t) :: stack }

/-- Attaches `done`, and then each row that isn't above `indent`. -/
def close (indent : Nat) (done : Rose α) : List (Nat × Rose α) → List (Rose α) → State α
  | [], top => ⟨[], top ++ [done]⟩
  | (depth, parent) :: stack, top =>
    if indent ≤ depth then close indent (parent.push done) stack top
    else ⟨(depth, parent.push done) :: stack, top⟩

/-- Closes the open rows down to `indent`. -/
def unwind (indent : Nat) (s : State α) : State α :=
  match s.stack with
  | [] => s
  | (depth, done) :: stack => if indent ≤ depth then close indent done stack s.top else s

def step (s : State α) (row : Nat × Rose α) : State α :=
  let s := s.unwind row.1
  { s with stack := row :: s.stack }

end State

def nest (rows : List (Nat × Rose α)) : List (Rose α) := ((rows.foldl State.step {}).unwind 0).top

/-! ## What it makes -/

/-- A row's children are the deeper rows up to the next that isn't. -/
def forest : List (Nat × α) → List (Rose α)
  | [] => []
  | (indent, label) :: rows =>
    node label (forest (rows.takeWhile (indent < ·.1))) :: forest (rows.dropWhile (indent < ·.1))
termination_by rows => rows.length
decreasing_by
  · exact Nat.lt_succ_of_le (List.takeWhile_prefix _).length_le
  · exact Nat.lt_succ_of_le (List.dropWhile_suffix _).length_le

/-- A row with the deeper rows after it, and the rows from the first that isn't deeper. -/
theorem forest_cons_append {i : Nat} (a : α) {inner outer : List (Nat × α)}
    (hinner : ∀ r ∈ inner, i < r.1) (houter : ∀ r ∈ outer.head?, r.1 ≤ i) :
    forest ((i, a) :: (inner ++ outer)) = node a (forest inner) :: forest outer := by
  have htail : outer.takeWhile (i < ·.1) = [] ∧ outer.dropWhile (i < ·.1) = outer := by
    cases outer with
    | nil => exact ⟨rfl, rfl⟩
    | cons r outer =>
      have hr : ¬ i < r.1 := Nat.not_lt.mpr (houter r rfl)
      exact ⟨List.takeWhile_cons_of_neg (by simpa using hr),
        List.dropWhile_cons_of_neg (by simpa using hr)⟩
  have hall : ∀ r ∈ inner, decide (i < r.1) = true := fun r hr => decide_eq_true (hinner r hr)
  rw [forest, List.takeWhile_append_of_pos hall, List.dropWhile_append_of_pos hall, htail.1, htail.2,
    List.append_nil]

theorem exists_inner_outer (i : Nat) (rows : List (Nat × α)) :
    ∃ inner outer, rows = inner ++ outer ∧ (∀ r ∈ inner, i < r.1) ∧ ∀ r ∈ outer.head?, r.1 ≤ i := by
  refine ⟨rows.takeWhile (i < ·.1), rows.dropWhile (i < ·.1),
    List.takeWhile_append_dropWhile.symm, fun r hr => ?_, fun r hr => ?_⟩
  · simpa using List.mem_takeWhile_imp hr
  · have hneg := List.head?_dropWhile_not (fun r : Nat × α => decide (i < r.1)) rows
    rw [Option.mem_def.mp hr] at hneg
    simpa using hneg

namespace State

variable {s : State α} {t : Rose α} {k i : Nat}

/-- The innermost open row is above `k`. -/
def Settled (k : Nat) (s : State α) : Prop := ∀ frame ∈ s.stack.head?, frame.1 < k

theorem Settled.mono (h : Settled k s) (hki : k ≤ i) : Settled i s :=
  fun frame hframe => (h frame hframe).trans_le hki

theorem Settled.attach (h : Settled k s) (t : Rose α) : Settled k (s.attach t) := by
  obtain ⟨stack, top⟩ := s
  cases stack with
  | nil => exact fun _ hframe => nomatch hframe
  | cons frame stack =>
    intro _ hframe
    rw [← Option.some.inj hframe]
    exact h frame rfl

theorem unwind_of_settled (h : Settled k s) : s.unwind k = s := by
  obtain ⟨stack, top⟩ := s
  cases stack with
  | nil => rfl
  | cons frame stack => exact if_neg (Nat.not_le.mpr (h frame rfl))

theorem close_eq (k : Nat) (t : Rose α) (stack : List (Nat × Rose α)) (top : List (Rose α)) :
    close k t stack top = (attach ⟨stack, top⟩ t).unwind k := by
  cases stack with
  | nil => rfl
  | cons frame stack => rfl

theorem unwind_cons (hki : k ≤ i) (t : Rose α) (s : State α) :
    unwind k ⟨(i, t) :: s.stack, s.top⟩ = (s.attach t).unwind k := by
  rw [← close_eq]
  exact if_pos hki

theorem length_attach (s : State α) (t : Rose α) : (s.attach t).stack.length = s.stack.length := by
  obtain ⟨stack, top⟩ := s
  cases stack with
  | nil => rfl
  | cons frame stack => rfl

/-- Closing down to `i` and then further is closing further. -/
theorem unwind_unwind (hki : k ≤ i) (s : State α) : (s.unwind i).unwind k = s.unwind k := by
  induction hn : s.stack.length generalizing s with
  | zero =>
    have hs : Settled i s := by
      rw [Settled, List.length_eq_zero_iff.mp hn]
      exact fun _ hframe => nomatch hframe
    rw [unwind_of_settled hs]
  | succ n ih =>
    obtain ⟨stack, top⟩ := s
    cases stack with
    | nil => cases hn
    | cons frame stack =>
      obtain ⟨depth, t⟩ := frame
      by_cases hopen : i ≤ depth
      · have hlen : (attach ⟨stack, top⟩ t).stack.length = n := by
          rw [length_attach]
          exact Nat.succ.inj hn
        calc (unwind i ⟨(depth, t) :: stack, top⟩).unwind k
            = ((attach ⟨stack, top⟩ t).unwind i).unwind k := by rw [← unwind_cons hopen]
          _ = (attach ⟨stack, top⟩ t).unwind k := ih _ hlen
          _ = unwind k ⟨(depth, t) :: stack, top⟩ := (unwind_cons (hki.trans hopen) t ⟨stack, top⟩).symm
      · have hs : Settled i ⟨(depth, t) :: stack, top⟩ := by
          rintro _ ⟨⟩
          exact Nat.not_le.mp hopen
        rw [unwind_of_settled hs]

/-- Each of some trees goes to the innermost open row. -/
def attachAll (s : State α) (ts : List (Rose α)) : State α := ts.foldl attach s

theorem attachAll_top (ts : List (Rose α)) (top : List (Rose α)) :
    attachAll ⟨[], top⟩ ts = ⟨[], top ++ ts⟩ := by
  induction ts generalizing top with
  | nil => rw [List.append_nil]; rfl
  | cons t ts ih =>
    change attachAll ⟨[], top ++ [t]⟩ ts = _
    rw [ih, List.append_assoc, List.singleton_append]

theorem attachAll_cons (i : Nat) (a : α) (cs ts : List (Rose α)) (s : State α) :
    attachAll ⟨(i, node a cs) :: s.stack, s.top⟩ ts = ⟨(i, node a (cs ++ ts)) :: s.stack, s.top⟩ := by
  induction ts generalizing cs with
  | nil => rw [List.append_nil]; rfl
  | cons t ts ih =>
    change attachAll ⟨(i, node a (cs ++ [t])) :: s.stack, s.top⟩ ts = _
    rw [ih, List.append_assoc, List.singleton_append]

def leaves (rows : List (Nat × α)) : List (Nat × Rose α) := rows.map fun r => (r.1, leaf r.2)

def run (s : State α) (rows : List (Nat × α)) : State α := (leaves rows).foldl step s

/-- Rows that aren't above `k` end as their forest in the innermost open row. -/
theorem unwind_run (rows : List (Nat × α)) (hs : Settled k s) (hrows : ∀ r ∈ rows, k ≤ r.1) :
    (s.run rows).unwind k = s.attachAll (forest rows) := by
  induction hn : rows.length using Nat.strong_induction_on generalizing k s rows with
  | _ n ih =>
  cases rows with
  | nil =>
    rw [forest]
    exact unwind_of_settled hs
  | cons row rest =>
    obtain ⟨i, a⟩ := row
    have hki : k ≤ i := hrows _ List.mem_cons_self
    obtain ⟨inner, outer, rfl, hinner, houter⟩ := exists_inner_outer i rest
    subst hn
    rw [List.length_cons, List.length_append] at ih
    -- the row and what is below it are one tree, however the rows go on
    have hblock : (s.run ((i, a) :: inner)).unwind (i + 1) =
        ⟨(i, node a (forest inner)) :: s.stack, s.top⟩ := by
      have hopened : s.run ((i, a) :: inner) = run ⟨(i, leaf a) :: s.stack, s.top⟩ inner := by
        change run (s.step (i, leaf a)) inner = _
        rw [step, unwind_of_settled (hs.mono hki)]
      have hsettled : Settled (i + 1) ⟨(i, leaf a) :: s.stack, s.top⟩ := by
        rintro _ ⟨⟩
        exact Nat.lt_succ_self i
      rw [hopened, ih inner.length (by omega) inner hsettled hinner rfl, leaf, attachAll_cons,
        List.nil_append]
    have hclosed : ∀ j, j ≤ i →
        (s.run ((i, a) :: inner)).unwind j = (s.attach (node a (forest inner))).unwind j := by
      intro j hj
      rw [← unwind_unwind (hj.trans (Nat.le_succ i)), hblock, unwind_cons hj]
    have hrun : s.run ((i, a) :: (inner ++ outer)) = (s.run ((i, a) :: inner)).run outer := by
      rw [run, run, run, ← List.foldl_append]
      simp only [leaves, List.map_cons, List.map_append, List.cons_append]
    rw [hrun, forest_cons_append a hinner houter]
    cases outer with
    | nil =>
      rw [forest]
      change (s.run ((i, a) :: inner)).unwind k = s.attach _
      rw [hclosed k hki, unwind_of_settled (hs.attach _)]
    | cons next outer =>
      obtain ⟨j, b⟩ := next
      have hji : j ≤ i := houter _ rfl
      have hstep : (s.run ((i, a) :: inner)).run ((j, b) :: outer) =
          (s.attach (node a (forest inner))).run ((j, b) :: outer) := by
        change run (step _ _) outer = run (step _ _) outer
        rw [step, step, hclosed j hji]
      rw [hstep, ih _ (by simp) ((j, b) :: outer) (hs.attach _)
        (fun r hr => hrows r (by simp [List.mem_cons.mp hr])) rfl]
      rfl

end State

theorem nest_eq_forest (rows : List (Nat × α)) : nest (State.leaves rows) = forest rows := by
  have hs : State.Settled 0 ({} : State α) := fun _ hframe => nomatch hframe
  have hrun := State.unwind_run rows hs fun _ _ => Nat.zero_le _
  have htop : (State.attachAll {} (forest rows)).top = forest rows := by
    rw [State.attachAll_top, List.nil_append]
  rw [← htop, ← hrun]
  rfl

/-! ## Rows and parents -/

mutual

/-- The labels of a tree, each before those below it. -/
def Rose.preorder : Rose α → List α
  | node a ts => a :: preorder ts

def preorder : List (Rose α) → List α
  | [] => []
  | t :: ts => t.preorder ++ preorder ts

end

mutual

/-- The place of the parent of each label, in preorder, in a tree whose root is at place `p`. -/
def Rose.parents (parent : Option Nat) (p : Nat) : Rose α → List (Option Nat)
  | node _ ts => parent :: parents (some p) (p + 1) ts

def parents (parent : Option Nat) (p : Nat) : List (Rose α) → List (Option Nat)
  | [] => []
  | t :: ts => t.parents parent p ++ parents parent (p + t.preorder.length) ts

end

/-- The place of the last entry that is smaller than `i`. -/
def lastBelow (i : Nat) : List Nat → Option Nat
  | [] => none
  | j :: rest => ((lastBelow i rest).map (· + 1)).or (if j < i then some 0 else none)

theorem lastBelow_eq_none {i : Nat} {before : List Nat} : lastBelow i before = none ↔ ∀ j ∈ before, i ≤ j := by
  induction before with
  | nil => simp [lastBelow]
  | cons j rest ih => simp [lastBelow, ih, and_comm]

/-- The forest of some rows: they are its preorder, and each one's parent is the nearest earlier row with
a smaller indent. -/
structure Nested (rows : List (Nat × α)) (ts : List (Rose α)) : Prop where
  order : preorder ts = rows.map (·.2)
  parent : ∀ before row after, rows = before ++ row :: after →
    (parents none 0 ts)[before.length]? = some (lastBelow row.1 (before.map (·.1)))

theorem preorder_forest (rows : List (Nat × α)) : preorder (forest rows) = rows.map (·.2) := by
  induction hn : rows.length using Nat.strong_induction_on generalizing rows with
  | _ n ih =>
  cases rows with
  | nil => rw [forest]; rfl
  | cons row rest =>
    obtain ⟨i, a⟩ := row
    obtain ⟨inner, outer, rfl, hinner, houter⟩ := exists_inner_outer i rest
    subst hn
    rw [List.length_cons, List.length_append] at ih
    rw [forest_cons_append a hinner houter, preorder, Rose.preorder, ih inner.length (by omega) inner rfl,
      ih outer.length (by omega) outer rfl, List.map_cons, List.map_append, List.cons_append]

theorem lastBelow_append (i : Nat) (a b : List Nat) :
    lastBelow i (a ++ b) = ((lastBelow i b).map (a.length + ·)).or (lastBelow i a) := by
  induction a with
  | nil => simp [lastBelow]
  | cons j a ih =>
    rw [List.cons_append, lastBelow, ih, lastBelow]
    cases lastBelow i b with
    | none => simp
    | some q => simp [Nat.add_right_comm]

/-- The places of the parents of the rows of some indents that come after others. -/
def nearest (before : List Nat) : List Nat → List (Option Nat)
  | [] => []
  | i :: rest => lastBelow i before :: nearest (before ++ [i]) rest

theorem nearest_append (before a b : List Nat) :
    nearest before (a ++ b) = nearest before a ++ nearest (before ++ a) b := by
  induction a generalizing before with
  | nil => rw [List.append_nil]; rfl
  | cons i a ih => simp [nearest, ih]

theorem length_nearest (before rest : List Nat) : (nearest before rest).length = rest.length := by
  induction rest generalizing before with
  | nil => rfl
  | cons i rest ih => simp [nearest, ih]

/-- Rows that come after `a ++ b`, whose parents are `c` when they aren't in `b`. -/
theorem nearest_shift {a b rest : List Nat} {c : Option Nat}
    (h : ∀ i ∈ rest, (∀ j ∈ b, i ≤ j) → lastBelow i a = c) :
    nearest (a ++ b) rest = (nearest b rest).map fun o => (o.map (a.length + ·)).or c := by
  induction rest generalizing b with
  | nil => rfl
  | cons i rest ih =>
    have hhead : lastBelow i (a ++ b) = ((lastBelow i b).map (a.length + ·)).or c := by
      rw [lastBelow_append]
      cases hb : lastBelow i b with
      | some q => rfl
      | none => rw [h i List.mem_cons_self (lastBelow_eq_none.mp hb)]
    have hrest := ih (b := b ++ [i]) fun k hk hbelow =>
      h k (List.mem_cons_of_mem i hk) fun j hj => hbelow j (List.mem_append_left _ hj)
    rw [nearest, nearest, hhead, List.append_assoc, hrest, List.map_cons]

theorem parents_forest (parent : Option Nat) (p : Nat) (rows : List (Nat × α)) :
    parents parent p (forest rows) =
      (nearest [] (rows.map (·.1))).map fun o => (o.map (p + ·)).or parent := by
  induction hn : rows.length using Nat.strong_induction_on generalizing rows parent p with
  | _ n ih =>
  cases rows with
  | nil => rw [forest]; rfl
  | cons row rest =>
    obtain ⟨i, a⟩ := row
    obtain ⟨inner, outer, rfl, hinner, houter⟩ := exists_inner_outer i rest
    subst hn
    rw [List.length_cons, List.length_append] at ih
    -- a deeper row that isn't below another of them is below this row
    have hbelow : nearest [i] (inner.map (·.1)) =
        (nearest [] (inner.map (·.1))).map fun o => (o.map (1 + ·)).or (some 0) := by
      refine nearest_shift (a := [i]) (b := []) fun j hj _ => ?_
      obtain ⟨r, hr, rfl⟩ := List.mem_map.mp hj
      simp [lastBelow, hinner r hr]
    -- no later row is below the block, as the first of them isn't
    have hbeside : nearest (i :: inner.map (·.1)) (outer.map (·.1)) =
        (nearest [] (outer.map (·.1))).map fun o => (o.map (inner.length + 1 + ·)).or none := by
      have hlow : ∀ r ∈ outer.head?, ∀ j ∈ i :: inner.map (·.1), r.1 ≤ j := by
        intro r hr j hj
        rcases List.mem_cons.mp hj with rfl | hj
        · exact houter r hr
        · obtain ⟨x, hx, rfl⟩ := List.mem_map.mp hj
          exact (houter r hr).trans (hinner x hx).le
      cases outer with
      | nil => rfl
      | cons r outer =>
        have hfirst : lastBelow r.1 (i :: inner.map (·.1)) = none := lastBelow_eq_none.mpr (hlow r rfl)
        have hrest := @nearest_shift (i :: inner.map (·.1)) [r.1] (outer.map (·.1)) none fun k _ hk => lastBelow_eq_none.mpr fun j hj =>
            (hk r.1 List.mem_cons_self).trans (hlow r rfl j hj)
        rw [List.map_cons, nearest, hfirst, hrest, nearest, List.map_cons, List.length_cons,
          List.length_map]
        rfl
    rw [forest_cons_append a hinner houter, parents, Rose.parents, Rose.preorder, List.length_cons,
      preorder_forest, List.length_map, ih inner.length (by omega) _ _ inner rfl,
      ih outer.length (by omega) _ _ outer rfl, List.map_cons, List.map_append, nearest, nearest_append,
      List.nil_append, List.singleton_append, hbelow, hbeside]
    rw [List.map_cons, List.map_append, List.map_map, List.map_map, List.cons_append]
    congr 2
    · refine List.map_congr_left fun o _ => ?_
      cases o with
      | none => rfl
      | some q => exact congrArg some (Nat.add_assoc p 1 q)
    · refine List.map_congr_left fun o _ => ?_
      cases o with
      | none => rfl
      | some q => exact congrArg some (Nat.add_assoc p (inner.length + 1) q)

theorem forest_nested (rows : List (Nat × α)) : Nested rows (forest rows) where
  order := preorder_forest rows
  parent := by
    rintro before row after rfl
    have hsome : (nearest [] ((before ++ row :: after).map (·.1)))[before.length]? =
        some (lastBelow row.1 (before.map (·.1))) := by
      rw [List.map_append, nearest_append, List.getElem?_append_right (by simp [length_nearest])]
      simp [length_nearest, nearest]
    rw [parents_forest, List.getElem?_map, hsome]
    cases lastBelow row.1 (before.map (·.1)) with
    | none => rfl
    | some q => exact congrArg some (congrArg some (Nat.zero_add q))

theorem nest_nested (rows : List (Nat × α)) : Nested rows (nest (State.leaves rows)) := by
  rw [nest_eq_forest]
  exact forest_nested rows

/-! ## The rows of a forest -/

mutual

/-- The rows of a tree at indent `k`, each level `d` deeper than the one above. -/
def Rose.rows (d k : Nat) : Rose α → List (Nat × α)
  | node a ts => (k, a) :: rows d (k + d) ts

def rows (d k : Nat) : List (Rose α) → List (Nat × α)
  | [] => []
  | t :: ts => t.rows d k ++ rows d k ts

end

mutual

theorem Rose.le_of_mem_rows {d k : Nat} {r : Nat × α} : (t : Rose α) → r ∈ t.rows d k → k ≤ r.1
  | node a ts => by
    rw [Rose.rows, List.mem_cons]
    rintro (rfl | hr)
    · exact le_rfl
    · exact (Nat.le_add_right k d).trans (le_of_mem_rows ts hr)

theorem le_of_mem_rows {d k : Nat} {r : Nat × α} : (ts : List (Rose α)) → r ∈ rows d k ts → k ≤ r.1
  | [] => fun hr => nomatch hr
  | t :: ts => by
    rw [rows, List.mem_append]
    exact Or.rec (Rose.le_of_mem_rows t) (le_of_mem_rows ts)

end

theorem head_rows {d k : Nat} (ts : List (Rose α)) : ∀ r ∈ (rows d k ts).head?, r.1 = k := by
  cases ts with
  | nil => exact fun _ hr => nomatch hr
  | cons t ts =>
    cases t with
    | node a cs =>
      rintro _ ⟨⟩
      rfl

mutual

theorem Rose.forest_rows {d : Nat} (hd : 0 < d) (k : Nat) : (t : Rose α) → (outer : List (Nat × α)) →
    (∀ r ∈ outer.head?, r.1 ≤ k) → forest (t.rows d k ++ outer) = t :: forest outer
  | node a ts, outer, houter => by
    have hinner : ∀ r ∈ rows d (k + d) ts, k < r.1 := fun r hr =>
      (Nat.lt_add_of_pos_right hd).trans_le (le_of_mem_rows ts hr)
    rw [Rose.rows, List.cons_append, forest_cons_append a hinner houter, forest_rows hd (k + d) ts]

theorem forest_rows {d : Nat} (hd : 0 < d) (k : Nat) : (ts : List (Rose α)) → forest (rows d k ts) = ts
  | [] => by rw [rows, forest]
  | t :: ts => by
    rw [rows, Rose.forest_rows hd k t _ fun r hr => (head_rows ts r hr).le, forest_rows hd k ts]

end

theorem nest_rows {d : Nat} (hd : 0 < d) (k : Nat) (ts : List (Rose α)) :
    nest (State.leaves (rows d k ts)) = ts := by
  rw [nest_eq_forest, forest_rows hd]

end Bmac.Base.Indent
