import Bmac.Bmacd.Alerts

/-!
# The life of an alert

A book runs a state machine for each condition and resource, with the transitions `Moves`. Evaluating
takes each of them one step (`find_evaluate`), and reports the steps that are changes, and no others
(`changes_evaluate`).
-/

namespace Bmac.Bmacd.Notify

open Bmac.Base Bmac.Core

/-! ## One condition and resource -/

section

variable {sha256 : List UInt8 → List UInt8} {nowMs : Int} {conditions : List Condition}
  {alerts : List Alert} {book : Book} {a : Alert} {c : Condition} {k : Key}

namespace Book

theorem key_see (c : Condition) (a : Alert) : (see c a).1.key = a.key := by
  unfold see
  split
  · rfl
  · unfold update
    dsimp only
    split <;> rfl

theorem find_modifySee (k k' : Key) :
    Keyed.find Alert.key k (Keyed.modifyFirst (·.key = k') (fun a => (see c a).1) alerts) =
      if k = k' then (Keyed.find Alert.key k alerts).map (fun a => (see c a).1)
      else Keyed.find Alert.key k alerts :=
  Keyed.find_modifyFirst (key_see c) k k' alerts

/-- What a due condition does to its alert, or without one. -/
def seen (sha256 : List UInt8 → List UInt8) (nowMs : Int) (c : Condition) :
    Option Alert → Alert × Option Change
  | some a => see c a
  | none => (opened sha256 c nowMs, some (.opened (opened sha256 c nowMs).id))

theorem find_apply (k : Key) : Keyed.find Alert.key k (apply sha256 nowMs alerts c).1 =
    if c.key = k then some (seen sha256 nowMs c (Keyed.find Alert.key k alerts)).1
    else Keyed.find Alert.key k alerts := by
  unfold apply
  cases hfind : Keyed.find Alert.key c.key alerts with
  | some a =>
    dsimp only
    rw [find_modifySee]
    by_cases hk : c.key = k
    · subst hk
      rw [if_pos rfl, if_pos rfl, hfind]
      rfl
    · rw [if_neg fun h => hk h.symm, if_neg hk]
  | none =>
    dsimp only
    rw [Keyed.find_append_singleton]
    by_cases hk : c.key = k
    · subst hk
      rw [if_pos rfl, hfind]
      exact if_pos rfl
    · rw [if_neg hk, if_neg fun h : (opened sha256 c nowMs).key = k => hk h, Option.or_none]

theorem changes_apply : (apply sha256 nowMs alerts c).2 =
    (seen sha256 nowMs c (Keyed.find Alert.key c.key alerts)).2.toList := by
  unfold apply
  cases Keyed.find Alert.key c.key alerts <;> rfl

theorem unique_apply (hu : Keyed.Unique Alert.key alerts) :
    Keyed.Unique Alert.key (apply sha256 nowMs alerts c).1 := by
  unfold apply
  cases hfind : Keyed.find Alert.key c.key alerts with
  | some a =>
    show ((Keyed.modifyFirst _ _ alerts).map Alert.key).Nodup
    rwa [Keyed.map_key_modifyFirst (key_see c)]
  | none => exact Keyed.unique_append_singleton hu hfind

/-! ## All due conditions -/

theorem find_applyAll (hc : Keyed.Unique Condition.key conditions) (s : List Alert × List Change)
    (k : Key) : Keyed.find Alert.key k (conditions.foldl (applyNext sha256 nowMs) s).1 =
      (Keyed.find Condition.key k conditions).elim (Keyed.find Alert.key k s.1) fun c =>
        some (seen sha256 nowMs c (Keyed.find Alert.key k s.1)).1 :=
  Keyed.find_foldl (applyNext sha256 nowMs) (fun s k => Keyed.find Alert.key k s.1)
    (fun c o => some (seen sha256 nowMs c o).1) (fun _ _ k => find_apply k) conditions hc s k

theorem unique_applyAll {s : List Alert × List Change} (hu : Keyed.Unique Alert.key s.1) :
    Keyed.Unique Alert.key (conditions.foldl (applyNext sha256 nowMs) s).1 := by
  induction conditions generalizing s with
  | nil => exact hu
  | cons c conditions ih =>
    rw [List.foldl_cons]
    exact ih (unique_apply hu)

theorem changes_applyAll (hc : Keyed.Unique Condition.key conditions)
    (s : List Alert × List Change) : (conditions.foldl (applyNext sha256 nowMs) s).2 =
      s.2 ++ conditions.filterMap fun c =>
        (seen sha256 nowMs c (Keyed.find Alert.key c.key s.1)).2 := by
  induction conditions generalizing s with
  | nil => exact (List.append_nil _).symm
  | cons c conditions ih =>
    obtain ⟨hnew, hc⟩ := List.nodup_cons.mp hc
    have hrest : ∀ c' ∈ conditions,
        Keyed.find Alert.key c'.key (apply sha256 nowMs s.1 c).1 = Keyed.find Alert.key c'.key s.1 := by
      intro c' hc'
      rw [find_apply, if_neg]
      intro hkey
      exact hnew (hkey ▸ List.mem_map_of_mem hc')
    rw [List.foldl_cons, ih hc]
    unfold applyNext
    dsimp only
    rw [changes_apply, List.append_assoc, List.filterMap_cons,
      List.filterMap_congr fun c' hc' => by rw [hrest c' hc']]
    cases (seen sha256 nowMs c (Keyed.find Alert.key c.key s.1)).2 <;> rfl

/-! ## An evaluation -/

theorem gone_of_present (hc : c ∈ conditions) (hkey : c.key = a.key)
    (hsev : ConditionSeverity.warning ≤ c.severity) : gone conditions a = false := by
  unfold gone
  obtain ⟨hid, hres⟩ := Prod.mk.inj hkey
  have : conditions.any (fun c => c.id = a.condition && c.resource = a.resource &&
      ConditionSeverity.warning ≤ c.severity) = true := by
    refine List.any_eq_true.mpr ⟨c, hc, ?_⟩
    simp only [hid, hres, decide_true, Bool.true_and, decide_eq_true_eq]
    exact hsev
  rw [this, Bool.not_true, Bool.and_false]

theorem warning_le_of_due (h : due c nowMs = true) : ConditionSeverity.warning ≤ c.severity := by
  unfold due at h
  cases hs : c.severity with
  | info => rw [hs] at h; cases h
  | warning => decide
  | critical => decide

/-- The step of one condition and resource: its due condition, the one alert it has after those that
leave, and the alert and the change it comes to. -/
def moved (sha256 : List UInt8 → List UInt8) (conditions : List Condition) (nowMs : Int)
    (mayResolve : Bool) (due : Option Condition) (kept : Option Alert) :
    Option Alert × Option Change :=
  match due, kept with
  | some c, kept => (some (seen sha256 nowMs c kept).1, (seen sha256 nowMs c kept).2)
  | none, some a =>
    if mayResolve && gone conditions a then (some (resolve nowMs a), some (.resolved a.id))
    else (some a, none)
  | none, none => (none, none)

def movedAt (sha256 : List UInt8 → List UInt8) (book : Book) (conditions : List Condition)
    (nowMs : Int) (mayResolve : Bool) (k : Key) : Option Alert × Option Change :=
  moved sha256 conditions nowMs mayResolve
    (Keyed.find Condition.key k (conditions.filter (due · nowMs)))
    ((Keyed.find Alert.key k book.alerts).filter (!stale nowMs ·))

theorem key_settle (p : Alert → Bool) (a : Alert) :
    (if p a then resolve nowMs a else a).key = a.key := by
  split <;> rfl

def applied (sha256 : List UInt8 → List UInt8) (book : Book) (conditions : List Condition)
    (nowMs : Int) : List Alert × List Change :=
  (conditions.filter (due · nowMs)).foldl (applyNext sha256 nowMs)
    (book.alerts.filter (!stale nowMs ·), [])

theorem evaluate_eq (mayResolve : Bool) : book.evaluate sha256 conditions nowMs mayResolve =
    (⟨(applied sha256 book conditions nowMs).1.map fun a =>
        if mayResolve && gone conditions a then resolve nowMs a else a⟩,
      (applied sha256 book conditions nowMs).2 ++
        ((applied sha256 book conditions nowMs).1.filter fun a =>
          mayResolve && gone conditions a).map (.resolved ·.id),
      book.alerts.filter (stale nowMs)) := by
  unfold evaluate
  cases mayResolve with
  | true => rfl
  | false =>
    have hno : (fun _ : Alert => false) = fun _ => false := rfl
    simp only [Bool.false_and, Bool.false_eq_true, if_false, List.map_id', List.filter_false,
      List.map_nil, List.append_nil]
    rfl

theorem unique_applied (hu : Keyed.Unique Alert.key book.alerts) :
    Keyed.Unique Alert.key (applied sha256 book conditions nowMs).1 :=
  unique_applyAll (Keyed.unique_filter _ hu)

theorem find_applied (hu : Keyed.Unique Alert.key book.alerts)
    (hc : Keyed.Unique Condition.key conditions) (k : Key) :
    Keyed.find Alert.key k (applied sha256 book conditions nowMs).1 =
      let kept := (Keyed.find Alert.key k book.alerts).filter (!stale nowMs ·)
      (Keyed.find Condition.key k (conditions.filter (due · nowMs))).elim kept fun c =>
        some (seen sha256 nowMs c kept).1 := by
  unfold applied
  rw [find_applyAll (Keyed.unique_filter _ hc), Keyed.find_filter _ hu]

theorem due_of_find (h : Keyed.find Condition.key k (conditions.filter (due · nowMs)) = some c) :
    c ∈ conditions ∧ c.key = k ∧ ConditionSeverity.warning ≤ c.severity := by
  obtain ⟨hmem, hkey⟩ := Keyed.mem_of_find h
  obtain ⟨hc, hdue⟩ := List.mem_filter.mp hmem
  exact ⟨hc, hkey, warning_le_of_due hdue⟩

theorem key_seen (c : Condition) (o : Option Alert) (ho : ∀ a, o = some a → a.key = c.key) :
    (seen sha256 nowMs c o).1.key = c.key := by
  cases o with
  | some a => exact (key_see c a).trans (ho a rfl)
  | none => rfl

theorem find_evaluate (hu : Keyed.Unique Alert.key book.alerts)
    (hc : Keyed.Unique Condition.key conditions) (mayResolve : Bool) (k : Key) :
    Keyed.find Alert.key k (book.evaluate sha256 conditions nowMs mayResolve).1.alerts =
      (movedAt sha256 book conditions nowMs mayResolve k).1 := by
  rw [evaluate_eq, Keyed.find_map (key_settle _), find_applied hu hc]
  unfold movedAt
  generalize hkept : (Keyed.find Alert.key k book.alerts).filter (!stale nowMs ·) = kept
  have hkey : ∀ a, kept = some a → a.key = k := by
    rintro a rfl
    exact (Keyed.mem_of_find (Option.filter_eq_some_iff.mp hkept).1).2
  cases hdue : Keyed.find Condition.key k (conditions.filter (due · nowMs)) with
  | some c =>
    obtain ⟨hmem, rfl, hsev⟩ := due_of_find hdue
    have hgone : gone conditions (seen sha256 nowMs c kept).1 = false :=
      gone_of_present hmem (key_seen c kept hkey).symm hsev
    simp only [Option.elim_some, Option.map_some, hgone, Bool.and_false, Bool.false_eq_true,
      if_false, moved]
  | none =>
    cases kept with
    | none => rfl
    | some a =>
      unfold moved
      dsimp only [Option.elim_none, Option.map_some]
      split <;> rfl

def reportedAt (sha256 : List UInt8 → List UInt8) (book : Book) (conditions : List Condition)
    (nowMs : Int) (k : Key) : Option Change :=
  (Keyed.find Condition.key k (conditions.filter (due · nowMs))).bind fun c =>
    (seen sha256 nowMs c ((Keyed.find Alert.key k book.alerts).filter (!stale nowMs ·))).2

/-- What its alert reports when no condition is left. -/
def clearedAt (sha256 : List UInt8 → List UInt8) (book : Book) (conditions : List Condition)
    (nowMs : Int) (mayResolve : Bool) (k : Key) : Option Change :=
  (Keyed.find Alert.key k (applied sha256 book conditions nowMs).1).bind fun a =>
    if mayResolve && gone conditions a then some (.resolved a.id) else none

theorem reportedAt_eq_none {k : Key}
    (h : Keyed.find Condition.key k (conditions.filter (due · nowMs)) = none) :
    reportedAt sha256 book conditions nowMs k = none := by
  rw [reportedAt, h]
  rfl

theorem clearedAt_eq_none (hu : Keyed.Unique Alert.key book.alerts)
    (hc : Keyed.Unique Condition.key conditions) (mayResolve : Bool)
    (h : Keyed.find Condition.key k (conditions.filter (due · nowMs)) = some c) :
    clearedAt sha256 book conditions nowMs mayResolve k = none := by
  obtain ⟨hmem, rfl, hsev⟩ := due_of_find h
  have hkey : ∀ a, (Keyed.find Alert.key c.key book.alerts).filter (!stale nowMs ·) = some a →
      a.key = c.key := fun a ha =>
    (Keyed.mem_of_find (Option.filter_eq_some_iff.mp ha).1).2
  have hgone := gone_of_present hmem (@key_seen sha256 nowMs c _ hkey).symm hsev
  rw [clearedAt, find_applied hu hc, h]
  simp only [Option.elim_some, Option.bind_some, hgone, Bool.and_false, Bool.false_eq_true, if_false]

/-- The change of a condition and resource is what is reported or what is cleared, never both. -/
theorem movedAt_change (hu : Keyed.Unique Alert.key book.alerts)
    (hc : Keyed.Unique Condition.key conditions) (mayResolve : Bool) (k : Key) :
    (movedAt sha256 book conditions nowMs mayResolve k).2 =
        (reportedAt sha256 book conditions nowMs k).or
          (clearedAt sha256 book conditions nowMs mayResolve k) ∧
      (reportedAt sha256 book conditions nowMs k = none ∨
        clearedAt sha256 book conditions nowMs mayResolve k = none) := by
  cases hdue : Keyed.find Condition.key k (conditions.filter (due · nowMs)) with
  | some c =>
    have hcleared : clearedAt sha256 book conditions nowMs mayResolve k = none :=
      clearedAt_eq_none hu hc mayResolve hdue
    refine ⟨?_, .inr hcleared⟩
    rw [hcleared, Option.or_none, movedAt, reportedAt, hdue]
    rfl
  | none =>
    have hreported : reportedAt sha256 book conditions nowMs k = none := reportedAt_eq_none hdue
    refine ⟨?_, .inl hreported⟩
    rw [hreported, Option.none_or, movedAt, clearedAt, find_applied hu hc, hdue]
    dsimp only [Option.elim_none]
    cases (Keyed.find Alert.key k book.alerts).filter (!stale nowMs ·) with
    | none => rfl
    | some a =>
      unfold moved
      dsimp only [Option.bind_some]
      split <;> rfl

theorem applied_changes (hu : Keyed.Unique Alert.key book.alerts)
    (hc : Keyed.Unique Condition.key conditions) : (applied sha256 book conditions nowMs).2 =
      ((conditions.filter (due · nowMs)).map Condition.key).filterMap
        (reportedAt sha256 book conditions nowMs) := by
  have hdues : Keyed.Unique Condition.key (conditions.filter (due · nowMs)) := Keyed.unique_filter _ hc
  rw [applied, changes_applyAll hdues, List.nil_append, List.filterMap_map]
  refine List.filterMap_congr fun c hmem => ?_
  dsimp only [Function.comp]
  rw [reportedAt, Keyed.find_of_mem hdues hmem, Keyed.find_filter _ hu]
  rfl

theorem cleared_changes (hu : Keyed.Unique Alert.key book.alerts) (mayResolve : Bool) :
    ((applied sha256 book conditions nowMs).1.filter fun a => mayResolve && gone conditions a).map
        (Change.resolved ·.id) =
      ((applied sha256 book conditions nowMs).1.map Alert.key).filterMap
        (clearedAt sha256 book conditions nowMs mayResolve) := by
  rw [← List.filterMap_eq_map, List.filterMap_filter, List.filterMap_map]
  refine List.filterMap_congr fun a ha => ?_
  dsimp only [Function.comp]
  rw [clearedAt, Keyed.find_of_mem (unique_applied hu) ha]
  rfl

theorem reported_perm (hu : Keyed.Unique Alert.key book.alerts)
    (hc : Keyed.Unique Condition.key conditions) :
    (((conditions.filter (due · nowMs)).map Condition.key).filterMap
        (reportedAt sha256 book conditions nowMs)).Perm
      (((applied sha256 book conditions nowMs).1.map Alert.key).filterMap
        (reportedAt sha256 book conditions nowMs)) := by
  refine Keyed.filterMap_perm (Keyed.unique_filter _ hc) (unique_applied hu) fun k hk => ?_
  cases hdue : Keyed.find Condition.key k (conditions.filter (due · nowMs)) with
  | none =>
    rw [reportedAt_eq_none hdue] at hk
    cases hk
  | some c =>
    have hin : (Keyed.find Alert.key k (applied sha256 book conditions nowMs).1).isSome = true := by
      rw [find_applied hu hc, hdue]
      rfl
    exact ⟨fun _ => Keyed.find_isSome_iff.mp hin, fun _ =>
      Keyed.find_isSome_iff.mp (by rw [hdue]; rfl)⟩

theorem changes_evaluate (hu : Keyed.Unique Alert.key book.alerts)
    (hc : Keyed.Unique Condition.key conditions) (mayResolve : Bool) :
    (book.evaluate sha256 conditions nowMs mayResolve).2.1.Perm
      ((book.evaluate sha256 conditions nowMs mayResolve).1.alerts.filterMap fun a =>
        (movedAt sha256 book conditions nowMs mayResolve a.key).2) := by
  have hall : ((applied sha256 book conditions nowMs).1.map fun a =>
        if mayResolve && gone conditions a then resolve nowMs a else a).filterMap
          (fun a => (movedAt sha256 book conditions nowMs mayResolve a.key).2) =
      ((applied sha256 book conditions nowMs).1.map Alert.key).filterMap fun k =>
        (reportedAt sha256 book conditions nowMs k).or
          (clearedAt sha256 book conditions nowMs mayResolve k) := by
    rw [List.filterMap_map, List.filterMap_map]
    refine List.filterMap_congr fun a _ => ?_
    dsimp only [Function.comp]
    rw [key_settle (fun a => mayResolve && gone conditions a) a]
    exact (movedAt_change hu hc mayResolve a.key).1
  rw [evaluate_eq]
  dsimp only
  rw [hall, applied_changes hu hc, cleared_changes hu]
  refine (List.Perm.append_right _ (reported_perm hu hc)).trans (Keyed.filterMap_or_perm _ fun k _ => ?_).symm
  exact (movedAt_change hu hc mayResolve k).2

theorem unique_evaluate (hu : Keyed.Unique Alert.key book.alerts) (mayResolve : Bool) :
    Keyed.Unique Alert.key (book.evaluate sha256 conditions nowMs mayResolve).1.alerts := by
  rw [evaluate_eq]
  show ((List.map _ _).map Alert.key).Nodup
  rw [Keyed.map_key_map (key_settle _)]
  exact unique_applied hu

theorem unique_switchOff (hu : Keyed.Unique Alert.key book.alerts) (disabled : List String) :
    Keyed.Unique Alert.key (book.switchOff disabled nowMs).alerts := by
  show ((List.map _ _).map Alert.key).Nodup
  rwa [Keyed.map_key_map (key_settle _)]

/-! ## Merging -/

def mergeOne (alerts : List Alert) (alert : Alert) : List Alert :=
  if alerts.any fun a => a.id = alert.id || a.key = alert.key then alerts else alerts ++ [alert]

theorem unique_mergeOne (hu : Keyed.Unique Alert.key alerts) (a : Alert) :
    Keyed.Unique Alert.key (mergeOne alerts a) := by
  unfold mergeOne
  split
  · exact hu
  · rename_i hno
    refine Keyed.unique_append_singleton hu (Keyed.find_eq_none_iff.mpr fun b hb hkey => hno ?_)
    exact List.any_eq_true.mpr ⟨b, hb, by simp [hkey]⟩

/-- What a book has stays, and what comes is the local book's. -/
theorem find_mergeOne (a : Alert) (k : Key) :
    Keyed.find Alert.key k (mergeOne alerts a) = Keyed.find Alert.key k alerts ∨
      (Keyed.find Alert.key k alerts = none ∧ Keyed.find Alert.key k (mergeOne alerts a) = some a) := by
  unfold mergeOne
  split
  · exact .inl rfl
  · rw [Keyed.find_append_singleton]
    cases hfind : Keyed.find Alert.key k alerts with
    | some b => exact .inl rfl
    | none =>
      by_cases hk : a.key = k
      · exact .inr ⟨rfl, by rw [if_pos hk]; rfl⟩
      · exact .inl (by rw [if_neg hk]; rfl)

theorem unique_merge (hu : Keyed.Unique Alert.key book.alerts) (localBook : Book) :
    Keyed.Unique Alert.key (book.merge localBook).alerts := by
  show Keyed.Unique Alert.key (localBook.alerts.foldl mergeOne book.alerts)
  generalize book.alerts = alerts at hu ⊢
  induction localBook.alerts generalizing alerts with
  | nil => exact hu
  | cons a rest ih => exact ih _ (unique_mergeOne hu a)

theorem find_merge (localBook : Book) (k : Key) :
    Keyed.find Alert.key k (book.merge localBook).alerts = Keyed.find Alert.key k book.alerts ∨
      ∃ a ∈ localBook.alerts, Keyed.find Alert.key k book.alerts = none ∧
        Keyed.find Alert.key k (book.merge localBook).alerts = some a := by
  show Keyed.find Alert.key k (localBook.alerts.foldl mergeOne book.alerts) = _ ∨
    ∃ a ∈ localBook.alerts, _ ∧ Keyed.find Alert.key k (localBook.alerts.foldl mergeOne book.alerts) = _
  generalize book.alerts = alerts
  induction localBook.alerts generalizing alerts with
  | nil => exact .inl rfl
  | cons a rest ih =>
    rw [List.foldl_cons]
    rcases ih (mergeOne alerts a) with hsame | ⟨b, hb, hnone, hcomes⟩
    · rcases @find_mergeOne alerts a k with hone | ⟨hnone, hone⟩
      · exact .inl (hsame.trans hone)
      · exact .inr ⟨a, List.mem_cons_self .., hnone, hsame.trans hone⟩
    · refine .inr ⟨b, List.mem_cons_of_mem _ hb, ?_, hcomes⟩
      rcases @find_mergeOne alerts a k with hone | ⟨-, hone⟩
      · rw [← hone]
        exact hnone
      · rw [hone] at hnone
        cases hnone

end Book

end

/-! ## Operations on a book -/

inductive BookOp where
  | evaluate (conditions : List Condition) (mayResolve : Bool)
  | switchOff (disabled : List String)
  | acknowledge (id by_ : String)
  | merge (localBook : Book)

/-- The book, the changes and the alerts that leave it; a refused acknowledgment does nothing. -/
def BookOp.run (sha256 : List UInt8 → List UInt8) (nowMs : Int) (book : Book) :
    BookOp → Book × List Change × List Alert
  | evaluate conditions mayResolve => book.evaluate sha256 conditions nowMs mayResolve
  | switchOff disabled => (book.switchOff disabled nowMs, [], [])
  | acknowledge id by_ =>
    match book.acknowledge id by_ nowMs with
    | .ok book => (book, [], [])
    | .error _ => (book, [], [])
  | merge localBook => (book.merge localBook, [], [])

/-- The transitions of an alert, each with the change that is reported. -/
inductive Moves (sha256 : List UInt8 → List UInt8) (op : BookOp) (nowMs : Int) :
    Option Alert → Option Change → Option Alert → Prop where
  | absent : Moves sha256 op nowMs none none none
  | merged {a : Alert} {localBook : Book} (hop : op = .merge localBook) (ha : a ∈ localBook.alerts) :
      Moves sha256 op nowMs none none (some a)
  | opened {a : Alert} (hstate : a.state = .open) (hopened : a.openedMs = nowMs)
      (hresolved : a.resolvedMs = none) (hgeneration : a.generation = 1) :
      Moves sha256 op nowMs none (some (.opened a.id)) (some a)
  | stays (a : Alert) : Moves sha256 op nowMs (some a) none (some a)
  | updated {a : Alert} (message : String) (nextStep : Option NextStep)
      (severity : ConditionSeverity) (hopen : a.state ≠ .resolved) (hle : ¬ a.severity < severity) :
      Moves sha256 op nowMs (some a) none
        (some { a with message := message, nextStep := nextStep, severity := severity })
  | escalated {a : Alert} (message : String) (nextStep : Option NextStep)
      (severity : ConditionSeverity) (hopen : a.state ≠ .resolved) (hlt : a.severity < severity) :
      Moves sha256 op nowMs (some a) (some (.escalated a.id))
        (some { a with
          message := message, nextStep := nextStep, severity := severity
          generation := a.generation + 1 })
  | acknowledged {a : Alert} (by_ : String) (hop : op = .acknowledge a.id by_)
      (hopen : a.state = .open) :
      Moves sha256 op nowMs (some a) none
        (some (Book.acknowledged by_ nowMs a))
  | resolved {a : Alert} (hopen : a.state ≠ .resolved) :
      Moves sha256 op nowMs (some a) (some (.resolved a.id)) (some (Book.resolve nowMs a))
  | closed {a : Alert} {disabled : List String} (hop : op = .switchOff disabled)
      (hoff : switchedOff disabled a.condition = true) (hopen : a.state ≠ .resolved) :
      Moves sha256 op nowMs (some a) none (some (Book.resolve nowMs a))
  | reopened {a : Alert} {resolvedMs : Int} (message : String) (nextStep : Option NextStep)
      (severity : ConditionSeverity) (hstate : a.state = .resolved)
      (hresolved : a.resolvedMs = some resolvedMs) (hsoon : nowMs - resolvedMs ≤ reopenMs) :
      Moves sha256 op nowMs (some a) (some (.reopened a.id))
        (some { a with
          state := .open, resolvedMs := none, acknowledgedBy := none, acknowledgedMs := none
          severity := severity, message := message, nextStep := nextStep
          generation := a.generation + 1 })

variable {change : Option Change} {op : BookOp} {o : Option Alert} {a a' : Alert}

section

variable {sha256 : List UInt8 → List UInt8} {nowMs : Int} {book : Book} {conditions : List Condition}

/-- Every resolved alert says when it was. -/
def Dated (book : Book) : Prop :=
  ∀ a ∈ book.alerts, a.state = .resolved → ∃ t, a.resolvedMs = some t

theorem moves_see (c : Condition)
    (hdated : a.state = .resolved → ∃ t, a.resolvedMs = some t) (hstale : Book.stale nowMs a = false) :
    Moves sha256 op nowMs (some a) (Book.see c a).2 (some (Book.see c a).1) := by
  unfold Book.see
  by_cases hstate : a.state = .resolved
  · rw [if_pos hstate]
    obtain ⟨t, ht⟩ := hdated hstate
    refine .reopened _ _ _ hstate ht ?_
    simp only [Book.stale, hstate, ht, decide_true, Bool.true_and, Option.getD_some,
      decide_eq_false_iff_not] at hstale
    omega
  · rw [if_neg hstate]
    unfold Book.update
    dsimp only
    by_cases hsev : a.severity < c.severity
    · rw [if_pos hsev]
      exact .escalated _ _ _ hstate hsev
    · rw [if_neg hsev]
      exact .updated _ _ _ hstate hsev

theorem moves_evaluate (hu : Keyed.Unique Alert.key book.alerts) (hdated : Dated book)
    (hc : Keyed.Unique Condition.key conditions) (mayResolve : Bool) (op : BookOp) (k : Key) :
    Moves sha256 op nowMs ((Keyed.find Alert.key k book.alerts).filter (!Book.stale nowMs ·))
      (Book.movedAt sha256 book conditions nowMs mayResolve k).2
      (Keyed.find Alert.key k (book.evaluate sha256 conditions nowMs mayResolve).1.alerts) := by
  rw [Book.find_evaluate hu hc]
  unfold Book.movedAt
  generalize hkept : (Keyed.find Alert.key k book.alerts).filter (!Book.stale nowMs ·) = kept
  generalize Keyed.find Condition.key k (conditions.filter (due · nowMs)) = dueOne
  cases dueOne with
  | some c =>
    cases kept with
    | none => exact .opened rfl rfl rfl rfl
    | some a =>
      obtain ⟨hfind, hstale⟩ := Option.filter_eq_some_iff.mp hkept
      exact moves_see c (hdated a (Keyed.mem_of_find hfind).1) (by simpa using hstale)
  | none =>
    cases kept with
    | none => exact .absent
    | some a =>
      unfold Book.moved
      dsimp only
      by_cases hgone : (mayResolve && Book.gone conditions a) = true
      · rw [if_pos hgone]
        refine .resolved ?_
        simp only [Bool.and_eq_true, Book.gone, decide_eq_true_eq] at hgone
        exact hgone.2.1
      · rw [if_neg hgone]
        exact .stays a

theorem moves_switchOff (disabled : List String) (k : Key) :
    Moves sha256 (.switchOff disabled) nowMs (Keyed.find Alert.key k book.alerts) none
      (Keyed.find Alert.key k (book.switchOff disabled nowMs).alerts) := by
  unfold Book.switchOff
  rw [Keyed.find_map (Book.key_settle _)]
  cases Keyed.find Alert.key k book.alerts with
  | none => exact .absent
  | some a =>
    rw [Option.map_some]
    by_cases hoff : (a.state ≠ .resolved && switchedOff disabled a.condition) = true
    · rw [if_pos hoff]
      simp only [Bool.and_eq_true, decide_eq_true_eq] at hoff
      exact .closed rfl hoff.2 hoff.1
    · rw [if_neg hoff]
      exact .stays a

theorem moves_acknowledge {book' : Book} {id by_ : String}
    (hu : Keyed.Unique Alert.key book.alerts) (h : book.acknowledge id by_ nowMs = .ok book') :
    Keyed.Unique Alert.key book'.alerts ∧
      ∀ k, Moves sha256 (.acknowledge id by_) nowMs (Keyed.find Alert.key k book.alerts) none
        (Keyed.find Alert.key k book'.alerts) := by
  have hsame : ∀ k, Moves sha256 (.acknowledge id by_) nowMs (Keyed.find Alert.key k book.alerts) none
      (Keyed.find Alert.key k book.alerts) := by
    intro k
    cases Keyed.find Alert.key k book.alerts with
    | none => exact .absent
    | some a => exact .stays a
  unfold Book.acknowledge at h
  cases hget : book.get id with
  | none =>
    rw [hget] at h
    cases h
  | some a =>
    rw [hget] at h
    dsimp only at h
    cases hstate : a.state with
    | resolved =>
      rw [hstate] at h
      cases h
    | acknowledged =>
      rw [hstate] at h
      obtain rfl := Except.ok.inj h
      exact ⟨hu, hsame⟩
    | «open» =>
      rw [hstate] at h
      obtain rfl := Except.ok.inj h
      have hid : a.id = id := by simpa using List.find?_some hget
      have hkey : ∀ a, (Book.acknowledged by_ nowMs a).key = a.key := fun _ => rfl
      refine ⟨?_, fun k => ?_⟩
      · show ((Keyed.modifyFirst _ _ book.alerts).map Alert.key).Nodup
        rwa [Keyed.map_key_modifyFirst hkey]
      · rw [Keyed.find_modifyFirst_of hkey hu hget]
        by_cases hk : a.key = k
        · rw [if_pos hk, ← hk, Keyed.find_of_mem hu (List.mem_of_find?_eq_some hget)]
          exact .acknowledged by_ (by rw [hid]) hstate
        · rw [if_neg hk]
          exact hsame k

theorem moves_merge (localBook : Book) (k : Key) :
    Moves sha256 (.merge localBook) nowMs (Keyed.find Alert.key k book.alerts) none
      (Keyed.find Alert.key k (book.merge localBook).alerts) := by
  rcases @Book.find_merge book localBook k with hsame | ⟨a, ha, hnone, hcomes⟩
  · rw [hsame]
    cases Keyed.find Alert.key k book.alerts with
    | none => exact .absent
    | some a => exact .stays a
  · rw [hnone, hcomes]
    exact .merged rfl ha

def BookOp.Listed : BookOp → Prop
  | evaluate conditions _ => Keyed.Unique Condition.key conditions
  | _ => True

/-- The alert that a condition and resource has once the expired ones left. -/
def keptAt (book : Book) (expired : List Alert) (k : Key) : Option Alert :=
  (Keyed.find Alert.key k book.alerts).filter (· ∉ expired)

/-- What one operation does to a book; `change` is what each condition and resource reports. -/
structure Evolves (sha256 : List UInt8 → List UInt8) (op : BookOp) (nowMs : Int) (book after : Book)
    (changes : List Change) (expired : List Alert) (change : Key → Option Change) : Prop where
  /-- one alert for each condition and resource -/
  unique : Keyed.Unique Alert.key after.alerts
  moves : ∀ k, Moves sha256 op nowMs (keptAt book expired k) (change k)
    (Keyed.find Alert.key k after.alerts)
  reported : changes.Perm (after.alerts.filterMap (change ·.key))
  leaves : ∀ a ∈ expired, a ∈ book.alerts ∧ a.state = .resolved ∧
    ∃ t, a.resolvedMs = some t ∧ reopenMs < nowMs - t
  once : expired.Nodup

theorem keptAt_nil (book : Book) (k : Key) :
    keptAt book [] k = Keyed.find Alert.key k book.alerts := by
  unfold keptAt
  cases Keyed.find Alert.key k book.alerts <;> simp

theorem keptAt_stale (book : Book) (nowMs : Int) (k : Key) :
    keptAt book (book.alerts.filter (Book.stale nowMs)) k =
      (Keyed.find Alert.key k book.alerts).filter (!Book.stale nowMs ·) := by
  unfold keptAt
  cases hfind : Keyed.find Alert.key k book.alerts with
  | none => rfl
  | some a =>
    have hmem := (Keyed.mem_of_find hfind).1
    rw [Option.filter_some, Option.filter_some]
    cases hstale : Book.stale nowMs a <;> simp [hmem, hstale]

theorem stale_iff (hdated : a.state = .resolved → ∃ t, a.resolvedMs = some t) :
    Book.stale nowMs a = true ↔
      a.state = .resolved ∧ ∃ t, a.resolvedMs = some t ∧ reopenMs < nowMs - t := by
  unfold Book.stale
  rw [Bool.and_eq_true, decide_eq_true_eq, decide_eq_true_eq]
  constructor
  · rintro ⟨hstate, hlate⟩
    obtain ⟨t, ht⟩ := hdated hstate
    rw [ht, Option.getD_some] at hlate
    exact ⟨hstate, t, ht, hlate⟩
  · rintro ⟨hstate, t, ht, hlate⟩
    refine ⟨hstate, ?_⟩
    rwa [ht, Option.getD_some]

/-- An operation that reports nothing and lets nothing leave. -/
theorem evolves_quiet {after : Book} (hu : Keyed.Unique Alert.key after.alerts)
    (hmoves : ∀ k, Moves sha256 op nowMs (Keyed.find Alert.key k book.alerts) none
      (Keyed.find Alert.key k after.alerts)) :
    Evolves sha256 op nowMs book after [] [] fun _ => none where
  unique := hu
  moves k := by
    rw [keptAt_nil]
    exact hmoves k
  reported := by simp
  leaves _ ha := nomatch ha
  once := List.nodup_nil

theorem nodup_of_unique {alerts : List Alert} (hu : Keyed.Unique Alert.key alerts) : alerts.Nodup :=
  List.Nodup.of_map _ hu

theorem evolves (hu : Keyed.Unique Alert.key book.alerts) (hdated : Dated book) {op : BookOp}
    (hop : op.Listed) : ∃ change, Evolves sha256 op nowMs book (op.run sha256 nowMs book).1
      (op.run sha256 nowMs book).2.1 (op.run sha256 nowMs book).2.2 change := by
  cases op with
  | evaluate conditions mayResolve =>
    refine ⟨fun k => (Book.movedAt sha256 book conditions nowMs mayResolve k).2, ?_, ?_, ?_, ?_, ?_⟩
    · exact Book.unique_evaluate hu mayResolve
    · intro k
      show Moves _ _ _ (keptAt book (book.evaluate sha256 conditions nowMs mayResolve).2.2 k) _ _
      rw [Book.evaluate_eq]
      dsimp only
      rw [keptAt_stale]
      exact moves_evaluate hu hdated hop mayResolve _ k
    · exact Book.changes_evaluate hu hop mayResolve
    · intro a ha
      change a ∈ (book.evaluate sha256 conditions nowMs mayResolve).2.2 at ha
      rw [Book.evaluate_eq] at ha
      obtain ⟨hmem, hstale⟩ := List.mem_filter.mp ha
      exact ⟨hmem, (stale_iff (hdated a hmem)).mp hstale⟩
    · show (book.evaluate sha256 conditions nowMs mayResolve).2.2.Nodup
      rw [Book.evaluate_eq]
      exact (nodup_of_unique hu).filter _
  | switchOff disabled =>
    exact ⟨_, evolves_quiet (Book.unique_switchOff hu disabled) (moves_switchOff disabled)⟩
  | acknowledge id by_ =>
    refine ⟨fun _ => none, ?_⟩
    dsimp only [BookOp.run]
    cases hack : book.acknowledge id by_ nowMs with
    | ok after =>
      obtain ⟨hunique, hmoves⟩ := moves_acknowledge hu hack
      exact evolves_quiet hunique hmoves
    | error e =>
      refine evolves_quiet hu fun k => ?_
      cases Keyed.find Alert.key k book.alerts with
      | none => exact .absent
      | some a => exact .stays a
  | merge localBook => exact ⟨_, evolves_quiet (Book.unique_merge hu localBook) (moves_merge localBook)⟩

theorem Moves.same (h : Moves sha256 op nowMs (some a) change o) :
    ∃ a', o = some a' ∧ a'.id = a.id ∧ a'.openedMs = a.openedMs := by
  cases h <;> exact ⟨_, rfl, rfl, rfl⟩

theorem Moves.raises (h : Moves sha256 op nowMs o change (some a'))
    (hop : (∀ localBook, op ≠ .merge localBook) ∨ o.isSome = true) :
    (o.elim 0 Alert.generation < a'.generation ↔ change = some (.opened a'.id) ∨
      change = some (.reopened a'.id) ∨ change = some (.escalated a'.id)) := by
  cases h with
  | merged heq _ =>
    rcases hop with hop | hop
    · exact absurd heq (hop _)
    · cases hop
  | opened _ _ _ hgeneration => simp [hgeneration]
  | stays => simp
  | updated => simp
  | escalated => simp
  | acknowledged => simp [Book.acknowledged]
  | resolved => simp [Book.resolve]
  | closed => simp [Book.resolve]
  | reopened => simp

theorem Moves.to_resolved
    (h : Moves sha256 op nowMs o change (some a')) (hstate : a'.state = .resolved) :
    o = some a' ∨ a'.resolvedMs = some nowMs ∨
      ∃ localBook, op = .merge localBook ∧ o = none ∧ a' ∈ localBook.alerts := by
  cases h with
  | merged heq ha => exact .inr (.inr ⟨_, heq, rfl, ha⟩)
  | opened hopen =>
    rw [hopen] at hstate
    cases hstate
  | stays => exact .inl rfl
  | updated _ _ _ hopen => exact absurd hstate hopen
  | escalated _ _ _ hopen => exact absurd hstate hopen
  | acknowledged => cases hstate
  | resolved => exact .inr (.inl rfl)
  | closed => exact .inr (.inl rfl)
  | reopened => cases hstate

end

/-! ## The history of a book -/

/-- A moment of a book: the operation that led to it, by what it let leave and what it merged. -/
structure Moment where
  nowMs : Int
  book : Book
  expired : List Alert
  merged : Option Book

/-- The moments that operations led through, newest first. -/
inductive Lived (sha256 : List UInt8 → List UInt8) : List Moment → Prop where
  | empty (t : Int) : Lived sha256 [⟨t, ⟨[]⟩, [], none⟩]
  | step {m : Moment} {nowMs : Int} {earlier : List Moment} {op : BookOp}
      (h : Lived sha256 (m :: earlier)) (hclock : m.nowMs ≤ nowMs) (hop : op.Listed)
      (hno : ∀ localBook, op ≠ .merge localBook) :
      Lived sha256 (⟨nowMs, (op.run sha256 nowMs m.book).1, (op.run sha256 nowMs m.book).2.2, none⟩ ::
        m :: earlier)
  | merge {m m' : Moment} {nowMs : Int} {earlier earlier' : List Moment}
      (h : Lived sha256 (m :: earlier)) (h' : Lived sha256 (m' :: earlier')) (hclock : m.nowMs ≤ nowMs)
      (hclock' : m'.nowMs ≤ nowMs) :
      Lived sha256 (⟨nowMs, m.book.merge m'.book, [], some m'.book⟩ :: m :: earlier)

/-- What an operation may be given: conditions listed once, and a local book of the same kind. -/
def BookOp.Allowed (sha256 : List UInt8 → List UInt8) (nowMs : Int) (op : BookOp) : Prop :=
  op.Listed ∧ ∀ localBook, op = .merge localBook →
    ∃ m earlier, Lived sha256 (m :: earlier) ∧ m.book = localBook ∧ m.nowMs ≤ nowMs

/-- In every book from `t` on, here and before in the local book that it came from, the alert is
resolved as it is now. -/
inductive ResolvedSince (sha256 : List UInt8 → List UInt8) (a : Alert) (t : Int) : List Moment → Prop where
  | resolved {m : Moment} {earlier : List Moment} (ha : a ∈ m.book.alerts) (ht : m.nowMs = t) :
      ResolvedSince sha256 a t (m :: earlier)
  | kept {m : Moment} {earlier : List Moment} (ha : a ∈ m.book.alerts)
      (h : ResolvedSince sha256 a t earlier) : ResolvedSince sha256 a t (m :: earlier)
  | merged {m : Moment} {earlier localLived : List Moment} (ha : a ∈ m.book.alerts)
      (hlocal : Lived sha256 localLived) (h : ResolvedSince sha256 a t localLived) :
      ResolvedSince sha256 a t (m :: earlier)

/-- Invariant of a book's history. -/
structure Kept (sha256 : List UInt8 → List UInt8) (lived : List Moment) (m : Moment) : Prop where
  unique : Keyed.Unique Alert.key m.book.alerts
  since : ∀ a ∈ m.book.alerts, a.state = .resolved →
    ∃ t, a.resolvedMs = some t ∧ ResolvedSince sha256 a t lived
  opened : ∀ a ∈ m.book.alerts, a.openedMs ≤ m.nowMs ∧ ∀ t, a.resolvedMs = some t → a.openedMs ≤ t

section

variable {sha256 : List UInt8 → List UInt8} {nowMs : Int} {book : Book} {m : Moment}
  {lived earlier : List Moment}

theorem Kept.dated (h : Kept sha256 lived m) : Dated m.book := by
  intro a ha hstate
  obtain ⟨t, ht, -⟩ := h.since a ha hstate
  exact ⟨t, ht⟩

theorem mem_of_keptAt {expired : List Alert} {k : Key}
    (h : keptAt book expired k = some a) : a ∈ book.alerts ∧ a.key = k ∧ a ∉ expired := by
  obtain ⟨hfind, hno⟩ := Option.filter_eq_some_iff.mp h
  obtain ⟨hmem, hkey⟩ := Keyed.mem_of_find hfind
  exact ⟨hmem, hkey, by simpa using hno⟩

theorem keptAt_of_mem {expired : List Alert} (hu : Keyed.Unique Alert.key book.alerts)
    (ha : a ∈ book.alerts) : keptAt book expired a.key = if a ∈ expired then none else some a := by
  unfold keptAt
  rw [Keyed.find_of_mem hu ha, Option.filter_some]
  by_cases hexpired : a ∈ expired <;> simp [hexpired]

/-- An alert was opened before, is opened now or comes from a local book; it isn't resolved before it
is opened. -/
theorem Moves.opened_le (h : Moves sha256 op nowMs o change (some a'))
    (hbefore : ∀ a, o = some a → a.openedMs ≤ nowMs ∧ ∀ t, a.resolvedMs = some t → a.openedMs ≤ t)
    (hmerged : ∀ localBook, op = .merge localBook → ∀ a ∈ localBook.alerts,
      a.openedMs ≤ nowMs ∧ ∀ t, a.resolvedMs = some t → a.openedMs ≤ t) :
    a'.openedMs ≤ nowMs ∧ ∀ t, a'.resolvedMs = some t → a'.openedMs ≤ t := by
  cases h with
  | merged hop ha => exact hmerged _ hop a' ha
  | opened _ hopened hresolved =>
    refine ⟨hopened.le, fun t ht => ?_⟩
    rw [hresolved] at ht
    cases ht
  | stays => exact hbefore a' rfl
  | @updated a => exact hbefore a rfl
  | @escalated a => exact hbefore a rfl
  | @acknowledged a => exact hbefore a rfl
  | @resolved a _ =>
    have hle := (hbefore a rfl).1
    refine ⟨hle, fun t ht => ?_⟩
    obtain rfl := Option.some.inj ht
    exact hle
  | @closed a _ _ _ _ =>
    have hle := (hbefore a rfl).1
    refine ⟨hle, fun t ht => ?_⟩
    obtain rfl := Option.some.inj ht
    exact hle
  | reopened => exact ⟨(hbefore _ rfl).1, nofun⟩

theorem Kept.step {op : BookOp} {m' : Moment} (h : Kept sha256 (m :: earlier) m) (hop : op.Listed)
    (hclock : m.nowMs ≤ nowMs) (hno : ∀ localBook, op ≠ .merge localBook) (hnow : m'.nowMs = nowMs)
    (hbook : m'.book = (op.run sha256 nowMs m.book).1) : Kept sha256 (m' :: m :: earlier) m' := by
  obtain ⟨change, hev⟩ := @evolves sha256 nowMs m.book h.unique h.dated op hop
  rw [← hbook] at hev
  have hmove (a : Alert) (ha : a ∈ m'.book.alerts) := Keyed.find_of_mem hev.unique ha ▸ hev.moves a.key
  refine ⟨hev.unique, fun a ha hstate => ?_, fun a ha => ?_⟩
  · rcases (hmove a ha).to_resolved hstate with hsame | hresolved | ⟨localBook, heq, -, -⟩
    · obtain ⟨hmem, -, -⟩ := mem_of_keptAt hsame
      obtain ⟨t, ht, hsince⟩ := h.since a hmem hstate
      exact ⟨t, ht, .kept ha hsince⟩
    · exact ⟨nowMs, hresolved, .resolved ha hnow⟩
    · exact absurd heq (hno localBook)
  · rw [hnow]
    refine (hmove a ha).opened_le (fun b hb => ?_) fun localBook heq => absurd heq (hno localBook)
    obtain ⟨hmem, -, -⟩ := mem_of_keptAt hb
    exact ⟨(h.opened b hmem).1.trans hclock, (h.opened b hmem).2⟩

theorem Kept.merge {m' : Moment} {earlier' : List Moment} (h : Kept sha256 (m :: earlier) m)
    (h' : Kept sha256 (m' :: earlier') m') (hlived' : Lived sha256 (m' :: earlier'))
    (hclock : m.nowMs ≤ nowMs) (hclock' : m'.nowMs ≤ nowMs) {after : Moment} (hnow : after.nowMs = nowMs)
    (hbook : after.book = m.book.merge m'.book) : Kept sha256 (after :: m :: earlier) after := by
  have hunique : Keyed.Unique Alert.key after.book.alerts := hbook ▸ Book.unique_merge h.unique m'.book
  have hcomes (a : Alert) (ha : a ∈ after.book.alerts) : a ∈ m.book.alerts ∨ a ∈ m'.book.alerts := by
    have hfind := Keyed.find_of_mem hunique ha
    rw [hbook] at hfind
    rcases @Book.find_merge m.book m'.book a.key with hsame | ⟨b, hb, -, hlocal⟩
    · exact .inl (Keyed.mem_of_find (hsame.symm.trans hfind)).1
    · obtain rfl := Option.some.inj (hlocal.symm.trans hfind)
      exact .inr hb
  refine ⟨hunique, fun a ha hstate => ?_, fun a ha => ?_⟩
  · rcases hcomes a ha with hmem | hmem
    · obtain ⟨t, ht, hsince⟩ := h.since a hmem hstate
      exact ⟨t, ht, .kept ha hsince⟩
    · obtain ⟨t, ht, hsince⟩ := h'.since a hmem hstate
      exact ⟨t, ht, .merged ha hlived' hsince⟩
  · rw [hnow]
    rcases hcomes a ha with hmem | hmem
    · exact ⟨(h.opened a hmem).1.trans hclock, (h.opened a hmem).2⟩
    · exact ⟨(h'.opened a hmem).1.trans hclock', (h'.opened a hmem).2⟩

theorem Lived.kept (h : Lived sha256 lived) (hlast : lived.head? = some m) : Kept sha256 lived m := by
  induction h generalizing m with
  | empty =>
    obtain rfl := Option.some.inj hlast
    exact ⟨List.nodup_nil, fun a ha => (nomatch ha), fun a ha => (nomatch ha)⟩
  | step _ hclock hop hno ih =>
    obtain rfl := Option.some.inj hlast
    exact (ih rfl).step hop hclock hno rfl rfl
  | merge _ h' hclock hclock' ih ih' =>
    obtain rfl := Option.some.inj hlast
    exact (ih rfl).merge (ih' rfl) h' hclock hclock' rfl rfl

/-! ## How often an alert is returned -/

/-- What an alert is told apart by: its condition and resource and when it opened. -/
def Alert.identity (a : Alert) : Key × Int := (a.key, a.openedMs)

def Book.Holds (book : Book) (i : Key × Int) : Prop := ∃ a ∈ book.alerts, a.identity = i

instance (book : Book) (i : Key × Int) : Decidable (book.Holds i) :=
  inferInstanceAs (Decidable (∃ a ∈ book.alerts, a.identity = i))

def Moment.Brings (i : Key × Int) (m : Moment) : Prop := ∃ localBook ∈ m.merged, localBook.Holds i

instance (i : Key × Int) (m : Moment) : Decidable (m.Brings i) :=
  inferInstanceAs (Decidable (∃ localBook ∈ m.merged, localBook.Holds i))

def returned (i : Key × Int) (lived : List Moment) : Nat :=
  (lived.flatMap (·.expired)).countP (·.identity = i)

def brought (i : Key × Int) (lived : List Moment) : Nat := lived.countP (·.Brings i)

/-- What an operation does to one alert: it is returned once if it leaves, and it comes by opening now or
from a local book. -/
theorem Evolves.identity {op : BookOp} {after : Book} {changes : List Change} {expired : List Alert}
    {change : Key → Option Change} (hev : Evolves sha256 op nowMs book after changes expired change)
    (hu : Keyed.Unique Alert.key book.alerts)
    (hopened : ∀ a ∈ book.alerts, ∀ t, a.resolvedMs = some t → a.openedMs ≤ t)
    (hmerges : ∀ localBook, op = .merge localBook → expired = []) (i : Key × Int) :
    (expired.countP (·.identity = i) = 0 ∨
      expired.countP (·.identity = i) = 1 ∧ book.Holds i ∧ ¬after.Holds i ∧ i.2 < nowMs) ∧
    (after.Holds i → book.Holds i ∨ i.2 = nowMs ∨ ∃ localBook, op = .merge localBook ∧ localBook.Holds i) := by
  refine ⟨?_, ?_⟩
  · by_cases hreturned : ∃ a ∈ expired, a.identity = i
    · obtain ⟨a, ha, rfl⟩ := hreturned
      obtain ⟨hmem, hstate, t, ht, hlate⟩ := hev.leaves a ha
      have hold := hopened a hmem t ht
      have hpast : a.openedMs < nowMs := by
        unfold reopenMs at hlate
        omega
      refine .inr ⟨?_, ⟨a, hmem, rfl⟩, ?_, hpast⟩
      · have hcount : expired.countP (·.identity = a.identity) = expired.count a := by
          refine List.countP_congr fun b hb => ?_
          simp only [decide_eq_true_eq, beq_iff_eq]
          refine ⟨fun hsame => ?_, fun hsame => congrArg Alert.identity hsame⟩
          exact List.inj_on_of_nodup_map hu (hev.leaves b hb).1 hmem (congrArg Prod.fst hsame)
        rw [hcount, List.count_eq_one_of_mem hev.once ha]
      · rintro ⟨b, hb, hsame⟩
        have hkey : b.key = a.key := congrArg Prod.fst hsame
        have hmove := hev.moves b.key
        rw [Keyed.find_of_mem hev.unique hb, hkey, keptAt_of_mem hu hmem, if_pos ha] at hmove
        generalize change a.key = reported at hmove
        cases hmove with
        | merged hop =>
          rw [hmerges _ hop] at ha
          cases ha
        | opened _ hnow =>
          have hopenedMs : b.openedMs = a.openedMs := congrArg Prod.snd hsame
          omega
    · refine .inl (List.countP_eq_zero.mpr fun a ha => ?_)
      simpa using fun hsame => hreturned ⟨a, ha, hsame⟩
  · rintro ⟨b, hb, rfl⟩
    have hmove := hev.moves b.key
    rw [Keyed.find_of_mem hev.unique hb] at hmove
    generalize change b.key = reported at hmove
    cases hkept : keptAt book expired b.key with
    | none =>
      rw [hkept] at hmove
      cases hmove with
      | merged hop ha => exact .inr (.inr ⟨_, hop, b, ha, rfl⟩)
      | opened _ hnow => exact .inr (.inl hnow)
    | some a =>
      rw [hkept] at hmove
      obtain ⟨hmem, hkey, -⟩ := mem_of_keptAt hkept
      obtain ⟨b', hb', -, hsame⟩ := hmove.same
      obtain rfl := Option.some.inj hb'
      exact .inl ⟨a, hmem, Prod.ext hkey hsame.symm⟩

/-- An alert that was returned more often than merges brought it was opened, and has left. -/
structure Counted (i : Key × Int) (lived : List Moment) (m : Moment) : Prop where
  le : returned i lived + (if m.book.Holds i then 1 else 0) ≤ (if i.2 ≤ m.nowMs then 1 else 0) + brought i lived
  early : m.nowMs ≤ i.2 → returned i lived = 0

theorem Counted.step {op : BookOp} {m' : Moment} {i : Key × Int} (h : Counted i (m :: earlier) m)
    (hkept : Kept sha256 (m :: earlier) m) (hop : op.Listed) (hclock : m.nowMs ≤ m'.nowMs)
    (hbook : m'.book = (op.run sha256 m'.nowMs m.book).1)
    (hexpired : m'.expired = (op.run sha256 m'.nowMs m.book).2.2)
    (hmerged : ∀ localBook, op = .merge localBook → m'.merged = some localBook) :
    Counted i (m' :: m :: earlier) m' := by
  obtain ⟨change, hev⟩ := @evolves sha256 m'.nowMs m.book hkept.unique hkept.dated op hop
  rw [← hbook, ← hexpired] at hev
  have hmerges : ∀ localBook, op = .merge localBook → m'.expired = [] := by
    rintro localBook rfl
    exact hexpired
  obtain ⟨hleaves, hcomes⟩ := hev.identity hkept.unique (fun a ha => (hkept.opened a ha).2) hmerges i
  have hreturned : returned i (m' :: m :: earlier) =
      m'.expired.countP (·.identity = i) + returned i (m :: earlier) := by
    unfold returned
    rw [List.flatMap_cons, List.countP_append]
  have hbrought : brought i (m' :: m :: earlier) =
      brought i (m :: earlier) + if m'.Brings i then 1 else 0 := by
    unfold brought
    rw [List.countP_cons]
    simp only [decide_eq_true_eq]
  have hle := h.le
  have hearly := h.early
  refine ⟨?_, fun hbefore => ?_⟩
  · rw [hreturned, hbrought]
    rcases hleaves with hzero | ⟨hone, hheld, hgone, hpast⟩
    · rw [hzero]
      by_cases hholds : m'.book.Holds i
      · rw [if_pos hholds]
        rcases hcomes hholds with hheld | hnow | ⟨localBook, heq, hlocal⟩
        · rw [if_pos hheld] at hle
          split at hle <;> split <;> split <;> omega
        · rw [hearly (by omega), if_pos hnow.le]
          omega
        · have hbrings : m'.Brings i := ⟨localBook, hmerged _ heq, hlocal⟩
          rw [if_pos hbrings]
          split at hle <;> split at hle <;> split <;> omega
      · rw [if_neg hholds]
        split at hle <;> split at hle <;> split <;> split <;> omega
    · rw [hone, if_neg hgone]
      rw [if_pos hheld] at hle
      split at hle <;> split <;> split <;> omega
  · rw [hreturned, hearly (hclock.trans hbefore), Nat.add_zero]
    rcases hleaves with hzero | ⟨-, -, -, hpast⟩
    · exact hzero
    · omega

theorem Lived.counted (h : Lived sha256 lived) (hlast : lived.head? = some m) (i : Key × Int) :
    Counted i lived m := by
  induction h generalizing m with
  | empty t =>
    obtain rfl := Option.some.inj hlast
    refine ⟨?_, fun _ => rfl⟩
    have hno : ¬(⟨[]⟩ : Book).Holds i := by
      rintro ⟨a, ha, -⟩
      cases ha
    rw [if_neg hno]
    exact Nat.zero_le _
  | step h hclock hop hno ih =>
    obtain rfl := Option.some.inj hlast
    exact (ih rfl).step (h.kept rfl) hop hclock rfl rfl fun localBook heq => absurd heq (hno localBook)
  | @merge m m' _ _ _ h _ hclock _ ih _ =>
    obtain rfl := Option.some.inj hlast
    have hlisted : BookOp.Listed (.merge m'.book) := trivial
    refine (ih rfl).step (h.kept rfl) hlisted hclock rfl rfl ?_
    rintro localBook heq
    rw [BookOp.merge.inj heq]

/-- The book has one alert for each condition and resource at every moment, its alerts move along the
transitions, their generations grow with what is reported as opened, reopened or escalated, and those
that leave it are returned once, resolved for longer than the reopen window. An alert is returned again
only for a merge that brought it back. -/
theorem alert_book {op : BookOp} (h : Lived sha256 (m :: earlier)) (hclock : m.nowMs ≤ nowMs)
    (hop : op.Allowed sha256 nowMs) :
    let book := m.book
    let after := (op.run sha256 nowMs book).1
    let changes := (op.run sha256 nowMs book).2.1
    let expired := (op.run sha256 nowMs book).2.2
    (Keyed.Unique Alert.key book.alerts ∧ ∀ i, returned i (m :: earlier) ≤ 1 + brought i (m :: earlier)) ∧
    ∃ change, Evolves sha256 op nowMs book after changes expired change ∧
      (∀ k a', Keyed.find Alert.key k after.alerts = some a' →
        (∀ localBook, op ≠ .merge localBook) ∨ (keptAt book expired k).isSome = true →
          ((keptAt book expired k).elim 0 Alert.generation < a'.generation ↔
            change k = some (.opened a'.id) ∨ change k = some (.reopened a'.id) ∨
              change k = some (.escalated a'.id))) ∧
      (∀ a ∈ book.alerts, a ∉ expired →
        ∃ a' ∈ after.alerts, a'.key = a.key ∧ a'.id = a.id ∧ a'.openedMs = a.openedMs) ∧
      ∀ a ∈ expired, a ∉ after.alerts ∧ ∃ since, a.resolvedMs = some since ∧
        reopenMs < nowMs - since ∧ ResolvedSince sha256 a since (m :: earlier) := by
  intro book after changes expired
  have hkept : Kept sha256 (m :: earlier) m := h.kept rfl
  obtain ⟨change, hev⟩ := @evolves sha256 nowMs book hkept.unique hkept.dated op hop.1
  refine ⟨⟨hkept.unique, fun i => ?_⟩, change, hev, ?_, ?_, ?_⟩
  · have hle := (h.counted rfl i).le
    split at hle <;> split at hle <;> omega
  · intro k a' ha' hmerge
    have hmove := hev.moves k
    rw [ha'] at hmove
    exact hmove.raises hmerge
  · intro a ha hno
    have hmove := hev.moves a.key
    rw [keptAt_of_mem hkept.unique ha, if_neg hno] at hmove
    obtain ⟨a', ha', hid, hopened⟩ := hmove.same
    obtain ⟨hmem, hkey⟩ := Keyed.mem_of_find ha'
    exact ⟨a', hmem, hkey, hid, hopened⟩
  · intro a ha
    obtain ⟨hmem, hstate, since, hsince, hlate⟩ := hev.leaves a ha
    obtain ⟨t', ht', hall⟩ := hkept.since a hmem hstate
    obtain rfl : since = t' := Option.some.inj (hsince.symm.trans ht')
    refine ⟨fun hafter => ?_, since, hsince, hlate, hall⟩
    have hmove := hev.moves a.key
    rw [keptAt_of_mem hkept.unique hmem, if_pos ha, Keyed.find_of_mem hev.unique hafter] at hmove
    rcases hmove.to_resolved hstate with hsame | hnow | ⟨localBook, rfl, -, -⟩
    · cases hsame
    · rw [hsince] at hnow
      obtain rfl := Option.some.inj hnow
      unfold reopenMs at hlate
      omega
    · exact absurd ha List.not_mem_nil

end

/-! ## A pool that loses a disk -/

/-- A pool of `mox2` that lost a disk. -/
def poolDegraded : Condition := ⟨"zfs.pool.member", "mox2/rpool", .critical, "degraded", 0, []⟩

/-- The digest of the alert that opens for it at 0. -/
def poolDigest (_ : List UInt8) : List UInt8 :=
  [0xf4, 0xa8, 0x78, 0x05, 0x59, 0x8b, 0xf3, 0x44, 0x62, 0x3f, 0x79, 0x2b, 0x0e, 0x3f, 0xc6, 0x8c,
    0xdf, 0xe5, 0x4d, 0x37, 0x4d, 0x34, 0xc9, 0x79, 0x01, 0x4b, 0xb4, 0x4c, 0xf5, 0x62, 0x80, 0xfb]

/-- A host without quorum keeps its alert, resolved after a minute. -/
def poolLocal : Moment where
  nowMs := 60000
  book := ((BookOp.evaluate [] true).run poolDigest 60000
    ((BookOp.evaluate [poolDegraded] true).run poolDigest 0 ⟨[]⟩).1).1
  expired := []
  merged := none

theorem lived_poolLocal : ∃ earlier, Lived poolDigest (poolLocal :: earlier) := by
  have hopened := @Lived.step poolDigest _ 0 _ (.evaluate [poolDegraded] true) (.empty 0) le_rfl
    (List.nodup_singleton _) nofun
  exact ⟨_, @Lived.step poolDigest _ 60000 _ (.evaluate [] true) hopened (by decide) List.nodup_nil nofun⟩

theorem lived_poolMerged : ∃ a m earlier, poolLocal.book.alerts = [a] ∧ Lived poolDigest (m :: earlier) ∧
    m.book.alerts = [a] ∧ m.nowMs = 720000 ∧ (m :: earlier).flatMap (·.expired) = [a] := by
  obtain ⟨_, hlocal⟩ := lived_poolLocal
  have hmerged := Lived.merge (.empty 0) hlocal (show (0 : Int) ≤ 60000 by decide) le_rfl
  have hleft := @Lived.step poolDigest _ 720000 _ (.evaluate [] true) hmerged (by decide) List.nodup_nil nofun
  have hagain := hleft.merge hlocal le_rfl (show (60000 : Int) ≤ 720000 by decide)
  exact ⟨_, _, _, rfl, hagain, rfl, rfl, rfl⟩

/-- The alert of a local book that is merged again is returned again. -/
theorem merged_again_expires_again : ¬ ∀ (sha256 : List UInt8 → List UInt8) (lived : List Moment),
    Lived sha256 lived → (lived.flatMap (·.expired)).Nodup := by
  intro h
  obtain ⟨a, m, earlier, hlocal, hlived, hbook, hnow, hexpired⟩ := lived_poolMerged
  have hagain := @Lived.step poolDigest m 720000 _ (.evaluate [] true) hlived hnow.le List.nodup_nil nofun
  have hstale : Book.stale 720000 a = true := by
    obtain rfl : _ = a := List.singleton_inj.mp hlocal
    rfl
  have hleaves : ((BookOp.evaluate [] true).run poolDigest 720000 m.book).2.2 = [a] := by
    show m.book.alerts.filter (Book.stale 720000) = [a]
    rw [hbook, List.filter_singleton, hstale]
    rfl
  have hnodup := h _ _ hagain
  rw [List.flatMap_cons, hexpired] at hnodup
  dsimp only at hnodup
  rw [hleaves] at hnodup
  simp at hnodup

/-- The alert leaves after twelve minutes, again since its local book was merged again. -/
theorem alert_book_pool : ∃ a m earlier, Lived poolDigest (m :: earlier) ∧
    (BookOp.evaluate [] true).run poolDigest 720000 m.book = (⟨[]⟩, [], [a]) ∧
      (returned a.identity (m :: earlier) = 1 ∧
        returned a.identity (m :: earlier) ≤ 1 + brought a.identity (m :: earlier)) ∧
      ResolvedSince poolDigest a 60000 (m :: earlier) := by
  obtain ⟨a, m, earlier, hlocal, hlived, hbook, hnow, hexpired⟩ := lived_poolMerged
  have hop : (BookOp.evaluate [] true).Allowed poolDigest 720000 := ⟨List.nodup_nil, nofun⟩
  have hrun : (BookOp.evaluate [] true).run poolDigest 720000 m.book = (⟨[]⟩, [], [a]) := by
    obtain rfl : _ = a := List.singleton_inj.mp hlocal
    rw [show m.book = ⟨[_]⟩ from congrArg Book.mk hbook]
    rfl
  obtain ⟨⟨-, hcount⟩, _, -, -, -, hleaves⟩ := alert_book hlived hnow.le hop
  have hreturned : returned a.identity (m :: earlier) = 1 := by
    rw [returned, hexpired]
    simp
  refine ⟨a, m, earlier, hlived, hrun, ⟨hreturned, hcount _⟩, ?_⟩
  obtain ⟨-, since, hsince, -, hall⟩ := hleaves a (by rw [hrun]; exact List.mem_singleton_self _)
  obtain rfl : _ = a := List.singleton_inj.mp hlocal
  obtain rfl : (60000 : Int) = since := Option.some.inj hsince
  exact hall

end Bmac.Bmacd.Notify
