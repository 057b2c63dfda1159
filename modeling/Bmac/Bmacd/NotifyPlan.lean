import Bmac.Bmacd.Notify

/-!
# The messages of a plan

A plan takes the changes of an evaluation one by one. Each finds its alert as the changes before it
left it (`planned`), and its messages follow from that (`Event.messages_eq`).
-/

namespace Bmac.Bmacd.Notify

open Bmac.Base Bmac.Core

/-- One alert at two moments. -/
structure SameAlert (a b : Alert) : Prop where
  id : a.id = b.id
  condition : a.condition = b.condition
  resource : a.resource = b.resource
  openedMs : a.openedMs = b.openedMs

namespace SameAlert

variable {a b c : Alert}

theorem refl (a : Alert) : SameAlert a a := ⟨rfl, rfl, rfl, rfl⟩

theorem symm (h : SameAlert a b) : SameAlert b a :=
  ⟨h.id.symm, h.condition.symm, h.resource.symm, h.openedMs.symm⟩

theorem trans (h : SameAlert a b) (h' : SameAlert b c) : SameAlert a c :=
  ⟨h.id.trans h'.id, h.condition.trans h'.condition, h.resource.trans h'.resource,
    h.openedMs.trans h'.openedMs⟩

theorem key (h : SameAlert a b) : a.key = b.key := Prod.ext h.condition h.resource

end SameAlert

/-! ## Recipients -/

theorem mem_addressSet {addresses : List String} {r : String} :
    r ∈ addressSet addresses ↔ r ∈ addresses := by
  unfold addressSet
  rw [List.mem_insertionSort, List.mem_dedup]

theorem nodup_addressSet (addresses : List String) : (addressSet addresses).Nodup :=
  (List.perm_insertionSort ..).nodup_iff.mpr (List.nodup_dedup _)

section

variable {settings : NotifySettings} {a b : Alert} {recovery : Bool} {r : String}

theorem mem_recipients : r ∈ recipients a settings recovery ↔
    ∃ route ∈ effectiveRoutes settings, route.takes a recovery = true ∧
      r ∈ if route.recipients.isEmpty then settings.recipients else route.recipients := by
  unfold recipients
  rw [mem_addressSet, List.mem_flatMap]
  constructor
  · rintro ⟨route, hroute, hr⟩
    obtain ⟨hmem, htakes⟩ := List.mem_filter.mp hroute
    exact ⟨route, hmem, htakes, hr⟩
  · rintro ⟨route, hmem, htakes, hr⟩
    exact ⟨route, List.mem_filter.mpr ⟨hmem, htakes⟩, hr⟩

theorem recipients_of_recovery (hcondition : a.condition = b.condition)
    (hsev : a.severity ≤ b.severity) (h : r ∈ recipients a settings true) :
    r ∈ recipients b settings false := by
  obtain ⟨route, hroute, htakes, hr⟩ := mem_recipients.mp h
  refine mem_recipients.mpr ⟨route, hroute, ?_, hr⟩
  simp only [Route.takes, Bool.and_eq_true, decide_eq_true_eq] at htakes ⊢
  obtain ⟨⟨hcategory, hmin⟩, -⟩ := htakes
  rw [hcondition] at hcategory
  exact ⟨⟨hcategory, Nat.le_trans hmin hsev⟩, rfl⟩

end

/-! ## The changes of a plan -/

/-- A change in a plan, with the alert as it was then and what was silenced. -/
structure Event where
  change : Change
  alert : Alert
  silences : List Silence
  nowMs : Int

namespace Event

variable (settings : NotifySettings) (e : Event)

def messages : List Message := messagesFor settings e.silences e.nowMs e.change e.alert

def kind : Kind := if e.change.isResolved then .resolved else .opened

/-- Nobody is told of a change that is silenced, throttled, or the escalation of an acknowledged
alert. A recovery needs an announcement. -/
def muted : Bool :=
  silenced e.alert e.silences e.nowMs ||
  match e.change with
  | .opened _ | .reopened _ =>
    e.alert.notifiedMs.any (e.nowMs - · < (settings.throttleMinutes * 60000 : Int))
  | .escalated _ => e.alert.state = .acknowledged
  | .resolved _ => e.alert.notifiedMs.isNone

def Begins (a : Alert) : Prop :=
  e.change.isResolved = false ∧ SameAlert e.alert a ∧ e.alert.generation = a.generation

/-- The change was announced to someone. -/
def Announces : Prop := e.change.isResolved = false ∧ e.messages settings ≠ []

end Event

def toldOf (settings : NotifySettings) (log : List Event) : List Message :=
  log.flatMap (·.messages settings)

section

variable {settings : NotifySettings} {e : Event} {m : Message} {r : String}

theorem Event.messages_eq (settings : NotifySettings) (e : Event) : e.messages settings =
    if category e.alert.condition = "notify" || e.muted settings then []
    else (recipients e.alert settings e.change.isResolved).map (⟨e.kind, e.alert, ·⟩) := by
  obtain ⟨change, alert, silences, nowMs⟩ := e
  unfold Event.messages messagesFor Event.muted Event.kind
  dsimp only
  by_cases hemail : category alert.condition = "notify"
  · rw [decide_eq_true hemail, Bool.true_or, Bool.true_or, if_pos rfl, if_pos rfl]
  rw [decide_eq_false hemail, Bool.false_or, Bool.false_or]
  by_cases hsilenced : silenced alert silences nowMs = true
  · rw [hsilenced, Bool.true_or, if_pos rfl, if_pos rfl]
  rw [Bool.eq_false_iff.mpr hsilenced, Bool.false_or, if_neg (by simp)]
  cases change with
  | opened id => rfl
  | reopened id => rfl
  | escalated id =>
    dsimp only
    by_cases hack : alert.state = .acknowledged
    · rw [if_pos hack, if_pos (by simpa using hack)]
    · rw [if_neg hack, if_neg (by simpa using hack)]
      rfl
  | resolved id => rfl

theorem Event.kind_resolved : e.kind = .resolved ↔ e.change.isResolved = true := by
  unfold Event.kind
  cases e.change.isResolved <;> decide

theorem Event.kind_opened : e.kind = .opened ↔ e.change.isResolved = false := by
  unfold Event.kind
  cases e.change.isResolved <;> decide

theorem Event.mem_messages (h : m ∈ e.messages settings) : m.alert = e.alert ∧ m.kind = e.kind ∧
    m.to_ ∈ recipients e.alert settings e.change.isResolved ∧
      category e.alert.condition ≠ "notify" ∧ e.muted settings = false := by
  rw [Event.messages_eq] at h
  split at h
  · cases h
  · rename_i hquiet
    obtain ⟨r, hr, rfl⟩ := List.mem_map.mp h
    simp only [Bool.or_eq_true, decide_eq_true_eq, not_or, Bool.not_eq_true] at hquiet
    exact ⟨rfl, rfl, hr, hquiet⟩

theorem Event.mem_messages_of (hemail : category e.alert.condition ≠ "notify")
    (hmuted : e.muted settings = false)
    (hr : r ∈ recipients e.alert settings e.change.isResolved) :
    ⟨e.kind, e.alert, r⟩ ∈ e.messages settings := by
  rw [Event.messages_eq, if_neg (by simp [hemail, hmuted])]
  exact List.mem_map_of_mem hr

theorem mem_toldOf {log : List Event} :
    m ∈ toldOf settings log ↔ ∃ e ∈ log, m ∈ e.messages settings := List.mem_flatMap

end

/-! ## The log of a plan -/

section

variable {settings : NotifySettings} {silences : List Silence} {nowMs : Int} {book : Book}
  {a : Alert}

def marked (settings : NotifySettings) (silences : List Silence) (nowMs : Int) (book : Book)
    (change : Change) : Book :=
  (planOne settings silences nowMs (book, []) change).1

def planned (settings : NotifySettings) (silences : List Silence) (nowMs : Int) :
    Book → List Change → List Event
  | _, [] => []
  | book, change :: changes =>
    ((book.get change.id).map (⟨change, ·, silences, nowMs⟩)).toList ++
      planned settings silences nowMs (marked settings silences nowMs book change) changes

theorem planOne_eq (told : List Message) (change : Change) :
    planOne settings silences nowMs (book, told) change =
      (marked settings silences nowMs book change, told ++
        toldOf settings ((book.get change.id).map (⟨change, ·, silences, nowMs⟩ : Alert → Event)).toList) := by
  unfold marked planOne toldOf
  dsimp only
  cases book.get change.id with
  | none => simp
  | some a =>
    rw [Option.map_some, Option.toList_some, List.flatMap_singleton]
    rfl

theorem foldl_planOne (changes : List Change) (told : List Message) :
    changes.foldl (planOne settings silences nowMs) (book, told) =
      (changes.foldl (marked settings silences nowMs) book,
        told ++ toldOf settings (planned settings silences nowMs book changes)) := by
  induction changes generalizing book told with
  | nil => rw [planned, toldOf, List.flatMap_nil, List.append_nil]; rfl
  | cons change changes ih =>
    rw [List.foldl_cons, List.foldl_cons, planOne_eq, ih, planned, toldOf, toldOf, toldOf,
      List.flatMap_append, List.append_assoc]

theorem plan_eq (changes : List Change) : plan settings silences nowMs book changes =
    (changes.foldl (marked settings silences nowMs) book,
      toldOf settings (planned settings silences nowMs book changes)) := by
  unfold plan
  rw [foldl_planOne, List.nil_append]

theorem key_notified (nowMs : Int) (a : Alert) : (notified nowMs a).key = a.key := rfl

theorem sameAlert_notified (nowMs : Int) (a : Alert) : SameAlert (notified nowMs a) a :=
  ⟨rfl, rfl, rfl, rfl⟩

theorem marked_announced {change : Change} (hget : book.get change.id = some a)
    (h : Event.Announces settings ⟨change, a, silences, nowMs⟩) :
    marked settings silences nowMs book change =
      ⟨Keyed.modifyFirst (·.id = change.id) (notified nowMs) book.alerts⟩ := by
  obtain ⟨hopening, hsome⟩ := h
  unfold marked planOne
  dsimp only at hopening ⊢
  rw [hget]
  dsimp only
  rw [hopening, if_pos]
  rw [Bool.not_false, Bool.true_and, Bool.not_eq_true', List.isEmpty_eq_false_iff]
  exact hsome

theorem marked_unannounced {change : Change} (hget : book.get change.id = some a)
    (h : ¬ Event.Announces settings ⟨change, a, silences, nowMs⟩) :
    marked settings silences nowMs book change = book := by
  unfold marked planOne
  dsimp only
  rw [hget]
  dsimp only
  refine if_neg fun hmark => h ?_
  rw [Bool.and_eq_true, Bool.not_eq_true', Bool.not_eq_true', List.isEmpty_eq_false_iff] at hmark
  exact hmark

theorem mem_mark {change : Change} (hu : Keyed.Unique Alert.key book.alerts)
    (hget : book.get change.id = some a) {b : Alert}
    (hb : b ∈ Keyed.modifyFirst (·.id = change.id) (notified nowMs) book.alerts) :
    b = notified nowMs a ∨ (b ∈ book.alerts ∧ b.key ≠ a.key) := by
  have hunique : Keyed.Unique Alert.key
      (Keyed.modifyFirst (·.id = change.id) (notified nowMs) book.alerts) := by
    show (List.map _ _).Nodup
    rwa [Keyed.map_key_modifyFirst (key_notified nowMs)]
  have hfind := Keyed.find_of_mem hunique hb
  rw [Keyed.find_modifyFirst_of (key_notified nowMs) hu hget] at hfind
  by_cases hkey : a.key = b.key
  · rw [if_pos hkey] at hfind
    exact .inl (Option.some.inj hfind).symm
  · rw [if_neg hkey] at hfind
    exact .inr ⟨(Keyed.mem_of_find hfind).1, fun h => hkey h.symm⟩

theorem get_modifyFirst (f : Alert → Alert) (hf : ∀ a, (f a).id = a.id) (id id' : String) :
    Book.get ⟨Keyed.modifyFirst (·.id = id') f book.alerts⟩ id =
      if id = id' then (book.get id).map f else book.get id :=
  Keyed.find_modifyFirst hf id id' book.alerts

/-- A plan's alert: only when it was announced may have changed, to now. -/
structure Remarked (nowMs : Int) (x y : Alert) : Prop where
  same : y = { x with notifiedMs := y.notifiedMs }
  announced : y.notifiedMs = x.notifiedMs ∨ y.notifiedMs = some nowMs

theorem Remarked.refl (nowMs : Int) (x : Alert) : Remarked nowMs x x := ⟨rfl, .inl rfl⟩

variable {x : Alert}

theorem Remarked.trans {y z : Alert} (h : Remarked nowMs x y) (h' : Remarked nowMs y z) :
    Remarked nowMs x z := by
  refine ⟨?_, ?_⟩
  · rw [h'.same, h.same]
  · rcases h'.announced with heq | hnow
    · rw [heq]
      exact h.announced
    · exact .inr hnow

theorem Remarked.sameAlert {y : Alert} (h : Remarked nowMs x y) : SameAlert x y := by
  rw [h.same]
  exact ⟨rfl, rfl, rfl, rfl⟩

theorem Remarked.isSome {x y : Alert} (h : Remarked nowMs x y) (hx : x.notifiedMs.isSome = true) :
    y.notifiedMs.isSome = true := by
  rcases h.announced with heq | hnow
  · rw [heq]
    exact hx
  · rw [hnow]
    rfl

theorem get_marked (settings : NotifySettings) (silences : List Silence) (nowMs : Int)
    (change : Change) {id : String} (h : book.get id = some x) :
    ∃ y, (marked settings silences nowMs book change).get id = some y ∧ Remarked nowMs x y := by
  unfold marked planOne
  dsimp only
  cases hget : book.get change.id with
  | none => exact ⟨x, h, .refl nowMs x⟩
  | some a =>
    dsimp only
    split
    · rw [get_modifyFirst (notified nowMs) fun _ => rfl, h]
      split
      · exact ⟨_, rfl, rfl, .inr rfl⟩
      · exact ⟨x, rfl, .refl nowMs x⟩
    · exact ⟨x, h, .refl nowMs x⟩

theorem get_foldl_marked (settings : NotifySettings) (silences : List Silence) (nowMs : Int)
    (changes : List Change) {id : String} (h : book.get id = some x) :
    ∃ y, (changes.foldl (marked settings silences nowMs) book).get id = some y ∧ Remarked nowMs x y := by
  induction changes generalizing book x with
  | nil => exact ⟨x, h, .refl nowMs x⟩
  | cons change changes ih =>
    rw [List.foldl_cons]
    obtain ⟨y, hy, hxy⟩ := get_marked settings silences nowMs change h
    obtain ⟨z, hz, hyz⟩ := ih hy
    exact ⟨z, hz, hxy.trans hyz⟩

theorem map_id_marked (book : Book) (change : Change) :
    (marked settings silences nowMs book change).alerts.map Alert.id = book.alerts.map Alert.id := by
  unfold marked planOne
  dsimp only
  cases book.get change.id with
  | none => rfl
  | some a =>
    dsimp only
    split
    · exact Keyed.map_key_modifyFirst (fun a => show (notified nowMs a).id = a.id from rfl) _
    · rfl

theorem map_id_foldl_marked (changes : List Change) (book : Book) :
    (changes.foldl (marked settings silences nowMs) book).alerts.map Alert.id =
      book.alerts.map Alert.id := by
  induction changes generalizing book with
  | nil => rfl
  | cons change changes ih =>
    rw [List.foldl_cons, ih, map_id_marked]

theorem planned_append (before after : List Change) (book : Book) :
    planned settings silences nowMs book (before ++ after) =
      planned settings silences nowMs book before ++
        planned settings silences nowMs (before.foldl (marked settings silences nowMs) book) after := by
  induction before generalizing book with
  | nil => rfl
  | cons change before ih =>
    rw [List.cons_append, planned, planned, List.foldl_cons, ih, List.append_assoc]

theorem mem_planned {changes : List Change} {e : Event}
    (he : e ∈ planned settings silences nowMs book changes) :
    e.change ∈ changes ∧ e.alert.id = e.change.id ∧
      ∀ x, book.get e.change.id = some x → Remarked nowMs x e.alert := by
  induction changes generalizing book with
  | nil => cases he
  | cons change changes ih =>
    rw [planned, List.mem_append, Option.mem_toList, Option.map_eq_some_iff] at he
    rcases he with ⟨a, hget, rfl⟩ | he
    · refine ⟨List.mem_cons_self .., by simpa using List.find?_some hget, fun x hx => ?_⟩
      obtain rfl := Option.some.inj (hget.symm.trans hx)
      exact .refl nowMs a
    · obtain ⟨hmem, hid, hremarked⟩ := ih he
      refine ⟨List.mem_cons_of_mem _ hmem, hid, fun x hx => ?_⟩
      obtain ⟨y, hy, hxy⟩ := get_marked settings silences nowMs change hx
      exact hxy.trans (hremarked y hy)

end

end Bmac.Bmacd.Notify
