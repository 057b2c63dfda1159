import Bmac.Base.Run
import Bmac.Bmacd.AlertRuns
import Bmac.Bmacd.NotifyPlan

/-!
# Openings and recoveries

A recovery message is only sent for an alert whose opening was announced. Its recipients were told of
the generation that ends, unless nobody was, because the generation began silenced, throttled or as
the escalation of an acknowledged alert.
-/

namespace Bmac.Bmacd.Notify

open Bmac.Base Bmac.Core

/-! ## What a recovery message rests on -/

/-- The alert was announced, and its generation to all who are told of its end, unless nobody was
told of it. -/
structure Foretold (settings : NotifySettings) (log : List Event) (a : Alert) : Prop where
  announced : ∃ e ∈ log, e.Announces settings ∧ SameAlert e.alert a
  begun : ∃ e ∈ log, e.Begins a ∧ (e.muted settings = true ∨
    ∀ r ∈ recipients a settings true, ∃ m ∈ e.messages settings, m.to_ = r)

/-- Every recovery that is told was foretold by the changes before it. -/
def Preceded (settings : NotifySettings) (log : List Event) : Prop :=
  ∀ before e after, log = before ++ e :: after → e.change.isResolved = true →
    e.messages settings ≠ [] → Foretold settings before e.alert

theorem Preceded.snoc {settings : NotifySettings} {log : List Event} {e : Event}
    (h : Preceded settings log)
    (he : e.change.isResolved = true → e.messages settings ≠ [] → Foretold settings log e.alert) :
    Preceded settings (log ++ [e]) := by
  intro before e' after heq
  rcases List.eq_nil_or_concat after with rfl | ⟨after, last, rfl⟩
  · obtain ⟨rfl, hlast⟩ := List.append_inj' heq rfl
    obtain rfl := List.singleton_inj.mp hlast
    exact he
  · rw [List.concat_eq_append, ← List.cons_append, ← List.append_assoc] at heq
    exact h before e' after (List.append_inj' heq rfl).1

/-- Invariant of a book, the changes that a clock's readings led to, and those to announce next. -/
structure Pairs (settings : NotifySettings) (nowMs : Int) (book : Book) (log : List Event)
    (pending : List Change) : Prop where
  unique : Keyed.Unique Alert.key book.alerts
  ids : Keyed.Unique Alert.id book.alerts
  enabled : ∀ a ∈ book.alerts, switchedOff settings.disabledConditions a.condition = false
  openedMs : ∀ a ∈ book.alerts, a.openedMs ≤ nowMs
  resolvedMs : ∀ a ∈ book.alerts, a.state = .resolved → ∃ t, a.resolvedMs = some t ∧ a.openedMs ≤ t
  /-- an announced alert is in the book, or left it -/
  present : ∀ e ∈ log, e.Announces settings → (∃ a ∈ book.alerts, SameAlert e.alert a) ∨
    e.alert.openedMs < nowMs - reopenMs
  announced : ∀ a ∈ book.alerts, a.notifiedMs.isSome = true →
    ∃ e ∈ log, e.Announces settings ∧ SameAlert e.alert a
  notified : ∀ e ∈ log, e.Announces settings → ∀ a ∈ book.alerts, SameAlert e.alert a →
    a.notifiedMs.isSome = true
  /-- no alert is more severe than when its generation began -/
  begun : ∀ a ∈ book.alerts, (∃ e ∈ log, e.Begins a ∧ a.severity ≤ e.alert.severity) ∨
    ∃ change ∈ pending, change.isResolved = false ∧ change.id = a.id
  /-- recoveries come last -/
  order : pending.Pairwise fun c c' => c.isResolved = true → c'.isResolved = true
  preceded : Preceded settings log

section

variable {settings : NotifySettings} {silences : List Silence} {nowMs : Int} {book : Book}
  {log : List Event} {change : Change} {pending : List Change} {a : Alert}

theorem Pairs.foretold (h : Pairs settings nowMs book log (change :: pending)) (ha : a ∈ book.alerts)
    (hresolved : change.isResolved = true)
    (htold : Event.messages settings ⟨change, a, silences, nowMs⟩ ≠ []) :
    Foretold settings log a := by
  obtain ⟨m, hm⟩ := List.exists_mem_of_ne_nil _ htold
  obtain ⟨-, -, -, hemail, hmuted⟩ := Event.mem_messages hm
  have hsome : a.notifiedMs.isSome = true := by
    unfold Event.muted at hmuted
    cases change with
    | resolved id =>
      rw [Bool.or_eq_false_iff] at hmuted
      exact Option.isSome_iff_ne_none.mpr fun hnone => by simp [hnone] at hmuted
    | opened | reopened | escalated => cases hresolved
  refine ⟨h.announced a ha hsome, ?_⟩
  rcases h.begun a ha with ⟨e, he, hbegins, hsev⟩ | ⟨c, hc, hopening, -⟩
  · refine ⟨e, he, hbegins, ?_⟩
    cases hquiet : e.muted settings with
    | true => exact .inl rfl
    | false =>
      refine .inr fun r hr => ⟨_, Event.mem_messages_of ?_ hquiet ?_, rfl⟩
      · rw [hbegins.2.1.condition]
        exact hemail
      · rw [hbegins.1]
        exact recipients_of_recovery hbegins.2.1.condition.symm hsev hr
  · -- all that is left to announce are recoveries
    exfalso
    rcases List.mem_cons.mp hc with rfl | hc
    · rw [hresolved] at hopening
      cases hopening
    · rw [(List.pairwise_cons.mp h.order).1 c hc hresolved] at hopening
      cases hopening

theorem Pairs.begun_next (h : Pairs settings nowMs book log (change :: pending))
    (hget : book.get change.id = some a) {b : Alert} (hb : b ∈ book.alerts) :
    (∃ e ∈ log ++ [⟨change, a, silences, nowMs⟩], e.Begins b ∧ b.severity ≤ e.alert.severity) ∨
      ∃ change ∈ pending, change.isResolved = false ∧ change.id = b.id := by
  rcases h.begun b hb with ⟨e, he, hrest⟩ | ⟨c, hc, hopening, hid⟩
  · exact .inl ⟨e, List.mem_append_left _ he, hrest⟩
  · rcases List.mem_cons.mp hc with rfl | hc
    · have hfind : book.get b.id = some b := Keyed.find_of_mem h.ids hb
      rw [hid, hfind] at hget
      obtain rfl := Option.some.inj hget
      exact .inl ⟨_, List.mem_append_right _ (List.mem_singleton_self _),
        ⟨hopening, SameAlert.refl b, rfl⟩, Nat.le_refl _⟩
    · exact .inr ⟨c, hc, hopening, hid⟩

/-- A change that isn't announced leaves the book as it is. -/
theorem Pairs.unannounced (h : Pairs settings nowMs book log (change :: pending))
    (hget : book.get change.id = some a)
    (hno : ¬ Event.Announces settings ⟨change, a, silences, nowMs⟩) :
    Pairs settings nowMs book (log ++ [⟨change, a, silences, nowMs⟩]) pending := by
  have ha : a ∈ book.alerts := List.mem_of_find?_eq_some hget
  have hlog : ∀ e ∈ log ++ [(⟨change, a, silences, nowMs⟩ : Event)], e.Announces settings →
      e ∈ log := by
    intro e he hannounces
    rcases List.mem_append.mp he with he | he
    · exact he
    · obtain rfl := List.mem_singleton.mp he
      exact absurd hannounces hno
  refine ⟨h.unique, h.ids, h.enabled, h.openedMs, h.resolvedMs, ?_, ?_, ?_,
    fun b hb => h.begun_next hget hb, (List.pairwise_cons.mp h.order).2,
    h.preceded.snoc fun hres htold => h.foretold ha hres htold⟩
  · intro e he hannounces
    exact h.present e (hlog e he hannounces) hannounces
  · intro b hb hn
    obtain ⟨e, he, hrest⟩ := h.announced b hb hn
    exact ⟨e, List.mem_append_left _ he, hrest⟩
  · intro e he hannounces
    exact h.notified e (hlog e he hannounces) hannounces

theorem Pairs.mark (h : Pairs settings nowMs book log (change :: pending))
    (hget : book.get change.id = some a)
    (hyes : Event.Announces settings ⟨change, a, silences, nowMs⟩) :
    Pairs settings nowMs ⟨Keyed.modifyFirst (·.id = change.id) (Notify.notified nowMs) book.alerts⟩
      (log ++ [⟨change, a, silences, nowMs⟩]) pending := by
  have ha : a ∈ book.alerts := List.mem_of_find?_eq_some hget
  have hcases := fun b hb => @mem_mark nowMs book a change h.unique hget b hb
  refine ⟨?_, ?_, ?_, ?_, ?_, ?_, ?_, ?_, ?_, (List.pairwise_cons.mp h.order).2,
    h.preceded.snoc fun hres htold => h.foretold ha hres htold⟩
  · show (List.map _ _).Nodup
    rw [Keyed.map_key_modifyFirst (key_notified nowMs)]
    exact h.unique
  · show (List.map _ _).Nodup
    rw [Keyed.map_key_modifyFirst fun a => show (Notify.notified nowMs a).id = a.id from rfl]
    exact h.ids
  · intro b hb
    rcases hcases b hb with rfl | ⟨hb, -⟩
    · exact h.enabled a ha
    · exact h.enabled b hb
  · intro b hb
    rcases hcases b hb with rfl | ⟨hb, -⟩
    · exact h.openedMs a ha
    · exact h.openedMs b hb
  · intro b hb
    rcases hcases b hb with rfl | ⟨hb, -⟩
    · exact h.resolvedMs a ha
    · exact h.resolvedMs b hb
  · intro e he hannounces
    have hstays : ∀ b ∈ book.alerts, SameAlert e.alert b →
        ∃ b' ∈ Keyed.modifyFirst (·.id = change.id) (Notify.notified nowMs) book.alerts,
          SameAlert e.alert b' := by
      intro b hb hsame
      rcases Keyed.mem_modifyFirst_of_mem (p := (·.id = change.id)) (f := Notify.notified nowMs) hb
        with hb' | hb'
      · exact ⟨b, hb', hsame⟩
      · exact ⟨_, hb', hsame.trans (sameAlert_notified nowMs b).symm⟩
    rcases List.mem_append.mp he with he | he
    · rcases h.present e he hannounces with ⟨b, hb, hsame⟩ | hlate
      · exact .inl (hstays b hb hsame)
      · exact .inr hlate
    · obtain rfl := List.mem_singleton.mp he
      exact .inl (hstays a ha (.refl a))
  · intro b hb hn
    rcases hcases b hb with rfl | ⟨hb, -⟩
    · exact ⟨_, List.mem_append_right _ (List.mem_singleton_self _), hyes,
        (sameAlert_notified nowMs a).symm⟩
    · obtain ⟨e, he, hrest⟩ := h.announced b hb hn
      exact ⟨e, List.mem_append_left _ he, hrest⟩
  · intro e he hannounces b hb hsame
    rcases hcases b hb with rfl | ⟨hb, hne⟩
    · rfl
    · rcases List.mem_append.mp he with he | he
      · exact h.notified e he hannounces b hb hsame
      · obtain rfl := List.mem_singleton.mp he
        exact absurd hsame.key.symm hne
  · intro b hb
    rcases hcases b hb with rfl | ⟨hb, -⟩
    · rcases @Pairs.begun_next _ silences _ _ _ _ _ _ h hget _ ha with
        ⟨e, he, hbegins, hsev⟩ | hpending
      · exact .inl ⟨e, he, ⟨hbegins.1, hbegins.2.1.trans (sameAlert_notified nowMs a).symm,
          hbegins.2.2⟩, hsev⟩
      · exact .inr hpending
    · exact h.begun_next hget hb

theorem Pairs.plan (h : Pairs settings nowMs book log pending) :
    Pairs settings nowMs (pending.foldl (marked settings silences nowMs) book)
      (log ++ planned settings silences nowMs book pending) [] := by
  induction pending generalizing book log with
  | nil =>
    rw [planned, List.append_nil]
    exact h
  | cons change pending ih =>
    rw [List.foldl_cons, planned, ← List.append_assoc]
    cases hget : book.get change.id with
    | none =>
      have hmarked : marked settings silences nowMs book change = book := by
        unfold marked planOne
        dsimp only
        rw [hget]
      rw [hmarked, Option.map_none, Option.toList_none, List.append_nil]
      refine ih { h with
        order := (List.pairwise_cons.mp h.order).2
        begun := fun b hb => ?_ }
      refine (h.begun b hb).imp_right ?_
      rintro ⟨c, hc, hopening, hid⟩
      rcases List.mem_cons.mp hc with rfl | hc
      · have hfind : book.get b.id = some b := Keyed.find_of_mem h.ids hb
        rw [hid, hfind] at hget
        cases hget
      · exact ⟨c, hc, hopening, hid⟩
    | some a =>
      rw [Option.map_some, Option.toList_some]
      by_cases hannounces : Event.Announces settings ⟨change, a, silences, nowMs⟩
      · rw [marked_announced hget hannounces]
        exact ih (h.mark hget hannounces)
      · rw [marked_unannounced hget hannounces]
        exact ih (h.unannounced hget hannounces)

end

/-! ## Where the alerts of an evaluation come from -/

/-- Changes that begin a generation of an alert. -/
def Raised (changes : List Change) (a : Alert) : Prop :=
  ∃ change ∈ changes, change.isResolved = false ∧ change.id = a.id

/-- An alert that some due conditions left: `a` before, `x` now. -/
structure Came (nowMs : Int) (conditions : List Condition) (changes : List Change) (a x : Alert) :
    Prop where
  same : SameAlert a x
  notified : x.notifiedMs = a.notifiedMs
  seen : x = a ∨ (x.state ≠ .resolved ∧ ∃ c ∈ conditions, due c nowMs = true ∧ c.key = x.key)
  raised : (x.generation = a.generation ∧ x.severity ≤ a.severity) ∨ Raised changes x

/-- An alert that a due condition opened. -/
structure Fresh (nowMs : Int) (conditions : List Condition) (changes : List Change)
    (kept : List Alert) (x : Alert) : Prop where
  openedMs : x.openedMs = nowMs
  notified : x.notifiedMs = none
  seen : x.state ≠ .resolved ∧ ∃ c ∈ conditions, due c nowMs = true ∧ c.key = x.key
  absent : ∀ a ∈ kept, a.key ≠ x.key
  raised : Raised changes x

/-- Alerts and changes after some of the due conditions. -/
structure Grew (nowMs : Int) (conditions : List Condition) (kept : List Alert)
    (s : List Alert × List Change) : Prop where
  unique : Keyed.Unique Alert.key s.1
  origin : ∀ x ∈ s.1, (∃ a ∈ kept, Came nowMs conditions s.2 a x) ∨
    Fresh nowMs conditions s.2 kept x
  keeps : ∀ a ∈ kept, ∃ x ∈ s.1, SameAlert a x
  opening : ∀ change ∈ s.2, change.isResolved = false

section

variable {settings : NotifySettings} {nowMs : Int} {book : Book} {conditions : List Condition}
  {c : Condition} {kept : List Alert} {s : List Alert × List Change} {changes more : List Change}
  {sha256 : List UInt8 → List UInt8} {a x : Alert}

theorem Raised.append (h : Raised changes a) (more : List Change) : Raised (changes ++ more) a := by
  obtain ⟨change, hmem, hrest⟩ := h
  exact ⟨change, List.mem_append_left _ hmem, hrest⟩

theorem Raised.same (h : Raised changes a) (hid : a.id = x.id) : Raised changes x := by
  obtain ⟨change, hmem, hopening, heq⟩ := h
  exact ⟨change, hmem, hopening, heq.trans hid⟩

theorem Came.append (h : Came nowMs conditions changes a x) (more : List Change) :
    Came nowMs conditions (changes ++ more) a x :=
  ⟨h.same, h.notified, h.seen, h.raised.imp_right (·.append more)⟩

theorem Fresh.append (h : Fresh nowMs conditions changes kept x) (more : List Change) :
    Fresh nowMs conditions (changes ++ more) kept x :=
  ⟨h.openedMs, h.notified, h.seen, h.absent, h.raised.append more⟩

theorem see_spec (c : Condition) (a : Alert) :
    SameAlert a (Book.see c a).1 ∧ (Book.see c a).1.notifiedMs = a.notifiedMs ∧
      (Book.see c a).1.state ≠ .resolved ∧
      (((Book.see c a).1.generation = a.generation ∧ (Book.see c a).1.severity ≤ a.severity) ∨
        Raised (Book.see c a).2.toList (Book.see c a).1) := by
  unfold Book.see
  by_cases hstate : a.state = .resolved
  · rw [if_pos hstate]
    exact ⟨⟨rfl, rfl, rfl, rfl⟩, rfl, nofun, .inr ⟨_, List.mem_singleton_self _, rfl, rfl⟩⟩
  · rw [if_neg hstate]
    unfold Book.update
    dsimp only
    split
    · exact ⟨⟨rfl, rfl, rfl, rfl⟩, rfl, hstate, .inr ⟨_, List.mem_singleton_self _, rfl, rfl⟩⟩
    · rename_i hle
      exact ⟨⟨rfl, rfl, rfl, rfl⟩, rfl, hstate, .inl ⟨rfl, Nat.le_of_not_lt hle⟩⟩

theorem see_opening (c : Condition) (a : Alert) :
    ∀ change ∈ (Book.see c a).2.toList, change.isResolved = false := by
  intro change hchange
  unfold Book.see Book.update Book.reopen at hchange
  dsimp only at hchange
  split at hchange
  · obtain rfl := List.mem_singleton.mp hchange
    rfl
  · split at hchange
    · obtain rfl := List.mem_singleton.mp hchange
      rfl
    · cases hchange

theorem Grew.next (h : Grew nowMs conditions kept s) (hc : c ∈ conditions)
    (hdue : due c nowMs = true) : Grew nowMs conditions kept (Book.applyNext sha256 nowMs s c) := by
  have hunique : Keyed.Unique Alert.key (Book.apply sha256 nowMs s.1 c).1 :=
    Book.unique_apply h.unique
  have hseen := @Book.changes_apply sha256 nowMs s.1 c
  refine ⟨hunique, ?_, ?_, ?_⟩
  · intro x hx
    have hfind := Keyed.find_of_mem hunique hx
    rw [Book.find_apply] at hfind
    unfold Book.applyNext
    dsimp only
    by_cases hkey : c.key = x.key
    · rw [if_pos hkey, ← hkey] at hfind
      rw [hseen]
      cases hbefore : Keyed.find Alert.key c.key s.1 with
      | none =>
        rw [hbefore] at hfind
        obtain rfl := Option.some.inj hfind
        refine .inr ⟨rfl, rfl, ⟨nofun, c, hc, hdue, rfl⟩, ?_, _,
          List.mem_append_right _ (List.mem_singleton_self _), rfl, rfl⟩
        intro a ha hsame
        obtain ⟨x, hx, hsame'⟩ := h.keeps a ha
        exact Keyed.find_eq_none_iff.mp hbefore x hx (hsame'.key.symm.trans hsame)
      | some b =>
        rw [hbefore] at hfind
        obtain rfl := Option.some.inj hfind
        obtain ⟨hb, hbkey⟩ := Keyed.mem_of_find hbefore
        obtain ⟨hsame, hnotified, hopen, hraised⟩ := see_spec c b
        have hraises : Raised (Book.see c b).2.toList (Book.see c b).1 →
            Raised (s.2 ++ (Book.see c b).2.toList) (Book.see c b).1 := by
          rintro ⟨change, hmem, hrest⟩
          exact ⟨change, List.mem_append_right _ hmem, hrest⟩
        rcases h.origin b hb with ⟨a, ha, hcame⟩ | hfresh
        · refine .inl ⟨a, ha, hcame.same.trans hsame, hnotified.trans hcame.notified,
            .inr ⟨hopen, c, hc, hdue, hkey⟩, ?_⟩
          rcases hraised with ⟨hgen, hsev⟩ | hraised
          · rcases hcame.raised with ⟨hgen', hsev'⟩ | hraised
            · exact .inl ⟨hgen.trans hgen', Nat.le_trans hsev hsev'⟩
            · exact .inr ((hraised.same hsame.id).append _)
          · exact .inr (hraises hraised)
        · refine .inr ⟨hsame.openedMs.symm.trans hfresh.openedMs, hnotified.trans hfresh.notified,
            ⟨hopen, c, hc, hdue, hkey⟩, ?_, (hfresh.raised.same hsame.id).append _⟩
          intro a ha hkeys
          exact hfresh.absent a ha (hkeys.trans hsame.key.symm)
    · rw [if_neg hkey] at hfind
      rcases h.origin x (Keyed.mem_of_find hfind).1 with ⟨a, ha, hcame⟩ | hfresh
      · exact .inl ⟨a, ha, hcame.append _⟩
      · exact .inr (hfresh.append _)
  · intro a ha
    obtain ⟨x, hx, hsame⟩ := h.keeps a ha
    show ∃ x ∈ (Book.apply sha256 nowMs s.1 c).1, SameAlert a x
    have hfind := @Book.find_apply sha256 nowMs s.1 c x.key
    rw [Keyed.find_of_mem h.unique hx] at hfind
    split at hfind
    · exact ⟨_, (Keyed.mem_of_find hfind).1, hsame.trans (see_spec c x).1⟩
    · exact ⟨x, (Keyed.mem_of_find hfind).1, hsame⟩
  · intro change hchange
    unfold Book.applyNext at hchange
    dsimp only at hchange
    rw [hseen] at hchange
    rcases List.mem_append.mp hchange with hchange | hchange
    · exact h.opening change hchange
    · cases hbefore : Keyed.find Alert.key c.key s.1 with
      | none =>
        rw [hbefore] at hchange
        obtain rfl := List.mem_singleton.mp hchange
        rfl
      | some b =>
        rw [hbefore] at hchange
        exact see_opening c b change hchange

theorem Grew.applyAll {cs : List Condition} (h : Grew nowMs conditions kept s)
    (hcs : ∀ c ∈ cs, c ∈ conditions ∧ due c nowMs = true) :
    Grew nowMs conditions kept (cs.foldl (Book.applyNext sha256 nowMs) s) := by
  induction cs generalizing s with
  | nil => exact h
  | cons c cs ih =>
    rw [List.foldl_cons]
    obtain ⟨hmem, hdue⟩ := hcs c (List.mem_cons_self ..)
    exact ih (h.next hmem hdue) fun c' hc' => hcs c' (List.mem_cons_of_mem _ hc')

theorem grew_applied (hu : Keyed.Unique Alert.key book.alerts) :
    Grew nowMs conditions (book.alerts.filter (!Book.stale nowMs ·))
      (Book.applied sha256 book conditions nowMs) := by
  refine Grew.applyAll ⟨Keyed.unique_filter _ hu, ?_, fun a ha => ⟨a, ha, .refl a⟩, nofun⟩ ?_
  · exact fun a ha => .inl ⟨a, ha, .refl a, rfl, .inl rfl, .inl ⟨rfl, Nat.le_refl _⟩⟩
  · exact fun c hc => List.mem_filter.mp hc

/-- A condition that is gone was not due. -/
theorem not_gone (h : ∃ c ∈ conditions, due c nowMs = true ∧ c.key = a.key) :
    Book.gone conditions a = false := by
  obtain ⟨c, hc, hdue, hkey⟩ := h
  exact Book.gone_of_present hc hkey (Book.warning_le_of_due hdue)

end

/-! ## One step of a book -/

/-- An alert that stayed in a book: `a` before, `a'` now. -/
structure Goes (nowMs : Int) (changes : List Change) (a a' : Alert) : Prop where
  same : SameAlert a a'
  notified : a'.notifiedMs = a.notifiedMs
  raised : (a'.generation = a.generation ∧ a'.severity ≤ a.severity) ∨ Raised changes a'
  resolved : a'.state = .resolved → a' = a ∨
    (a.state ≠ .resolved ∧ a' = Book.resolve nowMs a ∧ .resolved a.id ∈ changes)

/-- Where the alerts of a book come from, and what changes they report. -/
structure Turns (nowMs : Int) (conditions : List Condition) (kept : List Alert)
    (alerts : List Alert) (changes : List Change) : Prop where
  unique : Keyed.Unique Alert.key alerts
  origin : ∀ x ∈ alerts, (∃ a ∈ kept, Goes nowMs changes a x) ∨
    Fresh nowMs conditions changes kept x
  keeps : ∀ a ∈ kept, ∃ x ∈ alerts, SameAlert a x
  order : changes.Pairwise fun c c' => c.isResolved = true → c'.isResolved = true
  resolves : ∀ change ∈ changes, change.isResolved = true → ∃ a ∈ kept, a.state ≠ .resolved ∧
    change = .resolved a.id ∧ Book.resolve nowMs a ∈ alerts
  once : Keyed.Unique Alert.id alerts → ∀ id, changes.count (.resolved id) ≤ 1

theorem Goes.refl (nowMs : Int) (a : Alert) : Goes nowMs [] a a :=
  ⟨.refl a, rfl, .inl ⟨rfl, Nat.le_refl _⟩, fun _ => .inl rfl⟩

section

variable {settings : NotifySettings} {t nowMs : Int} {book : Book} {conditions : List Condition}
  {kept alerts : List Alert} {log : List Event} {changes : List Change}
  {sha256 : List UInt8 → List UInt8} {a : Alert}

theorem turns_evaluate (hu : Keyed.Unique Alert.key book.alerts) (mayResolve : Bool) :
    Turns nowMs conditions (book.alerts.filter (!Book.stale nowMs ·))
      (book.evaluate sha256 conditions nowMs mayResolve).1.alerts
      (book.evaluate sha256 conditions nowMs mayResolve).2.1 := by
  have hgrew := @grew_applied nowMs book conditions sha256 hu
  have hunique := @Book.unique_evaluate sha256 nowMs conditions book hu mayResolve
  rw [Book.evaluate_eq] at hunique ⊢
  -- what is gone was kept, and no condition was about it
  have hgone : ∀ x ∈ (Book.applied sha256 book conditions nowMs).1,
      (mayResolve && Book.gone conditions x) = true →
        x ∈ book.alerts.filter (!Book.stale nowMs ·) ∧ x.state ≠ .resolved := by
    intro x hx hgone
    rw [Bool.and_eq_true] at hgone
    have hopen : x.state ≠ .resolved := by
      have := hgone.2
      unfold Book.gone at this
      simpa using (Bool.and_eq_true_iff.mp this).1
    rcases hgrew.origin x hx with ⟨a, ha, hcame⟩ | hfresh
    · rcases hcame.seen with rfl | ⟨-, hdue⟩
      · exact ⟨ha, hopen⟩
      · rw [not_gone hdue] at hgone
        cases hgone.2
    · rw [not_gone hfresh.seen.2] at hgone
      cases hgone.2
  refine ⟨hunique, ?_, ?_, ?_, ?_, ?_⟩
  · intro x' hx'
    obtain ⟨x, hx, rfl⟩ := List.mem_map.mp hx'
    by_cases hsettled : (mayResolve && Book.gone conditions x) = true
    · rw [if_pos hsettled]
      obtain ⟨hkept, hopen⟩ := hgone x hx hsettled
      refine .inl ⟨x, hkept, ⟨rfl, rfl, rfl, rfl⟩, rfl, .inl ⟨rfl, Nat.le_refl _⟩, fun _ =>
        .inr ⟨hopen, rfl, List.mem_append_right _ ?_⟩⟩
      exact List.mem_map_of_mem (f := fun a : Alert => Change.resolved a.id)
        (List.mem_filter.mpr ⟨hx, hsettled⟩)
    · rw [if_neg hsettled]
      rcases hgrew.origin x hx with ⟨a, ha, hcame⟩ | hfresh
      · refine .inl ⟨a, ha, hcame.same, hcame.notified, hcame.raised.imp_right (·.append _),
          fun hstate => .inl ?_⟩
        rcases hcame.seen with rfl | ⟨hopen, -⟩
        · rfl
        · exact absurd hstate hopen
      · exact .inr (hfresh.append _)
  · intro a ha
    obtain ⟨x, hx, hsame⟩ := hgrew.keeps a ha
    refine ⟨_, List.mem_map_of_mem hx, ?_⟩
    split
    · exact ⟨hsame.id, hsame.condition, hsame.resource, hsame.openedMs⟩
    · exact hsame
  · refine List.pairwise_append.mpr ⟨?_, ?_, ?_⟩
    · refine List.Pairwise.imp_of_mem ?_ (List.pairwise_of_forall fun _ _ => trivial)
      intro c c' hc _ _ hres
      rw [hgrew.opening c hc] at hres
      cases hres
    · refine List.Pairwise.imp_of_mem ?_ (List.pairwise_of_forall fun _ _ => trivial)
      intro c c' _ hc' _ _
      obtain ⟨x, -, rfl⟩ := List.mem_map.mp hc'
      rfl
    · intro c _ c' hc' _
      obtain ⟨x, -, rfl⟩ := List.mem_map.mp hc'
      rfl
  · intro change hchange hres
    rcases List.mem_append.mp hchange with hchange | hchange
    · rw [hgrew.opening change hchange] at hres
      cases hres
    · obtain ⟨x, hx, rfl⟩ := List.mem_map.mp hchange
      obtain ⟨hmem, hsettled⟩ := List.mem_filter.mp hx
      obtain ⟨hkept, hopen⟩ := hgone x hmem hsettled
      refine ⟨x, hkept, hopen, rfl, ?_⟩
      exact List.mem_map.mpr ⟨x, hmem, if_pos hsettled⟩
  · intro hids id
    have hnone : List.count (.resolved id) (Book.applied sha256 book conditions nowMs).2 = 0 := by
      refine List.count_eq_zero.mpr fun hmem => ?_
      have := hgrew.opening _ hmem
      cases this
    rw [List.count_append, hnone, Nat.zero_add]
    refine List.nodup_iff_count_le_one.mp ?_ _
    have hkeep : ∀ x, (if (mayResolve && Book.gone conditions x) = true then
        Book.resolve nowMs x else x).id = x.id := by
      intro x
      split <;> rfl
    rw [Keyed.Unique, Keyed.map_key_map hkeep] at hids
    have hnodup := (Keyed.unique_filter (fun x => mayResolve && Book.gone conditions x) hids).map
      (f := Change.resolved) fun _ _ => Change.resolved.inj
    rwa [List.map_map] at hnodup

theorem turns_acknowledge {book' : Book} {id by_ : String}
    (hu : Keyed.Unique Alert.key book.alerts)
    (hack : book.acknowledge id by_ nowMs = .ok book') :
    Turns nowMs conditions book.alerts book'.alerts [] := by
  have hunique := (@moves_acknowledge (fun _ => []) _ _ _ _ _ hu hack).1
  have hstays : Turns nowMs conditions book.alerts book.alerts [] :=
    ⟨hu, fun a ha => .inl ⟨a, ha, .refl nowMs a⟩, fun a ha => ⟨a, ha, .refl a⟩, .nil, nofun,
      fun _ _ => Nat.zero_le _⟩
  unfold Book.acknowledge at hack
  cases hget : book.get id with
  | none =>
    rw [hget] at hack
    cases hack
  | some a =>
    rw [hget] at hack
    dsimp only at hack
    cases hstate : a.state with
    | resolved =>
      rw [hstate] at hack
      cases hack
    | acknowledged =>
      rw [hstate] at hack
      obtain rfl := Except.ok.inj hack
      exact hstays
    | «open» =>
      rw [hstate] at hack
      obtain rfl := Except.ok.inj hack
      refine ⟨hunique, ?_, ?_, .nil, nofun, fun _ _ => Nat.zero_le _⟩
      · intro a' ha'
        rcases Keyed.mem_modifyFirst ha' with ha' | ⟨a, ha, -, rfl⟩
        · exact hstays.origin a' ha'
        · exact .inl ⟨a, ha, ⟨rfl, rfl, rfl, rfl⟩, rfl, .inl ⟨rfl, Nat.le_refl _⟩, nofun⟩
      · intro a ha
        rcases Keyed.mem_modifyFirst_of_mem (p := (·.id = id))
          (f := Book.acknowledged by_ nowMs) ha with ha' | ha'
        · exact ⟨a, ha', .refl a⟩
        · exact ⟨_, ha', rfl, rfl, rfl, rfl⟩

/-- A step of the book keeps the invariant, with its changes still to announce. -/
theorem Pairs.turn (h : Pairs settings t book log []) (ht : t ≤ nowMs)
    (hturn : Turns nowMs conditions kept alerts changes) (hids : Keyed.Unique Alert.id alerts)
    (henabled : ∀ c ∈ conditions, switchedOff settings.disabledConditions c.id = false)
    (hkept : ∀ a ∈ kept, a ∈ book.alerts)
    (hleft : ∀ a ∈ book.alerts, a ∈ kept ∨ a.openedMs < nowMs - reopenMs) :
    Pairs settings nowMs ⟨alerts⟩ log changes := by
  refine ⟨hturn.unique, hids, ?_, ?_, ?_, ?_, ?_, ?_, ?_, hturn.order, h.preceded⟩
  · intro x hx
    rcases hturn.origin x hx with ⟨a, ha, hgoes⟩ | hfresh
    · rw [← hgoes.same.condition]
      exact h.enabled a (hkept a ha)
    · obtain ⟨-, c, hc, -, hkey⟩ := hfresh.seen
      rw [← (Prod.mk.inj hkey).1]
      exact henabled c hc
  · intro x hx
    rcases hturn.origin x hx with ⟨a, ha, hgoes⟩ | hfresh
    · rw [← hgoes.same.openedMs]
      exact (h.openedMs a (hkept a ha)).trans ht
    · exact hfresh.openedMs.le
  · intro x hx hstate
    rcases hturn.origin x hx with ⟨a, ha, hgoes⟩ | hfresh
    · rcases hgoes.resolved hstate with rfl | ⟨-, rfl, -⟩
      · exact h.resolvedMs x (hkept x ha) hstate
      · exact ⟨nowMs, rfl, (h.openedMs a (hkept a ha)).trans ht⟩
    · exact absurd hstate hfresh.seen.1
  · intro e he hannounces
    rcases h.present e he hannounces with ⟨a, ha, hsame⟩ | hlate
    · rcases hleft a ha with ha | hlate
      · obtain ⟨x, hx, hsame'⟩ := hturn.keeps a ha
        exact .inl ⟨x, hx, hsame.trans hsame'⟩
      · exact .inr (hsame.openedMs ▸ hlate)
    · exact .inr (by omega)
  · intro x hx hn
    rcases hturn.origin x hx with ⟨a, ha, hgoes⟩ | hfresh
    · rw [hgoes.notified] at hn
      obtain ⟨e, he, hannounces, hsame⟩ := h.announced a (hkept a ha) hn
      exact ⟨e, he, hannounces, hsame.trans hgoes.same⟩
    · rw [hfresh.notified] at hn
      cases hn
  · intro e he hannounces x hx hsame
    rcases hturn.origin x hx with ⟨a, ha, hgoes⟩ | hfresh
    · rw [hgoes.notified]
      exact h.notified e he hannounces a (hkept a ha) (hsame.trans hgoes.same.symm)
    · -- an announced alert that was opened at this moment would still be in the book
      exfalso
      have hnow : e.alert.openedMs = nowMs := hsame.openedMs.trans hfresh.openedMs
      have hreopen : 0 < reopenMs := by decide
      rcases h.present e he hannounces with ⟨b, hb, hsame'⟩ | hlate
      · rcases hleft b hb with hb | hlate
        · exact hfresh.absent b hb (hsame'.symm.trans hsame).key
        · rw [← hsame'.openedMs] at hlate
          omega
      · omega
  · intro x hx
    rcases hturn.origin x hx with ⟨a, ha, hgoes⟩ | hfresh
    · rcases hgoes.raised with ⟨hgen, hsev⟩ | hraised
      · rcases h.begun a (hkept a ha) with ⟨e, he, hbegins, hle⟩ | ⟨c, hc, -⟩
        · exact .inl ⟨e, he, ⟨hbegins.1, hbegins.2.1.trans hgoes.same, hbegins.2.2.trans hgen.symm⟩,
            Nat.le_trans hsev hle⟩
        · cases hc
      · exact .inr hraised
    · exact .inr hfresh.raised

theorem Pairs.left (h : Pairs settings t book log []) (a : Alert) (ha : a ∈ book.alerts) :
    a ∈ book.alerts.filter (!Book.stale nowMs ·) ∨ a.openedMs < nowMs - reopenMs := by
  by_cases hstale : Book.stale nowMs a = true
  · obtain ⟨hstate, r, hr, hlate⟩ :=
      (stale_iff fun hr => (h.resolvedMs a ha hr).imp fun _ h => h.1).mp hstale
    obtain ⟨r', hr', hle⟩ := h.resolvedMs a ha hstate
    obtain rfl : r = r' := Option.some.inj (hr.symm.trans hr')
    exact .inr (by omega)
  · exact .inl (List.mem_filter.mpr ⟨ha, by simpa using hstale⟩)

theorem Pairs.switchOff (h : Pairs settings t book log []) :
    book.switchOff settings.disabledConditions nowMs = book := by
  unfold Book.switchOff
  have hsame : ∀ a ∈ book.alerts,
      (if a.state ≠ .resolved && switchedOff settings.disabledConditions a.condition then
        Book.resolve nowMs a else a) = a := by
    intro a ha
    rw [h.enabled a ha, Bool.and_false, if_neg (by simp)]
  rw [List.map_congr_left hsame, List.map_id']

end

/-! ## A book and its messages -/

/-- A book at the clock's last reading, the messages that were planned of it, and the changes that
they were for. -/
structure Mailed where
  clockMs : Int
  book : Book
  told : List Message
  log : List Event

/-- The records before the first evaluation. -/
def Mailed.start (clockMs : Int) : Mailed := ⟨clockMs, ⟨[]⟩, [], []⟩

inductive MailAct where
  | evaluate (silences : List Silence) (conditions : List Condition) (mayResolve : Bool)
  | acknowledge (id by_ : String)

/-- The changes of an evaluation as they are announced. -/
def evaluatedLog (sha256 : List UInt8 → List UInt8) (settings : NotifySettings)
    (silences : List Silence) (conditions : List Condition) (nowMs : Int) (mayResolve : Bool)
    (book : Book) : List Event :=
  let disabled := settings.disabledConditions
  let enabled := conditions.filter fun c => !switchedOff disabled c.id
  let (book, changes, _) := (book.switchOff disabled nowMs).evaluate sha256 enabled nowMs mayResolve
  planned settings silences nowMs book changes

def Mailed.next (sha256 : List UInt8 → List UInt8) (settings : NotifySettings) (s : Mailed)
    (nowMs : Int) : MailAct → Mailed
  | .evaluate silences conditions mayResolve =>
    let (book, messages, _) := evaluateBook sha256 settings silences conditions nowMs mayResolve s.book
    ⟨nowMs, book, s.told ++ messages,
      s.log ++ evaluatedLog sha256 settings silences conditions nowMs mayResolve s.book⟩
  | .acknowledge id by_ =>
    match s.book.acknowledge id by_ nowMs with
    | .ok book => ⟨nowMs, book, s.told, s.log⟩
    | .error _ => { s with clockMs := nowMs }

/-- A step at a later reading of the clock, to a book whose alerts have different IDs. -/
def Mails (sha256 : List UInt8 → List UInt8) (settings : NotifySettings) (s : Mailed)
    (act : Int × MailAct) (s' : Mailed) : Prop :=
  s.clockMs ≤ act.1 ∧ s' = s.next sha256 settings act.1 act.2 ∧ Keyed.Unique Alert.id s'.book.alerts

section

variable {sha256 : List UInt8 → List UInt8} {settings : NotifySettings} {silences : List Silence}
  {conditions : List Condition} {nowMs : Int} {book : Book} {log : List Event} {t : Int}
  {s s' : Mailed}

theorem evaluateBook_spec (h : Pairs settings t book log []) (ht : t ≤ nowMs) (mayResolve : Bool)
    (hids : Keyed.Unique Alert.id
      (evaluateBook sha256 settings silences conditions nowMs mayResolve book).1.alerts) :
    ∃ kept between changes,
      kept = book.alerts.filter (!Book.stale nowMs ·) ∧
      Turns nowMs (conditions.filter fun c => !switchedOff settings.disabledConditions c.id) kept
        between.alerts changes ∧
      Pairs settings nowMs between log changes ∧
      (evaluateBook sha256 settings silences conditions nowMs mayResolve book).1 =
        changes.foldl (marked settings silences nowMs) between ∧
      evaluatedLog sha256 settings silences conditions nowMs mayResolve book =
        planned settings silences nowMs between changes ∧
      (evaluateBook sha256 settings silences conditions nowMs mayResolve book).2.1 =
        toldOf settings (planned settings silences nowMs between changes) := by
  unfold evaluateBook evaluatedLog at *
  dsimp only at hids ⊢
  rw [plan_eq] at hids ⊢
  dsimp only at hids ⊢
  have hturn := @turns_evaluate nowMs book
    (conditions.filter fun c => !switchedOff settings.disabledConditions c.id) sha256 h.unique
    mayResolve
  rw [h.switchOff] at hids ⊢
  generalize Book.evaluate sha256 book _ nowMs mayResolve = evaluated at hturn hids ⊢
  rw [Keyed.Unique, map_id_foldl_marked] at hids
  refine ⟨_, evaluated.1, evaluated.2.1, rfl, hturn, ?_, rfl, rfl, rfl⟩
  refine h.turn ht hturn hids ?_ ?_ h.left
  · intro c hc
    simpa using (List.mem_filter.mp hc).2
  · exact fun a ha => List.mem_of_mem_filter ha

/-- What holds of every book and its messages. -/
structure MailedOk (settings : NotifySettings) (s : Mailed) : Prop where
  pairs : Pairs settings s.clockMs s.book s.log []
  told : s.told = toldOf settings s.log

theorem mailedOk_start (clockMs : Int) : MailedOk settings (.start clockMs) where
  pairs :=
    { unique := List.nodup_nil
      ids := List.nodup_nil
      enabled := List.forall_mem_nil _
      openedMs := List.forall_mem_nil _
      resolvedMs := List.forall_mem_nil _
      present := List.forall_mem_nil _
      announced := List.forall_mem_nil _
      notified := List.forall_mem_nil _
      begun := List.forall_mem_nil _
      order := .nil
      preceded := fun before e after heq => by cases before <;> cases heq }
  told := rfl

theorem MailedOk.step {act : Int × MailAct} (h : MailedOk settings s)
    (hstep : Mails sha256 settings s act s') : MailedOk settings s' := by
  obtain ⟨nowMs, act⟩ := act
  obtain ⟨hclock, rfl, hids⟩ := hstep
  cases act with
  | evaluate silences conditions mayResolve =>
    obtain ⟨kept, between, changes, -, -, hpairs, hbook, hlog, htold⟩ :=
      evaluateBook_spec h.pairs hclock mayResolve hids
    constructor
    · show Pairs settings nowMs (evaluateBook ..).1 (s.log ++ evaluatedLog ..) []
      rw [hbook, hlog]
      exact hpairs.plan
    · show s.told ++ (evaluateBook ..).2.1 = toldOf settings (s.log ++ evaluatedLog ..)
      rw [htold, hlog, h.told, toldOf, toldOf, toldOf, List.flatMap_append]
  | acknowledge id by_ =>
    have hlater : Pairs settings nowMs s.book s.log [] :=
      { h.pairs with
        openedMs := fun a ha => (h.pairs.openedMs a ha).trans hclock
        present := fun e he hannounces =>
          (h.pairs.present e he hannounces).imp_right fun hlate => by
            dsimp only at hclock
            omega }
    dsimp only [Mailed.next] at hids ⊢
    cases hack : s.book.acknowledge id by_ nowMs with
    | ok book' =>
      rw [hack] at hids
      have hturn : Turns nowMs [] s.book.alerts book'.alerts [] :=
        turns_acknowledge hlater.unique hack
      exact ⟨hlater.turn le_rfl hturn hids (fun _ hc => absurd hc List.not_mem_nil) (fun _ ha => ha)
        (fun _ ha => .inl ha), h.told⟩
    | error e => exact ⟨hlater, h.told⟩

theorem MailedOk.run {acts : List (Int × MailAct)} {clockMs : Int}
    (h : Run (Mails sha256 settings) (.start clockMs) acts s) : MailedOk settings s :=
  h.invariant (fun _ _ _ hok hstep => hok.step hstep) (mailedOk_start clockMs)

end

/-! ## Openings and recoveries pair up -/

def Message.recovers (m : Message) (id r : String) : Bool :=
  m.kind = .resolved && m.alert.id = id && m.to_ = r

section

variable {sha256 : List UInt8 → List UInt8} {settings : NotifySettings} {silences : List Silence}
  {conditions : List Condition} {nowMs : Int} {book : Book} {log : List Event} {t : Int}
  {s : Mailed} {a x y : Alert} {r : String} {changes : List Change}

theorem countP_recovers_other {events : List Event}
    (h : ∀ e ∈ events, e.alert.id = e.change.id ∧ e.change ≠ .resolved a.id) :
    (toldOf settings events).countP (·.recovers a.id r) = 0 := by
  refine List.countP_eq_zero.mpr fun m hm hrecovers => ?_
  obtain ⟨e, he, hmem⟩ := mem_toldOf.mp hm
  obtain ⟨halert, hkind, -⟩ := Event.mem_messages hmem
  obtain ⟨hid, hne⟩ := h e he
  simp only [Message.recovers, Bool.and_eq_true, decide_eq_true_eq] at hrecovers
  obtain ⟨⟨hresolved, hsame⟩, -⟩ := hrecovers
  rw [halert, hid] at hsame
  rw [hkind, Event.kind_resolved] at hresolved
  cases hchange : e.change with
  | resolved id =>
    rw [hchange] at hsame hne
    exact hne (congrArg _ hsame)
  | opened | reopened | escalated =>
    rw [hchange] at hresolved
    cases hresolved

/-- The event of a recovery tells each of its recipients once. -/
theorem countP_recovers {e : Event} (hresolved : e.change.isResolved = true)
    (hid : e.alert.id = a.id) (hemail : category e.alert.condition ≠ "notify")
    (hmuted : e.muted settings = false) (hr : r ∈ recipients e.alert settings true) :
    (e.messages settings).countP (·.recovers a.id r) = 1 := by
  rw [Event.messages_eq, if_neg (by simp [hemail, hmuted]), List.countP_map, hresolved]
  have hto : ((fun m : Message => m.recovers a.id r) ∘ fun r => ⟨e.kind, e.alert, r⟩) =
      fun r' => r' == r := by
    funext r'
    show (decide (e.kind = .resolved) && decide (e.alert.id = a.id) && decide (r' = r)) = _
    rw [decide_eq_true (Event.kind_resolved.mpr hresolved), hid, decide_eq_true rfl, Bool.true_and,
      Bool.true_and]
    rfl
  rw [hto]
  exact List.count_eq_one_of_mem (nodup_addressSet _) hr

/-- A plan with one recovery of an alert tells each of its recipients once. -/
theorem recovers_once (hmem : .resolved a.id ∈ changes)
    (hcount : changes.count (.resolved a.id) ≤ 1) (hx : book.get a.id = some x)
    (hnotified : x.notifiedMs.isSome = true) (hemail : category x.condition ≠ "notify")
    (hsilenced : silenced x silences nowMs = false) (hr : r ∈ recipients x settings true) :
    (toldOf settings (planned settings silences nowMs book changes)).countP
      (·.recovers a.id r) = 1 := by
  obtain ⟨before, after, rfl⟩ := List.append_of_mem hmem
  have hnone : ∀ c ∈ before ++ after, c ≠ .resolved a.id := by
    rintro c hc rfl
    rw [List.count_append, List.count_cons_self] at hcount
    have := List.count_pos_iff.mpr hc
    rw [List.count_append] at this
    omega
  obtain ⟨y, hy, hxy⟩ := get_foldl_marked settings silences nowMs before hx
  rw [planned_append, planned, toldOf, List.flatMap_append, List.flatMap_append, List.countP_append,
    List.countP_append]
  have hbefore : (toldOf settings (planned settings silences nowMs book before)).countP
      (·.recovers a.id r) = 0 := by
    refine countP_recovers_other fun e he => ?_
    obtain ⟨hchange, hid, -⟩ := mem_planned he
    exact ⟨hid, hnone _ (List.mem_append_left _ hchange)⟩
  have hafter : ∀ book, (toldOf settings (planned settings silences nowMs book after)).countP
      (·.recovers a.id r) = 0 := by
    intro book
    refine countP_recovers_other fun e he => ?_
    obtain ⟨hchange, hid, -⟩ := mem_planned he
    exact ⟨hid, hnone _ (List.mem_append_right _ hchange)⟩
  have hhere : ((((before.foldl (marked settings silences nowMs) book).get
      (Change.resolved a.id).id).map (⟨.resolved a.id, ·, silences, nowMs⟩ : Alert → Event)).toList.flatMap
        (·.messages settings)).countP (·.recovers a.id r) = 1 := by
    rw [show (Change.resolved a.id).id = a.id from rfl, hy, Option.map_some, Option.toList_some,
      List.flatMap_singleton]
    have hyid : y.id = a.id := by simpa using List.find?_some hy
    refine countP_recovers rfl hyid ?_ ?_ ?_
    · show category y.condition ≠ "notify"
      rw [hxy.same]
      exact hemail
    · show (silenced y silences nowMs || y.notifiedMs.isNone) = false
      have hsilenced' : silenced y silences nowMs = false := by
        rw [hxy.same]
        exact hsilenced
      rw [hsilenced', Bool.false_or, Option.isNone_eq_false_iff]
      exact hxy.isSome hnotified
    · show r ∈ recipients y settings true
      rw [hxy.same]
      exact hr
  unfold toldOf at hbefore hafter
  rw [hbefore, hhere, hafter]

/-- An announced alert that an evaluation resolves has its recovery told once to each of its
recipients. -/
theorem Pairs.recovers (h : Pairs settings t book log []) (ht : t ≤ nowMs) {mayResolve : Bool}
    (hids : Keyed.Unique Alert.id
      (evaluateBook sha256 settings silences conditions nowMs mayResolve book).1.alerts)
    (ha : a ∈ book.alerts) (hopen : a.state ≠ .resolved) {a' : Alert}
    (ha' : a' ∈ (evaluateBook sha256 settings silences conditions nowMs mayResolve book).1.alerts)
    (hsame : SameAlert a a') (hresolved : a'.state = .resolved)
    (htold : ∃ m ∈ toldOf settings log, m.kind = .opened ∧ SameAlert m.alert a)
    (hsilenced : silenced a' silences nowMs = false) (hr : r ∈ recipients a' settings true) :
    ((evaluateBook sha256 settings silences conditions nowMs mayResolve book).2.1).countP
      (·.recovers a.id r) = 1 := by
  obtain ⟨kept, between, changes, hkept, hturn, hpairs, hbook, -, hmessages⟩ :=
    evaluateBook_spec h ht mayResolve hids
  rw [hbook] at hids ha'
  rw [hmessages]
  have hakept : a ∈ kept := by
    rw [hkept]
    refine List.mem_filter.mpr ⟨ha, ?_⟩
    unfold Book.stale
    rw [decide_eq_false hopen, Bool.false_and, Bool.not_false]
  -- the alert between, before what was announced is marked
  obtain ⟨x, hx, hax⟩ := hturn.keeps a hakept
  have hgetx : between.get a.id = some x := by
    rw [hax.id]
    exact Keyed.find_of_mem hpairs.ids hx
  have hremarked : Remarked nowMs x a' := by
    obtain ⟨y, hy, hxy⟩ := get_foldl_marked settings silences nowMs changes hgetx
    have hgeta : (changes.foldl (marked settings silences nowMs) between).get a'.id = some a' :=
      Keyed.find_of_mem hids ha'
    rw [← hsame.id, hy] at hgeta
    exact Option.some.inj hgeta ▸ hxy
  have hstate : x.state = .resolved := by
    rw [hremarked.same] at hresolved
    exact hresolved
  -- what was announced, as it was before
  obtain ⟨m, hm, hkind, hma⟩ := htold
  obtain ⟨e, he, hmem⟩ := mem_toldOf.mp hm
  obtain ⟨halert, hekind, -, hemail, -⟩ := Event.mem_messages hmem
  rw [halert] at hma
  have hannounces : e.Announces settings :=
    ⟨Event.kind_opened.mp (hekind.symm.trans hkind), List.ne_nil_of_mem hmem⟩
  have hnotified : x.notifiedMs.isSome = true := hpairs.notified e he hannounces x hx (hma.trans hax)
  have hchange : .resolved a.id ∈ changes := by
    rcases hturn.origin x hx with ⟨b, hb, hgoes⟩ | hfresh
    · have hab : b = a := by
        have hb' : b ∈ book.alerts := List.mem_of_mem_filter (hkept ▸ hb)
        have hfind := Keyed.find_of_mem h.unique hb'
        rw [hgoes.same.key, ← hax.key, Keyed.find_of_mem h.unique ha] at hfind
        exact (Option.some.inj hfind).symm
      subst hab
      rcases hgoes.resolved hstate with rfl | ⟨-, -, hmem⟩
      · exact absurd hstate hopen
      · exact hmem
    · exact absurd hstate hfresh.seen.1
  refine recovers_once hchange (hturn.once hpairs.ids a.id) hgetx hnotified ?_ ?_ ?_
  · rw [← (hma.trans hax).condition]
    exact hemail
  · rw [hremarked.same] at hsilenced
    exact hsilenced
  · rw [hremarked.same] at hr
    exact hr

theorem Pairs.recovery (h : Pairs settings t book log []) (ht : t ≤ nowMs) {mayResolve : Bool}
    (hids : Keyed.Unique Alert.id
      (evaluateBook sha256 settings silences conditions nowMs mayResolve book).1.alerts)
    {m : Message}
    (hm : m ∈ (evaluateBook sha256 settings silences conditions nowMs mayResolve book).2.1)
    (hkind : m.kind = .resolved) : m.alert.state = .resolved ∧
      ∃ a ∈ book.alerts, SameAlert a m.alert ∧ a.state ≠ .resolved := by
  obtain ⟨kept, between, changes, hkept, hturn, hpairs, -, -, hmessages⟩ :=
    evaluateBook_spec h ht mayResolve hids
  rw [hmessages] at hm
  obtain ⟨e, he, hmem⟩ := mem_toldOf.mp hm
  obtain ⟨halert, hekind, -⟩ := Event.mem_messages hmem
  obtain ⟨hchange, -, hremarked⟩ := mem_planned he
  have hresolved := Event.kind_resolved.mp (hekind.symm.trans hkind)
  obtain ⟨a, ha, hopen, heq, hin⟩ := hturn.resolves e.change hchange hresolved
  have hget : between.get a.id = some (Book.resolve nowMs a) :=
    Keyed.find_of_mem hpairs.ids hin
  have hmarked := hremarked (Book.resolve nowMs a) (by rw [heq]; exact hget)
  rw [halert]
  refine ⟨?_, a, List.mem_of_mem_filter (hkept ▸ ha), ?_, hopen⟩
  · rw [hmarked.same]
    rfl
  · exact SameAlert.trans (b := Book.resolve nowMs a) ⟨rfl, rfl, rfl, rfl⟩ hmarked.sameAlert

end

/-- One operator who is told of everything. -/
def opsSettings : NotifySettings := ⟨["ops@example.com"], [], 60, none, none, []⟩

/-- An operator who is only told of what is critical, and of its recovery. -/
def onCallSettings : NotifySettings :=
  { opsSettings with routes := [⟨[], .critical, [], true⟩] }

/-- The pool of `mox2` once only a warning is left. -/
def poolWarning : Condition := { poolDegraded with severity := .warning, sinceMs := -600000 }

end Bmac.Bmacd.Notify
