import Bmac.Bmacd.NotifyPlan

/-!
# Interrupted evaluations

An evaluation writes the book before the outbox. Once the book is written its messages are no longer
called for, so they are only sent if the outbox is written too, or had them.
-/

namespace Bmac.Bmacd.Notify

open Bmac.Base Bmac.Core

/-! ## What an outbox keeps -/

def Queued (key : String) (entries : List Entry) : Prop := ∃ e ∈ entries, e.key = key

/-- Whether it has one that wasn't sent yet. -/
def Waiting (key : String) (entries : List Entry) : Prop :=
  ∃ e ∈ entries, e.key = key ∧ e.doneMs = none

theorem Waiting.queued {key : String} {entries : List Entry} (h : Waiting key entries) :
    Queued key entries := by
  obtain ⟨e, he, hkey, -⟩ := h
  exact ⟨e, he, hkey⟩

section

variable {entries new : List Entry} {entry e : Entry} {nowMs : Int} {key : String}

theorem mem_enqueue (h : e ∈ entries) (entry : Entry) : e ∈ enqueue entries entry := by
  unfold enqueue
  split
  · exact h
  · exact List.mem_append_left _ h

theorem mem_enqueueAll (h : e ∈ entries) (new : List Entry) : e ∈ new.foldl enqueue entries := by
  induction new generalizing entries with
  | nil => exact h
  | cons entry new ih =>
    rw [List.foldl_cons]
    exact ih (mem_enqueue h entry)

theorem waiting_enqueue (hdone : entry.doneMs = none) :
    Queued entry.key entries ∨ Waiting entry.key (enqueue entries entry) := by
  unfold enqueue
  split
  · rename_i hany
    obtain ⟨e, he, hkey⟩ := List.any_eq_true.mp hany
    exact .inl ⟨e, he, by simpa using hkey⟩
  · exact .inr ⟨entry, List.mem_append_right _ (List.mem_singleton_self _), rfl, hdone⟩

theorem Waiting.enqueueAll (h : Waiting key entries) (new : List Entry) :
    Waiting key (new.foldl enqueue entries) := by
  obtain ⟨e, he, hrest⟩ := h
  exact ⟨e, mem_enqueueAll he new, hrest⟩

theorem queued_enqueue (h : Queued key (enqueue entries entry)) (hdone : entry.doneMs = none) :
    Queued key entries ∨ Waiting key (enqueue entries entry) := by
  obtain ⟨e, he, rfl⟩ := h
  unfold enqueue at he ⊢
  split at he
  · exact .inl ⟨e, he, rfl⟩
  · rename_i hany
    rw [if_neg hany]
    rcases List.mem_append.mp he with he | he
    · exact .inl ⟨e, he, rfl⟩
    · obtain rfl := List.mem_singleton.mp he
      exact .inr ⟨e, List.mem_append_right _ (List.mem_singleton_self _), rfl, hdone⟩

theorem waiting_enqueueAll (hdone : ∀ entry ∈ new, entry.doneMs = none) (hentry : entry ∈ new) :
    Queued entry.key entries ∨ Waiting entry.key (new.foldl enqueue entries) := by
  induction new generalizing entries with
  | nil => cases hentry
  | cons first new ih =>
    rw [List.foldl_cons]
    have hfirst : first.doneMs = none := hdone first (List.mem_cons_self ..)
    rcases List.mem_cons.mp hentry with rfl | hentry
    · exact (waiting_enqueue hfirst).imp_right (·.enqueueAll new)
    · rcases ih (fun e he => hdone e (List.mem_cons_of_mem _ he)) hentry with hqueued | hwaiting
      · exact (queued_enqueue hqueued hfirst).imp_right (·.enqueueAll new)
      · exact .inr hwaiting

theorem mem_dropOldest {left : List Entry} (h : dropOldest entries = some left) (he : e ∈ entries)
    (hdone : e.doneMs = none) : e ∈ left := by
  unfold dropOldest at h
  obtain ⟨done, -, rfl⟩ := Option.map_eq_some_iff.mp h
  refine (List.mem_eraseP_of_neg ?_).mpr he
  simp [hdone]

theorem mem_dropExcess (fuel : Nat) (he : e ∈ entries) (hdone : e.doneMs = none) :
    e ∈ dropExcess fuel entries := by
  induction fuel generalizing entries with
  | zero => exact he
  | succ fuel ih =>
    unfold dropExcess
    split
    · cases hdrop : dropOldest entries with
      | none => exact he
      | some left => exact ih (mem_dropOldest hdrop he hdone)
    · exact he

theorem Waiting.prune (h : Waiting key entries) (nowMs : Int) : Waiting key (prune entries nowMs) := by
  obtain ⟨e, he, hkey, hdone⟩ := h
  refine ⟨e, mem_dropExcess _ (List.mem_filter.mpr ⟨he, ?_⟩) hdone, hkey, hdone⟩
  rw [hdone]
  rfl

end

/-! ## An evaluation's outbox -/

namespace Evaluation

variable {e : Evaluation} {state state' : State} {m : Message} {key : String}

theorem waits (h : Waiting key state.outbox) : Waiting key (e.run state).outbox :=
  ((h.enqueueAll _).enqueueAll _).prune _

/-- Each message of an evaluation waits in its outbox, unless the outbox had it. -/
theorem queues (hm : m ∈ e.messages state) :
    Queued m.key state.outbox ∨ Waiting m.key (e.run state).outbox := by
  have hdone : ∀ entry ∈ (e.messages state).map (·.entry (e.context state)), entry.doneMs = none := by
    intro entry hentry
    obtain ⟨m, -, rfl⟩ := List.mem_map.mp hentry
    rfl
  have hwaiting := @waiting_enqueueAll state.outbox _ _ hdone
    (List.mem_map_of_mem (f := (·.entry (e.context state))) hm)
  exact hwaiting.imp_right fun h => (h.enqueueAll _).prune _

end Evaluation

/-! ## Silences that ended -/

section

variable {settings : NotifySettings} {silences : List Silence} {nowMs : Int}

theorem silenced_filter (a : Alert) :
    silenced a (silences.filter (nowMs < ·.untilMs)) nowMs = silenced a silences nowMs := by
  unfold silenced
  rw [List.any_filter]
  refine congrArg (silences.any ·) (funext fun s => ?_)
  cases decide (nowMs < s.untilMs) <;> rfl

theorem planOne_filter :
    planOne settings (silences.filter (nowMs < ·.untilMs)) nowMs = planOne settings silences nowMs := by
  funext s change
  unfold planOne messagesFor
  dsimp only
  simp only [silenced_filter]

/-- An evaluation may be given the silences without those that ended. -/
theorem evaluateBook_filter (sha256 : List UInt8 → List UInt8) (conditions : List Condition)
    (mayResolve : Bool) (book : Book) :
    evaluateBook sha256 settings (silences.filter (nowMs < ·.untilMs)) conditions nowMs mayResolve
      book = evaluateBook sha256 settings silences conditions nowMs mayResolve book := by
  unfold evaluateBook plan
  dsimp only
  rw [planOne_filter]

end

/-! ## The records after an interruption -/

theorem write_foldl (after : State) (records : List Record) (state : State) :
    records.foldl (Record.write after) state =
      { book := if .book ∈ records then after.book else state.book
        history := if .history ∈ records then after.history else state.history
        silences := if .silences ∈ records then after.silences else state.silences
        settings := if .settings ∈ records then after.settings else state.settings
        outbox := if .outbox ∈ records then after.outbox else state.outbox } := by
  induction records generalizing state with
  | nil => rfl
  | cons record records ih =>
    rw [List.foldl_cons, ih]
    cases record <;> simp [Record.write]

section

variable {before after : State} {done : Nat}

/-- A record that the first writes don't include is as it was. -/
theorem stored_eq (before after : State) (done : Nat) : stored before after done =
    let written := (writes before after).take done
    { book := if .book ∈ written then after.book else before.book
      history := if .history ∈ written then after.history else before.history
      silences := if .silences ∈ written then after.silences else before.silences
      settings := if .settings ∈ written then after.settings else before.settings
      outbox := if .outbox ∈ written then after.outbox else before.outbox } :=
  write_foldl after _ before

theorem messages_of_book (e : Evaluation)
    (hbook : (stored before (e.run before) done).book = before.book) :
    e.messages (stored before (e.run before) done) = e.messages before := by
  have hsettings : e.settings (stored before (e.run before) done) = e.settings before := by
    rw [stored_eq]
    unfold Evaluation.settings Evaluation.run
    cases hshared : e.shared with
    | some shared => rfl
    | none =>
      dsimp only
      simp [Evaluation.settings, hshared]
  have hsilences : e.silences (stored before (e.run before) done) = e.silences before ∨
      e.silences (stored before (e.run before) done) =
        (e.silences before).filter (e.nowMs < ·.untilMs) := by
    rw [stored_eq]
    unfold Evaluation.silences Evaluation.run
    cases hshared : e.shared with
    | some shared => exact .inl rfl
    | none =>
      dsimp only
      split
      · right
        simp [Evaluation.silences, hshared]
      · exact .inl rfl
  unfold Evaluation.messages Evaluation.booked
  rw [hbook, hsettings]
  rcases hsilences with hsilences | hsilences
  · rw [hsilences]
  · rw [hsilences, evaluateBook_filter]

/-- Once an interrupted evaluation wrote the book its messages are in the outbox, and a retry sends
them all, exactly if the book wasn't written, the outbox was, or it had the messages before. -/
theorem marked_with_message (e : Evaluation) (before : State) (done : Nat) :
    let written := (writes before (e.run before)).take done
    let state := stored before (e.run before) done
    ((.book ∈ written → ∀ m ∈ e.messages before,
        Queued m.key before.outbox ∨ Queued m.key state.outbox) ∧
      ∀ m ∈ e.messages before, Queued m.key before.outbox ∨ Queued m.key (e.run state).outbox) ↔
    (.book ∉ written ∨ .outbox ∈ written ∨ ∀ m ∈ e.messages before, Queued m.key before.outbox) := by
  intro written state
  have hstored : state.outbox =
      if .outbox ∈ written then (e.run before).outbox else before.outbox := by
    show (stored before (e.run before) done).outbox = _
    rw [stored_eq]
  -- a written outbox has the messages, and keeps them
  have hwritten : .outbox ∈ written → ∀ m ∈ e.messages before,
      Queued m.key before.outbox ∨ Waiting m.key state.outbox := by
    intro hout m hm
    rw [hstored, if_pos hout]
    exact Evaluation.queues hm
  constructor
  · rintro ⟨hmessages, -⟩
    by_cases hbook : .book ∈ written
    · by_cases hout : .outbox ∈ written
      · exact .inr (.inl hout)
      · rw [hstored, if_neg hout] at hmessages
        exact .inr (.inr fun m hm => (hmessages hbook m hm).elim id id)
    · exact .inl hbook
  · rintro (hbook | hout | hqueued)
    · refine ⟨fun h => absurd h hbook, fun m hm => ?_⟩
      by_cases hout : .outbox ∈ written
      · exact (hwritten hout m hm).imp_right fun h => (Evaluation.waits h).queued
      · -- the book is the one from before, and calls for the same messages
        have hsame : state.book = before.book := by
          show (stored before (e.run before) done).book = _
          rw [stored_eq]
          exact if_neg hbook
        rw [← messages_of_book e hsame] at hm
        rcases Evaluation.queues hm with h | h
        · rw [hstored, if_neg hout] at h
          exact .inl h
        · exact .inr h.queued
    · exact ⟨fun _ m hm => (hwritten hout m hm).imp_right Waiting.queued,
        fun m hm => (hwritten hout m hm).imp_right fun h => (Evaluation.waits h).queued⟩
    · exact ⟨fun _ m hm => .inl (hqueued m hm), fun m hm => .inl (hqueued m hm)⟩

end

/-- The degraded pool of `mox2`, which one operator is told of. -/
def poolEvaluation : Evaluation where
  sha256 _ := []
  times := ⟨fun _ => "", fun _ => "", fun _ => none⟩
  clusterName := none
  conditions := [⟨"zfs.pool.member", "mox2/rpool", .critical, "degraded", 0, []⟩]
  nowMs := 0
  mayResolve := true
  shared := none

def newRecords : State :=
  ⟨⟨[]⟩, [], [], ⟨["ops@example.com"], [], 60, none, none, []⟩, []⟩

/-- The daemon stops once the book is written: the alert is marked, and nobody is told of it. -/
theorem not_marked_with_message :
    let state := stored newRecords (poolEvaluation.run newRecords) 1
    (.book ∈ (writes newRecords (poolEvaluation.run newRecords)).take 1) ∧
      (∃ a ∈ state.book.alerts, a.notifiedMs = some 0) ∧
      ∃ m ∈ poolEvaluation.messages newRecords, ¬ Queued m.key newRecords.outbox ∧
        ¬ Queued m.key state.outbox ∧ ¬ Queued m.key (poolEvaluation.run state).outbox := by
  have hnone : ∀ key, ¬ Queued key [] := fun _ ⟨_, he, _⟩ => nomatch he
  refine ⟨?_, ⟨_, List.mem_singleton_self _, rfl⟩, _, List.mem_singleton_self _, hnone _, ?_, ?_⟩
  · decide
  · exact hnone _
  · exact hnone _

end Bmac.Bmacd.Notify
