import Bmac.Base.Run
import Bmac.Bmacd.Schedules

/-!
# Versioned records

`bmac-pmxcfs/src/record.rs` with the two ways a record goes: `Schedules::delete`, which names the
revision it read, and `Locked::remove` of the backup records, which doesn't. Each call holds the
registry lock, so the calls on one record come one after another. Revisions count from 1, and a
record made again after its deletion counts from 1 again.
-/

namespace Bmac.Pmxcfs

open Bmac.Base Bmac.Core Bmac.Bmacd

inductive PmxcfsError where
  | invalid (message : String)
  | io (message : String)
  | lockTimeout (owner hint : String)
  | revisionConflict (path : String) (expected found : UInt64)
  | newerSchema (context : String) (found supported : UInt64)

def PmxcfsError.text : PmxcfsError → String
  | invalid message => message
  | io message => message
  | lockTimeout owner hint => s!"timed out waiting for allocator lock (owner {owner}){hint}"
  | revisionConflict path expected found =>
    s!"revision conflict on {path}: expected {expected}, found {found}"
  | newerSchema context found supported =>
    s!"{context} uses schema version {found}; " ++
      s!"this version of BMAC understands up to {supported}"

/-- `Value::as_u64`. -/
def asU64 : Value → Option UInt64
  | .number text =>
    let cs := text.toList
    if cs ≠ [] ∧ cs.all Text.isDigit ∧ Text.decimal cs < 2 ^ 64 then
      some (UInt64.ofNat (Text.decimal cs))
    else none
  | _ => none

def fieldU64 (value : Value) (key : String) : Option UInt64 :=
  match value with
  | .object fields => (Dict.get? fields key).bind asU64
  | _ => none

/-- `Path::starts_with`, by components. -/
def pathStartsWith (path root : String) : Bool :=
  (Text.split '/' root).isPrefixOf (Text.split '/' path)

/-- What the file of a record holds, if it exists. -/
abbrev File := Option Value

/-- How a change of the file goes: it may fail and yet have happened. -/
inductive Fault where
  | none
  | before (e : PmxcfsError)
  | after (e : PmxcfsError)

def File.change {α : Type} (file left : File) (answer : α) : Fault → File × Except PmxcfsError α
  | .none => (left, .ok answer)
  | .before e => (file, .error e)
  | .after e => (left, .error e)

/-- The revision of the record in place, 0 for none; `io` is a failure to read it. -/
def foundRevision (path : String) (file : File) (io : Option PmxcfsError) :
    Except PmxcfsError UInt64 :=
  match file, io with
  | none, _ => .ok 0
  | some _, some e => .error e
  | some current, none =>
    match (fieldU64 current "revision").filter (1 ≤ ·) with
    | some revision => .ok revision
    | none => .error (.invalid s!"record revision must be positive: {path}")

/-- Writes a record under the registry lock of `root`. `expected` is the revision the caller read,
or none to create a record that must not exist yet. -/
def writeRecord (root path : String) (file : File) (value : Value) (expected : Option UInt64)
    (io : Option PmxcfsError) (fault : Fault) : File × Except PmxcfsError UInt64 :=
  if !pathStartsWith path root then
    (file, .error (.invalid s!"{path} is outside the locked state directory {root}"))
  else match value with
    | .object fields =>
      match foundRevision path file io with
      | .error e => (file, .error e)
      | .ok found =>
        let wanted := expected.getD 0
        if found ≠ wanted then (file, .error (.revisionConflict path wanted found))
        else
          let revision := wanted + 1
          let fields := Dict.insert fields "revision" (.number (toString revision))
          file.change (some (.object fields)) revision fault
    | _ => (file, .error (.invalid s!"record must be a JSON object: {path}"))

/-- `storage` of `bmacd/src/schedules.rs`. -/
def storage : PmxcfsError → ApiError
  | .revisionConflict _ _ _ =>
    .new .conflict "the schedule changed since it was read; reload and try again"
  | .lockTimeout _ _ => .new .unavailable "the cluster is busy; try again"
  | e => .new .internal s!"schedules: {e.text}"

/-- The `revision` a record's struct gets: a record without one has 0. -/
def revisionOf (value : Value) : UInt64 := (fieldU64 value "revision").getD 0

/-- `Schedules::delete`; `io` is a failure to read the schedule. -/
def deleteRecord (path id : String) (file : File) (expected : UInt64) (io : Option PmxcfsError)
    (fault : Fault) : File × Except ApiError Unit :=
  let missing : ApiError := .new .notFound s!"no schedule {id}"
  if !isScheduleId id then (file, .error missing)
  else match file, io with
    | none, _ => (file, .error missing)
    | some _, some e => (file, .error (storage e))
    | some current, none =>
      if revisionOf current ≠ expected then
        (file, .error (storage (.revisionConflict path expected (revisionOf current))))
      else
        let (left, answer) := file.change none () fault
        (left, answer.mapError storage)

/-- `Locked::remove` of the backup records: whatever is there goes. -/
def removeRecord (file : File) (fault : Fault) : File × Except PmxcfsError Unit :=
  match file with
  | none => (file, .ok ())
  | some _ => file.change none () fault

/-! ## Runs on one record -/

/-- A call that was made, with the file before and after it. -/
inductive Event where
  | read (found : File)
  | write (expected : Option UInt64) (answer : Except PmxcfsError UInt64) (found left : File)
  | delete (expected : UInt64) (answer : Except ApiError Unit) (found left : File)
  | remove (found left : File)

inductive Step (root path id : String) : File → Event → File → Prop where
  | read (file : File) : Step root path id file (.read file) file
  | write {file left : File} {expected : Option UInt64} {answer : Except PmxcfsError UInt64}
      (value : Value) (io : Option PmxcfsError) (fault : Fault) :
      writeRecord root path file value expected io fault = (left, answer) →
      Step root path id file (.write expected answer file left) left
  | delete {file left : File} {expected : UInt64} {answer : Except ApiError Unit}
      (io : Option PmxcfsError) (fault : Fault) :
      deleteRecord path id file expected io fault = (left, answer) →
      Step root path id file (.delete expected answer file left) left
  | remove {file left : File} {answer : Except PmxcfsError Unit} (fault : Fault) :
      removeRecord file fault = (left, answer) →
      Step root path id file (.remove file left) left

/-- The call made a record where there was none. -/
def Event.Creates : Event → Prop
  | write _ _ found left => found = none ∧ left ≠ none
  | _ => False

/-- A successful write or delete that named `revision` as the one it read; `found` is the file it
replaced. Revision 0 stands for no record. -/
inductive Event.Replaces (revision : UInt64) (found : File) : Event → Prop where
  | write {new : UInt64} {left : File} : revision ≠ 0 →
      Replaces revision found (.write (some revision) (.ok new) found left)
  | delete {left : File} : revision ≠ 0 → Replaces revision found (.delete revision (.ok ()) found left)

/-! ## What a call can do -/

theorem asU64_toString (n : UInt64) : asU64 (.number (toString n)) = some n := by
  have htext : toString n = n.toNat.repr := rfl
  have hall : (n.toNat.repr.toList).all Text.isDigit = true :=
    List.all_eq_true.mpr fun c hc => Text.isDigit_of_mem_repr hc
  unfold asU64
  simp only [htext, hall, Text.decimal_repr]
  rw [if_pos ⟨Text.repr_ne_nil _, trivial, n.toNat_lt⟩, UInt64.ofNat_toNat]

theorem revisionOf_insert (fields : Dict Value) (n : UInt64) :
    revisionOf (.object (fields.insert "revision" (.number (toString n)))) = n := by
  simp [revisionOf, fieldU64, Dict.get?_insert, asU64_toString]

variable {io : Option PmxcfsError} {fault : Fault}

theorem foundRevision_eq_ok {path : String} {file : File} {r : UInt64}
    (h : foundRevision path file io = .ok r) :
    file = none ∧ r = 0 ∨ ∃ v, file = some v ∧ revisionOf v = r ∧ 1 ≤ r := by
  unfold foundRevision at h
  split at h
  · exact .inl ⟨rfl, (Except.ok.inj h).symm⟩
  · cases h
  · rename_i current
    split at h
    · rename_i revision hrev
      obtain ⟨hfield, hpos⟩ := Option.filter_eq_some_iff.mp hrev
      obtain rfl := Except.ok.inj h
      refine .inr ⟨current, rfl, ?_, by simpa using hpos⟩
      rw [revisionOf, hfield, Option.getD_some]
    · cases h

theorem File.change_cases {α : Type} {file left left' : File} {a : α}
    {answer : Except PmxcfsError α} (h : file.change left a fault = (left', answer)) :
    left' = file ∨ left' = left := by
  cases fault <;> simp only [change, Prod.mk.injEq] at h
  · exact .inr h.1.symm
  · exact .inl h.1.symm
  · exact .inr h.1.symm

section

variable {root path id : String} {file left : File}

theorem writeRecord_cases {value : Value} {expected : Option UInt64}
    {answer : Except PmxcfsError UInt64}
    (h : writeRecord root path file value expected io fault = (left, answer)) :
    left = file ∧ (∀ r, answer ≠ .ok r) ∨ foundRevision path file io = .ok (expected.getD 0) ∧
      (left = file ∨ ∃ v, left = some v ∧ revisionOf v = expected.getD 0 + 1) := by
  unfold writeRecord at h
  split at h
  · obtain ⟨rfl, rfl⟩ := Prod.mk.inj h
    exact .inl ⟨rfl, by simp⟩
  · split at h
    · rename_i fields
      split at h
      · obtain ⟨rfl, rfl⟩ := Prod.mk.inj h
        exact .inl ⟨rfl, by simp⟩
      · rename_i found hfound
        dsimp only at h
        split at h
        · obtain ⟨rfl, rfl⟩ := Prod.mk.inj h
          exact .inl ⟨rfl, by simp⟩
        · rename_i heq
          rw [not_not.mp heq] at hfound
          refine .inr ⟨hfound, ?_⟩
          rcases File.change_cases h with hsame | hnew
          · exact .inl hsame
          · exact .inr ⟨_, hnew, revisionOf_insert _ _⟩
    · obtain ⟨rfl, rfl⟩ := Prod.mk.inj h
      exact .inl ⟨rfl, by simp⟩

theorem deleteRecord_cases {expected : UInt64} {answer : Except ApiError Unit}
    (h : deleteRecord path id file expected io fault = (left, answer)) :
    (left = file ∨ left = none) ∧
      (answer = .ok () → ∃ v, file = some v ∧ revisionOf v = expected) := by
  unfold deleteRecord at h
  split at h
  · obtain ⟨rfl, rfl⟩ := Prod.mk.inj h
    exact ⟨.inl rfl, by simp⟩
  · split at h
    · obtain ⟨rfl, rfl⟩ := Prod.mk.inj h
      exact ⟨.inl rfl, by simp⟩
    · obtain ⟨rfl, rfl⟩ := Prod.mk.inj h
      exact ⟨.inl rfl, by simp⟩
    · rename_i current
      split at h
      · obtain ⟨rfl, rfl⟩ := Prod.mk.inj h
        exact ⟨.inl rfl, by simp⟩
      · rename_i heq
        obtain ⟨rfl, -⟩ := Prod.mk.inj h
        exact ⟨File.change_cases rfl, fun _ => ⟨current, rfl, not_not.mp heq⟩⟩

/-- What a call leaves: the file as it was, nothing, a record it created, or one with the revision
after that of the record it replaced. -/
theorem step_cases {e : Event} (h : Step root path id file e left) :
    left = file ∨ left = none ∨ e.Creates ∨
      ∃ old new, file = some old ∧ left = some new ∧ 1 ≤ revisionOf old ∧
        revisionOf new = revisionOf old + 1 := by
  cases h with
  | read => exact .inl rfl
  | write value io fault hw =>
    rcases writeRecord_cases hw with ⟨rfl, -⟩ | ⟨hfound, hsame | ⟨new, rfl, hrev⟩⟩
    · exact .inl rfl
    · exact .inl hsame
    · rcases foundRevision_eq_ok hfound with ⟨rfl, -⟩ | ⟨old, rfl, hold, hpos⟩
      · exact .inr (.inr (.inl ⟨rfl, by simp⟩))
      · rw [← hold] at hrev hpos
        exact .inr (.inr (.inr ⟨old, new, rfl, rfl, hpos, hrev⟩))
  | delete io fault hd =>
    rcases (deleteRecord_cases hd).1 with rfl | rfl
    · exact .inl rfl
    · exact .inr (.inl rfl)
  | remove fault hr =>
    unfold removeRecord at hr
    split at hr
    · exact .inl (Prod.mk.inj hr).1.symm
    · rcases File.change_cases hr with rfl | rfl
      · exact .inl rfl
      · exact .inr (.inl rfl)

theorem found_of_replaces {e : Event} {revision : UInt64} {found : File}
    (h : Step root path id file e left) (hr : e.Replaces revision found) :
    found = file ∧ ∃ v, file = some v ∧ revisionOf v = revision := by
  cases hr with
  | write hpos =>
    cases h with
    | write value io fault hw =>
      rcases writeRecord_cases hw with ⟨-, hno⟩ | ⟨hfound, -⟩
      · exact absurd rfl (hno _)
      · rcases foundRevision_eq_ok hfound with ⟨-, hzero⟩ | ⟨v, rfl, hv, -⟩
        · exact absurd hzero hpos
        · exact ⟨rfl, v, rfl, hv⟩
  | delete hpos =>
    cases h with
    | delete io fault hd =>
      obtain ⟨v, rfl, hv⟩ := (deleteRecord_cases hd).2 rfl
      exact ⟨rfl, v, rfl, hv⟩

/-! ## The revision a client read -/

/-- The record a client saw is in place, or one with a later revision, or one whose revision went
past the last number. -/
def Unmistaken (seen : Value) (file : File) : Prop :=
  ∀ v, file = some v → v = seen ∨ revisionOf seen < revisionOf v ∨ revisionOf v = 0

theorem lt_succ_or_zero (n : UInt64) : n < n + 1 ∨ n + 1 = 0 := by
  have hlt := n.toNat_lt
  simp only [UInt64.lt_iff_toNat_lt, ← UInt64.toNat_inj, UInt64.toNat_add, UInt64.reduceToNat]
  omega

theorem Unmistaken.step {seen : Value} {e : Event} (h : Unmistaken seen file)
    (hs : Step root path id file e left) (hc : ¬ e.Creates) : Unmistaken seen left := by
  rcases step_cases hs with rfl | rfl | hcreates | ⟨old, new, rfl, rfl, hpos, hrev⟩
  · exact h
  · exact fun v hv => by cases hv
  · exact absurd hcreates hc
  · intro v hv
    cases hv
    have hnext := lt_succ_or_zero (revisionOf old)
    rw [← hrev] at hnext
    rcases hnext with hlt | hzero
    · rcases h old rfl with rfl | hold | hold
      · exact .inr (.inl hlt)
      · exact .inr (.inl (UInt64.lt_trans hold hlt))
      · rw [hold] at hpos
        exact absurd hpos (by decide)
    · exact .inr (.inr hzero)

/-- A write or delete with the revision its client read replaces what the client read, if the
record wasn't made again in between. -/
theorem replaces_what_was_read {before between : List Event} {use : Event} {seen : Value}
    {found start file : File}
    (h : Run (Step root path id) start (before ++ .read (some seen) :: (between ++ [use])) file)
    (huse : use.Replaces (revisionOf seen) found) (hkeep : ∀ e ∈ between, ¬ e.Creates) :
    found = some seen := by
  obtain ⟨s, -, h⟩ := Run.append_iff.mp h
  obtain ⟨s', hread, h⟩ := Run.cons_iff.mp h
  obtain ⟨f, hrun, hlast⟩ := Run.snoc_iff.mp h
  have h0 : Unmistaken seen s' := by
    cases hread
    intro v hv
    exact .inl (Option.some.inj hv).symm
  have hf : Unmistaken seen f :=
    hrun.invariant_of (fun a e b he hI hs => hI.step hs (hkeep e he)) h0
  obtain ⟨rfl, v, rfl, hv⟩ := found_of_replaces hlast huse
  have hpos : revisionOf seen ≠ 0 := by cases huse <;> assumption
  rcases hf v rfl with rfl | hlt | hzero
  · rfl
  · rw [hv] at hlt
    exact absurd hlt (UInt64.lt_irrefl _)
  · rw [hv] at hzero
    exact absurd hzero hpos

end

/-! ### Two editors of a schedule -/

def scheduleRecord (title : String) : Value :=
  .object [("id", .string "nightly"), ("title", .string title)]

def storedSchedule (title : String) (revision : UInt64) : Value :=
  .object [("id", .string "nightly"), ("revision", .number (toString revision)),
    ("title", .string title)]

def schedulesDir : String := "/etc/pve/priv/bmac/schedules"
def nightlyPath : String := "/etc/pve/priv/bmac/schedules/nightly.json"

abbrev NightlyStep := Step schedulesDir nightlyPath "nightly"

def creation (title : String) : Event := .write none (.ok 1) none (some (storedSchedule title 1))

def update (old title : String) : Event :=
  .write (some 1) (.ok 2) (some (storedSchedule old 1)) (some (storedSchedule title 2))

def deletion (old : String) : Event := .delete 1 (.ok ()) (some (storedSchedule old 1)) none

theorem step_creation (title : String) :
    NightlyStep none (creation title) (some (storedSchedule title 1)) :=
  .write (scheduleRecord title) none .none (by rfl)

theorem step_update (old title : String) : NightlyStep (some (storedSchedule old 1))
    (update old title) (some (storedSchedule title 2)) :=
  .write (scheduleRecord title) none .none (by rfl)

theorem step_deletion (old : String) :
    NightlyStep (some (storedSchedule old 1)) (deletion old) none :=
  .delete none .none (by rfl)

theorem update_replaces (old title : String) :
    (update old title).Replaces 1 (some (storedSchedule old 1)) :=
  .write (by decide)

def refused (title : String) (expected : UInt64) : Event :=
  .write (some expected) (.error (.revisionConflict nightlyPath expected 1)) (some (storedSchedule title 1))
    (some (storedSchedule title 1))

theorem step_refused (title other : String) : NightlyStep (some (storedSchedule title 1)) (refused title 3)
    (some (storedSchedule title 1)) :=
  .write (scheduleRecord other) none .none (by rfl)

/-- Another client's write is refused between the read and the save. -/
theorem replaces_what_was_read_nightly :
    ∃ found, (update "Nightly" "Every night").Replaces 1 found ∧
      found = some (storedSchedule "Nightly" 1) := by
  have hrun : Run NightlyStep none ([creation "Nightly"] ++ .read (some (storedSchedule "Nightly" 1)) ::
      ([refused "Nightly" 3] ++ [update "Nightly" "Every night"])) (some (storedSchedule "Every night" 2)) :=
    .cons (step_creation _) (.cons (.read _) (.cons (step_refused _ "Weekly") (.single (step_update _ _))))
  have hkeep : ∀ e ∈ [refused "Nightly" 3], ¬ e.Creates :=
    List.forall_mem_singleton.mpr fun h => absurd h.1 nofun
  exact ⟨_, update_replaces _ _, replaces_what_was_read hrun (update_replaces _ _) hkeep⟩

/-- A schedule is read, deleted and made again with another title; a save with the revision that
was read then replaces the new one. -/
theorem not_replaces_what_was_read : ¬ ∀ (root path id : String) (before between : List Event)
    (use : Event) (seen : Value) (found file : File),
    Run (Step root path id) none (before ++ .read (some seen) :: (between ++ [use])) file →
    use.Replaces (revisionOf seen) found → found = some seen := by
  intro h
  have heq := h schedulesDir nightlyPath "nightly" [creation "Nightly"]
    [deletion "Nightly", creation "Weekly"] (update "Weekly" "Every night")
    (storedSchedule "Nightly" 1) (some (storedSchedule "Weekly" 1)) _
    (.cons (step_creation _) (.cons (.read _) (.cons (step_deletion _) (.cons (step_creation _)
      (.single (step_update _ _))))))
    (update_replaces _ _)
  simp [storedSchedule] at heq

end Bmac.Pmxcfs
