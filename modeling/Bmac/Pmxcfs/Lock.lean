import Bmac.Pmxcfs.Records

/-!
# The registry lock

`bmac-pmxcfs/src/lock.rs`. The lock is a directory made with `mkdir`; its owner's details go in a
file beside it. Any number of acquires run at once, each with a nonce of its own, and one step is
one call on the file system: `Setup.act`. A directory whose times were set to zero is dropped by
pmxcfs at some later step.

Nothing ties the two names together. A release that found its own nonce still unlinks and removes
what stands there two calls later, and that is another's lock when its own directory was dropped:
`released_by_holder` has the calls that must not meet, `disorder_removes_other` shows that each
meeting ends in the removal of another's lock.
-/

namespace Bmac.Pmxcfs

open Bmac.Base Bmac.Core Bmac.Bmacd

/-! ## Calls on the file system -/

inductive IoError where
  | alreadyExists
  | notFound
  | other (text : String)

def IoError.text : IoError → String
  | alreadyExists => "File exists (os error 17)"
  | notFound => "No such file or directory (os error 2)"
  | other text => text

/-- How a call that changes something goes: it may fail and yet have happened. -/
inductive IoFault where
  | none
  | before (text : String)
  | after (text : String)

def IoFault.happens : IoFault → Bool
  | before _ => false
  | _ => true

/-- The answer of a call whose own answer is `answer`. -/
def IoFault.answer (answer : Except IoError Unit) : IoFault → Except IoError Unit
  | none => answer
  | before text => .error (.other text)
  | after text => .error (.other text)

/-- `PmxcfsError::io`. -/
def PmxcfsError.ofIo (context : String) (e : IoError) : PmxcfsError :=
  .io s!"{context}: {e.text}"

/-- `owner[key]`. -/
def fieldOf (value : Value) (key : String) : Value :=
  match value with
  | .object fields => (Dict.get? fields key).getD .null
  | _ => .null

/-! ## Acquires -/

/-- The options a step depends on; the two durations of the source show in the replies. -/
structure LockOptions where
  breakStale : Bool
  shortLived : Bool

structure LockOwner where
  nonce : String
  node : String
  pid : Nat
  createdAt : String

/-- `owner_record`. -/
def LockOwner.record (o : LockOwner) : Value :=
  .object [("schema_version", .number "1"), ("record_type", .string "allocator-lock"),
    ("nonce", .string o.nonce), ("node", .string o.node), ("pid", .number (toString o.pid)),
    ("created_at", .string o.createdAt)]

/-- The acquires of one state root. A nonce is a new UUID. -/
structure Setup (ι : Type) where
  onPmxcfs : Bool
  path : String
  ownerPath : String
  options : ι → LockOptions
  owner : ι → LockOwner
  fresh : Function.Injective fun p => (owner p).nonce

/-- The call an acquire, and then the release of its lock, makes next. -/
inductive Phase where
  /-- `mkdir` -/
  | making
  /-- it said the directory exists -/
  | waiting
  /-- its times went to zero: does it still exist? -/
  | confirming
  /-- outside pmxcfs: is the old directory empty? -/
  | inspecting
  /-- its `rmdir` -/
  | breaking
  /-- the owner file -/
  | made
  /-- `rmdir`, the owner file having failed with `e` -/
  | abandoning (e : PmxcfsError)
  /-- the lock is held; a release first looks for the owner file -/
  | holding
  | reading
  | unlinking
  /-- the `rmdir` of a release -/
  | removing
  | finished (result : Except PmxcfsError Unit)

/-- The next call is the `rmdir` of the directory the acquire made. -/
def Phase.atRmdir : Phase → Bool
  | abandoning _ | removing => true
  | _ => false

/-- The acquire is on its way to that `rmdir`: no check is left. -/
def Phase.settling : Phase → Bool
  | unlinking => true
  | phase => phase.atRmdir

def Phase.engaged : Phase → Bool
  | made | holding | reading => true
  | phase => phase.settling

/-- `maker` and `signed` are not in the file system: who made the directory, and whether its owner
file was written since. -/
structure LockDir (ι : Type) where
  maker : ι
  unlockRequested : Bool
  signed : Bool

/-- `broken p`: the directory `p` made was dropped by pmxcfs or by a stale break. -/
structure LockState (ι : Type) where
  dir : Option (LockDir ι)
  owner : File
  phase : ι → Phase
  broken : ι → Bool

/-- What a step depends on beside the state. `fault` is of its call on the directory or its
`unlink`, `write` of its write of the owner file. -/
structure Reply where
  fault : IoFault
  write : Fault
  /-- the last unlock request is a second old, or there was none -/
  due : Bool
  /-- outside pmxcfs, `is_stale` -/
  stale : Bool
  /-- the deadline has passed -/
  late : Bool
  /-- the entries of the old directory -/
  entries : Except String Nat
  /-- `Pmxcfs::exists` says no to a path that exists -/
  unseen : Bool
  /-- why the owner file can't be read -/
  unread : Option PmxcfsError
  /-- `owner_description` -/
  description : String
  /-- why the parent can't be synced -/
  unsynced : Option PmxcfsError

def Reply.fine : Reply where
  fault := .none
  write := .none
  due := true
  stale := false
  late := false
  entries := .ok 0
  unseen := false
  unread := none
  description := ""
  unsynced := none

variable {ι : Type} [DecidableEq ι]

namespace LockState

def initial (owner : File) : LockState ι where
  dir := none
  owner := owner
  phase := fun _ => .making
  broken := fun _ => false

def moved (s : LockState ι) (p : ι) (phase : Phase) : LockState ι :=
  { s with phase := Function.update s.phase p phase }

def made (s : LockState ι) (p : ι) : LockState ι :=
  match s.dir with
  | none => { s with dir := some ⟨p, false, false⟩ }
  | some _ => s

def requested (s : LockState ι) : LockState ι :=
  { s with dir := s.dir.map fun d => { d with unlockRequested := true } }

def removed (s : LockState ι) : LockState ι := { s with dir := none }

/-- The directory goes while its maker may still hold the lock. -/
def dropped (s : LockState ι) : LockState ι :=
  match s.dir with
  | none => s
  | some d => { s with dir := none, broken := Function.update s.broken d.maker true }

def signed (s : LockState ι) (p : ι) (record : Value) : LockState ι :=
  { s with
    owner := some record
    dir := s.dir.map fun d => { d with signed := d.signed || d.maker = p } }

def unlinked (s : LockState ι) : LockState ι := { s with owner := none }

/-- The answer of a call that needs the directory to be there. -/
def found (s : LockState ι) : Except IoError Unit :=
  if s.dir.isSome then .ok () else .error .notFound

end LockState

/-- The error of a release whose `unlink` or `rmdir` failed. -/
def gone : IoError → PmxcfsError
  | .notFound => .invalid "allocator lock disappeared while held"
  | e => .ofIo "cannot release allocator lock" e

def Fault.happens : Fault → Bool
  | before _ => false
  | _ => true

/-- What the owner file's write says. -/
def Fault.answer : Fault → Except PmxcfsError Unit
  | none => .ok ()
  | before e => .error e
  | after e => .error e

namespace Setup

variable (x : Setup ι)

/-- The end of a turn of the loop that found the lock taken. -/
def orWait (p : ι) (r : Reply) : Phase :=
  let hint :=
    if !(x.options p).breakStale && (x.onPmxcfs || r.stale) then
      "; inspect it, then retry with --break-stale-lock to request a safe stale-lock check"
    else ""
  if r.late then .finished (.error (.lockTimeout r.description hint)) else .making

def afterMkdir : Except IoError Unit → Phase
  | .ok () => .made
  | .error .alreadyExists => .waiting
  | .error e => .finished (.error (.ofIo "cannot create allocator lock" e))

def afterRequest : Except IoError Unit → Phase
  | .ok () => .confirming
  | .error .notFound => .making
  | .error e => .finished (.error (.ofIo "cannot request stale allocator lock removal" e))

def afterInspection (there : Bool) : Except String Nat → Phase
  | .ok entries =>
    if !there then .making
    else if 0 < entries then
      .finished (.error
        (.invalid s!"refusing to remove non-empty allocator lock directory: {x.path}"))
    else .breaking
  | .error text =>
    .finished (.error (.ofIo "cannot inspect stale allocator lock" (.other text)))

def afterBreak : Except IoError Unit → Phase
  | .ok () => .making
  | .error .notFound => .making
  | .error e => .finished (.error (.ofIo "cannot remove stale allocator lock" e))

def afterWrite : Except PmxcfsError Unit → Phase
  | .ok () => .holding
  | .error e => .abandoning e

/-- The owner file is there and has the nonce of `p`. -/
def names (p : ι) (owner : File) : Prop :=
  ∃ v, owner = some v ∧ fieldOf v "nonce" = .string (x.owner p).nonce

def afterRead (p : ι) (owner : File) (unread : Option PmxcfsError) : Phase :=
  match owner, unread with
  | some v, none =>
    match fieldOf v "nonce" with
    | .string nonce =>
      if nonce = (x.owner p).nonce then .unlinking
      else .finished (.error (.invalid "allocator lock ownership changed while held"))
    | _ => .finished (.error (.invalid "allocator lock ownership changed while held"))
  | _, some e => .finished (.error e)
  | none, none =>
    .finished (.error (.invalid s!"allocator lock owner does not exist: {x.ownerPath}"))

def afterUnlink : Except IoError Unit → Phase
  | .ok () => .removing
  | .error e => .finished (.error (gone e))

def afterRmdir (unsynced : Option PmxcfsError) : Except IoError Unit → Phase
  | .ok () =>
    match if x.onPmxcfs then none else unsynced with
    | none => .finished (.ok ())
    | some e => .finished (.error e)
  | .error e => .finished (.error (gone e))

/-- The next call of `p`. -/
def act (s : LockState ι) (p : ι) (r : Reply) : LockState ι :=
  let effect (s' : LockState ι) := if r.fault.happens then s' else s
  match s.phase p with
  | .making =>
    let answer := if s.dir.isSome then .error .alreadyExists else .ok ()
    (effect (s.made p)).moved p (afterMkdir (r.fault.answer answer))
  | .waiting =>
    if x.onPmxcfs && (x.options p).shortLived && r.due then
      (effect s.requested).moved p .making
    else if (x.options p).breakStale && (x.onPmxcfs || r.stale) then
      if x.onPmxcfs then (effect s.requested).moved p (afterRequest (r.fault.answer s.found))
      else s.moved p .inspecting
    else s.moved p (x.orWait p r)
  | .confirming => s.moved p (if s.dir.isSome && !r.unseen then x.orWait p r else .making)
  | .inspecting => s.moved p (x.afterInspection s.dir.isSome r.entries)
  | .breaking => (effect s.dropped).moved p (afterBreak (r.fault.answer s.found))
  | .made =>
    let s' := if r.write.happens then s.signed p (x.owner p).record else s
    s'.moved p (afterWrite r.write.answer)
  | .abandoning e => (effect s.removed).moved p (.finished (.error e))
  | .holding =>
    s.moved p (if s.owner.isSome && !r.unseen then .reading
      else .finished (.error (.invalid "allocator lock disappeared while held")))
  | .reading => s.moved p (x.afterRead p s.owner r.unread)
  | .unlinking =>
    let answer := if s.owner.isSome then .ok () else .error .notFound
    (effect s.unlinked).moved p (afterUnlink (r.fault.answer answer))
  | .removing => (effect s.removed).moved p (x.afterRmdir r.unsynced (r.fault.answer s.found))
  | .finished _ => s

end Setup

/-! ## Runs -/

inductive LockEvent (ι : Type) where
  | act (p : ι) (r : Reply)
  /-- pmxcfs drops the directory -/
  | drop

inductive LockStep (x : Setup ι) : LockState ι → LockEvent ι → LockState ι → Prop where
  | act (s : LockState ι) (p : ι) (r : Reply) : LockStep x s (.act p r) (x.act s p r)
  | drop {s : LockState ι} {d : LockDir ι} : x.onPmxcfs = true → s.dir = some d →
      d.unlockRequested = true → LockStep x s .drop s.dropped

namespace LockState

variable (s : LockState ι)

/-- Another's lock directory stands. -/
def Usurped (p : ι) : Prop := ∃ d, s.dir = some d ∧ d.maker ≠ p

/-- `p` has the lock, and nobody broke it. -/
def Holds (p : ι) : Prop := s.phase p = .holding ∧ s.broken p = false

def ReleasedByHolder : Prop :=
  (∀ p, (s.phase p).atRmdir = true → ¬ s.Usurped p) ∧ ∀ p q, s.Holds p → s.Holds q → p = q

end LockState

/-- The step is none of these: the directory is made while another acquire is on its way to its
`rmdir`; an owner file is written while another's directory stands; a release finds its nonce
while another's directory stands whose owner file isn't written yet. -/
def Orderly (x : Setup ι) (s : LockState ι) : LockEvent ι → Prop
  | .drop => True
  | .act p r =>
    match s.phase p with
    | .making => s.dir = none → r.fault.happens = true → ∀ q, (s.phase q).settling = false
    | .made => ¬ s.Usurped p
    | .reading =>
      r.unread = none → x.names p s.owner → ∀ d, s.dir = some d → d.maker ≠ p → d.signed = true
    | _ => True

/-! ## What a run keeps -/

structure LockInv (x : Setup ι) (s : LockState ι) : Prop where
  /-- An acquire that goes by a directory made the standing one, or its own was broken. -/
  own : ∀ p, (s.phase p).engaged = true →
    s.broken p = true ∨ ∃ d, s.dir = some d ∧ d.maker = p
  settle : ∀ p, (s.phase p).settling = true → ¬ s.Usurped p
  named : ∀ d, s.dir = some d → d.signed = true → s.owner = none ∨ x.names d.maker s.owner

omit [DecidableEq ι] in
theorem lockInv_initial (x : Setup ι) (owner : File) : LockInv x (LockState.initial owner) where
  own p hp := by cases hp
  settle p hp := by cases hp
  named d hd := by cases hd

variable {phase : Phase}

theorem Phase.engaged_of_settling (h : phase.settling = true) : phase.engaged = true := by
  cases phase <;> simp_all [settling, engaged]

theorem Phase.settling_of_atRmdir (h : phase.atRmdir = true) : phase.settling = true := by
  cases phase <;> simp_all [settling, atRmdir]

theorem LockState.usurped_signed {s : LockState ι} {p q : ι} {record : Value} :
    (s.signed p record).Usurped q ↔ s.Usurped q := by
  constructor
  · rintro ⟨d', hd', hne⟩
    obtain ⟨d, hd, rfl⟩ := Option.map_eq_some_iff.mp hd'
    exact ⟨d, hd, hne⟩
  · rintro ⟨d, hd, hne⟩
    exact ⟨{ d with signed := d.signed || d.maker = p }, by simp [LockState.signed, hd], hne⟩

namespace LockInv

variable {x : Setup ι} {s : LockState ι} {p : ι}

theorem moved (h : LockInv x s) {phase : Phase}
    (hown : phase.engaged = true → s.broken p = true ∨ ∃ d, s.dir = some d ∧ d.maker = p)
    (hsettle : phase.settling = true → ¬ s.Usurped p) : LockInv x (s.moved p phase) where
  own q hq := by
    by_cases hqp : q = p
    · subst hqp
      exact hown (by simpa [LockState.moved] using hq)
    · exact h.own q (by simpa [LockState.moved, hqp] using hq)
  settle q hq := by
    by_cases hqp : q = p
    · subst hqp
      exact hsettle (by simpa [LockState.moved] using hq)
    · exact h.settle q (by simpa [LockState.moved, hqp] using hq)
  named := h.named

/-- A move to a phase that goes by no directory. -/
theorem moved_free (h : LockInv x s) (hfree : phase.engaged = false) :
    LockInv x (s.moved p phase) := by
  refine h.moved (fun he => ?_) fun hs => ?_
  · rw [hfree] at he
    cases he
  · have := Phase.engaged_of_settling hs
    rw [hfree] at this
    cases this

omit [DecidableEq ι] in
theorem requested (h : LockInv x s) : LockInv x s.requested where
  own q hq := by
    rcases h.own q hq with hb | ⟨d, hd, hm⟩
    · exact .inl hb
    · exact .inr ⟨{ d with unlockRequested := true }, by simp [LockState.requested, hd], hm⟩
  settle q hq := by
    rintro ⟨d', hd', hm⟩
    obtain ⟨d, hd, rfl⟩ := Option.map_eq_some_iff.mp hd'
    exact h.settle q hq ⟨d, hd, hm⟩
  named d' hd' hs := by
    obtain ⟨d, hd, rfl⟩ := Option.map_eq_some_iff.mp hd'
    exact h.named d hd hs

omit [DecidableEq ι] in
theorem unlinked (h : LockInv x s) : LockInv x s.unlinked where
  own := h.own
  settle := h.settle
  named _ _ _ := .inl rfl

theorem signed (h : LockInv x s) (hp : ¬ s.Usurped p) :
    LockInv x (s.signed p (x.owner p).record) where
  own q hq := by
    rcases h.own q hq with hb | ⟨d, hd, hm⟩
    · exact .inl hb
    · exact .inr ⟨{ d with signed := d.signed || d.maker = p },
        by simp [LockState.signed, hd], hm⟩
  settle q hq := LockState.usurped_signed.not.mpr (h.settle q hq)
  named d' hd' _ := by
    obtain ⟨d, hd, rfl⟩ := Option.map_eq_some_iff.mp hd'
    -- the standing directory is the writer's, so its nonce is in the file
    have hmaker : d.maker = p := by
      by_contra hne
      exact hp ⟨d, hd, hne⟩
    exact .inr ⟨_, rfl, by rw [← hmaker]; rfl⟩

omit [DecidableEq ι] in
theorem made (h : LockInv x s) (hclear : s.dir = none → ∀ q, (s.phase q).settling = false) :
    LockInv x (s.made p) := by
  unfold LockState.made
  cases hdir : s.dir with
  | some d => exact h
  | none =>
    refine ⟨fun q hq => ?_, fun q hq => ?_, fun d hd hs => ?_⟩
    · rcases h.own q hq with hb | ⟨d, hd, -⟩
      · exact .inl hb
      · rw [hdir] at hd
        cases hd
    · have := hclear hdir q
      rw [show (s.phase q).settling = true from hq] at this
      cases this
    · obtain rfl := Option.some.inj hd
      cases hs

theorem dropped (h : LockInv x s) : LockInv x s.dropped := by
  unfold LockState.dropped
  cases hdir : s.dir with
  | none => exact h
  | some d =>
    refine ⟨fun q hq => .inl ?_, fun q _ => ?_, fun d' hd' => by cases hd'⟩
    · by_cases hqd : q = d.maker
      · simp [hqd]
      · rcases h.own q hq with hb | ⟨d', hd', hm⟩
        · simpa [hqd] using hb
        · rw [hdir] at hd'
          obtain rfl := Option.some.inj hd'
          exact absurd hm.symm hqd
    · rintro ⟨d', hd', -⟩
      cases hd'

omit [DecidableEq ι] in
/-- The directory may go when its maker goes by it no more. -/
theorem removed (h : LockInv x s)
    (hfree : ∀ d, s.dir = some d → (s.phase d.maker).engaged = false) : LockInv x s.removed where
  own q hq := by
    rcases h.own q hq with hb | ⟨d, hd, rfl⟩
    · exact .inl hb
    · have := hfree d hd
      rw [show (s.phase d.maker).engaged = true from hq] at this
      cases this
  settle q _ := by
    rintro ⟨d, hd, -⟩
    cases hd
  named d hd := by cases hd

/-- The `rmdir` of an acquire's own directory, which is then done. -/
theorem removed_moved (h : LockInv x s) (hp : ¬ s.Usurped p)
    (hfree : phase.engaged = false) : LockInv x (s.removed.moved p phase) := by
  have hm : LockInv x (s.moved p phase) := h.moved_free hfree
  have hr : LockInv x (s.moved p phase).removed := by
    refine hm.removed fun d hd => ?_
    have hmaker : d.maker = p := by
      by_contra hne
      exact hp ⟨d, hd, hne⟩
    rw [hmaker]
    simpa [LockState.moved] using hfree
  exact hr

end LockInv

/-! ### One step -/

section Act

variable {x : Setup ι} {s s' : LockState ι} {p : ι} {r : Reply}

omit [DecidableEq ι] in
theorem Setup.orWait_free (x : Setup ι) (p : ι) (r : Reply) :
    (x.orWait p r).engaged = false := by
  unfold Setup.orWait
  dsimp only
  split <;> rfl

theorem Setup.afterRequest_free (answer : Except IoError Unit) :
    (Setup.afterRequest answer).engaged = false := by
  rcases answer with (_ | _ | _) | _ <;> rfl

theorem Setup.afterBreak_free (answer : Except IoError Unit) :
    (Setup.afterBreak answer).engaged = false := by
  rcases answer with (_ | _ | _) | _ <;> rfl

omit [DecidableEq ι] in
theorem Setup.afterInspection_free (x : Setup ι) (there : Bool) (entries : Except String Nat) :
    (x.afterInspection there entries).engaged = false := by
  unfold Setup.afterInspection
  split
  · split
    · rfl
    · split <;> rfl
  · rfl

omit [DecidableEq ι] in
theorem Setup.afterRmdir_free (x : Setup ι) (unsynced : Option PmxcfsError)
    (answer : Except IoError Unit) : (x.afterRmdir unsynced answer).engaged = false := by
  unfold Setup.afterRmdir
  split
  · split <;> rfl
  · rfl

/-- Only a `mkdir` that says so leads an acquire on to its owner file. -/
theorem Setup.afterMkdir_cases (answer : Except IoError Unit) :
    (Setup.afterMkdir answer).engaged = false ∨
      Setup.afterMkdir answer = .made ∧ answer = .ok () := by
  rcases answer with (_ | _ | _) | _
  · exact .inl rfl
  · exact .inl rfl
  · exact .inl rfl
  · exact .inr ⟨rfl, rfl⟩

theorem IoFault.eq_none_of_answer {fault : IoFault} {answer : Except IoError Unit}
    (h : fault.answer answer = .ok ()) : fault = .none ∧ answer = .ok () := by
  cases fault <;> simp_all [IoFault.answer]

omit [DecidableEq ι] in
theorem Setup.afterRead_cases (x : Setup ι) (p : ι) (owner : File) (unread : Option PmxcfsError) :
    (x.afterRead p owner unread).engaged = false ∨
      x.afterRead p owner unread = .unlinking ∧ unread = none ∧ x.names p owner := by
  unfold Setup.afterRead
  split
  · rename_i v
    split
    · rename_i nonce hnonce
      split
      · rename_i heq
        subst heq
        exact .inr ⟨rfl, rfl, v, rfl, hnonce⟩
      · exact .inl rfl
    · exact .inl rfl
  · exact .inl rfl
  · exact .inl rfl

omit [DecidableEq ι] in
/-- A release that finds its own nonce while no unsigned directory of another stands goes on to its
own directory. -/
theorem LockInv.not_usurped_of_names (h : LockInv x s) (hnames : x.names p s.owner)
    (hsigned : ∀ d, s.dir = some d → d.maker ≠ p → d.signed = true) : ¬ s.Usurped p := by
  rintro ⟨d, hd, hne⟩
  obtain ⟨v, hv, hp⟩ := hnames
  rcases h.named d hd (hsigned d hd hne) with hnone | ⟨w, hw, hq⟩
  · rw [hv] at hnone
    cases hnone
  · obtain rfl := Option.some.inj (hv.symm.trans hw)
    have heq : Value.string (x.owner p).nonce = .string (x.owner d.maker).nonce := hp.symm.trans hq
    exact hne (x.fresh (Value.string.inj heq)).symm

theorem LockInv.act_making (h : LockInv x s)
    (hclear : s.dir = none → r.fault.happens = true → ∀ q, (s.phase q).settling = false) :
    LockInv x ((if r.fault.happens then s.made p else s).moved p (Setup.afterMkdir
      (r.fault.answer (if s.dir.isSome then .error .alreadyExists else .ok ())))) := by
  have hs : LockInv x (if r.fault.happens then s.made p else s) := by
    split
    · rename_i hf
      exact h.made fun hnone => hclear hnone hf
    · exact h
  rcases Setup.afterMkdir_cases (r.fault.answer
      (if s.dir.isSome then .error .alreadyExists else .ok ())) with hfree | ⟨hmade, hok⟩
  · exact hs.moved_free hfree
  · obtain ⟨hfault, hdir⟩ := IoFault.eq_none_of_answer hok
    have hnone : s.dir = none := by
      cases hd : s.dir with
      | none => rfl
      | some d => simp [hd] at hdir
    rw [hmade]
    refine hs.moved (fun _ => .inr ⟨⟨p, false, false⟩, ?_, rfl⟩) fun hf => by cases hf
    simp [hfault, IoFault.happens, LockState.made, hnone]

theorem LockInv.rmdir (h : LockInv x s) (hp : ¬ s.Usurped p) (hfree : phase.engaged = false) :
    LockInv x ((if r.fault.happens then s.removed else s).moved p phase) := by
  split
  · exact h.removed_moved hp hfree
  · exact h.moved_free hfree

theorem LockInv.act (h : LockInv x s) (hord : Orderly x s (.act p r)) :
    LockInv x (x.act s p r) := by
  -- a call that fails without having happened leaves the state
  have heffect : ∀ {s' : LockState ι}, LockInv x s' →
      LockInv x (if r.fault.happens then s' else s) := by
    intro s' h'
    split
    · exact h'
    · exact h
  have hown := h.own p
  have hsettle := h.settle p
  simp only [Orderly] at hord
  unfold Setup.act
  cases hphase : s.phase p with
  | making =>
    rw [hphase] at hord
    exact h.act_making hord
  | waiting =>
    dsimp only
    split
    · exact (heffect h.requested).moved_free rfl
    · split
      · split
        · exact (heffect h.requested).moved_free (Setup.afterRequest_free _)
        · exact h.moved_free rfl
      · exact h.moved_free (x.orWait_free p r)
  | confirming =>
    refine h.moved_free ?_
    split
    · exact x.orWait_free p r
    · rfl
  | inspecting => exact h.moved_free (x.afterInspection_free _ _)
  | breaking => exact (heffect h.dropped).moved_free (Setup.afterBreak_free _)
  | made =>
    rw [hphase] at hord hown
    have hs : LockInv x (if r.write.happens then s.signed p (x.owner p).record else s) := by
      split
      · exact h.signed hord
      · exact h
    refine hs.moved (fun _ => ?_) fun _ => ?_
    · split
      · refine (h.signed hord).own p ?_
        show (s.phase p).engaged = true
        rw [hphase]
        rfl
      · exact hown rfl
    · split
      · exact LockState.usurped_signed.not.mpr hord
      · exact hord
  | abandoning e =>
    rw [hphase] at hsettle
    exact h.rmdir (hsettle rfl) rfl
  | holding =>
    refine h.moved (fun _ => hown (by rw [hphase]; rfl)) ?_
    intro hf
    split at hf <;> cases hf
  | reading =>
    rw [hphase] at hord hown
    rcases x.afterRead_cases p s.owner r.unread with hfree | ⟨hph, hread, hnames⟩
    · exact h.moved_free hfree
    · exact h.moved (fun _ => hown rfl) fun _ =>
        h.not_usurped_of_names hnames (hord hread hnames)
  | unlinking =>
    rw [hphase] at hsettle hown
    refine (heffect h.unlinked).moved (fun _ => ?_) fun _ => ?_
    · split
      · exact hown rfl
      · exact hown rfl
    · split
      · exact hsettle rfl
      · exact hsettle rfl
  | removing =>
    rw [hphase] at hsettle
    exact h.rmdir (hsettle rfl) (x.afterRmdir_free _ _)
  | finished result => exact h

end Act

theorem LockInv.step {x : Setup ι} {s s' : LockState ι} {e : LockEvent ι} (h : LockInv x s)
    (hs : LockStep x s e s') (hord : Orderly x s e) : LockInv x s' := by
  cases hs with
  | act p r => exact h.act hord
  | drop _ _ _ => exact h.dropped

/-- In a run whose steps are all orderly, whoever is at its `rmdir` removes no lock but its own, and
no two hold the lock unless it was broken. -/
theorem released_by_holder {x : Setup ι} {owner : File} {es : List (LockEvent ι)}
    {s : LockState ι}
    (h : Run (fun s e s' => LockStep x s e s' ∧ Orderly x s e) (LockState.initial owner) es s) :
    s.ReleasedByHolder := by
  have hinv : LockInv x s := h.invariant (fun t e t' ht hs => ht.step hs.1 hs.2)
    (lockInv_initial x owner)
  refine ⟨fun p hp => hinv.settle p (Phase.settling_of_atRmdir hp), fun p q hp hq => ?_⟩
  -- an unbroken holder made the directory that stands
  have hmade : ∀ {p}, s.Holds p → ∃ d, s.dir = some d ∧ d.maker = p := by
    rintro p ⟨hphase, hbroken⟩
    rcases hinv.own p (by rw [hphase]; rfl) with hb | hd
    · rw [hbroken] at hb
      cases hb
    · exact hd
  obtain ⟨d, hd, rfl⟩ := hmade hp
  obtain ⟨d', hd', rfl⟩ := hmade hq
  obtain rfl := Option.some.inj (hd.symm.trans hd')
  rfl

def threeAcquires : Setup (Fin 3) where
  onPmxcfs := true
  path := "/etc/pve/priv/lock/bmac-backup-0123456789abcdef"
  ownerPath := "/etc/pve/priv/bmac/backups/.allocator-lock-owner.json"
  options _ := ⟨false, true⟩
  owner p := ⟨s!"nonce{p}", "mox1", 100 + p, "2026-01-01T00:00:00+00:00"⟩
  fresh := by decide

/-- The first acquire and its release up to the `rmdir`, while the second waits. -/
theorem released_by_holder_first : ∃ s,
    Run (fun s e s' => LockStep threeAcquires s e s' ∧ Orderly threeAcquires s e)
      (LockState.initial none) [.act 0 .fine, .act 0 .fine, .act 1 .fine, .act 0 .fine,
        .act 0 .fine, .act 0 .fine] s ∧ s.phase 0 = .removing ∧ s.ReleasedByHolder := by
  have hwritten : ¬ (threeAcquires.act (LockState.initial none) 0 .fine).Usurped 0 := by
    rintro ⟨d, hd, hne⟩
    obtain rfl := Option.some.inj hd
    exact hne rfl
  have hrun := @Run.cons _ _ (fun s e s' => LockStep threeAcquires s e s' ∧
      Orderly threeAcquires s e) _ _ _ _ _ ⟨.act (LockState.initial none) 0 .fine, fun _ _ _ => rfl⟩
    (.cons ⟨.act _ 0 .fine, hwritten⟩ (.cons ⟨.act _ 1 .fine, fun h => nomatch h⟩
    (.cons ⟨.act _ 0 .fine, trivial⟩
    (.cons ⟨.act _ 0 .fine, fun _ _ d hd hne => absurd (Option.some.inj hd ▸ rfl) hne⟩
    (.cons ⟨.act _ 0 .fine, trivial⟩ (.nil _))))))
  exact ⟨_, hrun, rfl, released_by_holder hrun⟩

/-- The first acquire holds the lock while the second waits and asks for it to be dropped. It is
dropped, the first finds its own nonce, and removes the second's directory; the third then gets the
lock beside the second. -/
theorem not_released_by_holder :
    (∃ es s, Run (LockStep threeAcquires) (LockState.initial none) es s ∧
      s.phase 0 = .removing ∧ s.Usurped 0) ∧
    ∃ es s, Run (LockStep threeAcquires) (LockState.initial none) es s ∧
      s.Holds 1 ∧ s.Holds 2 := by
  have hrun := Run.cons (LockStep.act (x := threeAcquires) (LockState.initial none) 0 .fine)
    (.cons (.act _ 0 .fine) (.cons (.act _ 1 .fine) (.cons (.act _ 1 .fine)
    (.cons (.drop rfl rfl rfl) (.cons (.act _ 0 .fine) (.cons (.act _ 1 .fine)
    (.cons (.act _ 0 .fine) (.cons (.act _ 0 .fine) (.nil _)))))))))
  refine ⟨⟨_, _, hrun, rfl, _, rfl, by decide⟩, _, _, hrun.append
    (.cons (.act _ 0 .fine) (.cons (.act _ 1 .fine) (.cons (.act _ 2 .fine)
    (.cons (.act _ 2 .fine) (.nil _))))), ⟨rfl, rfl⟩, ⟨rfl, rfl⟩⟩

/-! ## Every disorder ends in a removal -/

section Disorder

variable {x : Setup ι} {s : LockState ι} {p : ι}

/-- A run from `s` brings somebody to an `rmdir` that hits another's directory. -/
def RemovesOther (x : Setup ι) (s : LockState ι) : Prop :=
  ∃ es s' q, Run (LockStep x) s es s' ∧ (s'.phase q).atRmdir = true ∧ s'.Usurped q

theorem RemovesOther.act (p : ι) (r : Reply) (h : RemovesOther x (x.act s p r)) : RemovesOther x s := by
  obtain ⟨es, s', q, hrun, hq⟩ := h
  exact ⟨.act p r :: es, s', q, .cons (.act s p r) hrun, hq⟩

theorem removesOther_of_atRmdir (hp : (s.phase p).atRmdir = true) (hu : s.Usurped p) :
    RemovesOther x s :=
  ⟨[], s, p, .nil s, hp, hu⟩

theorem removesOther_of_unlinking (hp : s.phase p = .unlinking) (howner : s.owner ≠ none)
    (hu : s.Usurped p) : RemovesOther x s := by
  obtain ⟨v, hv⟩ := Option.ne_none_iff_exists'.mp howner
  have hact : x.act s p .fine = s.unlinked.moved p .removing := by
    simp [Setup.act, hp, hv, Reply.fine, IoFault.happens, IoFault.answer, Setup.afterUnlink]
  refine .act p .fine ?_
  rw [hact]
  exact removesOther_of_atRmdir (by simp [LockState.moved, Phase.atRmdir]) hu

theorem removesOther_of_holding (hp : s.phase p = .holding) (hn : x.names p s.owner)
    (hu : s.Usurped p) : RemovesOther x s := by
  obtain ⟨v, hv, hnonce⟩ := hn
  have hseen : x.act s p .fine = s.moved p .reading := by
    simp [Setup.act, hp, hv, Reply.fine]
  have hread : x.act (s.moved p .reading) p .fine = (s.moved p .reading).moved p .unlinking := by
    simp [Setup.act, LockState.moved, hv, hnonce, Reply.fine, Setup.afterRead]
  refine .act p .fine ?_
  rw [hseen]
  refine .act p .fine ?_
  rw [hread]
  refine removesOther_of_unlinking (by simp [LockState.moved]) ?_ hu
  simp [LockState.moved, hv]

/-- No orderly run may leave out less: after a step out of order, somebody may remove another's
directory. -/
theorem disorder_removes_other {r : Reply} (hfault : r.fault = .none)
    (h : ¬ Orderly x s (.act p r)) : RemovesOther x (x.act s p r) := by
  simp only [Orderly] at h
  cases hphase : s.phase p with
  | making =>
    rw [hphase] at h
    simp only [Classical.not_imp, not_forall, Bool.not_eq_false] at h
    obtain ⟨hnone, -, q, hq⟩ := h
    have hne : q ≠ p := by
      rintro rfl
      rw [hphase] at hq
      cases hq
    have hact : x.act s p r = (s.made p).moved p .made := by
      simp [Setup.act, hphase, hnone, hfault, IoFault.happens, IoFault.answer, Setup.afterMkdir]
    have hdir : (s.made p).dir = some ⟨p, false, false⟩ := by simp [LockState.made, hnone]
    have hu : ((s.made p).moved p .made).Usurped q := ⟨_, hdir, hne.symm⟩
    rw [hact]
    by_cases hat : (s.phase q).atRmdir = true
    · refine removesOther_of_atRmdir ?_ hu
      simpa [LockState.moved, LockState.made, hnone, hne] using hat
    · -- the new holder's owner file stands when the other unlinks it
      have hunlink : s.phase q = .unlinking := by
        cases hqp : s.phase q <;> simp_all [Phase.settling, Phase.atRmdir]
      refine .act p .fine (removesOther_of_unlinking (p := q) ?_ ?_ ?_)
      · simp [Setup.act, LockState.moved, LockState.made, LockState.signed, hnone, hne, hunlink,
          Reply.fine, Fault.happens]
      · simp [Setup.act, LockState.moved, LockState.signed, Reply.fine, Fault.happens]
      · refine ⟨⟨p, false, true⟩, ?_, hne.symm⟩
        simp [Setup.act, LockState.moved, LockState.made, LockState.signed, hnone, Reply.fine,
          Fault.happens]
  | made =>
    rw [hphase] at h
    have hu : s.Usurped p := not_not.mp h
    have hu' : (if r.write.happens then s.signed p (x.owner p).record else s).Usurped p := by
      split
      · exact LockState.usurped_signed.mpr hu
      · exact hu
    have hact : x.act s p r =
        (if r.write.happens then s.signed p (x.owner p).record else s).moved p
          (Setup.afterWrite r.write.answer) := by
      simp [Setup.act, hphase]
    rw [hact]
    cases hw : r.write with
    | none =>
      rw [hw] at hu'
      refine removesOther_of_holding (by simp [LockState.moved, Fault.answer, Setup.afterWrite])
        ⟨(x.owner p).record, ?_, rfl⟩ hu'
      simp [LockState.moved, LockState.signed, Fault.happens]
    | before e =>
      rw [hw] at hu'
      refine removesOther_of_atRmdir (p := p) ?_ hu'
      simp [LockState.moved, Fault.answer, Setup.afterWrite, Phase.atRmdir]
    | after e =>
      rw [hw] at hu'
      refine removesOther_of_atRmdir (p := p) ?_ hu'
      simp [LockState.moved, Fault.answer, Setup.afterWrite, Phase.atRmdir]
  | reading =>
    rw [hphase] at h
    simp only [Classical.not_imp, not_forall] at h
    obtain ⟨hread, ⟨v, hv, hnonce⟩, d, hd, hne, -⟩ := h
    have hact : x.act s p r = s.moved p .unlinking := by
      simp [Setup.act, hphase, Setup.afterRead, hread, hv, hnonce]
    rw [hact]
    refine removesOther_of_unlinking (by simp [LockState.moved]) ?_ ⟨d, hd, hne⟩
    simp [LockState.moved, hv]
  | _ =>
    rw [hphase] at h
    exact absurd trivial h

end Disorder

end Bmac.Pmxcfs
