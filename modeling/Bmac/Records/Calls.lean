import Bmac.Records.Transactions

/-!
# Calls of the store

What a host's own stream holds after any calls, of which some fail at a statement, and when a batch of
copies can be given again. A copy is checked against the record before it as the tables have it then; a
batch that brings that record later, with another hash, is stored and refused the next time
(`append_contiguous_copies_repeat_iff`).
-/

namespace Bmac.Records

open Bmac.Base Bmac.Core

/-- A store, and the entries that were appended to its own stream. -/
structure Attempted where
  store : Store
  appended : List Entry

section

variable (lib : Lib)

def Attempted.write (t : Attempted) (faults : Nat → Option StoreError) : Write → Attempted
  | .append entries => match t.store.appendSql faults lib entries with
    | (s', .ok ()) => ⟨s', t.appended ++ entries⟩
    | (s', .error _) => ⟨s', t.appended⟩
  | .insertCopies records => ⟨(t.store.insertCopiesSql faults lib records).1, t.appended⟩
  | .keepFrom ms => ⟨t.store.keepFrom ms, t.appended⟩
  | .reopen stream nowMs =>
    match Store.open_ t.store.db t.store.segments t.store.origin stream nowMs with
    | .ok s' => ⟨s', []⟩
    | .error _ => t

def Attempted.run (t : Attempted) (writes : List ((Nat → Option StoreError) × Write)) : Attempted :=
  writes.foldl (fun t w => t.write lib w.1 w.2) t

/-! ## The own stream -/

def Lib.extend (origin stream : String) (chain : Chain) (entry : Entry) : Chain :=
  ⟨chain.seq + 1, lib.chainHash chain.hash origin stream (chain.seq + 1) entry⟩

def Lib.chainRows (origin stream : String) : Chain → List Entry → List Row
  | _, [] => []
  | chain, entry :: rest =>
    let next := lib.extend origin stream chain entry
    rowOf lib origin stream next.seq entry next.hash chain.hash false :: chainRows origin stream next rest

def Lib.chainEnd (origin stream : String) (chain : Chain) (entries : List Entry) : Chain :=
  entries.foldl (lib.extend origin stream) chain

end

def Store.ownRows (s : Store) : List Row :=
  s.db.records.filter fun r => r.origin = s.origin ∧ r.stream = s.stream

/-- A stream that holds entries from sequence number 1 on, each linked to the one before it. -/
structure Contiguous (lib : Lib) (origin stream : String) (rows : List Row) (entries : List Entry) : Prop where
  seqs : rows.map (·.seq) = List.range' 1 entries.length
  held : rows.map (·.entry) = entries.map some
  prevs : rows.map (·.prev) = ((zeroHash :: rows.map (·.hash)).take entries.length).map some
  hashes : ∀ r ∈ rows, ∃ prev entry, r.prev = some prev ∧ r.entry = some entry ∧
    r.hash = lib.chainHash prev origin stream r.seq entry

variable {lib : Lib} {origin stream : String} {chain : Chain} {entries more : List Entry} {s s' : Store}

theorem chainRows_append : lib.chainRows origin stream chain (entries ++ more) =
    lib.chainRows origin stream chain entries ++
      lib.chainRows origin stream (lib.chainEnd origin stream chain entries) more := by
  induction entries generalizing chain with
  | nil => rfl
  | cons entry entries ih => exact congrArg _ ih

theorem chainEnd_append : lib.chainEnd origin stream chain (entries ++ more) =
    lib.chainEnd origin stream (lib.chainEnd origin stream chain entries) more := List.foldl_append

theorem key_of_mem_chainRows {r : Row} (h : r ∈ lib.chainRows origin stream chain entries) :
    r.origin = origin ∧ r.stream = stream := by
  induction entries generalizing chain with
  | nil => cases h
  | cons entry entries ih =>
    rcases List.mem_cons.mp h with rfl | h
    · exact ⟨rfl, rfl⟩
    · exact ih h

theorem chainRows_seqs (chain : Chain) : (lib.chainRows origin stream chain entries).map (·.seq) =
    List.range' (chain.seq + 1) entries.length := by
  induction entries generalizing chain with
  | nil => rfl
  | cons entry entries ih => exact congrArg _ (ih (lib.extend origin stream chain entry))

theorem chainRows_entries (chain : Chain) :
    (lib.chainRows origin stream chain entries).map (·.entry) = entries.map some := by
  induction entries generalizing chain with
  | nil => rfl
  | cons entry entries ih =>
    rw [Lib.chainRows, List.map_cons, List.map_cons, ih (lib.extend origin stream chain entry), rowOf_entry]

theorem chainRows_prevs (chain : Chain) : (lib.chainRows origin stream chain entries).map (·.prev) =
    ((chain.hash :: (lib.chainRows origin stream chain entries).map (·.hash)).take entries.length).map
      some := by
  induction entries generalizing chain with
  | nil => rfl
  | cons entry entries ih =>
    rw [Lib.chainRows, List.map_cons, List.map_cons, List.length_cons, List.take_succ_cons, List.map_cons,
      ih (lib.extend origin stream chain entry)]
    rfl

theorem chainRows_hashes (chain : Chain) : ∀ r ∈ lib.chainRows origin stream chain entries,
    ∃ prev entry, r.prev = some prev ∧ r.entry = some entry ∧
      r.hash = lib.chainHash prev origin stream r.seq entry := by
  induction entries generalizing chain with
  | nil => exact fun r hr => by cases hr
  | cons entry entries ih =>
    intro r hr
    rcases List.mem_cons.mp hr with rfl | hr
    · exact ⟨chain.hash, entry, rfl, rowOf_entry .., rfl⟩
    · exact ih (lib.extend origin stream chain entry) r hr

theorem chainRows_contiguous : Contiguous lib origin stream
    (lib.chainRows origin stream ⟨0, zeroHash⟩ entries) entries :=
  ⟨chainRows_seqs ⟨0, zeroHash⟩, chainRows_entries _, chainRows_prevs _, chainRows_hashes _⟩

theorem appendEntry_records {db db' : Db} {chain' : Chain} {entry : Entry}
    (h : appendEntry lib origin stream (db, chain) entry = .ok (db', chain')) :
    db'.records = db.records ++ lib.chainRows origin stream chain [entry] ∧
      chain' = lib.extend origin stream chain entry := by
  unfold appendEntry at h
  simp only [bind_eq_ok, pure_eq_ok] at h
  obtain ⟨db'', hins, heq⟩ := h
  obtain ⟨rfl, rfl⟩ := Prod.mk.inj heq
  obtain ⟨-, -, rfl⟩ := insertRow_eq_ok hins
  exact ⟨rfl, rfl⟩

theorem append_records (h : s.append lib entries = .ok s') :
    s'.db.records = s.db.records ++ lib.chainRows s.origin s.stream s.chain entries ∧
      s'.chain = lib.chainEnd s.origin s.stream s.chain entries ∧ s'.origin = s.origin ∧
      s'.stream = s.stream := by
  unfold Store.append at h
  simp only [bind_eq_ok, pure_eq_ok] at h
  obtain ⟨⟨db', chain'⟩, hfold, rfl⟩ := h
  have hgrow : ∀ entries state state', entries.foldlM (appendEntry lib s.origin s.stream) state = .ok state' →
      state'.1.records = state.1.records ++ lib.chainRows s.origin s.stream state.2 entries ∧
        state'.2 = lib.chainEnd s.origin s.stream state.2 entries := by
    intro entries
    induction entries with
    | nil =>
      intro state state' hfold
      cases hfold
      exact ⟨(List.append_nil _).symm, rfl⟩
    | cons entry entries ih =>
      intro state state' hfold
      obtain ⟨middle, hentry, hrest⟩ := foldlM_cons_eq_ok.mp hfold
      obtain ⟨hrecords, hchain⟩ := appendEntry_records hentry
      obtain ⟨hrecords', hchain'⟩ := ih middle state' hrest
      refine ⟨?_, ?_⟩
      · rw [hrecords', hrecords, hchain, List.append_assoc]
        rfl
      · rw [hchain', hchain]
        rfl
  obtain ⟨hrecords, hchain⟩ := hgrow entries _ _ hfold
  exact ⟨hrecords, hchain, rfl, rfl⟩

/-- The own stream holds the rows of some entries, and the daemon remembers its head. -/
structure Holds (lib : Lib) (s : Store) (entries : List Entry) : Prop where
  rows : s.ownRows = lib.chainRows s.origin s.stream ⟨0, zeroHash⟩ entries
  head : s.chain = lib.chainEnd s.origin s.stream ⟨0, zeroHash⟩ entries

theorem Holds.append (h : Holds lib s entries) (happend : s.append lib more = .ok s') :
    Holds lib s' (entries ++ more) := by
  obtain ⟨hrecords, hchain, horigin, hstream⟩ := append_records happend
  refine ⟨?_, ?_⟩
  · have hown : (lib.chainRows s.origin s.stream s.chain more).filter
        (fun r => r.origin = s.origin ∧ r.stream = s.stream) =
        lib.chainRows s.origin s.stream s.chain more := by
      refine List.filter_eq_self.mpr fun r hr => decide_eq_true (key_of_mem_chainRows hr)
    unfold Store.ownRows
    rw [hrecords, horigin, hstream, List.filter_append, hown, chainRows_append, ← h.rows, ← h.head]
    rfl
  · rw [hchain, horigin, hstream, chainEnd_append, ← h.head]

variable {records inserted : List Record}

theorem copies_foreign {state state' : Db × List Record}
    (h : records.foldlM (s.copyNext lib) state = .ok state') :
    state'.1.records.filter (fun r => r.origin = s.origin ∧ r.stream = s.stream) =
      state.1.records.filter fun r => r.origin = s.origin ∧ r.stream = s.stream := by
  refine foldlM_invariant (fun st record st' hI hstep => ?_) h rfl
    (I := fun st => st.1.records.filter (fun r => r.origin = s.origin ∧ r.stream = s.stream) =
      state.1.records.filter fun r => r.origin = s.origin ∧ r.stream = s.stream)
  obtain ⟨db, inserted⟩ := st
  obtain ⟨db', inserted'⟩ := st'
  rcases copyNext_cases hstep with ⟨-, rfl⟩ | hcopy
  · exact hI
  · obtain ⟨row, hc⟩ := copyRecord_eq_ok hcopy
    have hforeign : decide (row.origin = s.origin ∧ row.stream = s.stream) = false := decide_eq_false hc.foreign
    show db'.records.filter _ = _
    rw [hc.records, List.filter_append, List.filter_cons_of_neg (by simp [hforeign]), List.filter_nil,
      List.append_nil]
    exact hI

theorem Holds.insertCopies {records inserted : List Record} (h : Holds lib s entries)
    (hcopies : s.insertCopies lib records = .ok (s', inserted)) : Holds lib s' entries := by
  unfold Store.insertCopies at hcopies
  simp only [bind_eq_ok, pure_eq_ok] at hcopies
  obtain ⟨⟨db, stored⟩, hfold, heq⟩ := hcopies
  obtain ⟨rfl, -⟩ := Prod.mk.inj heq
  exact ⟨(copies_foreign hfold).trans h.rows, h.head⟩

/-- A stream that has just started holds nothing. -/
theorem holds_open {nowMs : Int64} (hs : Sound s.origin s.stream s.db s.chain)
    (h : Store.open_ s.db s.segments s.origin stream nowMs = .ok s') : Holds lib s' [] := by
  unfold Store.open_ at h
  split at h
  · cases h
  · rename_i hnew
    cases h
    refine ⟨List.filter_eq_nil_iff.mpr fun r hr => ?_, rfl⟩
    rw [decide_eq_true_eq]
    rintro ⟨horigin, hstream⟩
    obtain ⟨row, hrow⟩ := Db.stream?_isSome (hs.known r hr)
    rw [horigin, hstream] at hrow
    rw [hnew] at hrow
    cases hrow

theorem write_store (t : Attempted) (faults : Nat → Option StoreError) (w : Write) :
    (t.write lib faults w).store = t.store ∨ (t.write lib faults w).store = t.store.write lib w := by
  cases w with
  | append entries =>
    simp only [Attempted.write, Store.write]
    rcases @appendSql_cases lib faults t.store entries with ⟨e, hrun⟩ | ⟨s', hrun, happend⟩
    · rw [hrun]
      exact .inl rfl
    · rw [hrun, happend]
      exact .inr rfl
  | insertCopies records =>
    simp only [Attempted.write, Store.write]
    rcases @insertCopiesSql_cases lib faults t.store records with ⟨e, hrun⟩ | ⟨s', inserted, hrun, hcopies⟩
    · rw [hrun]
      exact .inl rfl
    · rw [hrun, hcopies]
      exact .inr rfl
  | keepFrom ms => exact .inr rfl
  | reopen stream nowMs =>
    simp only [Attempted.write, Store.write]
    cases Store.open_ t.store.db t.store.segments t.store.origin stream nowMs with
    | ok s' => exact .inr rfl
    | error e => exact .inl rfl

theorem Holds.write {t : Attempted} (h : Holds lib t.store t.appended)
    (hs : Sound t.store.origin t.store.stream t.store.db t.store.chain) (faults : Nat → Option StoreError)
    (w : Write) : Holds lib (t.write lib faults w).store (t.write lib faults w).appended := by
  cases w with
  | append entries =>
    simp only [Attempted.write]
    rcases @appendSql_cases lib faults t.store entries with ⟨e, hrun⟩ | ⟨s', hrun, happend⟩
    · rw [hrun]
      exact h
    · rw [hrun]
      exact h.append happend
  | insertCopies records =>
    simp only [Attempted.write]
    rcases @insertCopiesSql_cases lib faults t.store records with ⟨e, hrun⟩ | ⟨s', inserted, hrun, hcopies⟩
    · rw [hrun]
      exact h
    · rw [hrun]
      exact h.insertCopies hcopies
  | keepFrom ms => exact ⟨h.rows, h.head⟩
  | reopen stream nowMs =>
    simp only [Attempted.write]
    cases hopen : Store.open_ t.store.db t.store.segments t.store.origin stream nowMs with
    | ok s' => exact holds_open hs hopen
    | error e => exact h

theorem run_holds (origin stream : String) (nowMs : Int64)
    (writes : List ((Nat → Option StoreError) × Write)) :
    let t := (Attempted.mk (Store.fresh origin stream nowMs) []).run lib writes
    Sound t.store.origin t.store.stream t.store.db t.store.chain ∧ Holds lib t.store t.appended := by
  induction writes using List.reverseRecOn with
  | nil => exact ⟨fresh_sound origin stream nowMs, rfl, rfl⟩
  | append_singleton writes w ih =>
    obtain ⟨hs, hholds⟩ := ih
    simp only [Attempted.run, List.foldl_append, List.foldl_cons, List.foldl_nil] at hs hholds ⊢
    refine ⟨?_, hholds.write hs w.1 w.2⟩
    rcases @write_store lib _ w.1 w.2 with hsame | hwrite
    · rw [hsame]
      exact hs
    · rw [hwrite]
      exact write_sound hs w.2

/-! ## Copies given again -/

/-- A copy that is old enough to be skipped. -/
def Store.Skips (s : Store) (record : Record) : Prop :=
  record.seq.toInt64.toInt ≤ s.db.floor record.origin record.stream ∨ record.timeMs < s.keepFromMs

instance (s : Store) (record : Record) : Decidable (s.Skips record) :=
  inferInstanceAs (Decidable (_ ∨ _))

/-- The record before another one in its stream. -/
def Before (q record : Record) : Prop :=
  q.origin = record.origin ∧ q.stream = record.stream ∧ q.seq.toNat + 1 = record.seq.toNat

/-- No record of a batch that is checked with none before it in the tables is followed in the batch by one
that goes before it and isn't what it names. -/
def Repeatable (s : Store) (records : List Record) : Prop :=
  ∀ before record after, records = before ++ record :: after → ¬ s.Skips record →
    hashBefore s.db record.origin record.stream record.seq.toNat = none →
    (∀ q ∈ before, ¬ s.Skips q → ¬ Before q record) →
    ∀ q ∈ after, ¬ s.Skips q → Before q record → unhex q.hash = record.prev.bind unhex

/-- What a copy must be, whatever the tables hold. -/
structure Parsed (s : Store) (record : Record) (entry : Entry) (hash : Hash) : Prop where
  foreign : ¬ (record.origin = s.origin ∧ record.stream = s.stream)
  given : ∀ text ∈ record.prev, (unhex text).isSome = true
  entry : ((recordEntry record).filter fun _ =>
    0 < record.seq && (!record.evicted || record.body.isEmpty)) = some entry
  hash : unhex record.hash = some hash

variable {db db' : Db} {record : Record} {entry : Entry} {hash prev : Hash} {answer : Option Db}

theorem unhexPrev_eq_ok {text : Option String} {e : StoreError} {given : Option Hash} :
    unhexPrev text e = .ok given ↔ (∀ t ∈ text, (unhex t).isSome = true) ∧ given = text.bind unhex := by
  cases text with
  | none => exact ⟨fun h => ⟨by simp, (Except.ok.inj h).symm⟩, fun h => by rw [h.2]; rfl⟩
  | some t =>
    simp only [unhexPrev, map_eq_ok, ofOption_eq_ok, Option.mem_some_iff, forall_eq', Option.bind_some]
    constructor
    · rintro ⟨hash, hhash, rfl⟩
      exact ⟨by rw [hhash]; rfl, hhash.symm⟩
    · rintro ⟨hsome, rfl⟩
      obtain ⟨hash, hhash⟩ := Option.isSome_iff_exists.mp hsome
      exact ⟨hash, hhash, hhash.symm⟩

theorem copyRecord_eq_ok_iff : s.copyRecord lib db record = .ok answer ↔ ∃ entry hash,
    Parsed s record entry hash ∧
      if record.seq.toInt64.toInt ≤ db.floor record.origin record.stream ∨ record.timeMs < s.keepFromMs then
        answer = none
      else checkCopy lib db record entry hash (record.prev.bind unhex) = .ok answer := by
  unfold Store.copyRecord
  simp only [bind_eq_ok, check_eq_ok, ofOption_eq_ok, unhexPrev_eq_ok]
  constructor
  · rintro ⟨hown, given, ⟨hsome, rfl⟩, entry, hentry, hash, hhash, h⟩
    refine ⟨entry, hash, ⟨hown, hsome, hentry, hhash⟩, ?_⟩
    split
    · rename_i hskip
      rw [if_pos hskip, pure_eq_ok] at h
      exact h.symm
    · rename_i hskip
      rwa [if_neg hskip] at h
  · rintro ⟨entry, hash, hparsed, h⟩
    refine ⟨hparsed.foreign, _, ⟨hparsed.given, rfl⟩, entry, hparsed.entry, hash, hparsed.hash, ?_⟩
    split
    · rename_i hskip
      rw [if_pos hskip] at h
      rw [h]
      rfl
    · rename_i hskip
      rwa [if_neg hskip] at h

theorem prevHash_eq_ok_iff {held given : Option Hash} {gap chain : StoreError} :
    prevHash held given gap chain = .ok prev ↔
      (∀ h ∈ held, h = prev ∧ ∀ g ∈ given, h = g) ∧ (held = none → given = some prev) := by
  cases held with
  | some h =>
    cases given with
    | some g =>
      by_cases heq : h = g
      · simp [prevHash, heq]
      · simp [prevHash, heq]
    | none => simp [prevHash]
  | none =>
    cases given with
    | some g => simp [prevHash]
    | none => simp [prevHash]

def Record.key (record : Record) : Key := (record.origin, record.stream, record.seq.toNat)

theorem storeCopy_eq_none : storeCopy lib db record entry hash prev = .ok none ↔
    db.heldHash record.key = some hash := by
  unfold storeCopy Record.key
  dsimp only
  split
  · rename_i existing hheld
    rw [hheld]
    split
    · rename_i hne
      simp [hne]
    · rename_i heq
      simp [not_not.mp heq]
  · rename_i hheld
    rw [hheld]
    constructor
    · intro h
      obtain ⟨db', -, heq⟩ := map_eq_ok.mp h
      cases heq
    · intro h
      cases h

/-- The hash of the record before a copy that is checked. -/
structure Follows (lib : Lib) (db : Db) (record : Record) (entry : Entry) (hash prev : Hash) : Prop where
  held : ∀ h ∈ hashBefore db record.origin record.stream record.seq.toNat, h = prev ∧
    ∀ g ∈ record.prev.bind unhex, h = g
  given : hashBefore db record.origin record.stream record.seq.toNat = none →
    record.prev.bind unhex = some prev
  hashed : ¬ (record.evicted = false ∧
    lib.chainHash prev record.origin record.stream record.seq.toNat entry ≠ hash)

theorem checkCopy_eq_ok_iff : checkCopy lib db record entry hash (record.prev.bind unhex) = .ok answer ↔
    ∃ prev, Follows lib db record entry hash prev ∧ storeCopy lib db record entry hash prev = .ok answer := by
  unfold checkCopy
  simp only [bind_eq_ok, check_eq_ok, prevHash_eq_ok_iff, Bool.not_eq_true]
  constructor
  · rintro ⟨prev, ⟨hheld, hgiven⟩, hhashed, hstore⟩
    exact ⟨prev, ⟨hheld, hgiven, hhashed⟩, hstore⟩
  · rintro ⟨prev, hfollows, hstore⟩
    exact ⟨prev, ⟨hfollows.held, hfollows.given⟩, hfollows.hashed, hstore⟩

/-- What a copy leaves in the tables. -/
structure Leaves (s : Store) (db db' : Db) (record : Record) : Prop where
  floor : ∀ origin stream, db'.floor origin stream = db.floor origin stream
  keeps : ∀ key h, db.heldHash key = some h → db'.heldHash key = some h
  /-- A new hash is the copy's. -/
  adds : ∀ key h, db'.heldHash key = some h → db.heldHash key = some h ∨
    (¬ s.Skips record ∧ key = record.key ∧ unhex record.hash = some h)
  has : ¬ s.Skips record → ∃ h, unhex record.hash = some h ∧ db'.heldHash record.key = some h

theorem row?_append {row : Row} (key : Key) (hrecords : db'.records = db.records ++ [row]) :
    db'.row? key = (db.row? key).or (if row.key = key then some row else none) := by
  unfold Db.row?
  rw [hrecords, List.find?_append, List.find?_singleton]
  simp

theorem copyRecord_leaves (hfloors : ∀ origin stream, db.floor origin stream = s.db.floor origin stream)
    (h : s.copyRecord lib db record = .ok answer) : Leaves s db (answer.getD db) record := by
  obtain ⟨entry, hash, hparsed, hrest⟩ := copyRecord_eq_ok_iff.mp h
  rw [hfloors] at hrest
  cases answer with
  | none =>
    refine ⟨fun _ _ => rfl, fun _ _ h => h, fun _ _ h => .inl h, fun hcounts => ?_⟩
    have hrest : checkCopy lib db record entry hash (record.prev.bind unhex) = .ok none := by
      rwa [if_neg (show ¬ (_ ∨ _) from hcounts)] at hrest
    obtain ⟨prev, -, hstore⟩ := checkCopy_eq_ok_iff.mp hrest
    exact ⟨hash, hparsed.hash, storeCopy_eq_none.mp hstore⟩
  | some db' =>
    split at hrest
    · cases hrest
    rename_i hcounts
    obtain ⟨prev, -, -, hstore⟩ := checkCopy_eq_ok hrest
    obtain ⟨-, hfree, -, -, -, hrecords⟩ := storeCopy_eq_ok hstore
    have hrow (key : Key) := @row?_append db db' _ key hrecords
    refine ⟨storeCopy_floor hstore, fun key h hheld => ?_, fun key h hheld => ?_, fun _ => ?_⟩
    · obtain ⟨row, hfound, heq⟩ := Option.map_eq_some_iff.mp hheld
      show (db'.row? key).map (·.hash) = some h
      rw [hrow, hfound]
      exact congrArg some heq
    · have hheld : (db'.row? key).map (·.hash) = some h := hheld
      rw [hrow] at hheld
      cases hfound : db.row? key with
      | some row =>
        rw [hfound] at hheld
        exact .inl (by rw [Db.heldHash, hfound]; exact hheld)
      | none =>
        rw [hfound, Option.none_or] at hheld
        split at hheld
        · rename_i hkey
          cases hheld
          exact .inr ⟨hcounts, hkey.symm, hparsed.hash⟩
        · cases hheld
    · refine ⟨hash, hparsed.hash, ?_⟩
      show (db'.row? record.key).map (·.hash) = some hash
      have hnone : db.row? record.key = none := Db.row?_eq_none.mpr hfree
      have hkey : (rowOf lib record.origin record.stream record.seq.toNat entry hash prev record.evicted).key =
        record.key := rfl
      rw [hrow, hnone, Option.none_or, if_pos hkey]
      rfl

/-- What a batch leaves in the tables. -/
structure LeavesAll (s : Store) (db db' : Db) (records : List Record) : Prop where
  floor : ∀ origin stream, db'.floor origin stream = db.floor origin stream
  keeps : ∀ key h, db.heldHash key = some h → db'.heldHash key = some h
  adds : ∀ key h, db'.heldHash key = some h → db.heldHash key = some h ∨
    ∃ q ∈ records, ¬ s.Skips q ∧ key = q.key ∧ unhex q.hash = some h
  has : ∀ q ∈ records, ¬ s.Skips q → ∃ h, unhex q.hash = some h ∧ db'.heldHash q.key = some h

theorem copies_leave {inserted' : List Record}
    (hfloors : ∀ origin stream, db.floor origin stream = s.db.floor origin stream)
    (h : records.foldlM (s.copyNext lib) (db, inserted) = .ok (db', inserted')) :
    LeavesAll s db db' records := by
  induction records generalizing db inserted with
  | nil =>
    cases h
    exact ⟨fun _ _ => rfl, fun _ _ h => h, fun _ _ h => .inl h, fun q hq => by cases hq⟩
  | cons record records ih =>
    obtain ⟨⟨middle, stored⟩, hstep, hrest⟩ := foldlM_cons_eq_ok.mp h
    have hone : Leaves s db middle record := by
      rcases copyNext_cases hstep with ⟨hcopy, rfl⟩ | hcopy
      · exact copyRecord_leaves hfloors hcopy
      · exact copyRecord_leaves hfloors hcopy
    have hall := ih (fun origin stream => (hone.floor origin stream).trans (hfloors origin stream)) hrest
    refine ⟨fun origin stream => (hall.floor origin stream).trans (hone.floor origin stream),
      fun key h hheld => hall.keeps key h (hone.keeps key h hheld), fun key h hheld => ?_, fun q hq hcounts => ?_⟩
    · rcases hall.adds key h hheld with hheld | ⟨q, hq, hnew⟩
      · rcases hone.adds key h hheld with hheld | hnew
        · exact .inl hheld
        · exact .inr ⟨record, List.mem_cons_self, hnew⟩
      · exact .inr ⟨q, List.mem_cons_of_mem record hq, hnew⟩
    · rcases List.mem_cons.mp hq with rfl | hq
      · obtain ⟨h, hhash, hheld⟩ := hone.has hcounts
        exact ⟨h, hhash, hall.keeps _ h hheld⟩
      · exact hall.has q hq hcounts

/-- A batch inserts nothing when each of its records is skipped or held. -/
theorem copies_none_iff :
    records.foldlM (s.copyNext lib) (db, inserted) = .ok (db, inserted) ↔
      ∀ record ∈ records, s.copyRecord lib db record = .ok none := by
  have hgrow : ∀ (records : List Record) (state state' : Db × List Record),
      records.foldlM (s.copyNext lib) state = .ok state' → state.2.length ≤ state'.2.length := by
    intro records state state' h
    refine foldlM_invariant (fun st record st' hI hstep => ?_) h le_rfl
      (I := fun st => state.2.length ≤ st.2.length)
    unfold Store.copyNext at hstep
    obtain ⟨answer, -, hanswer⟩ := bind_eq_ok.mp hstep
    cases answer with
    | none =>
      cases hanswer
      exact hI
    | some db =>
      cases hanswer
      simp only [List.length_append, List.length_singleton]
      exact hI.trans (Nat.le_succ _)
  induction records with
  | nil => simp [List.foldlM_nil, pure_eq_ok]
  | cons record records ih =>
    rw [foldlM_cons_eq_ok, List.forall_mem_cons]
    constructor
    · rintro ⟨⟨middle, stored⟩, hstep, hrest⟩
      unfold Store.copyNext at hstep
      obtain ⟨answer, hcopy, hanswer⟩ := bind_eq_ok.mp hstep
      cases answer with
      | none =>
        cases hanswer
        exact ⟨hcopy, ih.mp hrest⟩
      | some db'' =>
        cases hanswer
        have hle := hgrow records _ _ hrest
        simp only [List.length_append, List.length_singleton] at hle
        omega
    · rintro ⟨hcopy, hrest⟩
      refine ⟨(db, inserted), ?_, ih.mpr hrest⟩
      unfold Store.copyNext
      exact bind_eq_ok.mpr ⟨none, hcopy, rfl⟩

/-! ### The second pass -/

theorem hashBefore_eq_none {origin stream : String} {seq : Nat} :
    hashBefore db origin stream seq = none ↔ seq ≠ 1 ∧ db.heldHash (origin, stream, seq - 1) = none := by
  unfold hashBefore
  split
  · rename_i hone
    simp [hone]
  · rename_i hone
    simp [hone]

theorem hashBefore_keeps {origin stream : String} {seq : Nat} {h : Hash}
    (hkeeps : ∀ key h, db.heldHash key = some h → db'.heldHash key = some h)
    (hheld : hashBefore db origin stream seq = some h) : hashBefore db' origin stream seq = some h := by
  unfold hashBefore at hheld ⊢
  split
  · rename_i hone
    rwa [if_pos hone] at hheld
  · rename_i hone
    rw [if_neg hone] at hheld
    exact hkeeps _ h hheld

theorem Parsed.pos (h : Parsed s record entry hash) : 1 ≤ record.seq.toNat := by
  have hentry := (Option.filter_eq_some_iff.mp h.entry).2
  simp only [Bool.and_eq_true, decide_eq_true_eq] at hentry
  exact UInt64.lt_iff_toNat_lt.mp hentry.1

/-- A record that was taken is taken again, unless the record before it has come since with another hash. -/
theorem copyRecord_again_iff (hfloors : ∀ origin stream, db.floor origin stream = s.db.floor origin stream)
    (hfloors' : ∀ origin stream, db'.floor origin stream = s.db.floor origin stream)
    (hkeeps : ∀ key h, db.heldHash key = some h → db'.heldHash key = some h)
    (hhas : ¬ s.Skips record → ∃ h, unhex record.hash = some h ∧ db'.heldHash record.key = some h)
    (h : s.copyRecord lib db record = .ok answer) :
    s.copyRecord lib db' record = .ok none ↔
      (¬ s.Skips record → hashBefore db record.origin record.stream record.seq.toNat = none →
        ∀ h ∈ hashBefore db' record.origin record.stream record.seq.toNat,
          record.prev.bind unhex = some h) := by
  obtain ⟨entry, hash, hparsed, hrest⟩ := copyRecord_eq_ok_iff.mp h
  rw [hfloors] at hrest
  have hiff : s.copyRecord lib db' record = .ok none ↔
      (¬ s.Skips record → checkCopy lib db' record entry hash (record.prev.bind unhex) = .ok none) := by
    rw [copyRecord_eq_ok_iff]
    constructor
    · rintro ⟨entry', hash', hparsed', hrest'⟩ hcounts
      obtain rfl : entry' = entry := Option.some.inj (hparsed'.entry.symm.trans hparsed.entry)
      obtain rfl : hash' = hash := Option.some.inj (hparsed'.hash.symm.trans hparsed.hash)
      rw [hfloors'] at hrest'
      rwa [if_neg (show ¬ (_ ∨ _) from hcounts)] at hrest'
    · intro hcheck
      refine ⟨entry, hash, hparsed, ?_⟩
      rw [hfloors']
      split
      · rfl
      · rename_i hcounts
        exact hcheck hcounts
  rw [hiff]
  refine imp_congr_right fun hcounts => ?_
  rw [if_neg (show ¬ (_ ∨ _) from hcounts)] at hrest
  obtain ⟨prev, hfollows, -⟩ := checkCopy_eq_ok_iff.mp hrest
  obtain ⟨held, hhash, hheld⟩ := hhas hcounts
  obtain rfl : held = hash := Option.some.inj (hhash.symm.trans hparsed.hash)
  rw [checkCopy_eq_ok_iff]
  simp only [storeCopy_eq_none, hheld, and_true]
  cases hbefore : hashBefore db record.origin record.stream record.seq.toNat with
  | some h =>
    -- the record before was there, and is there still
    have hstill := hashBefore_keeps hkeeps hbefore
    refine iff_of_true ⟨prev, ⟨?_, fun hnone => ?_, hfollows.hashed⟩⟩ fun hnone => by cases hnone
    · intro h' hh'
      obtain rfl : h = h' := Option.some.inj (hstill.symm.trans hh')
      exact hfollows.held h hbefore
    · rw [hstill] at hnone
      cases hnone
  | none =>
    have hgiven := hfollows.given hbefore
    constructor
    · rintro ⟨prev', hfollows'⟩ - h hh
      rw [hgiven]
      exact congrArg some ((hfollows'.held h hh).2 prev hgiven).symm
    · intro hagree
      refine ⟨prev, ⟨fun h hh => ?_, fun _ => hgiven, hfollows.hashed⟩⟩
      have heq := hagree rfl h hh
      obtain rfl : prev = h := Option.some.inj (hgiven.symm.trans heq)
      exact ⟨rfl, fun g hg => Option.some.inj (heq.symm.trans hg)⟩

theorem before_iff_key {q : Record} (hpos : 1 ≤ record.seq.toNat) :
    Before q record ↔ (record.origin, record.stream, record.seq.toNat - 1) = q.key := by
  unfold Before Record.key
  simp only [Prod.mk.injEq]
  constructor
  · rintro ⟨ho, hst, hseq⟩
    exact ⟨ho.symm, hst.symm, by omega⟩
  · rintro ⟨ho, hst, hseq⟩
    exact ⟨ho.symm, hst.symm, by omega⟩

/-- None goes before a record after a part of a batch if none did, and the part has none. -/
theorem LeavesAll.before_none_iff {before : List Record} (h : LeavesAll s s.db db before)
    (hpos : 1 ≤ record.seq.toNat) :
    hashBefore db record.origin record.stream record.seq.toNat = none ↔
      hashBefore s.db record.origin record.stream record.seq.toNat = none ∧
        ∀ q ∈ before, ¬ s.Skips q → ¬ Before q record := by
  rw [hashBefore_eq_none, hashBefore_eq_none]
  constructor
  · rintro ⟨hone, hnone⟩
    refine ⟨⟨hone, ?_⟩, fun q hq hcounts hbefore => ?_⟩
    · by_contra hsome
      obtain ⟨held, hheld⟩ := Option.ne_none_iff_exists'.mp hsome
      rw [h.keeps _ held hheld] at hnone
      cases hnone
    · obtain ⟨held, -, hheld⟩ := h.has q hq hcounts
      rw [← (before_iff_key hpos).mp hbefore, hnone] at hheld
      cases hheld
  · rintro ⟨⟨hone, hnone⟩, hnot⟩
    refine ⟨hone, ?_⟩
    by_contra hsome
    obtain ⟨held, hheld⟩ := Option.ne_none_iff_exists'.mp hsome
    rcases h.adds _ held hheld with hold | ⟨q, hq, hcounts, hkey, -⟩
    · rw [hnone] at hold
      cases hold
    · exact hnot q hq hcounts ((before_iff_key hpos).mpr hkey)

/-- The record before one that had none is one that the rest of the batch has brought. -/
theorem before_since_iff {after : List Record} {db'' : Db} (hone : Leaves s db db' record)
    (hrest : LeavesAll s db' db'' after) (hpos : 1 ≤ record.seq.toNat)
    (hnone : hashBefore db record.origin record.stream record.seq.toNat = none) {h : Hash} :
    hashBefore db'' record.origin record.stream record.seq.toNat = some h ↔
      ∃ q ∈ after, ¬ s.Skips q ∧ Before q record ∧ unhex q.hash = some h := by
  obtain ⟨hseq, hfree⟩ := hashBefore_eq_none.mp hnone
  have hheld : hashBefore db'' record.origin record.stream record.seq.toNat =
      db''.heldHash (record.origin, record.stream, record.seq.toNat - 1) := if_neg hseq
  rw [hheld]
  constructor
  · intro hnew
    rcases hrest.adds _ h hnew with hmiddle | ⟨q, hq, hcounts, hkey, hhash⟩
    · rcases hone.adds _ h hmiddle with hold | ⟨-, hkey, -⟩
      · rw [hfree] at hold
        cases hold
      · have hseqs := congrArg (·.2.2) hkey
        simp only [Record.key] at hseqs
        omega
    · exact ⟨q, hq, hcounts, (before_iff_key hpos).mpr hkey, hhash⟩
  · rintro ⟨q, hq, hcounts, hbefore, hhash⟩
    obtain ⟨h', hhash', hheld'⟩ := hrest.has q hq hcounts
    rw [(before_iff_key hpos).mp hbefore, hheld', ← hhash', hhash]

/-- A batch that was stored inserts nothing the next time if and only if it is repeatable. -/
theorem copies_again_iff (h : records.foldlM (s.copyNext lib) (s.db, []) = .ok (db', inserted)) :
    records.foldlM (s.copyNext lib) (db', []) = .ok (db', []) ↔ Repeatable s records := by
  have hall : LeavesAll s s.db db' records := copies_leave (fun _ _ => rfl) h
  -- one record of the batch, between the tables that it found and those at the end
  have hagain : ∀ before record after, records = before ++ record :: after →
      (s.copyRecord lib db' record = .ok none ↔ (¬ s.Skips record →
        hashBefore s.db record.origin record.stream record.seq.toNat = none →
        (∀ q ∈ before, ¬ s.Skips q → ¬ Before q record) →
        ∀ q ∈ after, ¬ s.Skips q → Before q record → unhex q.hash = record.prev.bind unhex)) := by
    rintro before record after rfl
    obtain ⟨⟨db, taken⟩, hbefore, hsplit⟩ := foldlM_append_eq_ok.mp h
    obtain ⟨⟨middle, taken'⟩, hstep, hafter⟩ := foldlM_cons_eq_ok.mp hsplit
    have hfirst := copies_leave (fun _ _ => rfl) hbefore
    obtain ⟨answer, hcopy, rfl⟩ : ∃ answer, s.copyRecord lib db record = .ok answer ∧
        middle = answer.getD db := by
      rcases copyNext_cases hstep with ⟨hcopy, rfl⟩ | hcopy
      · exact ⟨none, hcopy, rfl⟩
      · exact ⟨some middle, hcopy, rfl⟩
    have hone := copyRecord_leaves hfirst.floor hcopy
    have hlast := copies_leave (fun origin stream => (hone.floor origin stream).trans (hfirst.floor origin stream))
      hafter
    obtain ⟨entry, hash, hparsed, -⟩ := copyRecord_eq_ok_iff.mp hcopy
    rw [copyRecord_again_iff hfirst.floor hall.floor
      (fun key h hheld => hlast.keeps key h (hone.keeps key h hheld))
      (hall.has record (List.mem_append_right _ List.mem_cons_self)) hcopy]
    refine imp_congr_right fun hcounts => ?_
    rw [hfirst.before_none_iff hparsed.pos]
    constructor
    · intro hagree hnone hnot q hq hq' hbefore'
      have hthen := (hfirst.before_none_iff hparsed.pos).mpr ⟨hnone, hnot⟩
      obtain ⟨h', hhash, -⟩ := hlast.has q hq hq'
      rw [hhash]
      refine (hagree ⟨hnone, hnot⟩ h' ?_).symm
      exact (before_since_iff hone hlast hparsed.pos hthen).mpr ⟨q, hq, hq', hbefore', hhash⟩
    · rintro hagree ⟨hnone, hnot⟩ h' hheld
      have hthen := (hfirst.before_none_iff hparsed.pos).mpr ⟨hnone, hnot⟩
      obtain ⟨q, hq, hq', hbefore', hhash⟩ := (before_since_iff hone hlast hparsed.pos hthen).mp hheld
      rw [← hagree hnone hnot q hq hq' hbefore', hhash]
  rw [copies_none_iff]
  constructor
  · rintro hnone before record after rfl
    exact (hagain before record after rfl).mp
      (hnone record (List.mem_append_right _ List.mem_cons_self))
  · intro hrepeat record hrecord
    obtain ⟨before, after, hsplit⟩ := List.append_of_mem hrecord
    exact (hagain before record after hsplit).mpr (hrepeat before record after hsplit)

theorem insertCopies_again_iff (h : s.insertCopies lib records = .ok (s', inserted)) :
    s'.insertCopies lib records = .ok (s', []) ↔ Repeatable s records := by
  unfold Store.insertCopies at h ⊢
  simp only [bind_eq_ok, pure_eq_ok] at h ⊢
  obtain ⟨⟨db, stored⟩, hfold, heq⟩ := h
  obtain ⟨rfl, -⟩ := Prod.mk.inj heq
  rw [← copies_again_iff hfold]
  constructor
  · rintro ⟨⟨db', none⟩, hagain, heq⟩
    obtain ⟨hsame, rfl⟩ := Prod.mk.inj heq
    obtain rfl : db' = db := congrArg Store.db hsame
    exact hagain
  · exact fun hagain => ⟨(db, []), hagain, rfl⟩

/-- After any writes, of which some fail at a statement, the own stream holds what the others appended,
from sequence number 1 on. A batch of copies leaves the store as it was or is stored, and it can then be
given again if and only if it is repeatable. -/
theorem append_contiguous_copies_repeat_iff (lib : Lib) (origin stream : String) (nowMs : Int64)
    (writes : List ((Nat → Option StoreError) × Write)) :
    let t := (Attempted.mk (Store.fresh origin stream nowMs) []).run lib writes
    Contiguous lib t.store.origin t.store.stream t.store.ownRows t.appended ∧
    ∀ (faults : Nat → Option StoreError) (records : List Record),
      (∃ e, t.store.insertCopiesSql faults lib records = (t.store, .error e)) ∨
      ∃ s' inserted, t.store.insertCopiesSql faults lib records = (s', .ok inserted) ∧
        (s'.insertCopiesSql (fun _ => none) lib records = (s', .ok []) ↔ Repeatable t.store records) := by
  intro t
  refine ⟨?_, fun faults records => ?_⟩
  · rw [(run_holds origin stream nowMs writes).2.rows]
    exact chainRows_contiguous
  · rcases @insertCopiesSql_cases lib faults t.store records with hfailed | ⟨s', inserted, hrun, hcopies⟩
    · exact .inl hfailed
    · refine .inr ⟨s', inserted, hrun, ?_⟩
      rw [insertCopiesSql_none_eq_ok]
      exact insertCopies_again_iff hcopies

/-! ### A batch that is refused the next time -/

/-- Record 3 comes before record 2, and names another record 2 than the one that comes. -/
def downwardBatch : List Record := [placeholder 3 '3' '2', placeholder 2 '5' '1']

theorem downwardBatch_stored (lib : Lib) :
    ∃ s', (Store.fresh "mox1" "1-0b" 0).insertCopies lib downwardBatch = .ok (s', downwardBatch) := by
  simp only [downwardBatch, Store.insertCopies, List.foldlM_cons, List.foldlM_nil, Store.copyNext,
    copyRecord_third lib, copyRecord_second lib, ok_bind, pure_bind]
  exact ⟨_, rfl⟩

theorem downwardBatch_not_repeatable : ¬ Repeatable (Store.fresh "mox1" "1-0b" 0) downwardBatch := by
  intro hrepeat
  have hhash := hrepeat [] (placeholder 3 '3' '2') [placeholder 2 '5' '1'] rfl (by decide) (by decide)
    (fun q hq => by cases hq) (placeholder 2 '5' '1') List.mem_cons_self (by decide) ⟨rfl, rfl, by decide⟩
  exact absurd hhash (by decide)

theorem copies_not_always_repeatable : ¬ ∃ lib : Lib, ∀ (origin stream : String) (nowMs : Int64)
    (faults : Nat → Option StoreError) (records : List Record),
    let s := Store.fresh origin stream nowMs
    (∃ e, s.insertCopiesSql faults lib records = (s, .error e)) ∨
    ∃ s' inserted, s.insertCopiesSql faults lib records = (s', .ok inserted) ∧
      s'.insertCopiesSql (fun _ => none) lib records = (s', .ok []) := by
  rintro ⟨lib, hall⟩
  obtain ⟨s', hstored⟩ := downwardBatch_stored lib
  have hrun := insertCopiesSql_none_eq_ok.mpr hstored
  rcases hall "mox1" "1-0b" 0 (fun _ => none) downwardBatch with ⟨e, hfailed⟩ | ⟨s'', inserted, hrun', hagain⟩
  · rw [hrun] at hfailed
    cases hfailed
  · rw [hrun] at hrun'
    obtain ⟨rfl, -⟩ := Prod.mk.inj hrun'
    exact downwardBatch_not_repeatable
      ((insertCopies_again_iff hstored).mp (insertCopiesSql_none_eq_ok.mp hagain))

end Bmac.Records
