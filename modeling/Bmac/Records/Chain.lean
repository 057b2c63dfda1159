import Bmac.Records.Store

/-!
# The records of a stream are a chain

Each stored record names the hash of the record before it, and its own hash is taken over that name
and its content. `insert_copies` checks a copy against the record before it when this host holds
that record, and never against the record after it, so a copy that fills a gap from below can be
stored under a record that names another hash. `chained_iff_seamless` says that this is the only way
in which a run of writes breaks a stream's chain.
-/

namespace Bmac.Records

open Bmac.Base Bmac.Core

/-! ## Runs of writes -/

/-- A call that writes records. One that fails leaves the store as it was. -/
inductive Write where
  | append (entries : List Entry)
  | insertCopies (records : List Record)
  | keepFrom (ms : Int64)
  /-- The daemon starts again, with a new stream. -/
  | reopen (stream : String) (nowMs : Int64)

def Store.write (lib : Lib) (s : Store) : Write → Store
  | .append entries => match s.append lib entries with
    | .ok s' => s'
    | .error _ => s
  | .insertCopies records => match s.insertCopies lib records with
    | .ok (s', _) => s'
    | .error _ => s
  | .keepFrom ms => s.keepFrom ms
  | .reopen stream nowMs => match Store.open_ s.db s.segments s.origin stream nowMs with
    | .ok s' => s'
    | .error _ => s

def Store.run (lib : Lib) (s : Store) (writes : List Write) : Store := writes.foldl (Store.write lib) s

def Store.fresh (origin stream : String) (nowMs : Int64) : Store where
  db := { streams := [⟨origin, stream, nowMs, 0⟩] }
  segments := fun _ => none
  origin := origin
  stream := stream
  chain := ⟨0, zeroHash⟩
  keepFromMs := Int64.minValue

/-- What the tables hold of every stream is a chain. -/
structure Chained (lib : Lib) (db : Db) : Prop where
  linked : ∀ r ∈ db.records, ∀ next ∈ db.records, next.origin = r.origin → next.stream = r.stream →
    next.seq = r.seq + 1 → next.prev = some r.hash
  hashed : ∀ r ∈ db.records, r.evicted = false → ∃ prev entry, r.prev = some prev ∧
    r.entry = some entry ∧ r.hash = lib.chainHash prev r.origin r.stream r.seq entry

/-- A record of a batch that is stored just below one that is held gives the hash which that one
names as the hash before it. -/
def SeamlessBatch (lib : Lib) (s : Store) (records : List Record) : Prop :=
  ∀ before record after db inserted db', records = before ++ record :: after →
    before.foldlM (s.copyNext lib) (s.db, []) = .ok (db, inserted) →
    s.copyRecord lib db record = .ok (some db') →
    ∀ next ∈ db.records, next.origin = record.origin → next.stream = record.stream →
      next.seq = record.seq.toNat + 1 → next.prev = unhex record.hash

/-- A batch of copies that is stored fills no gap under a record that names another hash. -/
def Write.Seamless (lib : Lib) (s : Store) : Write → Prop
  | .insertCopies records => (∃ answer, s.insertCopies lib records = .ok answer) →
      SeamlessBatch lib s records
  | _ => True

/-! ## One record -/

def Db.Knows (db : Db) (origin stream : String) : Prop :=
  ∃ s ∈ db.streams, s.origin = origin ∧ s.stream = stream

variable {db db' : Db} {entry : Entry} {lib : Lib} {s s' : Store} {record : Record}
  {records inserted : List Record} {stream : String} {hash prev : Hash}

theorem Db.stream?_isSome {origin : String} (h : db.Knows origin stream) :
    ∃ s, db.stream? origin stream = some s := by
  obtain ⟨s, hs, ho, hst⟩ := h
  have hfind : (db.stream? origin stream).isSome = true :=
    List.find?_isSome.mpr ⟨s, hs, by simp [ho, hst]⟩
  exact Option.isSome_iff_exists.mp hfind

theorem Db.knows_streamKnown (db : Db) (origin stream : String) (ms : Int64) :
    (db.streamKnown origin stream ms).Knows origin stream := by
  unfold streamKnown
  split
  · rename_i s hs
    have hp := List.find?_some hs
    simp only [decide_eq_true_eq] at hp
    exact ⟨s, List.mem_of_find?_eq_some hs, hp⟩
  · exact ⟨⟨origin, stream, ms, 0⟩, by simp, rfl, rfl⟩

theorem Db.Knows.streamKnown {db : Db} {origin stream : String} (h : db.Knows origin stream)
    (origin' stream' : String) (ms : Int64) : (db.streamKnown origin' stream' ms).Knows origin stream := by
  obtain ⟨s, hs, hp⟩ := h
  unfold Db.streamKnown
  split
  · exact ⟨s, hs, hp⟩
  · exact ⟨s, List.mem_append_left _ hs, hp⟩

@[simp] theorem Db.streamKnown_records (db : Db) (origin stream : String) (ms : Int64) :
    (db.streamKnown origin stream ms).records = db.records := by
  unfold streamKnown
  split <;> rfl

@[simp] theorem Db.streamKnown_segments (db : Db) (origin stream : String) (ms : Int64) :
    (db.streamKnown origin stream ms).segments = db.segments := by
  unfold streamKnown
  split <;> rfl

/-- A stream starts with the floor 0, which one that is not known has. -/
theorem floor_open (db : Db) (row : StreamRow) (hrow : row.floor = 0) (origin stream : String) :
    Db.floor { db with streams := db.streams ++ [row] } origin stream = db.floor origin stream := by
  unfold Db.floor Db.stream?
  dsimp only
  rw [List.find?_append]
  cases hfind : db.streams.find? fun s => decide (s.origin = origin ∧ s.stream = stream) with
  | some s => rw [Option.some_or]
  | none =>
    rw [Option.none_or, List.find?_cons, List.find?_nil]
    split
    · rename_i s hs
      split at hs
      · obtain rfl := Option.some.inj hs
        exact hrow
      · cases hs
    · rfl

theorem floor_streamKnown (db : Db) (origin' stream' : String) (ms : Int64) (origin stream : String) :
    (db.streamKnown origin' stream' ms).floor origin stream = db.floor origin stream := by
  unfold Db.streamKnown
  split
  · rfl
  · exact floor_open db _ rfl origin stream

theorem Db.row?_eq_none {key : Key} : db.row? key = none ↔ ∀ r ∈ db.records, r.key ≠ key := by
  simp [row?]

theorem Db.row?_eq_some {key : Key} {r : Row} (h : db.row? key = some r) :
    r ∈ db.records ∧ r.key = key :=
  ⟨List.mem_of_find?_eq_some h, by simpa using List.find?_some h⟩

theorem Db.row?_of_mem (hu : (db.records.map Row.key).Nodup) {r : Row} (hr : r ∈ db.records) :
    db.row? r.key = some r := by
  have hsome : (db.row? r.key).isSome = true := List.find?_isSome.mpr ⟨r, hr, by simp⟩
  obtain ⟨r', hr'⟩ := Option.isSome_iff_exists.mp hsome
  obtain ⟨hmem, hkey⟩ := Db.row?_eq_some hr'
  rw [hr', List.inj_on_of_nodup_map hu hmem hr hkey]

theorem rowOf_entry (lib : Lib) (origin stream : String) (seq : Nat) (entry : Entry) (hash prev : Hash)
    (evicted : Bool) : (rowOf lib origin stream seq entry hash prev evicted).entry = some entry := by
  obtain ⟨timeMs, kind, job, body⟩ := entry
  cases job with
  | none => rfl
  | some j => simp [rowOf, Row.entry, Row.entryJob]

/-- A row put into the tables at a key that was free. -/
structure Adds (lib : Lib) (db db' : Db) (row : Row) : Prop where
  records : db'.records = db.records ++ [row]
  free : ∀ r ∈ db.records, r.key ≠ row.key
  fits : row.seq < 2 ^ 63
  inline : row.body ≠ none ∧ row.segment = none
  segments : db'.segments = db.segments
  knows : ∀ origin stream, db.Knows origin stream → db'.Knows origin stream
  hashed : row.evicted = false → ∃ prev entry, row.prev = some prev ∧ row.entry = some entry ∧
    row.hash = lib.chainHash prev row.origin row.stream row.seq entry

theorem insertRow_eq_ok {origin : String} {seq : Nat}
    {evicted : Bool} (h : insertRow lib db origin stream seq entry hash prev evicted = .ok db') :
    seq < 2 ^ 63 ∧ (∀ r ∈ db.records, r.key ≠ (origin, stream, seq)) ∧
      db' = { db with records := db.records ++ [rowOf lib origin stream seq entry hash prev evicted] } := by
  unfold insertRow at h
  split at h
  · cases h
  · rename_i hfits
    split at h
    · cases h
    · rename_i hnone
      exact ⟨by omega, Db.row?_eq_none.mp hnone, (Except.ok.inj h).symm⟩

theorem prevHash_eq_ok {held : Hash} {given : Option Hash} {gap chain : StoreError}
    (h : prevHash (some held) given gap chain = .ok prev) : prev = held := by
  cases given with
  | none => exact (Except.ok.inj h).symm
  | some g =>
    unfold prevHash at h
    dsimp only at h
    split at h
    · cases h
    · exact (Except.ok.inj h).symm

section

variable {lib : Lib} {s : Store} {db db' : Db} {record : Record}

/-- What storing a copy says of it. -/
structure Copies (lib : Lib) (s : Store) (db db' : Db) (record : Record) (row : Row) : Prop
    extends Adds lib db db' row where
  origin : row.origin = record.origin
  stream : row.stream = record.stream
  seq : row.seq = record.seq.toNat
  hash : unhex record.hash = some row.hash
  foreign : ¬ (row.origin = s.origin ∧ row.stream = s.stream)
  pos : 1 ≤ row.seq
  known : db'.Knows row.origin row.stream
  follows : ∀ held, hashBefore db row.origin row.stream row.seq = some held → row.prev = some held

theorem storeCopy_eq_ok (h : storeCopy lib db record entry hash prev = .ok (some db')) :
    record.seq.toNat < 2 ^ 63 ∧
      (∀ r ∈ db.records, r.key ≠ (record.origin, record.stream, record.seq.toNat)) ∧
      db'.segments = db.segments ∧ (∀ origin stream, db.Knows origin stream → db'.Knows origin stream) ∧
      db'.Knows record.origin record.stream ∧
      db'.records = db.records ++
        [rowOf lib record.origin record.stream record.seq.toNat entry hash prev record.evicted] := by
  unfold storeCopy at h
  dsimp only at h
  split at h
  · split at h
    · cases h
    · cases h
  · obtain ⟨db'', hins, hdb⟩ := map_eq_ok.mp h
    obtain rfl := Option.some.inj hdb
    obtain ⟨hfits, hfree, rfl⟩ := insertRow_eq_ok hins
    rw [Db.streamKnown_records] at hfree
    refine ⟨hfits, hfree, Db.streamKnown_segments .., fun origin stream hk => hk.streamKnown _ _ _, Db.knows_streamKnown .., ?_⟩
    rw [Db.streamKnown_records]

theorem storeCopy_floor (h : storeCopy lib db record entry hash prev = .ok (some db'))
    (origin stream : String) : db'.floor origin stream = db.floor origin stream := by
  unfold storeCopy at h
  dsimp only at h
  split at h
  · split at h
    · cases h
    · cases h
  · obtain ⟨db'', hins, hdb⟩ := map_eq_ok.mp h
    obtain rfl := Option.some.inj hdb
    obtain ⟨-, -, rfl⟩ := insertRow_eq_ok hins
    exact floor_streamKnown ..

theorem checkCopy_eq_ok {given : Option Hash}
    (h : checkCopy lib db record entry hash given = .ok (some db')) :
    ∃ prev, (∀ held, hashBefore db record.origin record.stream record.seq.toNat = some held →
        prev = held) ∧
      (record.evicted = false →
        hash = lib.chainHash prev record.origin record.stream record.seq.toNat entry) ∧
      storeCopy lib db record entry hash prev = .ok (some db') := by
  unfold checkCopy at h
  simp only [bind_eq_ok, check_eq_ok] at h
  obtain ⟨prev, hprev, hcheck, hstore⟩ := h
  refine ⟨prev, ?_, ?_, hstore⟩
  · intro held hheld
    rw [hheld] at hprev
    exact prevHash_eq_ok hprev
  · intro hev
    by_contra hne
    exact hcheck ⟨by simp [hev], fun heq => hne heq.symm⟩

theorem copyRecord_eq_ok (h : s.copyRecord lib db record = .ok (some db')) :
    ∃ row, Copies lib s db db' record row := by
  unfold Store.copyRecord at h
  simp only [bind_eq_ok, check_eq_ok, ofOption_eq_ok] at h
  obtain ⟨hown, given, -, entry, hentry, hash, hhash, h⟩ := h
  split at h
  · cases h
  · obtain ⟨prev, hbefore, hchain, hstore⟩ := checkCopy_eq_ok h
    obtain ⟨hfits, hfree, hsegments, hknows, hknown, hrecords⟩ := storeCopy_eq_ok hstore
    obtain ⟨-, hfilter⟩ := Option.filter_eq_some_iff.mp hentry
    have hpos : 0 < record.seq := by
      simp only [Bool.and_eq_true, decide_eq_true_eq] at hfilter
      exact hfilter.1
    refine ⟨rowOf lib record.origin record.stream record.seq.toNat entry hash prev record.evicted,
      ⟨⟨hrecords, hfree, hfits, ⟨by simp [rowOf], rfl⟩, hsegments, hknows, ?_⟩, rfl, rfl, rfl, hhash, hown, ?_, hknown, ?_⟩⟩
    · intro hev
      exact ⟨prev, entry, rfl, rowOf_entry .., hchain hev⟩
    · show 1 ≤ record.seq.toNat
      have := UInt64.lt_iff_toNat_lt.mp hpos
      rw [UInt64.toNat_zero] at this
      omega
    · intro held hheld
      rw [← hbefore held hheld]
      rfl

end

/-! ## What the tables keep -/

/-- The keys are unique and their streams known, and this host's own stream ends with the record the
daemon remembers. -/
structure Sound (origin stream : String) (db : Db) (chain : Chain) : Prop where
  own : ∀ r ∈ db.records, r.origin = origin → r.stream = stream →
    r.seq ≤ chain.seq ∧ (r.seq = chain.seq → r.hash = chain.hash)
  ownKnown : db.Knows origin stream
  pos : ∀ r ∈ db.records, 1 ≤ r.seq
  fits : ∀ r ∈ db.records, r.seq < 2 ^ 63
  known : ∀ r ∈ db.records, db.Knows r.origin r.stream
  unique : (db.records.map Row.key).Nodup

section

variable {lib : Lib} {origin stream : String} {db db' : Db} {chain : Chain} {row : Row}

theorem Adds.unique (ha : Adds lib db db' row) (h : (db.records.map Row.key).Nodup) :
    (db'.records.map Row.key).Nodup := by
  rw [ha.records, List.map_append, List.nodup_append]
  refine ⟨h, by simp, ?_⟩
  intro k hk k' hk'
  obtain ⟨r, hr, rfl⟩ := List.mem_map.mp hk
  simp only [List.map_cons, List.map_nil, List.mem_singleton] at hk'
  rw [hk']
  exact ha.free r hr

theorem Adds.mem (ha : Adds lib db db' row) {r : Row} (hr : r ∈ db'.records) :
    r ∈ db.records ∨ r = row := by
  rw [ha.records, List.mem_append, List.mem_singleton] at hr
  exact hr

/-- A new row keeps a chain if and only if the row that is held after it names its hash. -/
theorem Adds.chained_iff (ha : Adds lib db db' row) (h : Chained lib db)
    (hprev : ∀ r ∈ db.records, row.origin = r.origin → row.stream = r.stream →
      row.seq = r.seq + 1 → row.prev = some r.hash) :
    Chained lib db' ↔ ∀ next ∈ db.records, next.origin = row.origin → next.stream = row.stream →
      next.seq = row.seq + 1 → next.prev = some row.hash := by
  have hold : ∀ r ∈ db.records, r ∈ db'.records := by
    intro r hr
    rw [ha.records]
    exact List.mem_append_left _ hr
  have hnew : row ∈ db'.records := by
    rw [ha.records]
    simp
  constructor
  · intro h' next hnext ho hs hq
    exact h'.linked row hnew next (hold next hnext) ho hs hq
  · intro hnext
    refine ⟨?_, ?_⟩
    · intro r hr next hn ho hs hq
      rcases ha.mem hr with hr | rfl
      · rcases ha.mem hn with hn | rfl
        · exact h.linked r hr next hn ho hs hq
        · exact hprev r hr ho hs hq
      · rcases ha.mem hn with hn | rfl
        · exact hnext next hn ho hs hq
        · omega
    · intro r hr hev
      rcases ha.mem hr with hr | rfl
      · exact h.hashed r hr hev
      · exact ha.hashed hev

theorem Chained.mono (h : Chained lib db') (hsub : db.records ⊆ db'.records) : Chained lib db :=
  ⟨fun r hr next hn => h.linked r (hsub hr) next (hsub hn), fun r hr => h.hashed r (hsub hr)⟩

theorem Sound.hashBefore (h : Sound origin stream db chain) {r : Row} (hr : r ∈ db.records) :
    Records.hashBefore db r.origin r.stream (r.seq + 1) = some r.hash := by
  have hpos := h.pos r hr
  unfold Records.hashBefore
  rw [if_neg (by omega), Nat.add_sub_cancel]
  unfold Db.heldHash
  have hrow : db.row? (r.origin, r.stream, r.seq) = some r := Db.row?_of_mem h.unique hr
  rw [hrow, Option.map_some]

theorem Sound.back (h : Sound origin stream db chain)
    (hback : ∀ r ∈ db'.records, ∃ r0 ∈ db.records, r.key = r0.key ∧ r.hash = r0.hash)
    (hknows : ∀ origin stream, db.Knows origin stream → db'.Knows origin stream)
    (hu : (db'.records.map Row.key).Nodup) : Sound origin stream db' chain := by
  have hrows : ∀ r ∈ db'.records, ∃ r0 ∈ db.records,
      r.origin = r0.origin ∧ r.stream = r0.stream ∧ r.seq = r0.seq ∧ r.hash = r0.hash := by
    intro r hr
    obtain ⟨r0, hr0, hkey, hhash⟩ := hback r hr
    simp only [Row.key, Prod.mk.injEq] at hkey
    exact ⟨r0, hr0, hkey.1, hkey.2.1, hkey.2.2, hhash⟩
  refine ⟨?_, hknows _ _ h.ownKnown, ?_, ?_, ?_, hu⟩
  · intro r hr ho hs
    obtain ⟨r0, hr0, ho0, hs0, hq0, hh0⟩ := hrows r hr
    rw [hq0, hh0]
    exact h.own r0 hr0 (ho0 ▸ ho) (hs0 ▸ hs)
  · intro r hr
    obtain ⟨r0, hr0, -, -, hq0, -⟩ := hrows r hr
    rw [hq0]
    exact h.pos r0 hr0
  · intro r hr
    obtain ⟨r0, hr0, -, -, hq0, -⟩ := hrows r hr
    rw [hq0]
    exact h.fits r0 hr0
  · intro r hr
    obtain ⟨r0, hr0, ho0, hs0, -, -⟩ := hrows r hr
    rw [ho0, hs0]
    exact hknows _ _ (h.known r0 hr0)

/-! ### Copies -/

theorem Copies.sound (hc : Copies lib s db db' record row)
    (h : Sound s.origin s.stream db chain) : Sound s.origin s.stream db' chain := by
  refine ⟨?_, hc.knows _ _ h.ownKnown, ?_, ?_, ?_, hc.unique h.unique⟩
  · intro r hr ho hs
    rcases hc.mem hr with hr | rfl
    · exact h.own r hr ho hs
    · exact absurd ⟨ho, hs⟩ hc.foreign
  · intro r hr
    rcases hc.mem hr with hr | rfl
    · exact h.pos r hr
    · exact hc.pos
  · intro r hr
    rcases hc.mem hr with hr | rfl
    · exact h.fits r hr
    · exact hc.fits
  · intro r hr
    rcases hc.mem hr with hr | rfl
    · exact hc.knows _ _ (h.known r hr)
    · exact hc.known

theorem Copies.chained_iff {s : Store} {record : Record} (hc : Copies lib s db db' record row)
    (hs : Sound s.origin s.stream db chain) (h : Chained lib db) :
    Chained lib db' ↔ ∀ next ∈ db.records, next.origin = record.origin →
      next.stream = record.stream → next.seq = record.seq.toNat + 1 →
      next.prev = unhex record.hash := by
  rw [hc.toAdds.chained_iff h, hc.origin, hc.stream, hc.seq, hc.hash]
  intro r hr ho hst hq
  have hbefore := hs.hashBefore hr
  rw [← ho, ← hst, ← hq] at hbefore
  exact hc.follows _ hbefore

/-! ### The own stream -/

theorem appendEntry_eq_ok {chain' : Chain}
    (h : appendEntry lib origin stream (db, chain) entry = .ok (db', chain')) :
    ∃ row, Adds lib db db' row ∧ row.origin = origin ∧ row.stream = stream ∧
      row.seq = chain.seq + 1 ∧ row.prev = some chain.hash ∧ db'.streams = db.streams ∧
      chain' = ⟨row.seq, row.hash⟩ := by
  unfold appendEntry at h
  simp only [bind_eq_ok, pure_eq_ok] at h
  obtain ⟨db'', hins, heq⟩ := h
  obtain ⟨rfl, rfl⟩ := Prod.mk.inj heq
  obtain ⟨hfits, hfree, rfl⟩ := insertRow_eq_ok hins
  refine ⟨rowOf lib origin stream (chain.seq + 1) entry
    (lib.chainHash chain.hash origin stream (chain.seq + 1) entry) chain.hash false,
    ⟨rfl, hfree, hfits, ⟨by simp [rowOf], rfl⟩, rfl, fun _ _ hk => hk, fun _ => ?_⟩,
    rfl, rfl, rfl, rfl, rfl, rfl⟩
  exact ⟨chain.hash, entry, rfl, rowOf_entry .., rfl⟩

/-- An appended record follows the one the daemon remembers, and nothing is held after it. -/
theorem appendEntry_keeps {chain' : Chain}
    (h : appendEntry lib origin stream (db, chain) entry = .ok (db', chain'))
    (hs : Sound origin stream db chain) :
    Sound origin stream db' chain' ∧ (Chained lib db → Chained lib db') := by
  obtain ⟨row, ha, rfl, rfl, hseq, hprev, hstreams, rfl⟩ := appendEntry_eq_ok h
  have hnew : ∀ r ∈ db.records, r.origin = row.origin → r.stream = row.stream → r.seq < row.seq := by
    intro r hr ho hst
    have hle := (hs.own r hr ho hst).1
    omega
  refine ⟨⟨?_, ha.knows _ _ hs.ownKnown, ?_, ?_, ?_, ha.unique hs.unique⟩, ?_⟩
  · intro r hr ho hst
    rcases ha.mem hr with hr | rfl
    · have hlt := hnew r hr ho hst
      exact ⟨Nat.le_of_lt hlt, fun hseq => absurd hseq (Nat.ne_of_lt hlt)⟩
    · exact ⟨le_refl _, fun _ => rfl⟩
  · intro r hr
    rcases ha.mem hr with hr | rfl
    · exact hs.pos r hr
    · omega
  · intro r hr
    rcases ha.mem hr with hr | rfl
    · exact hs.fits r hr
    · exact ha.fits
  · intro r hr
    rcases ha.mem hr with hr | rfl
    · exact ha.knows _ _ (hs.known r hr)
    · exact ha.knows _ _ hs.ownKnown
  · intro hc
    refine (ha.chained_iff hc ?_).mpr ?_
    · intro r hr ho hst hq
      rw [hprev, (hs.own r hr ho.symm hst.symm).2 (by omega)]
    · intro next hn ho hst hq
      have hlt := hnew next hn ho hst
      omega

theorem append_keeps {entries : List Entry} (h : s.append lib entries = .ok s')
    (hs : Sound s.origin s.stream s.db s.chain) :
    Sound s'.origin s'.stream s'.db s'.chain ∧ (Chained lib s.db → Chained lib s'.db) := by
  unfold Store.append at h
  simp only [bind_eq_ok, pure_eq_ok] at h
  obtain ⟨⟨db', chain'⟩, hfold, rfl⟩ := h
  refine foldlM_invariant (fun state entry state' hI hstep => ?_) hfold
    (I := fun state => Sound s.origin s.stream state.1 state.2 ∧
      (Chained lib s.db → Chained lib state.1)) ⟨hs, fun h => h⟩
  obtain ⟨hsound, hchained⟩ := appendEntry_keeps hstep hI.1
  exact ⟨hsound, fun h => hchained (hI.2 h)⟩

/-! ### Batches -/

theorem copyNext_cases {inserted' : List Record}
    (h : s.copyNext lib (db, inserted) record = .ok (db', inserted')) :
    s.copyRecord lib db record = .ok none ∧ db' = db ∨ s.copyRecord lib db record = .ok (some db') := by
  unfold Store.copyNext at h
  simp only [bind_eq_ok] at h
  obtain ⟨answer, hcopy, hrest⟩ := h
  cases answer with
  | none =>
    simp only [pure_eq_ok, Prod.mk.injEq] at hrest
    exact .inl ⟨hcopy, hrest.1.symm⟩
  | some db'' =>
    simp only [pure_eq_ok, Prod.mk.injEq] at hrest
    exact .inr (hrest.1 ▸ hcopy)

theorem copyNext_keeps {state state' : Db × List Record}
    (h : s.copyNext lib state record = .ok state') (hs : Sound s.origin s.stream state.1 chain) :
    Sound s.origin s.stream state'.1 chain ∧ state.1.records ⊆ state'.1.records := by
  obtain ⟨db, inserted⟩ := state
  obtain ⟨db', inserted'⟩ := state'
  rcases copyNext_cases h with ⟨-, rfl⟩ | hcopy
  · exact ⟨hs, fun _ hr => hr⟩
  · obtain ⟨row, hc⟩ := copyRecord_eq_ok hcopy
    refine ⟨hc.sound hs, ?_⟩
    show db.records ⊆ db'.records
    rw [hc.records]
    exact List.subset_append_left _ _

theorem copies_keep {state state' : Db × List Record}
    (h : records.foldlM (s.copyNext lib) state = .ok state')
    (hs : Sound s.origin s.stream state.1 chain) :
    Sound s.origin s.stream state'.1 chain ∧ state.1.records ⊆ state'.1.records := by
  refine foldlM_invariant (fun st record st' hI hstep => ?_) h
    (I := fun st => Sound s.origin s.stream st.1 chain ∧ state.1.records ⊆ st.1.records)
    ⟨hs, fun _ hr => hr⟩
  obtain ⟨hsound, hsub⟩ := copyNext_keeps hstep hI.1
  exact ⟨hsound, fun _ hr => hsub (hI.2 hr)⟩

/-- A batch that is stored keeps the chains if and only if it fills no gap under a record that names
another hash. -/
theorem insertCopies_chained_iff (h : s.insertCopies lib records = .ok (s', inserted))
    (hs : Sound s.origin s.stream s.db s.chain) (hc : Chained lib s.db) :
    Chained lib s'.db ↔ SeamlessBatch lib s records := by
  unfold Store.insertCopies at h
  simp only [bind_eq_ok, pure_eq_ok] at h
  obtain ⟨⟨last, stored⟩, hfold, heq⟩ := h
  obtain ⟨rfl, rfl⟩ := Prod.mk.inj heq
  constructor
  · -- a row under one that names another hash stays, and with it the break
    rintro hlast before record after db taken db' rfl hbefore hcopy
    obtain ⟨⟨mid, taken'⟩, hmid, hafter⟩ := foldlM_append_eq_ok.mp hfold
    rw [hbefore] at hmid
    obtain ⟨rfl, rfl⟩ := Prod.mk.inj (Except.ok.inj hmid)
    have hsound := (copies_keep hbefore hs).1
    obtain ⟨⟨db1, taken1⟩, hnext, hrest⟩ := foldlM_cons_eq_ok.mp hafter
    obtain rfl : db1 = db' := by
      rcases copyNext_cases hnext with ⟨hnone, -⟩ | hsome
      · rw [hnone] at hcopy
        cases hcopy
      · rw [hsome] at hcopy
        exact Option.some.inj (Except.ok.inj hcopy)
    obtain ⟨row, hrow⟩ := copyRecord_eq_ok hcopy
    have hsub := (copies_keep hrest (hrow.sound hsound)).2
    have hdb1 : Chained lib db1 := hlast.mono hsub
    have hdb : Chained lib db := hdb1.mono (by rw [hrow.records]; exact List.subset_append_left _ _)
    exact (hrow.chained_iff hsound hdb).mp hdb1
  · -- by induction on the records taken so far
    intro hseam
    suffices hall : ∀ before after db taken, records = before ++ after →
        before.foldlM (s.copyNext lib) (s.db, []) = .ok (db, taken) → Chained lib db from
      hall records [] last stored (by simp) hfold
    intro before
    induction before using List.reverseRecOn with
    | nil =>
      rintro after db taken - hnil
      rw [List.foldlM_nil, pure_eq_ok] at hnil
      obtain ⟨rfl, -⟩ := Prod.mk.inj hnil
      exact hc
    | append_singleton before record ih =>
      rintro after db' taken' hrecords hsnoc
      obtain ⟨⟨db, taken⟩, hbefore, hnext⟩ := foldlM_snoc_eq_ok.mp hsnoc
      rw [List.append_assoc, List.singleton_append] at hrecords
      have hdb := ih (record :: after) db taken hrecords hbefore
      rcases copyNext_cases hnext with ⟨-, rfl⟩ | hcopy
      · exact hdb
      · obtain ⟨row, hrow⟩ := copyRecord_eq_ok hcopy
        have hsound := (copies_keep hbefore hs).1
        exact (hrow.chained_iff hsound hdb).mpr
          (hseam before record after db taken db' hrecords hbefore hcopy)

end

/-! ### Rows that are new -/

/-- Rows are only added, each with its body. -/
structure Grows (db db' : Db) : Prop where
  segments : db'.segments = db.segments
  rows : ∀ r ∈ db'.records, r ∈ db.records ∨ r.segment = none

theorem Grows.refl (db : Db) : Grows db db := ⟨rfl, fun _ hr => .inl hr⟩

theorem Grows.trans {db db' db'' : Db} (h : Grows db db') (h' : Grows db' db'') : Grows db db'' := by
  refine ⟨h'.segments.trans h.segments, ?_⟩
  intro r hr
  rcases h'.rows r hr with hr | hnew
  · exact h.rows r hr
  · exact .inr hnew

theorem Adds.grows {row : Row} (h : Adds lib db db' row) : Grows db db' := by
  refine ⟨h.segments, ?_⟩
  intro r hr
  rcases h.mem hr with hr | rfl
  · exact .inl hr
  · exact .inr h.inline.2

theorem append_grows {entries : List Entry}
    (h : s.append lib entries = .ok s') : Grows s.db s'.db ∧ s'.segments = s.segments := by
  unfold Store.append at h
  simp only [bind_eq_ok, pure_eq_ok] at h
  obtain ⟨⟨db', chain'⟩, hfold, rfl⟩ := h
  refine ⟨?_, rfl⟩
  refine foldlM_invariant (fun state entry state' hI hstep => ?_) hfold
    (I := fun state => Grows s.db state.1) (Grows.refl _)
  obtain ⟨row, hadds, -⟩ := appendEntry_eq_ok hstep
  exact hI.trans hadds.grows

theorem insertCopies_grows (h : s.insertCopies lib records = .ok (s', inserted)) :
    Grows s.db s'.db ∧ s'.segments = s.segments := by
  unfold Store.insertCopies at h
  simp only [bind_eq_ok, pure_eq_ok] at h
  obtain ⟨⟨last, stored⟩, hfold, heq⟩ := h
  obtain ⟨rfl, rfl⟩ := Prod.mk.inj heq
  refine ⟨?_, rfl⟩
  refine foldlM_invariant (fun state record state' hI hstep => ?_) hfold
    (I := fun state => Grows s.db state.1) (Grows.refl _)
  obtain ⟨db, taken⟩ := state
  obtain ⟨db', taken'⟩ := state'
  rcases copyNext_cases hstep with ⟨-, rfl⟩ | hcopy
  · exact hI
  · obtain ⟨row, hrow⟩ := copyRecord_eq_ok hcopy
    exact hI.trans hrow.grows

/-! ## Runs -/

section

variable {lib : Lib} {s : Store}

theorem open_sound {nowMs : Int64} (h : Store.open_ s.db s.segments s.origin stream nowMs = .ok s')
    (hs : Sound s.origin s.stream s.db s.chain) :
    Sound s'.origin s'.stream s'.db s'.chain ∧ s'.db.records = s.db.records := by
  unfold Store.open_ at h
  split at h
  · cases h
  · rename_i hnew
    obtain rfl := (Except.ok.inj h).symm
    have hknows : ∀ origin' stream', s.db.Knows origin' stream' →
        Db.Knows { s.db with streams := s.db.streams ++ [⟨s.origin, stream, nowMs, 0⟩] }
          origin' stream' := by
      rintro origin' stream' ⟨row, hrow, hp⟩
      exact ⟨row, List.mem_append_left _ hrow, hp⟩
    refine ⟨⟨?_, ?_, hs.pos, hs.fits, fun r hr => hknows _ _ (hs.known r hr), hs.unique⟩, rfl⟩
    · -- a stream that has records is known, and the new one is not
      intro r hr ho hst
      have hk := hs.known r hr
      rw [ho, hst] at hk
      obtain ⟨row, hrow⟩ := Db.stream?_isSome hk
      rw [hnew] at hrow
      cases hrow
    · exact ⟨⟨s.origin, stream, nowMs, 0⟩, by simp, rfl, rfl⟩

theorem insertCopies_sound (h : s.insertCopies lib records = .ok (s', inserted))
    (hs : Sound s.origin s.stream s.db s.chain) : Sound s'.origin s'.stream s'.db s'.chain := by
  unfold Store.insertCopies at h
  simp only [bind_eq_ok, pure_eq_ok] at h
  obtain ⟨⟨last, stored⟩, hfold, heq⟩ := h
  obtain ⟨rfl, rfl⟩ := Prod.mk.inj heq
  exact (copies_keep hfold hs).1

theorem write_grows (w : Write) :
    Grows s.db (s.write lib w).db ∧ (s.write lib w).segments = s.segments := by
  cases w with
  | append entries =>
    unfold Store.write
    dsimp only
    split
    · rename_i s' h
      exact append_grows h
    · exact ⟨Grows.refl _, rfl⟩
  | insertCopies records =>
    unfold Store.write
    dsimp only
    split
    · rename_i s' inserted h
      exact insertCopies_grows h
    · exact ⟨Grows.refl _, rfl⟩
  | keepFrom ms => exact ⟨Grows.refl _, rfl⟩
  | reopen stream nowMs =>
    unfold Store.write
    dsimp only
    split
    · rename_i s' h
      unfold Store.open_ at h
      split at h
      · cases h
      · obtain rfl := (Except.ok.inj h).symm
        exact ⟨⟨rfl, fun _ hr => .inl hr⟩, rfl⟩
    · exact ⟨Grows.refl _, rfl⟩

theorem write_sound (hs : Sound s.origin s.stream s.db s.chain) (w : Write) :
    Sound (s.write lib w).origin (s.write lib w).stream (s.write lib w).db (s.write lib w).chain := by
  cases w with
  | append entries =>
    unfold Store.write
    dsimp only
    split
    · rename_i s' h
      exact (append_keeps h hs).1
    · exact hs
  | insertCopies records =>
    unfold Store.write
    dsimp only
    split
    · rename_i s' inserted h
      exact insertCopies_sound h hs
    · exact hs
  | keepFrom ms => exact ⟨hs.own, hs.ownKnown, hs.pos, hs.fits, hs.known, hs.unique⟩
  | reopen stream nowMs =>
    unfold Store.write
    dsimp only
    split
    · rename_i s' h
      exact (open_sound h hs).1
    · exact hs

/-- A write keeps the chains if and only if it is seamless. -/
theorem write_chained_iff (hs : Sound s.origin s.stream s.db s.chain) (hc : Chained lib s.db)
    (w : Write) : Chained lib (s.write lib w).db ↔ w.Seamless lib s := by
  cases w with
  | append entries =>
    refine iff_of_true ?_ trivial
    unfold Store.write
    dsimp only
    split
    · rename_i s' h
      exact (append_keeps h hs).2 hc
    · exact hc
  | insertCopies records =>
    unfold Store.write Write.Seamless
    dsimp only
    split
    · rename_i s' inserted h
      rw [insertCopies_chained_iff h hs hc]
      exact ⟨fun hseam _ => hseam, fun hseam => hseam ⟨_, h⟩⟩
    · rename_i e h
      refine iff_of_true hc ?_
      rintro ⟨answer, hanswer⟩
      rw [h] at hanswer
      cases hanswer
  | keepFrom ms => exact iff_of_true hc trivial
  | reopen stream nowMs =>
    refine iff_of_true ?_ trivial
    unfold Store.write
    dsimp only
    split
    · rename_i s' h
      exact hc.mono (by rw [(open_sound h hs).2]; exact fun _ hr => hr)
    · exact hc

theorem fresh_sound (origin stream : String) (nowMs : Int64) :
    Sound origin stream (Store.fresh origin stream nowMs).db ⟨0, zeroHash⟩ := by
  refine ⟨?_, ⟨_, List.mem_singleton_self _, rfl, rfl⟩, ?_, ?_, ?_, List.nodup_nil⟩
  all_goals
    intro r hr
    cases hr

theorem fresh_chained (origin stream : String) (nowMs : Int64) :
    Chained lib (Store.fresh origin stream nowMs).db := by
  refine ⟨?_, ?_⟩
  all_goals
    intro r hr
    cases hr

@[simp] theorem Store.run_snoc (writes : List Write) (w : Write) :
    s.run lib (writes ++ [w]) = (s.run lib writes).write lib w := by
  simp [Store.run]

theorem run_sound (hs : Sound s.origin s.stream s.db s.chain) (writes : List Write) :
    Sound (s.run lib writes).origin (s.run lib writes).stream (s.run lib writes).db
      (s.run lib writes).chain := by
  induction writes using List.reverseRecOn with
  | nil => exact hs
  | append_singleton writes w ih =>
    rw [Store.run_snoc]
    exact write_sound ih w

/-- The streams are chains in every store that a run of writes reaches if and only if no batch of
the run fills a gap under a record that names another hash. -/
theorem chained_iff_seamless (lib : Lib) (origin stream : String) (nowMs : Int64)
    (writes : List Write) :
    (∀ before after, writes = before ++ after →
      Chained lib ((Store.fresh origin stream nowMs).run lib before).db) ↔
    ∀ before w after, writes = before ++ w :: after →
      w.Seamless lib ((Store.fresh origin stream nowMs).run lib before) := by
  have hsound := @run_sound lib (Store.fresh origin stream nowMs) (fresh_sound origin stream nowMs)
  constructor
  · rintro hall before w after rfl
    have hnext := hall (before ++ [w]) after (by simp)
    rw [Store.run_snoc] at hnext
    exact (write_chained_iff (hsound before) (hall before (w :: after) rfl) w).mp hnext
  · intro hall before
    induction before using List.reverseRecOn with
    | nil =>
      intro after _
      exact fresh_chained origin stream nowMs
    | append_singleton before w ih =>
      intro after hwrites
      rw [List.append_assoc, List.singleton_append] at hwrites
      rw [Store.run_snoc]
      exact (write_chained_iff (hsound before) (ih (w :: after) hwrites) w).mpr
        (hall before w after hwrites)

end

/-! ### A gap filled with another record -/

/-- A placeholder of an evicted record, as a peer sends it: nothing ties its hash to a content. -/
def placeholder (seq : UInt64) (hash prev : Char) : Record where
  origin := "mox2"
  stream := "1-0a"
  seq := seq
  timeMs := 0
  kind := "log"
  job := none
  jobSeq := none
  body := ""
  hash := String.ofList (List.replicate 64 hash)
  prev := some (String.ofList (List.replicate 64 prev))
  evicted := true

/-- Record 3 arrives before record 2, and names another record 2 than the one that comes. -/
def gapWrites : List Write :=
  [.insertCopies [placeholder 3 '3' '2'], .insertCopies [placeholder 2 '5' '1']]

def filledWith (byte : UInt8) : Hash := ⟨List.replicate 32 byte, List.length_replicate ..⟩

theorem unhexBytes_replicate {digit : Char} {byte : UInt8} (h : hexByte digit digit = some byte) (n : Nat) :
    unhexBytes (List.replicate (2 * n) digit) = some (List.replicate n byte) := by
  induction n with
  | zero => rfl
  | succ n ih =>
    rw [show 2 * (n + 1) = 2 * n + 2 by omega]
    simp only [List.replicate_succ, unhexBytes, h, ih, Option.bind_eq_bind, Option.bind_some,
      Option.pure_def]

theorem unhex_filledWith {digit : Char} {byte : UInt8} (h : hexByte digit digit = some byte)
    (hsize : digit.utf8Size = 1) :
    unhex (String.ofList (List.replicate 64 digit)) = some (filledWith byte) := by
  have hlen : Text.len (String.ofList (List.replicate 64 digit)) = 64 := by
    rw [Text.len, String.toList_ofList, List.map_replicate, hsize, List.sum_replicate]
    rfl
  have hbytes : unhexBytes (List.replicate 64 digit) = some (List.replicate 32 byte) :=
    unhexBytes_replicate h 32
  rw [unhex, if_neg (not_not.mpr hlen), String.toList_ofList, hbytes]
  rfl

/-- The tables of a host that holds these rows of the stream and no others. -/
def placeholderDb (rows : List Row) : Db :=
  { (Store.fresh "mox1" "1-0b" 0).db with
    streams := (Store.fresh "mox1" "1-0b" 0).db.streams ++ [⟨"mox2", "1-0a", 1, 0⟩]
    records := rows }

theorem copyRecord_placeholder {seq : UInt64} {hash prev : Char} {byte before : UInt8}
    (hhash : unhex (String.ofList (List.replicate 64 hash)) = some (filledWith byte))
    (hprev : unhex (String.ofList (List.replicate 64 prev)) = some (filledWith before)) (hseq : 0 < seq)
    (hpos : 0 < seq.toInt64.toInt) (hfloor : db.floor "mox2" "1-0a" = 0)
    (hcheck : checkCopy lib db (placeholder seq hash prev) ⟨0, .log, none, ""⟩ (filledWith byte)
      (some (filledWith before)) = .ok (some db')) :
    (Store.fresh "mox1" "1-0b" 0).copyRecord lib db (placeholder seq hash prev) = .ok (some db') := by
  have hown : ¬ ("mox2" = "mox1" ∧ "1-0a" = "1-0b") := by decide
  have hkept : ¬ (seq.toInt64.toInt ≤ db.floor "mox2" "1-0a" ∨
      (0 : Int64) < (Store.fresh "mox1" "1-0b" 0).keepFromMs) := by
    rw [hfloor, not_or]
    exact ⟨not_le.mpr hpos, by decide⟩
  unfold Store.copyRecord
  refine check_eq_ok.mpr ⟨hown, bind_eq_ok.mpr ⟨some (filledWith before), ?_, bind_eq_ok.mpr
    ⟨⟨0, .log, none, ""⟩, ofOption_eq_ok.mpr (Option.filter_eq_some_iff.mpr ⟨rfl, ?_⟩),
      bind_eq_ok.mpr ⟨filledWith byte, ofOption_eq_ok.mpr hhash, (if_neg hkept).trans hcheck⟩⟩⟩⟩
  · show (ofOption (unhex (String.ofList (List.replicate 64 prev))) _).map some = _
    rw [hprev]
    rfl
  · exact Bool.and_eq_true_iff.mpr ⟨decide_eq_true hseq, rfl⟩

def thirdRow (lib : Lib) : Row :=
  rowOf lib "mox2" "1-0a" 3 ⟨0, .log, none, ""⟩ (filledWith 0x33) (filledWith 0x22) true

def secondRow (lib : Lib) : Row :=
  rowOf lib "mox2" "1-0a" 2 ⟨0, .log, none, ""⟩ (filledWith 0x55) (filledWith 0x11) true

theorem copyRecord_third (lib : Lib) : (Store.fresh "mox1" "1-0b" 0).copyRecord lib
    (Store.fresh "mox1" "1-0b" 0).db (placeholder 3 '3' '2') = .ok (some (placeholderDb [thirdRow lib])) :=
  copyRecord_placeholder (@unhex_filledWith '3' 0x33 (by decide) rfl)
    (@unhex_filledWith '2' 0x22 (by decide) rfl) (by decide) (by decide) rfl rfl

/-- Record 2 comes after record 3. -/
theorem copyRecord_second (lib : Lib) : (Store.fresh "mox1" "1-0b" 0).copyRecord lib
    (placeholderDb [thirdRow lib]) (placeholder 2 '5' '1') =
      .ok (some (placeholderDb [thirdRow lib, secondRow lib])) :=
  copyRecord_placeholder (@unhex_filledWith '5' 0x55 (by decide) rfl)
    (@unhex_filledWith '1' 0x11 (by decide) rfl) (by decide) (by decide) rfl rfl

theorem insertCopies_one (h : s.copyRecord lib s.db record = .ok (some db)) :
    s.write lib (.insertCopies [record]) = { s with db } := by
  simp only [Store.write, Store.insertCopies, List.foldlM_cons, List.foldlM_nil, Store.copyNext, h,
    ok_bind, pure_bind]
  rfl

theorem gapWrites_records (lib : Lib) :
    ((Store.fresh "mox1" "1-0b" 0).run lib gapWrites).db.records = [thirdRow lib, secondRow lib] := by
  have hsecond : Store.write lib { Store.fresh "mox1" "1-0b" 0 with db := placeholderDb [thirdRow lib] }
      (.insertCopies [placeholder 2 '5' '1']) = _ :=
    insertCopies_one (copyRecord_second lib)
  rw [gapWrites, Store.run, List.foldl_cons, List.foldl_cons, List.foldl_nil,
    insertCopies_one (copyRecord_third lib), hsecond]
  rfl

theorem not_chained : ¬ ∃ lib : Lib, ∀ (origin stream : String) (nowMs : Int64)
    (writes : List Write), Chained lib ((Store.fresh origin stream nowMs).run lib writes).db := by
  rintro ⟨lib, hall⟩
  have hlinked := (hall "mox1" "1-0b" 0 gapWrites).linked
  rw [gapWrites_records] at hlinked
  have hbreak : some (filledWith 0x22) = some (filledWith 0x55) :=
    hlinked _ (.tail _ (.head _)) _ (.head _) rfl rfl rfl
  exact absurd hbreak (by decide)

end Bmac.Records
