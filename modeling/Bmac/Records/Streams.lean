import Bmac.Records.Chain
import Bmac.Records.Segments

/-!
# The streams of a host

Each start of `bmacd` opens a stream, to which it appends and which its subscribers get. What a reader
finds of a stream is its `content`; the streams after one are those with a later row of `streams`, by
the clock's readings when they were opened.
-/

namespace Bmac.Records

open Bmac.Base Bmac.Core

/-! ## Streams by their start -/

/-- A row of `streams`, with its row number. -/
abbrev NumberedStream := StreamRow × Nat

/-- `(started_ms, rowid)` in order. -/
def startedBefore (a b : NumberedStream) : Bool :=
  a.1.startedMs < b.1.startedMs || (a.1.startedMs = b.1.startedMs && a.2 < b.2)

def Db.numbered (db : Db) (origin : String) : List NumberedStream :=
  db.streams.zipIdx.filter (·.1.origin = origin)

/-- This host's streams started after `stream`, oldest first; none if `stream` isn't one of its
own. -/
def laterStreams (db : Db) (origin stream : String) : Option (List String) :=
  ((db.numbered origin).find? (·.1.stream = stream)).map fun asked =>
    (((db.numbered origin).filter (startedBefore asked)).insertionSort
      fun a b => !startedBefore b a).map (·.1.stream)

def Db.opened (db : Db) (origin : String) : List String :=
  (db.streams.filter (·.origin = origin)).map (·.stream)

def openedAfter (stream : String) (opened : List String) : List String :=
  (opened.dropWhile (· ≠ stream)).tail

section

variable {db : Db} {origin stream : String} {a b : NumberedStream} {rows : List NumberedStream}

theorem startedBefore_iff : startedBefore a b = true ↔
    a.1.startedMs < b.1.startedMs ∨ (a.1.startedMs = b.1.startedMs ∧ a.2 < b.2) := by
  simp [startedBefore]

theorem startedBefore_asymm (h : startedBefore a b = true) : startedBefore b a = false := by
  rw [Bool.eq_false_iff, Ne, startedBefore_iff]
  rw [startedBefore_iff] at h
  simp only [Int64.lt_iff_toInt_lt, ← Int64.toInt_inj] at h ⊢
  omega

theorem Db.numbered_map (db : Db) (origin : String) :
    (db.numbered origin).map (·.1.stream) = db.opened origin := by
  have hrows : (db.streams.zipIdx.map Prod.fst).filter (·.origin = origin) =
      (db.numbered origin).map Prod.fst := List.filter_map
  unfold Db.opened
  rw [← List.zipIdx_map_fst 0 db.streams, hrows, List.map_map]
  rfl

theorem filter_startedBefore {before after : List NumberedStream}
    (h : (before ++ a :: after).Pairwise (startedBefore · ·)) :
    (before ++ a :: after).filter (startedBefore a) = after := by
  obtain ⟨-, hafter, hacross⟩ := List.pairwise_append.mp h
  obtain ⟨hfollow, -⟩ := List.pairwise_cons.mp hafter
  have hself : startedBefore a a = false := by
    rw [Bool.eq_false_iff, Ne, startedBefore_iff]
    simp
  rw [List.filter_append, List.filter_cons, hself, if_neg (by simp), List.filter_eq_nil_iff.mpr,
    List.nil_append, List.filter_eq_self.mpr hfollow]
  intro b hb
  rw [startedBefore_asymm (hacross b hb a (List.mem_cons_self ..))]
  decide

theorem insertionSort_startedBefore (h : rows.Pairwise (startedBefore · ·)) :
    rows.insertionSort (fun a b => !startedBefore b a) = rows := by
  refine List.Pairwise.insertionSort_eq (h.imp fun hab => ?_)
  rw [startedBefore_asymm hab]
  rfl

/-- Where each stream started no earlier than those opened before it, the later streams are those that
were opened after. -/
theorem laterStreams_eq (h : (db.numbered origin).Pairwise (startedBefore · ·)) :
    laterStreams db origin stream =
      if stream ∈ db.opened origin then some (openedAfter stream (db.opened origin)) else none := by
  unfold laterStreams openedAfter
  rw [← Db.numbered_map]
  cases hfind : (db.numbered origin).find? (·.1.stream = stream) with
  | none =>
    rw [if_neg, Option.map_none]
    intro hmem
    obtain ⟨a, ha, hstream⟩ := List.mem_map.mp hmem
    exact absurd hstream (by simpa using List.find?_eq_none.mp hfind a ha)
  | some a =>
    obtain ⟨hstream, before, after, heq, hbefore⟩ := List.find?_eq_some_iff_append.mp hfind
    have hstream : a.1.stream = stream := by simpa using hstream
    rw [if_pos, Option.map_some, heq, filter_startedBefore (heq ▸ h)]
    · rw [heq] at h
      rw [insertionSort_startedBefore (List.pairwise_cons.mp (List.pairwise_append.mp h).2.1).2,
        List.map_append, List.map_cons, List.dropWhile_append_of_pos, List.dropWhile_cons_of_neg,
        List.tail_cons]
      · simpa using hstream
      · intro name hname
        obtain ⟨b, hb, rfl⟩ := List.mem_map.mp hname
        simpa using hbefore b hb
    · rw [heq]
      exact List.mem_map.mpr ⟨a, List.mem_append_right _ (List.mem_cons_self ..), hstream⟩

end

/-! ## What a stream holds -/

def Db.rowsOf (db : Db) (origin stream : String) : List Row :=
  db.records.filter fun r => r.origin = origin ∧ r.stream = stream

def Db.content (db : Db) (origin stream : String) : List Record :=
  (db.rowsOf origin stream).map fun r => r.record (r.body.getD "")

def Lib.appended (lib : Lib) (origin stream : String) : Chain → List Entry → List Record
  | _, [] => []
  | chain, entry :: entries =>
    let seq := chain.seq + 1
    let hash := lib.chainHash chain.hash origin stream seq entry
    { origin, stream, seq := UInt64.ofNat seq, timeMs := entry.timeMs, kind := entry.kind.asStr
      job := entry.job.map (·.1), jobSeq := entry.job.map (·.2), body := entry.body
      hash := hex hash, prev := some (hex chain.hash), evicted := false } ::
      lib.appended origin stream ⟨seq, hash⟩ entries

/-- Rows that continue a stream after the row `n`, with their bodies. -/
structure Continues (origin stream : String) (n : Nat) (rows : List Row) : Prop where
  of : ∀ r ∈ rows, r.origin = origin ∧ r.stream = stream ∧ r.body.isSome = true ∧ r.seq < 2 ^ 63
  seqs : rows.map Row.seq = List.range' (n + 1) rows.length

section

variable {lib : Lib} {codec : Codec} {s s' : Store} {db db' : Db} {origin stream : String}
  {chain chain' : Chain} {entries : List Entry} {rows : List Row} {n : Nat} {after : UInt64}

theorem appendAll_eq_ok
    (h : entries.foldlM (appendEntry lib origin stream) (db, chain) = .ok (db', chain')) :
    ∃ rows, db' = { db with records := db.records ++ rows } ∧
      Continues origin stream chain.seq rows ∧ chain'.seq = chain.seq + rows.length ∧
      rows.map (fun r => r.record (r.body.getD "")) = lib.appended origin stream chain entries := by
  induction entries generalizing db chain with
  | nil =>
    rw [List.foldlM_nil, pure_eq_ok] at h
    obtain ⟨rfl, rfl⟩ := Prod.mk.inj h
    exact ⟨[], by rw [List.append_nil], ⟨List.forall_mem_nil _, rfl⟩, rfl, rfl⟩
  | cons entry entries ih =>
    obtain ⟨⟨db1, chain1⟩, hfirst, hrest⟩ := foldlM_cons_eq_ok.mp h
    unfold appendEntry at hfirst
    simp only [bind_eq_ok, pure_eq_ok] at hfirst
    obtain ⟨db2, hins, heq⟩ := hfirst
    obtain ⟨rfl, rfl⟩ := Prod.mk.inj heq
    obtain ⟨hfits, -, rfl⟩ := insertRow_eq_ok hins
    obtain ⟨rows, rfl, hcontinues, hlast, hrecords⟩ := ih hrest
    refine ⟨rowOf lib origin stream (chain.seq + 1) entry
      (lib.chainHash chain.hash origin stream (chain.seq + 1) entry) chain.hash false :: rows,
      ?_, ⟨?_, ?_⟩, ?_, ?_⟩
    · rw [List.append_assoc, List.singleton_append]
    · intro r hr
      rcases List.mem_cons.mp hr with rfl | hr
      · exact ⟨rfl, rfl, rfl, hfits⟩
      · exact hcontinues.of r hr
    · rw [List.map_cons, hcontinues.seqs, List.length_cons, List.range'_succ]
      rfl
    · rw [hlast, List.length_cons, Nat.add_right_comm, Nat.add_assoc]
    · rw [List.map_cons, hrecords, Lib.appended]
      congr 1
      unfold rowOf Row.record
      cases entry.job <;> simp

theorem append_eq_ok (h : s.append lib entries = .ok s') :
    ∃ rows chain', s' = { s with db := { s.db with records := s.db.records ++ rows }, chain := chain' } ∧
      Continues s.origin s.stream s.chain.seq rows ∧ chain'.seq = s.chain.seq + rows.length ∧
      rows.map (fun r => r.record (r.body.getD "")) =
        lib.appended s.origin s.stream s.chain entries := by
  unfold Store.append at h
  simp only [bind_eq_ok, pure_eq_ok] at h
  obtain ⟨⟨db', chain'⟩, hfold, rfl⟩ := h
  obtain ⟨rows, rfl, hrest⟩ := appendAll_eq_ok hfold
  exact ⟨rows, chain', rfl, hrest⟩

theorem Continues.seq_getElem {i : Nat} (h : Continues origin stream n rows) (hi : i < rows.length) :
    rows[i].seq = n + 1 + i := by
  have hget : (rows.map Row.seq)[i]? = (List.range' (n + 1) rows.length)[i]? := by
    rw [h.seqs]
  rw [List.getElem?_map, List.getElem?_eq_getElem hi, List.getElem?_range' hi, Option.map_some,
    Option.some.injEq] at hget
  omega

/-- The records of a stream without gaps are numbered. -/
theorem Continues.content_seq {i : Nat} (h : Continues origin stream n (db.rowsOf origin stream))
    (hi : i < (db.content origin stream).length) :
    (db.content origin stream)[i].seq.toNat = n + 1 + i ∧ n + 1 + i < 2 ^ 63 := by
  have hi' : i < (db.rowsOf origin stream).length := by
    unfold Db.content at hi
    rwa [List.length_map] at hi
  have hseq := h.seq_getElem hi'
  have hfits := (h.of _ (List.getElem_mem hi')).2.2.2
  have hrecord : (db.content origin stream)[i].seq =
      UInt64.ofNat (db.rowsOf origin stream)[i].seq := by
    simp only [Db.content, List.getElem_map]
    rfl
  rw [hrecord, UInt64.toNat_ofNat', hseq]
  omega

/-! ## Reading a page -/

/-- In a stream without gaps, the rows after a number are those after that position. -/
theorem filter_lt_eq_drop {m : Nat} (h : rows.map Row.seq = List.range' (n + 1) rows.length) :
    rows.filter (m < ·.seq) = rows.drop (m - n) := by
  induction rows generalizing n with
  | nil => rw [List.filter_nil, List.drop_nil]
  | cons r rows ih =>
    rw [List.map_cons, List.length_cons, List.range'_succ] at h
    obtain ⟨hseq, hrest⟩ := List.cons.inj h
    rw [List.filter_cons, ih hrest]
    by_cases hm : m < r.seq
    · rw [if_pos (by simpa using hm), show m - (n + 1) = 0 by omega, show m - n = 0 by omega]
      rfl
    · rw [if_neg (by simpa using hm), show m - n = (m - (n + 1)) + 1 by omega, List.drop_succ_cons]

theorem readAll_inline (hinline : ∀ r ∈ rows, r.body.isSome = true) (out : List Record)
    (cache : FrameCache) : rows.foldlM (readNext codec s) (out, cache) =
      .ok (out ++ rows.map fun r => r.record (r.body.getD ""), cache) := by
  induction rows generalizing out with
  | nil => rw [List.foldlM_nil, List.map_nil, List.append_nil]; rfl
  | cons r rows ih =>
    obtain ⟨body, hbody⟩ := Option.isSome_iff_exists.mp (hinline r (List.mem_cons_self ..))
    have hnext : readNext codec s (out, cache) r = .ok (out ++ [r.record body], cache) := by
      unfold readNext bodyOf
      rw [hbody]
      rfl
    rw [List.foldlM_cons, hnext, ok_bind, ih fun r hr => hinline r (List.mem_cons_of_mem _ hr),
      List.map_cons, hbody, List.append_assoc]
    rfl

/-- A page of a stream without gaps, whose bodies are in their rows. -/
theorem readRecords_eq {limit : UInt64} (h : Continues origin stream 0 (s.db.rowsOf origin stream))
    (hafter : after.toNat < 2 ^ 63) (hlimit : limit.toNat < 2 ^ 63) :
    readRecords codec s origin stream after limit =
      .ok (((s.db.content origin stream).drop after.toNat).take limit.toNat) := by
  have hint : ∀ u : UInt64, u.toNat < 2 ^ 63 → u.toInt64.toInt = u.toNat := by
    intro u hu
    show BitVec.toInt u.toBitVec = _
    rw [BitVec.toInt_eq_toNat_of_lt (by show 2 * u.toNat < _; omega)]
    rfl
  have hrows : recordRows s.db origin stream after limit =
      ((s.db.rowsOf origin stream).drop after.toNat).take limit.toNat := by
    have hfilter : (s.db.records.filter fun r =>
        r.origin = origin ∧ r.stream = stream ∧ after.toInt64.toInt < r.seq) =
        (s.db.rowsOf origin stream).drop after.toNat := by
      rw [show after.toNat = after.toNat - 0 by omega, ← filter_lt_eq_drop h.seqs, Db.rowsOf,
        List.filter_filter]
      refine List.filter_congr fun r _ => ?_
      rw [hint after hafter]
      grind
    unfold recordRows sqlLimit
    rw [hfilter, hint limit hlimit, if_neg (by omega), List.Pairwise.insertionSort_eq]
    have hseqs : ((s.db.rowsOf origin stream).map Row.seq).Pairwise (· ≤ ·) := by
      rw [h.seqs]
      exact (List.pairwise_lt_range' _).imp Nat.le_of_lt
    exact (List.pairwise_map.mp hseqs).drop
  unfold readRecords
  rw [hrows, readAll_inline]
  · rw [ok_bind, List.nil_append, List.map_take, List.map_drop]
    rfl
  · intro r hr
    exact (h.of r (List.mem_of_mem_drop (List.mem_of_mem_take hr))).2.2.1

end

end Bmac.Records
