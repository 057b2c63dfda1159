import Mathlib.Data.Prod.Lex
import Mathlib.Data.String.Basic
import Bmac.Base.Lines
import Bmac.Records.Store

/-!
# Segments

A finished job's events move out of the `records` table into compressed frames of a segment file,
several events to a frame and each on a line of its text: origin, stream, sequence and body,
separated by tabs (`compact` and `read_frame` of `bmacd/src/store.rs`). Readers find a body by its
key in the frame its row names.

Compaction may stop at any point; the point is an argument: after how many committed frames, and
with how many bytes of the next one written.
-/

namespace Bmac.Records

open Bmac.Base Bmac.Base.Lines Bmac.Core

def frameBytes : Nat := 256 * 1024
def compactOver : Nat := 64 * 1024
/-- Bytes of events one page returns at most, beyond its first event. -/
def pageBytes : Nat := 1024 * 1024
/-- What a frame's text may hold beyond its bodies. -/
def frameSlack : Nat := 64 * 1024 * 1024

/-- The deflate codec. -/
structure Codec where
  deflate : List UInt8 → List UInt8
  inflate : List UInt8 → Option (List UInt8)
  inflate_deflate : ∀ data, inflate (deflate data) = some data

theorem Codec.some_id (data : List UInt8) : some (id data) = some data := rfl

/-! ## Compaction -/

/-- `ORDER BY job_seq, origin, stream, seq`; no `job_seq` comes first. -/
def Row.order (r : Row) : (Nat ×ₗ Int) ×ₗ String ×ₗ String ×ₗ Nat :=
  let jobSeq := match r.jobSeq with
    | some n => toLex (1, n.toInt)
    | none => toLex (0, 0)
  toLex (jobSeq, toLex (r.origin, toLex (r.stream, r.seq)))

def compactPlan (db : Db) (job : JobId) : List (Key × Nat) :=
  let rows := db.records.filter fun r => r.job = some job ∧ r.kind = .jobEvent ∧ r.body ≠ none
  (rows.insertionSort fun a b => a.order ≤ b.order).map fun r => (r.key, Text.len (r.body.getD ""))

structure Split where
  done : List (List Key) := []
  last : List Key := []
  size : Nat := 0

def splitNext (split : Split) : Key × Nat → Split
  | (key, len) =>
    if split.size + len > frameBytes ∧ split.last ≠ [] then ⟨split.done ++ [split.last], [key], len⟩
    else ⟨split.done, split.last ++ [key], split.size + len⟩

def splitFrames (plan : List (Key × Nat)) : List (List Key) :=
  let split := plan.foldl splitNext {}
  split.done ++ [split.last]

/-- One event in a frame, without its newline. -/
def frameLine (event : Key × String) : List Char :=
  let ((origin, stream, seq), body) := event
  origin.toList ++ '\t' :: (stream.toList ++ '\t' :: (seq.repr.toList ++ '\t' :: body.toList))

def frameText (events : List (Key × String)) : List Char := unlines (events.map frameLine)

def rawBytes (events : List (Key × String)) : Nat := (events.map fun e => Text.len e.2).sum

/-- `SELECT body FROM records`. -/
def selectBody (db : Db) (key : Key) : Except StoreError (Key × String) :=
  match (db.row? key).bind (·.body) with
  | some body => .ok (key, body)
  | none => .error (.db "Query returned no rows")

/-- `file.write_all` on a file opened for appending, which creates it. -/
def Store.appendFile (s : Store) (name : String) (bytes : List UInt8) : Store :=
  { s with segments := Function.update s.segments name (some ((s.segments name).getD [] ++ bytes)) }

def nextSegmentId (segments : List SegmentRow) : Nat := (segments.map (·.id)).foldl max 0 + 1

def Row.moveTo (segment : Nat) (r : Row) : Row := { r with body := none, segment := some segment }

def Db.commitFrame (db : Db) (keys : List Key) (segment : SegmentRow) : Db :=
  { db with
    segments := db.segments ++ [segment]
    records := db.records.map fun r => if r.key ∈ keys then r.moveTo segment.id else r }

def Store.storeFrame (s : Store) (name : String) (keys : List Key) (frame : List UInt8) (raw : Nat) :
    Store :=
  let offset := ((s.segments name).getD []).length
  let segment : SegmentRow := ⟨nextSegmentId s.db.segments, name, offset, frame.length, raw⟩
  { s.appendFile name frame with db := s.db.commitFrame keys segment }

def frameOf (codec : Codec) (db : Db) (keys : List Key) : Except StoreError (List UInt8 × Nat) := do
  let events ← keys.mapM (selectBody db)
  return (codec.deflate (utf8 (frameText events)), rawBytes events)

/-- `stop` is where compaction is left off: the frames still to commit, and the bytes written of the
one after them. -/
def Store.compactFrames (codec : Codec) (name : String) (s : Store) (frames : List (List Key))
    (stop : Option (Nat × Nat)) : Store × Except StoreError Nat :=
  match frames with
  | [] => (s, .ok 0)
  | keys :: rest =>
    match frameOf codec s.db keys with
    | .error e => (s, .error e)
    | .ok (frame, raw) =>
      match stop with
      | some (0, written) => (s.appendFile name (frame.take written), .error (.segment name))
      | some (n + 1, written) =>
        let (s', moved) := (s.storeFrame name keys frame raw).compactFrames codec name rest
          (some (n, written))
        (s', moved.map (keys.length + ·))
      | none =>
        let (s', moved) := (s.storeFrame name keys frame raw).compactFrames codec name rest none
        (s', moved.map (keys.length + ·))

/-- Moves a finished job's events into compressed frames when they hold more than `compactOver`
bytes. Returns how many events moved. -/
def Store.compact (codec : Codec) (s : Store) (job : JobId) (stop : Option (Nat × Nat)) :
    Store × Except StoreError Nat :=
  let plan := compactPlan s.db job
  if (plan.map (·.2)).sum ≤ compactOver then (s, .ok 0)
  else
    let name := job.text ++ ".seg"
    (s.appendFile name []).compactFrames codec name (splitFrames plan) stop

/-! ## Reading -/

abbrev FrameKey := String × String × Int

/-- The bodies of a frame by key, in the order of its lines: a later line replaces an earlier one. -/
abbrev Frame := List (FrameKey × String)

def Frame.get? (frame : Frame) (key : FrameKey) : Option String := frame.reverse.lookup key

/-- `i64::from_str`. -/
def parseI64 (text : List Char) : Option Int :=
  (Text.parseInt (String.ofList text)).filter fun n => -2 ^ 63 ≤ n ∧ n < 2 ^ 63

def parseLine (line : List Char) : Option (FrameKey × String) :=
  match splitn '\t' 4 line with
  | [origin, stream, seq, body] => (parseI64 seq).map fun n =>
      ((String.ofList origin, String.ofList stream, n), String.ofList body)
  | _ => none

def readFrame (codec : Codec) (s : Store) (segment : Nat) : Except StoreError Frame := do
  let row ← ofOption (s.db.segments.find? (·.id = segment)) (.db "Query returned no rows")
  let file ← ofOption (s.segments row.file) (.segment row.file)
  let compressed := (file.drop row.offset).take row.length
  let raw ← ofOption (codec.inflate compressed) (.segment row.file)
  let text ← ofOption (decodeUtf8 (raw.take (row.rawBytes + frameSlack))) (.segment row.file)
  return (lines text).filterMap parseLine

abbrev FrameCache := Option (Nat × Frame)

def frameFor (codec : Codec) (s : Store) (cache : FrameCache) (segment : Nat) :
    Except StoreError Frame :=
  match cache with
  | some (id, frame) => if id = segment then .ok frame else readFrame codec s segment
  | none => readFrame codec s segment

/-- A row's body, from its frame if it was moved; none if it can't be found. -/
def bodyOf (codec : Codec) (s : Store) (cache : FrameCache) (r : Row) :
    Except StoreError (Option String × FrameCache) :=
  match r.body with
  | some body => .ok (some body, cache)
  | none =>
    match r.segment with
    | none => .ok (none, cache)
    | some segment => do
      let frame ← frameFor codec s cache segment
      return (frame.get? (r.origin, r.stream, r.seq), some (segment, frame))

def Row.record (r : Row) (body : String) : Record where
  origin := r.origin
  stream := r.stream
  seq := UInt64.ofNat r.seq
  timeMs := r.timeMs
  kind := r.kind.asStr
  job := r.job
  jobSeq := r.jobSeq.map (·.toUInt64)
  body := body
  hash := hex r.hash
  prev := r.prev.map hex
  evicted := r.evicted

def readNext (codec : Codec) (s : Store) (state : List Record × FrameCache) (r : Row) :
    Except StoreError (List Record × FrameCache) := do
  let (out, cache) := state
  let (body, cache) ← bodyOf codec s cache r
  return (out ++ (body.map r.record).toList, cache)

/-- `LIMIT`: a negative one is none. -/
def sqlLimit {α : Type} (limit : UInt64) (rows : List α) : List α :=
  if limit.toInt64.toInt < 0 then rows else rows.take limit.toNat

/-- The rows of a stream after a sequence number. -/
def recordRows (db : Db) (origin stream : String) (after limit : UInt64) : List Row :=
  let rows := db.records.filter fun r =>
    r.origin = origin ∧ r.stream = stream ∧ after.toInt64.toInt < r.seq
  sqlLimit limit (rows.insertionSort fun a b => a.seq ≤ b.seq)

def readRecords (codec : Codec) (s : Store) (origin stream : String) (after limit : UInt64) :
    Except StoreError (List Record) := do
  let (out, _) ← (recordRows s.db origin stream after limit).foldlM (readNext codec s) ([], none)
  return out

/-- An event, with the body `serde_json` reads. -/
structure JobEvent (β : Type) where
  job : JobId
  seq : UInt64
  atMs : Int64
  body : β

structure EventPage (β : Type) where
  events : List (JobEvent β) := []
  more : Bool := false

structure PageState (β : Type) where
  page : EventPage β := {}
  bytes : Nat := 0
  cache : FrameCache := none
  last : Option UInt64 := none

def PageState.push {β : Type} (parse : String → Option β) (job : JobId) (jobSeq : UInt64) (r : Row)
    (st : PageState β) (cache : FrameCache) (body : Option String) : PageState β :=
  match body with
  | none => { st with cache }
  | some text =>
    match parse text with
    | none => { st with cache }
    | some event =>
      { page := { st.page with events := st.page.events ++ [⟨job, jobSeq, r.timeMs, event⟩] }
        bytes := st.bytes + Text.len text
        cache := cache
        last := some jobSeq }

/-- Goes through the rows of a page, each with its `job_seq`. -/
def readPageFrom {β : Type} (codec : Codec) (parse : String → Option β) (s : Store) (job : JobId)
    (limit : Nat) (st : PageState β) : List (Int64 × Row) → Except StoreError (EventPage β)
  | [] => .ok st.page
  | (jobSeq, r) :: rest =>
    if st.last = some jobSeq.toUInt64 then readPageFrom codec parse s job limit st rest
    else if st.page.events.length ≥ limit ∨ st.bytes ≥ pageBytes ∧ st.page.events ≠ [] then
      .ok { st.page with more := true }
    else do
      let (body, cache) ← bodyOf codec s st.cache r
      readPageFrom codec parse s job limit (st.push parse job jobSeq.toUInt64 r cache body) rest

def pageRows (db : Db) (job : JobId) (fromSeq : UInt64) : List (Int64 × Row) :=
  let rows := db.records.filter fun r => r.job = some job ∧ r.kind = .jobEvent ∧
    ∃ n ∈ r.jobSeq, fromSeq.toInt64.toInt ≤ n.toInt
  (rows.insertionSort fun a b => a.order ≤ b.order).filterMap fun r => r.jobSeq.map (·, r)

def readPage {β : Type} (codec : Codec) (parse : String → Option β) (s : Store) (job : JobId)
    (fromSeq : UInt64) (limit : Nat) : Except StoreError (EventPage β) :=
  readPageFrom codec parse s job limit {} (pageRows s.db job fromSeq)

end Bmac.Records
