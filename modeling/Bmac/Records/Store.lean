import Bmac.Base.Run
import Bmac.Base.Checks
import Bmac.Core.Ids

/-!
# The record log

`bmacd/src/store.rs`: job events, audit events and `bmacd`'s own log, each keyed (origin host,
stream, sequence) in the tables of `bmac.db`. A stream starts each time `bmacd` starts; every record
carries a SHA-256 chained over the stream's earlier ones, so a copy from a peer can be checked.

A table is the list of its rows. A sequence number of a row is a natural number that fits an `i64`:
a copy's is checked to, and the database is full long before this host's own counter gets there. The
hash function and the fields that JSON bodies hold are those of `Lib`.
-/

namespace Bmac.Records

open Bmac.Base Bmac.Core

/-! ## Entries and records -/

inductive RecordKind where
  | jobEvent
  | audit
  | log
  | journal
  deriving DecidableEq

namespace RecordKind

def asStr : RecordKind → String
  | jobEvent => "job_event"
  | audit => "audit"
  | log => "log"
  | journal => "journal"

def parse (text : String) : Option RecordKind :=
  [jobEvent, audit, log, journal].find? (·.asStr = text)

end RecordKind

/-- A `[u8; 32]`. -/
abbrev Hash := { bytes : List UInt8 // bytes.length = 32 }

/-- The hash before a stream's first record. -/
def zeroHash : Hash := ⟨List.replicate 32 0, rfl⟩

/-- A record to append; the store assigns its key and hash. -/
structure Entry where
  timeMs : Int64
  kind : RecordKind
  job : Option (JobId × UInt64)
  body : String
  deriving DecidableEq

/-- A record as hosts send it (`bmac_proto::peer::Record`). -/
structure Record where
  origin : String
  stream : String
  seq : UInt64
  timeMs : Int64
  kind : String
  job : Option JobId
  jobSeq : Option UInt64
  body : String
  hash : String
  prev : Option String
  evicted : Bool
  deriving DecidableEq

/-- What `record_meta` reads of a parsed body; an unreadable one has none of it. -/
structure BodyFields where
  type_ : Option String := none
  level : Option String := none
  priority : Option UInt64 := none

/-- SHA-256, and `serde_json` on a body. -/
structure Lib where
  sha256 : List UInt8 → Hash
  fields : String → BodyFields

/-- `str::as_bytes`. -/
def bytes (s : String) : List UInt8 := s.toList.flatMap String.utf8EncodeChar

/-- `u64::to_be_bytes`. -/
def toBeBytes (n : UInt64) : List UInt8 :=
  (List.range 8).reverse.map fun i => UInt8.ofNat (n.toNat / 256 ^ i)

def Lib.chainHash (lib : Lib) (prev : Hash) (origin stream : String) (seq : Nat) (entry : Entry) :
    Hash :=
  lib.sha256 <| prev.val
    ++ [origin, stream, entry.kind.asStr].flatMap
        (fun part => toBeBytes (UInt64.ofNat (Text.len part)) ++ bytes part)
    ++ toBeBytes (UInt64.ofNat seq)
    ++ toBeBytes entry.timeMs.toUInt64
    ++ (match entry.job with
        | some (job, jobSeq) => 1 :: bytes job.text ++ toBeBytes jobSeq
        | none => [0])
    ++ toBeBytes (UInt64.ofNat (Text.len entry.body))
    ++ bytes entry.body

def recordEntry (record : Record) : Option Entry := do
  let kind ← RecordKind.parse record.kind
  let job ← match record.job, record.jobSeq with
    | some job, some seq => some (some (job, seq))
    | none, none => some none
    | _, _ => none
  return ⟨record.timeMs, kind, job, record.body⟩

def hex (hash : Hash) : String :=
  String.ofList (hash.val.flatMap fun b => (Text.hex 2 b.toNat).toList)

/-- `char::to_digit(16)`. -/
def hexValue (c : Char) : Option Nat :=
  if Text.isDigit c then some (c.toNat - 48)
  else if 'a' ≤ c ∧ c ≤ 'f' then some (c.toNat - 87)
  else if 'A' ≤ c ∧ c ≤ 'F' then some (c.toNat - 55)
  else none

/-- `u8::from_str_radix(.., 16)` on two characters, of which the first may be a sign. -/
def hexByte (a b : Char) : Option UInt8 :=
  if a = '+' then (hexValue b).map UInt8.ofNat
  else do return UInt8.ofNat (16 * (← hexValue a) + (← hexValue b))

def unhexBytes : List Char → Option (List UInt8)
  | [] => some []
  | [_] => none
  | a :: b :: rest => do return (← hexByte a b) :: (← unhexBytes rest)

def unhex (text : String) : Option Hash :=
  if Text.len text ≠ 64 then none
  else do
    let out ← unhexBytes text.toList
    if h : out.length = 32 then some ⟨out, h⟩ else none

/-! ## The tables -/

/-- Eviction classes, evicted in this order. -/
def classOutput : Nat := 1
def classJob : Nat := 2
def classDiagnostic : Nat := 3
def classAudit : Nat := 4

def levelSeverity : Option String → Nat
  | some "error" => 2
  | some "warning" => 1
  | _ => 0

def Lib.recordMeta (lib : Lib) (kind : RecordKind) (body : String) : Option String × Nat × Nat :=
  let parsed := lib.fields body
  match kind with
  | .jobEvent =>
    let (severity, class_) := match parsed.type_ with
      | some "failed" | some "interrupted" => (2, classAudit)
      | some "warning" | some "validation_error" | some "cancelled" => (1, classJob)
      | some "output" => (levelSeverity parsed.level, classOutput)
      | _ => (0, classJob)
    (parsed.type_, severity, class_)
  | .audit => (none, 0, classAudit)
  | .log => (none, levelSeverity parsed.level, classDiagnostic)
  | .journal =>
    let severity := match parsed.priority with
      | some p => if p ≤ 3 then 2 else if p = 4 then 1 else 0
      | none => 0
    (none, severity, classDiagnostic)

abbrev Key := String × String × Nat

instance Key.lawfulBEq : LawfulBEq Key := inferInstance

/-- A row of `records`. -/
structure Row where
  origin : String
  stream : String
  seq : Nat
  timeMs : Int64
  kind : RecordKind
  job : Option JobId
  jobSeq : Option Int64
  body : Option String
  segment : Option Nat
  hash : Hash
  prev : Option Hash
  evicted : Bool
  size : Nat
  etype : Option String
  severity : Nat
  class_ : Nat
  deriving DecidableEq

def Row.key (r : Row) : Key := (r.origin, r.stream, r.seq)

def Row.entryJob (r : Row) : Option (JobId × UInt64) :=
  match r.job, r.jobSeq with
  | some job, some seq => some (job, seq.toUInt64)
  | _, _ => none

/-- The content a row holds, unless its body is in a segment. -/
def Row.entry (r : Row) : Option Entry := r.body.map fun body => ⟨r.timeMs, r.kind, r.entryJob, body⟩

/-- A row of `streams`. -/
structure StreamRow where
  origin : String
  stream : String
  startedMs : Int64
  floor : Nat := 0
  deriving DecidableEq

/-- A row of `segments`: where a frame is. -/
structure SegmentRow where
  id : Nat
  file : String
  offset : Nat
  length : Nat
  rawBytes : Nat
  deriving DecidableEq

structure Db where
  streams : List StreamRow := []
  records : List Row := []
  segments : List SegmentRow := []

namespace Db

def stream? (db : Db) (origin stream : String) : Option StreamRow :=
  db.streams.find? fun s => s.origin = origin ∧ s.stream = stream

/-- `SELECT floor FROM streams`, 0 for a stream not known. -/
def floor (db : Db) (origin stream : String) : Nat :=
  match db.stream? origin stream with
  | some s => s.floor
  | none => 0

/-- `INSERT OR IGNORE INTO streams`. -/
def streamKnown (db : Db) (origin stream : String) (startedMs : Int64) : Db :=
  match db.stream? origin stream with
  | some _ => db
  | none => { db with streams := db.streams ++ [⟨origin, stream, startedMs, 0⟩] }

def row? (db : Db) (key : Key) : Option Row := db.records.find? (·.key = key)

/-- `SELECT hash FROM records`. -/
def heldHash (db : Db) (key : Key) : Option Hash := (db.row? key).map (·.hash)

end Db

inductive CopyError where
  | gap (origin stream : String) (seq : UInt64)
  | chain (origin stream : String) (seq : UInt64)
  | malformed (origin stream : String) (seq : UInt64)
  | own (origin stream : String) (seq : UInt64)
  deriving DecidableEq

inductive StoreError where
  | db (text : String)
  | copy (error : CopyError)
  | segment (path : String)
  deriving DecidableEq

def rowOf (lib : Lib) (origin stream : String) (seq : Nat) (entry : Entry) (hash prev : Hash)
    (evicted : Bool) : Row :=
  let (etype, severity, class_) := lib.recordMeta entry.kind entry.body
  { origin, stream, seq, timeMs := entry.timeMs, kind := entry.kind, job := entry.job.map (·.1),
    jobSeq := entry.job.map (·.2.toInt64), body := some entry.body, segment := none, hash,
    prev := some prev, evicted, size := Text.len entry.body, etype, severity, class_ }

/-- `INSERT_RECORD`: the key is unique, and no table has 2^63 rows. -/
def insertRow (lib : Lib) (db : Db) (origin stream : String) (seq : Nat) (entry : Entry)
    (hash prev : Hash) (evicted : Bool) : Except StoreError Db :=
  if 2 ^ 63 ≤ seq then .error (.db "database or disk is full")
  else match db.row? (origin, stream, seq) with
    | some _ => .error (.db "UNIQUE constraint failed: records.origin, records.stream, records.seq")
    | none =>
      let row := rowOf lib origin stream seq entry hash prev evicted
      .ok { db with records := db.records ++ [row] }

/-! ## The store -/

structure Chain where
  seq : Nat
  hash : Hash
  deriving DecidableEq

/-- The tables, the segment files, and what the daemon that has them open keeps. -/
structure Store where
  db : Db
  segments : String → Option (List UInt8)
  origin : String
  stream : String
  chain : Chain
  /-- Copies older than this are not stored. -/
  keepFromMs : Int64

/-- Starts this incarnation's stream. -/
def Store.open_ (db : Db) (segments : String → Option (List UInt8)) (origin stream : String)
    (nowMs : Int64) : Except StoreError Store :=
  match db.stream? origin stream with
  | some _ => .error (.db "UNIQUE constraint failed: streams.origin, streams.stream")
  | none =>
    .ok { db := { db with streams := db.streams ++ [⟨origin, stream, nowMs, 0⟩] }, segments, origin,
          stream, chain := ⟨0, zeroHash⟩, keepFromMs := Int64.minValue }

def Store.keepFrom (s : Store) (ms : Int64) : Store := { s with keepFromMs := ms }

/-- One record of an `append`, inside its transaction. -/
def appendEntry (lib : Lib) (origin stream : String) (state : Db × Chain) (entry : Entry) :
    Except StoreError (Db × Chain) := do
  let (db, next) := state
  let prev := next.hash
  let seq := next.seq + 1
  let hash := lib.chainHash prev origin stream seq entry
  let db ← insertRow lib db origin stream seq entry hash prev false
  return (db, ⟨seq, hash⟩)

def Store.append (lib : Lib) (s : Store) (entries : List Entry) : Except StoreError Store := do
  let (db, chain) ← entries.foldlM (appendEntry lib s.origin s.stream) (s.db, s.chain)
  return { s with db, chain }

/-- `i64::from_str_radix(.., 16)`. -/
def parseHexI64 (cs : List Char) : Option Int64 := do
  let (negative, digits) := match cs with
    | '-' :: rest => (true, rest)
    | '+' :: rest => (false, rest)
    | _ => (false, cs)
  if digits = [] then none
  else
    let n ← digits.foldlM (fun n c => do return 16 * n + (← hexValue c)) 0
    let value : Int := if negative then -n else n
    if Int64.minValue.toInt ≤ value ∧ value ≤ Int64.maxValue.toInt then some (Int64.ofInt value)
    else none

def streamStarted (stream : String) : Option Int64 := do
  let (start, _) ← Text.splitOnce '-' stream
  parseHexI64 start.toList

/-- The hash a copy continues: that of the record before it if this host holds it, else the one the
copy gives. -/
def prevHash (before given : Option Hash) (gap chain : StoreError) : Except StoreError Hash :=
  match before, given with
  | some held, some given => if held ≠ given then .error chain else .ok held
  | some held, none => .ok held
  | none, some given => .ok given
  | none, none => .error gap

/-- The hash of the record before `seq`, as far as the tables have it. -/
def hashBefore (db : Db) (origin stream : String) (seq : Nat) : Option Hash :=
  if seq = 1 then some zeroHash else db.heldHash (origin, stream, seq - 1)

/-- Stores a checked copy, unless it is held already. -/
def storeCopy (lib : Lib) (db : Db) (record : Record) (entry : Entry) (hash prev : Hash) :
    Except StoreError (Option Db) :=
  let seq := record.seq.toNat
  match db.heldHash (record.origin, record.stream, seq) with
  | some existing =>
    if existing ≠ hash then .error (.copy (.chain record.origin record.stream record.seq))
    else .ok none
  | none =>
    let started := (streamStarted record.stream).getD record.timeMs
    let db := db.streamKnown record.origin record.stream started
    (insertRow lib db record.origin record.stream seq entry hash prev record.evicted).map some

def checkCopy (lib : Lib) (db : Db) (record : Record) (entry : Entry) (hash : Hash)
    (given : Option Hash) : Except StoreError (Option Db) := do
  let seq := record.seq.toNat
  let chain : StoreError := .copy (.chain record.origin record.stream record.seq)
  let gap : StoreError := .copy (.gap record.origin record.stream record.seq)
  let prev ← prevHash (hashBefore db record.origin record.stream seq) given gap chain
  if ¬ record.evicted ∧ lib.chainHash prev record.origin record.stream seq entry ≠ hash then
    throw chain
  storeCopy lib db record entry hash prev

def unhexPrev (prev : Option String) (e : StoreError) : Except StoreError (Option Hash) :=
  match prev with
  | some text => (ofOption (unhex text) e).map some
  | none => .ok none

/-- One record of a batch of copies: the tables with it, or none for a record that is skipped. -/
def Store.copyRecord (lib : Lib) (s : Store) (db : Db) (record : Record) :
    Except StoreError (Option Db) := do
  if record.origin = s.origin ∧ record.stream = s.stream then
    throw (.copy (.own record.origin record.stream record.seq))
  let malformed : StoreError := .copy (.malformed record.origin record.stream record.seq)
  let given ← unhexPrev record.prev malformed
  let entry ← ofOption ((recordEntry record).filter fun _ =>
    0 < record.seq && (!record.evicted || record.body.isEmpty)) malformed
  let hash ← ofOption (unhex record.hash) malformed
  if record.seq.toInt64.toInt ≤ db.floor record.origin record.stream ∨ record.timeMs < s.keepFromMs then
    return none
  else checkCopy lib db record entry hash given

def Store.copyNext (lib : Lib) (s : Store) (state : Db × List Record) (record : Record) :
    Except StoreError (Db × List Record) := do
  let (db, inserted) := state
  match ← s.copyRecord lib db record with
  | some db => return (db, inserted ++ [record])
  | none => return (db, inserted)

/-- Stores copies of other hosts' records, in order and in one transaction, skipping those already
held. Returns the newly stored ones. -/
def Store.insertCopies (lib : Lib) (s : Store) (records : List Record) :
    Except StoreError (Store × List Record) := do
  let (db, inserted) ← records.foldlM (s.copyNext lib) (s.db, [])
  return ({ s with db }, inserted)

end Bmac.Records
