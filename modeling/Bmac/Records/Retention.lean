import Bmac.Records.Compact

/-!
# Keeping the record store within its budget

`bmacd/src/records/retention.rs`. Records older than the age limit are deleted, a stream prefix at a
time, and the stream's floor remembers it so they are never copied back. Over the size budget, the
oldest records of the lowest class are evicted, keeping their key and hash so peers don't send them
again.

Records of one time are taken in the order of the table, which SQL leaves open.
-/

namespace Bmac.Records

open Bmac.Base Bmac.Core

def dayMs : Int64 := 24 * 60 * 60 * 1000

def evictBatch : Nat := 1000

structure Policy where
  keepDays : UInt32 := 30
  budgetBytes : UInt64 := 8 * 1024 * 1024 * 1024
  /-- Free space on the store's filesystem never drops below this share. -/
  minFreePercent : UInt64 := 15

def Policy.cutoff (p : Policy) (nowMs : Int64) : Int64 := nowMs - Int64.ofNat p.keepDays.toNat * dayMs

/-- The budget, less what keeps the filesystem's free space above its floor; `space` is the
filesystem's total and available bytes. -/
def Policy.budget (p : Policy) (used : Nat) (space : Option (UInt64 × UInt64)) : Nat :=
  match space with
  | none => p.budgetBytes.toNat
  | some (total, available) =>
    let floor := total / 100 * p.minFreePercent
    if floor ≤ available then p.budgetBytes.toNat
    else min p.budgetBytes.toNat (used - (floor - available).toNat)

structure Report where
  usedBytes : Nat
  budgetBytes : Nat
  oldestMs : Option Int64
  /-- Records deleted for age. -/
  aged : Nat
  /-- Records evicted for space, by class: output of successful jobs, other job events, diagnostics,
  audit and failures. -/
  evicted : List Nat
  /-- When audit events or failures were last evicted for space, if ever. -/
  auditEvictedMs : Option Int64

/-- The bytes of the records whose bodies are kept. -/
def usedBytes (records : List Row) : Nat := ((records.filter (!·.evicted)).map (·.size)).sum

/-- `SUM(size)` is refused when it exceeds an `i64`. -/
def storeUsed (records : List Row) : Except StoreError (Nat × Option Int64) :=
  if 2 ^ 63 ≤ usedBytes records then .error (.db "integer overflow")
  else .ok (usedBytes records, ((records.filter (!·.evicted)).map (·.timeMs)).min?)

/-! ## Age -/

def StreamRow.raise (records : List Row) (cutoff : Int64) (s : StreamRow) : StreamRow :=
  let old := records.filter fun r => r.origin = s.origin ∧ r.stream = s.stream ∧ r.timeMs < cutoff
  { s with floor := (old.map (·.seq)).foldl max s.floor }

def Db.raiseFloors (db : Db) (cutoff : Int64) : Db :=
  { db with streams := db.streams.map (·.raise db.records cutoff) }

/-- `seq <= (SELECT floor FROM streams ..)`, for a known stream. -/
def Db.aged (db : Db) (r : Row) : Bool := (db.stream? r.origin r.stream).any fun s => r.seq ≤ s.floor

def Db.deleteAged (db : Db) : Db := { db with records := db.records.filter (!db.aged ·) }

/-! ## Space -/

def Row.evict (r : Row) : Row := { r with evicted := true, body := some "", segment := none, size := 0 }

def evictRow (key : Key) (records : List Row) : List Row :=
  records.map fun r => if r.key = key then r.evict else r

def Row.evictable (r : Row) : Bool := !r.evicted && 0 < r.size

def completed (records : List Row) (job : Option JobId) : Bool :=
  job.isSome && records.any fun r => r.kind = .jobEvent ∧ r.etype = some "completed" ∧ r.job = job

def evictSteps : List (List Row → Row → Bool) :=
  [fun records r => r.class_ = classOutput && completed records r.job,
   fun _ r => r.class_ = classOutput || r.class_ = classJob,
   fun _ r => r.class_ = classDiagnostic,
   fun _ r => r.class_ = classAudit]

def selectBatch (condition : List Row → Row → Bool) (records : List Row) : List Row :=
  ((records.filter fun r => r.evictable && condition records r).insertionSort
    fun a b => a.timeMs ≤ b.timeMs).take evictBatch

structure Evicting where
  records : List Row
  used : Nat
  evicted : Nat := 0

/-- Evicts the rows of a batch until the rest is within the budget. -/
def evictRows (budget : Nat) : List Row → Evicting → Evicting
  | [], e => e
  | r :: batch, e =>
    if e.used ≤ budget then e
    else evictRows budget batch ⟨evictRow r.key e.records, e.used - r.size, e.evicted + 1⟩

/-- The batches of one step; each evicts a row, so there are at most as many as rows. -/
def evictBatches (budget : Nat) (condition : List Row → Row → Bool) : Nat → Evicting → Evicting
  | 0, e => e
  | fuel + 1, e =>
    if e.used ≤ budget then e
    else match selectBatch condition e.records with
      | [] => e
      | r :: batch => evictBatches budget condition fuel (evictRows budget (r :: batch) e)

def evictAll (budget : Nat) : List (List Row → Row → Bool) → Evicting → List Row × List Nat
  | [], e => (e.records, [])
  | condition :: steps, e =>
    let e := evictBatches budget condition e.records.length { e with evicted := 0 }
    let (records, counts) := evictAll budget steps e
    (records, e.evicted :: counts)

/-! ## Segments that nothing uses -/

def SegmentRow.used (records : List Row) (g : SegmentRow) : Bool := records.any (·.segment = some g.id)

/-- Deletes the frames that no record is in, and the files of which no frame is left. -/
def Store.dropSegments (s : Store) : Store :=
  let (kept, unused) := s.db.segments.partition (·.used s.db.records)
  let gone := (unused.map (·.file)).dedup.filter fun file =>
    !kept.any (·.file = file) && !file.toList.contains '/'
  { s with
    db := { s.db with segments := kept }
    segments := fun file => if file ∈ gone then none else s.segments file }

/-! ## A pass -/

/-- The store with the table `retention_events`. -/
structure Retained where
  store : Store
  auditEvictedMs : Option Int64 := none

/-- The transaction that applies `policy`. -/
def Retained.apply (s : Retained) (policy : Policy) (nowMs : Int64) (space : Option (UInt64 × UInt64)) :
    Retained × Except StoreError Report :=
  let old := s.store.db.records
  let db := (s.store.db.raiseFloors (policy.cutoff nowMs)).deleteAged
  match storeUsed db.records with
  | .error e => (s, .error e)
  | .ok (used, _) =>
    let budget := policy.budget used space
    let (records, evicted) := evictAll budget evictSteps ⟨db.records, used, 0⟩
    let auditEvictedMs := if 0 < evicted.getD 3 0 then some nowMs else s.auditEvictedMs
    let store := { s.store with db := { db with records } }.dropSegments
    (⟨store, auditEvictedMs⟩, do
      let (usedBytes, oldestMs) ← storeUsed store.db.records
      return { usedBytes, budgetBytes := budget, oldestMs, aged := old.length - db.records.length,
               evicted, auditEvictedMs })

/-- Applies `policy` at `nowMs`, and stops storing copies retention would delete. -/
def Retained.enforce (s : Retained) (policy : Policy) (nowMs : Int64)
    (space : Option (UInt64 × UInt64)) : Retained × Except StoreError Report :=
  { s with store := s.store.keepFrom (policy.cutoff nowMs) }.apply policy nowMs space

/-! ## Runs -/

/-- What happens to a store: a write, a compaction, or a pass of retention. -/
inductive Change where
  | act (a : Action)
  | enforce (policy : Policy) (nowMs : Int64) (space : Option (UInt64 × UInt64))

def Retained.change (lib : Lib) (codec : Codec) (s : Retained) : Change → Retained
  | .act a => { s with store := s.store.act lib codec a }
  | .enforce policy nowMs space => (s.enforce policy nowMs space).1

def Retained.changes (lib : Lib) (codec : Codec) (s : Retained) (changes : List Change) : Retained :=
  changes.foldl (Retained.change lib codec) s

end Bmac.Records
