import Bmac.Base.Faulty
import Bmac.Records.Chain

/-!
# Transactions of the store

`Store::append` and `insert_copies` of `bmacd/src/store.rs`, statement by statement: any of them may fail,
and a transaction that is dropped is rolled back. So a call that fails leaves the store as it was, and one
that succeeds is `Store.append` or `Store.insertCopies` (`appendSql_cases`, `insertCopiesSql_cases`).
-/

namespace Bmac.Records

open Bmac.Base Bmac.Base.Faulty Bmac.Core

abbrev Sql (α : Type) := Faulty StoreError α

section

variable {α : Type} (faults : Nat → Option StoreError)

/-- Runs `body` in a transaction of its own, which is dropped when a statement fails. -/
def transaction (db : Db) (body : Db → Sql (Db × α)) : Db × Except StoreError α :=
  let run : Sql (Db × α) := do
    statement faults -- BEGIN
    let answer ← body db
    statement faults -- COMMIT
    return answer
  match run.result with
  | .ok (db', a) => (db', .ok a)
  | .error e => (db, .error e)

variable (lib : Lib)

/-- `appendEntry`, with its `INSERT`. -/
def appendEntrySql (origin stream : String) (state : Db × Chain) (entry : Entry) : Sql (Db × Chain) := do
  statement faults
  liftM (appendEntry lib origin stream state entry)

def Store.appendBody (s : Store) (entries : List Entry) (db : Db) : Sql (Db × Chain) := do
  statement faults -- prepare
  entries.foldlM (appendEntrySql faults lib s.origin s.stream) (db, s.chain)

/-- `Store::append`: the head of the chain moves on once the transaction is committed. -/
def Store.appendSql (s : Store) (entries : List Entry) : Store × Except StoreError Unit :=
  if entries = [] then (s, .ok ())
  else
    let (db, answer) := transaction faults s.db (s.appendBody faults lib entries)
    match answer with
    | .ok chain => ({ s with db, chain }, .ok ())
    | .error e => ({ s with db }, .error e)

/-- `storeCopy`, with its statements. -/
def storeCopySql (db : Db) (record : Record) (entry : Entry) (hash prev : Hash) : Sql (Option Db) := do
  let seq := record.seq.toNat
  statement faults -- SELECT hash
  match db.heldHash (record.origin, record.stream, seq) with
  | some existing =>
    if existing ≠ hash then throw (.copy (.chain record.origin record.stream record.seq)) else return none
  | none =>
    let started := (streamStarted record.stream).getD record.timeMs
    statement faults -- INSERT OR IGNORE INTO streams
    let db := db.streamKnown record.origin record.stream started
    statement faults -- INSERT INTO records
    let db ← liftM (insertRow lib db record.origin record.stream seq entry hash prev record.evicted)
    return some db

def checkCopySql (db : Db) (record : Record) (entry : Entry) (hash : Hash) (given : Option Hash) :
    Sql (Option Db) := do
  let seq := record.seq.toNat
  let chain : StoreError := .copy (.chain record.origin record.stream record.seq)
  let gap : StoreError := .copy (.gap record.origin record.stream record.seq)
  if seq ≠ 1 then statement faults -- SELECT hash of the record before
  let prev ← liftM (prevHash (hashBefore db record.origin record.stream seq) given gap chain)
  if ¬ record.evicted ∧ lib.chainHash prev record.origin record.stream seq entry ≠ hash then
    throw chain
  storeCopySql faults lib db record entry hash prev

def Store.copyRecordSql (s : Store) (db : Db) (record : Record) : Sql (Option Db) := do
  if record.origin = s.origin ∧ record.stream = s.stream then
    throw (.copy (.own record.origin record.stream record.seq))
  let malformed : StoreError := .copy (.malformed record.origin record.stream record.seq)
  let given ← liftM (unhexPrev record.prev malformed)
  let entry ← liftM (ofOption ((recordEntry record).filter fun _ =>
    0 < record.seq && (!record.evicted || record.body.isEmpty)) malformed)
  let hash ← liftM (ofOption (unhex record.hash) malformed)
  statement faults -- SELECT floor
  if record.seq.toInt64.toInt ≤ db.floor record.origin record.stream ∨ record.timeMs < s.keepFromMs then
    return none
  else checkCopySql faults lib db record entry hash given

def Store.copyNextSql (s : Store) (state : Db × List Record) (record : Record) : Sql (Db × List Record) := do
  let (db, inserted) := state
  match ← s.copyRecordSql faults lib db record with
  | some db => return (db, inserted ++ [record])
  | none => return (db, inserted)

def Store.copiesBody (s : Store) (records : List Record) (db : Db) : Sql (Db × List Record) := do
  statement faults -- four statements are prepared
  statement faults
  statement faults
  statement faults
  records.foldlM (s.copyNextSql faults lib) (db, [])

/-- `insert_copies`. -/
def Store.insertCopiesSql (s : Store) (records : List Record) : Store × Except StoreError (List Record) :=
  let (db, answer) := transaction faults s.db (s.copiesBody faults lib records)
  ({ s with db }, answer)

end

/-! ## What the statements refine -/

variable {lib : Lib} {faults : Nat → Option StoreError} {s s' : Store}

theorem appendEntrySql_refines (origin stream : String) (state : Db × Chain) (entry : Entry) :
    Refines faults (appendEntrySql faults lib origin stream state entry)
      (appendEntry lib origin stream state entry) :=
  .statement_bind (.lift _)

theorem storeCopySql_refines (db : Db) (record : Record) (entry : Entry) (hash prev : Hash) :
    Refines faults (storeCopySql faults lib db record entry hash prev)
      (storeCopy lib db record entry hash prev) := by
  refine .statement_bind ?_
  unfold storeCopy
  cases hheld : db.heldHash (record.origin, record.stream, record.seq.toNat) with
  | some existing =>
    simp only [hheld]
    split
    · exact .throw _
    · exact .pure none
  | none =>
    simp only [hheld]
    have hmap (y : Except StoreError Db) : y.map some = (do return some (← y)) := by cases y <;> rfl
    rw [hmap]
    exact .statement_bind (.statement_bind (.bind (.lift _) fun db => .pure (some db)))

theorem checkCopySql_refines (db : Db) (record : Record) (entry : Entry) (hash : Hash) (given : Option Hash) :
    Refines faults (checkCopySql faults lib db record entry hash given)
      (checkCopy lib db record entry hash given) := by
  have hchecked (prev : Hash) := @storeCopySql_refines lib faults db record entry hash prev
  unfold checkCopySql checkCopy
  dsimp only
  split
  · exact .statement_bind (.bind (.lift _) fun prev => .check (hchecked prev))
  · exact .bind (.lift _) fun prev => .check (hchecked prev)

theorem copyRecordSql_refines (db : Db) (record : Record) :
    Refines faults (s.copyRecordSql faults lib db record) (s.copyRecord lib db record) := by
  refine .check (.bind (.lift _) fun given => .bind (.lift _) fun entry => .bind (.lift _) fun hash =>
    .statement_bind ?_)
  split
  · exact .pure none
  · exact checkCopySql_refines db record entry hash given

theorem copyNextSql_refines (state : Db × List Record) (record : Record) :
    Refines faults (s.copyNextSql faults lib state record) (s.copyNext lib state record) := by
  refine .bind (copyRecordSql_refines state.1 record) fun answer => ?_
  cases answer with
  | none => exact .pure _
  | some db => exact .pure _

/-! ## Calls -/

section

variable {α : Type} {body : Db → Sql (Db × α)} {pureBody : Except StoreError (Db × α)} {db : Db}

theorem transaction_cases (h : Refines faults (body db) pureBody) :
    (∃ e, transaction faults db body = (db, .error e)) ∨
      ∃ db' a, transaction faults db body = (db', .ok a) ∧ pureBody = .ok (db', a) := by
  have hrun : Refines faults (do statement faults; let answer ← body db; statement faults; return answer)
      pureBody := by
    have hpure : pureBody = pureBody >>= fun answer => pure answer := by cases pureBody <;> rfl
    rw [hpure]
    exact .statement_bind (.bind h fun answer => .statement_bind (.pure answer))
  unfold transaction
  dsimp only
  cases hresult : Faulty.result (do statement faults; let answer ← body db; statement faults; return answer) with
  | error e => exact .inl ⟨e, rfl⟩
  | ok answer => exact .inr ⟨answer.1, answer.2, rfl, hrun.of_ok hresult⟩

theorem transaction_none (h : Refines (fun _ => none) (body db) pureBody) :
    transaction (fun _ => none) db body =
      ((pureBody.toOption.map (·.1)).getD db, pureBody.map (·.2)) := by
  have hrun : Refines (fun _ => none) (do
      statement (fun _ => none)
      let answer ← body db
      statement (fun _ => none)
      return answer) pureBody := by
    have hpure : pureBody = pureBody >>= fun answer => pure answer := by cases pureBody <;> rfl
    rw [hpure]
    exact .statement_bind (.bind h fun answer => .statement_bind (.pure answer))
  unfold transaction
  dsimp only
  rw [hrun.result_eq]
  cases pureBody <;> rfl

end

/-- A failed call leaves the store as it was, and one that succeeds is `append`. -/
theorem appendSql_cases (s : Store) (entries : List Entry) :
    (∃ e, s.appendSql faults lib entries = (s, .error e)) ∨
      ∃ s', s.appendSql faults lib entries = (s', .ok ()) ∧ s.append lib entries = .ok s' := by
  unfold Store.appendSql
  split
  · rename_i hempty
    exact .inr ⟨s, rfl, by rw [hempty]; rfl⟩
  · have hbody : Refines faults (s.appendBody faults lib entries s.db)
        (entries.foldlM (appendEntry lib s.origin s.stream) (s.db, s.chain)) :=
      .statement_bind (.foldlM (appendEntrySql_refines s.origin s.stream) entries (s.db, s.chain))
    rcases transaction_cases hbody with ⟨e, hrun⟩ | ⟨db, chain, hrun, hpure⟩
    · rw [hrun]
      exact .inl ⟨e, rfl⟩
    · rw [hrun]
      refine .inr ⟨{ s with db, chain }, rfl, ?_⟩
      unfold Store.append
      rw [hpure]
      rfl

theorem copiesBody_refines (s : Store) (records : List Record) :
    Refines faults (s.copiesBody faults lib records s.db) (records.foldlM (s.copyNext lib) (s.db, [])) :=
  .statement_bind (.statement_bind (.statement_bind (.statement_bind
    (.foldlM copyNextSql_refines records (s.db, [])))))

theorem insertCopiesSql_cases (s : Store) (records : List Record) :
    (∃ e, s.insertCopiesSql faults lib records = (s, .error e)) ∨
      ∃ s' inserted, s.insertCopiesSql faults lib records = (s', .ok inserted) ∧
        s.insertCopies lib records = .ok (s', inserted) := by
  unfold Store.insertCopiesSql
  rcases transaction_cases (copiesBody_refines s records) with ⟨e, hrun⟩ | ⟨db, inserted, hrun, hpure⟩
  · rw [hrun]
    exact .inl ⟨e, rfl⟩
  · rw [hrun]
    refine .inr ⟨{ s with db }, inserted, rfl, ?_⟩
    unfold Store.insertCopies
    rw [hpure]
    rfl

/-- A batch whose statements all work is `insertCopies`. -/
theorem insertCopiesSql_none_eq_ok {s' : Store} {records inserted : List Record} :
    s.insertCopiesSql (fun _ => none) lib records = (s', .ok inserted) ↔
      s.insertCopies lib records = .ok (s', inserted) := by
  unfold Store.insertCopiesSql Store.insertCopies
  rw [transaction_none (copiesBody_refines s records)]
  cases records.foldlM (s.copyNext lib) (s.db, []) with
  | error e =>
    refine ⟨fun h => ?_, fun h => ?_⟩
    · cases h
    · cases h
  | ok answer =>
    refine ⟨fun h => ?_, fun h => ?_⟩
    · cases h
      rfl
    · cases h
      rfl

end Bmac.Records
