import Bmac.Records.Retention

/-!
# Eviction is monotone and fair

Age deletion raises the floors of streams and eviction keeps the keys of what it takes, so a store
never gets a record back. `Evicts` says when one record may be evicted: while more is used than the
budget, and of the lowest class of which one is left. `retention_fair` puts the two together over every
store that writes, compactions and passes of retention reach.
-/

namespace Bmac.Records

open Bmac.Base Bmac.Core

/-! ## What one eviction is -/

/-- The class of a record: output counts as class 1 only once its job completed. -/
def retentionClass (records : List Row) (r : Row) : Nat :=
  if r.class_ = classOutput ∧ completed records r.job = false then classJob else r.class_

/-- One record is evicted for space. -/
structure Evicts (budget : Nat) (records : List Row) (r : Row) (records' : List Row) : Prop where
  mem : r ∈ records
  evictable : r.evictable = true
  exceeded : budget < usedBytes records
  lowest : ∀ r' ∈ records, r'.evictable = true → retentionClass records r ≤ retentionClass records r'
  result : records' = evictRow r.key records

def Least (c : Nat) (records : List Row) : Prop :=
  ∀ r ∈ records, r.evictable = true → c ≤ retentionClass records r

/-- What an eviction may do to a row. -/
def Marks (f : Row → Row) : Prop := ∀ r, f r = r ∨ f r = r.evict

variable {victims : List Row}

section

variable {budget c : Nat} {records records' : List Row} {r : Row}

theorem evict_not_evictable (r : Row) : r.evict.evictable = false := by
  simp [Row.evictable, Row.evict]

/-- With unique keys, only the row itself is changed. -/
theorem evictRow_split {before after : List Row} (h : ((before ++ r :: after).map Row.key).Nodup) :
    evictRow r.key (before ++ r :: after) = before ++ r.evict :: after := by
  rw [List.map_append, List.map_cons, List.nodup_append'] at h
  obtain ⟨-, hcons, hdisj⟩ := h
  have hother : ∀ l : List Row, r.key ∉ l.map Row.key → evictRow r.key l = l := by
    intro l hl
    have hsame : evictRow r.key l = l.map id := by
      refine List.map_congr_left fun r' hr' => ?_
      rw [if_neg fun hkey => hl (List.mem_map.mpr ⟨r', hr', hkey⟩), id]
    rw [hsame, List.map_id]
  have hbefore : evictRow r.key before = before :=
    hother _ fun hmem => hdisj hmem (List.mem_cons_self ..)
  have hafter : evictRow r.key after = after := hother _ (List.nodup_cons.mp hcons).1
  unfold evictRow at hbefore hafter ⊢
  rw [List.map_append, List.map_cons, if_pos rfl, hbefore, hafter]

theorem evictRow_keys (key : Key) (records : List Row) :
    (evictRow key records).map Row.key = records.map Row.key := by
  unfold evictRow
  rw [List.map_map]
  refine List.map_congr_left fun r _ => ?_
  rw [Function.comp_apply]
  split <;> rfl

theorem usedBytes_evictRow (hu : (records.map Row.key).Nodup) (hr : r ∈ records)
    (he : r.evictable = true) : usedBytes (evictRow r.key records) = usedBytes records - r.size := by
  obtain ⟨before, after, rfl⟩ := List.append_of_mem hr
  have hkept : r.evicted = false := by
    simp only [Row.evictable, Bool.and_eq_true, Bool.not_eq_true'] at he
    exact he.1
  rw [evictRow_split hu]
  have hgone : r.evict.evicted = true := rfl
  simp only [usedBytes, List.filter_append, List.filter_cons, hkept, hgone, List.map_append,
    List.sum_append, Bool.not_false, Bool.not_true, if_true, List.map_cons, List.sum_cons]
  rw [if_neg (by decide)]
  omega

/-- How many records may still be evicted. -/
def evictableCount (records : List Row) : Nat := records.countP Row.evictable

theorem evictableCount_evictRow (hu : (records.map Row.key).Nodup) (hr : r ∈ records)
    (he : r.evictable = true) : evictableCount (evictRow r.key records) + 1 = evictableCount records := by
  obtain ⟨before, after, rfl⟩ := List.append_of_mem hr
  rw [evictRow_split hu]
  unfold evictableCount
  rw [List.countP_append, List.countP_append, List.countP_cons_of_pos he,
    List.countP_cons_of_neg (by rw [evict_not_evictable]; decide)]
  omega

theorem mem_evictRow {key : Key} (h : r ∈ evictRow key records) (he : r.evictable = true) :
    r ∈ records ∧ r.key ≠ key := by
  obtain ⟨r0, hr0, heq⟩ := List.mem_map.mp h
  split at heq
  · subst heq
    rw [evict_not_evictable] at he
    cases he
  · rename_i hne
    subst heq
    exact ⟨hr0, hne⟩

theorem mem_evictRow_of_ne {key : Key} (h : r ∈ records) (hne : r.key ≠ key) :
    r ∈ evictRow key records :=
  List.mem_map.mpr ⟨r, h, if_neg hne⟩

/-- An evicted record still tells that its job completed. -/
theorem completed_evictRow (key : Key) (records : List Row) (job : Option JobId) :
    completed (evictRow key records) job = completed records job := by
  unfold completed evictRow
  rw [List.any_map]
  congr 2
  funext r
  rw [Function.comp_apply]
  split <;> rfl

@[simp] theorem retentionClass_evictRow (key : Key) (records : List Row) (r : Row) :
    retentionClass (evictRow key records) r = retentionClass records r := by
  unfold retentionClass
  rw [completed_evictRow]

theorem Least.evictRow (h : Least c records) (key : Key) : Least c (evictRow key records) := by
  intro r hr he
  rw [retentionClass_evictRow]
  exact h r (mem_evictRow hr he).1 he

/-! ### Runs of evictions -/

theorem evicts_keys (h : Run (Evicts budget) records victims records') :
    records'.map Row.key = records.map Row.key := by
  refine h.invariant (I := fun rows => rows.map Row.key = records.map Row.key) ?_ rfl
  rintro rows r rows' hI hstep
  rw [hstep.result, evictRow_keys, hI]

theorem evicts_marks (h : Run (Evicts budget) records victims records') :
    ∃ f, Marks f ∧ records' = records.map f := by
  refine h.invariant (I := fun rows => ∃ f, Marks f ∧ rows = records.map f) ?_
    ⟨id, fun _ => .inl rfl, (List.map_id _).symm⟩
  rintro rows r rows' ⟨f, hf, rfl⟩ hstep
  refine ⟨(fun r' => if r'.key = r.key then r'.evict else r') ∘ f, ?_, ?_⟩
  · intro r'
    rw [Function.comp_apply]
    rcases hf r' with heq | heq
    · rw [heq]
      split
      · exact .inr rfl
      · exact .inl rfl
    · rw [heq]
      split <;> exact .inr rfl
  · rw [hstep.result, ← List.map_map]
    rfl

theorem evicts_count (h : Run (Evicts budget) records victims records')
    (hu : (records.map Row.key).Nodup) :
    evictableCount records' + victims.length = evictableCount records := by
  induction h with
  | nil => rfl
  | cons hstep hrest ih =>
    rename_i rows rows' rows'' r victims
    have hnext : (rows'.map Row.key).Nodup := by
      rw [hstep.result, evictRow_keys]
      exact hu
    have hone := evictableCount_evictRow hu hstep.mem hstep.evictable
    rw [← hstep.result] at hone
    have := ih hnext
    rw [List.length_cons]
    omega

end

/-! ## The passes over the classes -/

section

variable {budget c : Nat} {condition : List Row → Row → Bool} {e : Evicting}

/-- Where only records of a class or a higher one are left to evict, a step takes those of the
class. -/
def Picks (condition : List Row → Row → Bool) (c : Nat) : Prop :=
  ∀ records r, c ≤ retentionClass records r →
    (condition records r = true ↔ retentionClass records r = c)

/-- The bytes are counted as the rows have them. -/
structure Counted (e : Evicting) : Prop where
  used : e.used = usedBytes e.records
  unique : (e.records.map Row.key).Nodup

/-- Rows of a class that may all be evicted, each once. -/
structure Batch (c : Nat) (records batch : List Row) : Prop where
  mem : ∀ r ∈ batch, r ∈ records ∧ r.evictable = true ∧ retentionClass records r = c
  unique : (batch.map Row.key).Nodup

theorem selectBatch_batch (hp : Picks condition c) (hu : (e.records.map Row.key).Nodup)
    (hl : Least c e.records) : Batch c e.records (selectBatch condition e.records) := by
  refine ⟨?_, ?_⟩
  · intro r hr
    have hsorted := (List.mem_insertionSort _).mp (List.mem_of_mem_take hr)
    obtain ⟨hmem, hcond⟩ := List.mem_filter.mp hsorted
    rw [Bool.and_eq_true] at hcond
    exact ⟨hmem, hcond.1, (hp _ r (hl r hmem hcond.1)).mp hcond.2⟩
  · have hsub : (selectBatch condition e.records).Sublist
        ((e.records.filter fun r => r.evictable && condition e.records r).insertionSort
          fun a b => a.timeMs ≤ b.timeMs) := List.take_sublist ..
    refine (hsub.map Row.key).nodup ?_
    rw [((List.perm_insertionSort _ _).map Row.key).nodup_iff]
    exact hu.sublist (List.filter_sublist.map _)

/-- A step that finds nothing leaves only records of the classes after its own. -/
theorem least_of_selectBatch_nil (hp : Picks condition c) (hl : Least c e.records)
    (h : selectBatch condition e.records = []) : Least (c + 1) e.records := by
  intro r hr he
  have hle := hl r hr he
  have hne : retentionClass e.records r ≠ c := by
    intro heq
    have hcond := (hp _ r hle).mpr heq
    have hmem : r ∈ (e.records.filter fun r => r.evictable && condition e.records r).insertionSort
        fun a b => a.timeMs ≤ b.timeMs :=
      (List.mem_insertionSort _).mpr (List.mem_filter.mpr ⟨hr, by rw [he, hcond]; rfl⟩)
    unfold selectBatch at h
    rcases List.take_eq_nil_iff.mp h with h | h
    · cases h
    · rw [h] at hmem
      cases hmem
  omega

/-- The rows of a batch are evicted one after the other, until the rest is within the budget. -/
theorem evictRows_run {batch : List Row} (hc : Counted e) (hl : Least c e.records)
    (hb : Batch c e.records batch) :
    Counted (evictRows budget batch e) ∧ Least c (evictRows budget batch e).records ∧
      ∃ victims, Run (Evicts budget) e.records victims (evictRows budget batch e).records ∧
        (budget < e.used → batch ≠ [] → victims ≠ []) := by
  induction batch generalizing e with
  | nil => exact ⟨hc, hl, [], .nil _, fun _ h => absurd rfl h⟩
  | cons r batch ih =>
    rw [evictRows]
    split
    · rename_i hfits
      exact ⟨hc, hl, [], .nil _, fun hover => by omega⟩
    · rename_i hover
      obtain ⟨hmem, he, hclass⟩ := hb.mem r (List.mem_cons_self ..)
      have hnodup := hb.unique
      rw [List.map_cons, List.nodup_cons] at hnodup
      have hstep : Evicts budget e.records r (evictRow r.key e.records) := by
        refine ⟨hmem, he, ?_, ?_, rfl⟩
        · rw [← hc.used]
          omega
        · intro r' hr' he'
          rw [hclass]
          exact hl r' hr' he'
      have hcounted : Counted ⟨evictRow r.key e.records, e.used - r.size, e.evicted + 1⟩ := by
        refine ⟨?_, ?_⟩
        · show e.used - r.size = usedBytes (evictRow r.key e.records)
          rw [usedBytes_evictRow hc.unique hmem he, hc.used]
        · show ((evictRow r.key e.records).map Row.key).Nodup
          rw [evictRow_keys]
          exact hc.unique
      have hbatch : Batch c (evictRow r.key e.records) batch := by
        refine ⟨?_, hnodup.2⟩
        intro r' hr'
        obtain ⟨hmem', he', hclass'⟩ := hb.mem r' (List.mem_cons_of_mem _ hr')
        refine ⟨mem_evictRow_of_ne hmem' ?_, he', ?_⟩
        · intro hkey
          exact hnodup.1 (List.mem_map.mpr ⟨r', hr', hkey⟩)
        · rw [retentionClass_evictRow]
          exact hclass'
      obtain ⟨hc', hl', victims, hrun, -⟩ := ih hcounted (hl.evictRow r.key) hbatch
      exact ⟨hc', hl', r :: victims, .cons hstep hrun, fun _ _ => List.cons_ne_nil _ _⟩

/-- The batches of a step go on until the rest is within the budget or nothing of its class is
left. -/
theorem evictBatches_run {fuel : Nat} (hp : Picks condition c) (hc : Counted e)
    (hl : e.used ≤ budget ∨ Least c e.records) (hfuel : evictableCount e.records ≤ fuel) :
    Counted (evictBatches budget condition fuel e) ∧
      (∃ victims, Run (Evicts budget) e.records victims
        (evictBatches budget condition fuel e).records) ∧
      ((evictBatches budget condition fuel e).used ≤ budget ∨
        Least (c + 1) (evictBatches budget condition fuel e).records) := by
  induction fuel generalizing e with
  | zero =>
    refine ⟨hc, ⟨[], .nil _⟩, .inr ?_⟩
    intro r hr he
    have hpos : 0 < evictableCount e.records := List.countP_pos_iff.mpr ⟨r, hr, he⟩
    omega
  | succ fuel ih =>
    rw [evictBatches]
    split
    · rename_i hfits
      exact ⟨hc, ⟨[], .nil _⟩, .inl hfits⟩
    · rename_i hover
      have hleast : Least c e.records := hl.resolve_left hover
      split
      · rename_i hnil
        exact ⟨hc, ⟨[], .nil _⟩, .inr (least_of_selectBatch_nil hp hleast hnil)⟩
      · rename_i r batch hsel
        have hbatch := selectBatch_batch hp hc.unique hleast
        rw [hsel] at hbatch
        obtain ⟨hc1, hl1, victims, hrun, hsome⟩ :=
          @evictRows_run budget c e _ hc hleast hbatch
        have hvictims := hsome (by omega) (List.cons_ne_nil _ _)
        have hcount := evicts_count hrun hc.unique
        have hlen : 0 < victims.length := List.length_pos_iff.mpr hvictims
        obtain ⟨hc2, ⟨more, hmore⟩, hdone⟩ := ih hc1 (.inr hl1) (by omega)
        exact ⟨hc2, ⟨victims ++ more, hrun.append hmore⟩, hdone⟩

def PicksFrom : Nat → List (List Row → Row → Bool) → Prop
  | _, [] => True
  | c, condition :: steps => Picks condition c ∧ PicksFrom (c + 1) steps

theorem evictSteps_picks : PicksFrom classOutput evictSteps := by
  refine ⟨?_, ?_, ?_, ?_, trivial⟩
  all_goals
    intro records r hle
    simp only [Bool.and_eq_true, Bool.or_eq_true, decide_eq_true_eq]
    grind [retentionClass, classOutput, classJob, classDiagnostic, classAudit]

theorem evictAll_run {steps : List (List Row → Row → Bool)} (hp : PicksFrom c steps) (hc : Counted e)
    (hl : e.used ≤ budget ∨ Least c e.records) :
    (∃ victims, Run (Evicts budget) e.records victims (evictAll budget steps e).1) ∧
      (usedBytes (evictAll budget steps e).1 ≤ budget ∨
        Least (c + steps.length) (evictAll budget steps e).1) := by
  induction steps generalizing c e with
  | nil =>
    refine ⟨⟨[], .nil _⟩, ?_⟩
    show usedBytes e.records ≤ budget ∨ Least c e.records
    rw [← hc.used]
    exact hl
  | cons condition steps ih =>
    obtain ⟨hpick, hrest⟩ := hp
    have hcounted : Counted { e with evicted := 0 } := ⟨hc.used, hc.unique⟩
    obtain ⟨hc1, ⟨victims, hrun⟩, hl1⟩ := evictBatches_run (e := { e with evicted := 0 }) hpick hcounted
      hl List.countP_le_length
    obtain ⟨⟨more, hmore⟩, hdone⟩ := ih hrest hc1 hl1
    refine ⟨⟨victims ++ more, hrun.append hmore⟩, ?_⟩
    rw [List.length_cons, Nat.add_comm steps.length, ← Nat.add_assoc]
    exact hdone

end

/-! ## Floors -/

/-- A class of the table. -/
def Row.Classed (r : Row) : Prop := classOutput ≤ r.class_ ∧ r.class_ ≤ classAudit

/-- Every row lies above its stream's floor. -/
structure Floored (origin stream : String) (db : Db) (chain : Chain) : Prop where
  above : ∀ r ∈ db.records, db.floor r.origin r.stream < r.seq
  own : db.floor origin stream ≤ chain.seq
  classed : ∀ r ∈ db.records, r.Classed

/-- What later tables keep of earlier ones. -/
structure Later (db db' : Db) : Prop where
  floors : ∀ origin stream, db.floor origin stream ≤ db'.floor origin stream
  above : ∀ r ∈ db'.records, db.floor r.origin r.stream < r.seq
  rows : ∀ r ∈ db.records, r.seq ≤ db'.floor r.origin r.stream ∨
    ∃ r' ∈ db'.records, r'.key = r.key ∧ r'.prev = r.prev ∧ r'.hash = r.hash

/-- A row is put above its stream's floor. -/
structure Enters (db db' : Db) (row : Row) : Prop where
  records : db'.records = db.records ++ [row]
  floors : ∀ origin stream, db'.floor origin stream = db.floor origin stream
  above : db.floor row.origin row.stream < row.seq
  classed : row.Classed

section

variable {lib : Lib} {codec : Codec} {origin stream : String} {db db' db'' : Db} {chain chain' : Chain}
  {row : Row}

theorem Floored.refl (h : Floored origin stream db chain) : Later db db :=
  ⟨fun _ _ => Nat.le_refl _, h.above, fun r hr => .inr ⟨r, hr, rfl, rfl, rfl⟩⟩

theorem Later.trans (h : Later db db') (h' : Later db' db'') : Later db db'' := by
  refine ⟨fun o st => Nat.le_trans (h.floors o st) (h'.floors o st), ?_, ?_⟩
  · intro r hr
    have hle := h.floors r.origin r.stream
    have hlt := h'.above r hr
    omega
  · intro r hr
    rcases h.rows r hr with hgone | ⟨r', hr', hkey, hprev, hhash⟩
    · have hle := h'.floors r.origin r.stream
      exact .inl (by omega)
    · have hsame := hkey
      simp only [Row.key, Prod.mk.injEq] at hsame
      rcases h'.rows r' hr' with hgone | ⟨r'', hr'', hkey', hprev', hhash'⟩
      · rw [hsame.1, hsame.2.1, hsame.2.2] at hgone
        exact .inl hgone
      · exact .inr ⟨r'', hr'', hkey'.trans hkey, hprev'.trans hprev, hhash'.trans hhash⟩

theorem Enters.floored (h : Enters db db' row) (hf : Floored origin stream db chain)
    (hseq : chain.seq ≤ chain'.seq) : Floored origin stream db' chain' ∧ Later db db' := by
  have habove : ∀ r ∈ db'.records, db.floor r.origin r.stream < r.seq := by
    intro r hr
    rw [h.records, List.mem_append, List.mem_singleton] at hr
    rcases hr with hr | rfl
    · exact hf.above r hr
    · exact h.above
  refine ⟨⟨?_, ?_, ?_⟩, ?_, habove, ?_⟩
  · intro r hr
    rw [h.floors]
    exact habove r hr
  · rw [h.floors]
    exact Nat.le_trans hf.own hseq
  · intro r hr
    rw [h.records, List.mem_append, List.mem_singleton] at hr
    rcases hr with hr | rfl
    · exact hf.classed r hr
    · exact h.classed
  · intro o st
    rw [h.floors]
  · intro r hr
    refine .inr ⟨r, ?_, rfl, rfl, rfl⟩
    rw [h.records]
    exact List.mem_append_left _ hr

/-! ### Writes -/

theorem recordMeta_class (kind : RecordKind) (body : String) :
    classOutput ≤ (lib.recordMeta kind body).2.2 ∧ (lib.recordMeta kind body).2.2 ≤ classAudit := by
  unfold Lib.recordMeta classOutput classAudit classJob classDiagnostic
  cases kind with
  | jobEvent =>
    dsimp only
    split <;> simp
  | audit => simp
  | log => simp
  | journal => simp

theorem appendEntry_enters {entry : Entry}
    (h : appendEntry lib origin stream (db, chain) entry = .ok (db', chain'))
    (hf : Floored origin stream db chain) : (∃ row, Enters db db' row) ∧ chain.seq ≤ chain'.seq := by
  unfold appendEntry at h
  simp only [bind_eq_ok, pure_eq_ok] at h
  obtain ⟨db'', hins, heq⟩ := h
  obtain ⟨rfl, rfl⟩ := Prod.mk.inj heq
  obtain ⟨-, -, rfl⟩ := insertRow_eq_ok hins
  refine ⟨⟨_, rfl, fun _ _ => rfl, ?_, recordMeta_class ..⟩, Nat.le_succ _⟩
  exact Nat.lt_succ_of_le hf.own

variable {s : Store}

theorem copyRecord_enters {record : Record}
    (h : s.copyRecord lib db record = .ok (some db')) : ∃ row, Enters db db' row := by
  unfold Store.copyRecord at h
  simp only [bind_eq_ok, check_eq_ok, ofOption_eq_ok] at h
  obtain ⟨-, given, -, entry, -, hash, -, h⟩ := h
  split at h
  · cases h
  · rename_i hkept
    obtain ⟨prev, -, -, hstore⟩ := checkCopy_eq_ok h
    obtain ⟨hfits, -, -, -, -, hrecords⟩ := storeCopy_eq_ok hstore
    refine ⟨_, hrecords, storeCopy_floor hstore, ?_, recordMeta_class ..⟩
    have hseq : record.seq.toInt64.toInt = (record.seq.toNat : Int) := by
      have hof := toInt64_ofNat hfits
      rwa [UInt64.ofNat_toNat] at hof
    rw [hseq] at hkept
    show db.floor record.origin record.stream < record.seq.toNat
    omega

variable {s' : Store}

theorem append_floored {entries : List Entry} (h : s.append lib entries = .ok s')
    (hf : Floored s.origin s.stream s.db s.chain) :
    Floored s'.origin s'.stream s'.db s'.chain ∧ Later s.db s'.db := by
  unfold Store.append at h
  simp only [bind_eq_ok, pure_eq_ok] at h
  obtain ⟨⟨db', chain'⟩, hfold, rfl⟩ := h
  refine foldlM_invariant (fun state entry state' hI hstep => ?_) hfold
    (I := fun state => Floored s.origin s.stream state.1 state.2 ∧ Later s.db state.1) ⟨hf, hf.refl⟩
  obtain ⟨⟨row, henters⟩, hseq⟩ := appendEntry_enters hstep hI.1
  obtain ⟨hfloored, hlater⟩ := henters.floored hI.1 hseq
  exact ⟨hfloored, hI.2.trans hlater⟩

theorem insertCopies_floored {records inserted : List Record}
    (h : s.insertCopies lib records = .ok (s', inserted))
    (hf : Floored s.origin s.stream s.db s.chain) :
    Floored s'.origin s'.stream s'.db s'.chain ∧ Later s.db s'.db := by
  unfold Store.insertCopies at h
  simp only [bind_eq_ok, pure_eq_ok] at h
  obtain ⟨⟨last, stored⟩, hfold, heq⟩ := h
  obtain ⟨rfl, rfl⟩ := Prod.mk.inj heq
  refine foldlM_invariant (fun state record state' hI hstep => ?_) hfold
    (I := fun state => Floored s.origin s.stream state.1 s.chain ∧ Later s.db state.1) ⟨hf, hf.refl⟩
  obtain ⟨db, taken⟩ := state
  obtain ⟨db', taken'⟩ := state'
  rcases copyNext_cases hstep with ⟨-, rfl⟩ | hcopy
  · exact hI
  · obtain ⟨row, henters⟩ := copyRecord_enters hcopy
    obtain ⟨hfloored, hlater⟩ := henters.floored hI.1 (Nat.le_refl _)
    exact ⟨hfloored, hI.2.trans hlater⟩

theorem open_floored {stream : String} {nowMs : Int64}
    (h : Store.open_ s.db s.segments s.origin stream nowMs = .ok s')
    (hf : Floored s.origin s.stream s.db s.chain) :
    Floored s'.origin s'.stream s'.db s'.chain ∧ Later s.db s'.db := by
  unfold Store.open_ at h
  split at h
  · cases h
  · rename_i hnew
    obtain rfl := (Except.ok.inj h).symm
    have hfloor := floor_open s.db ⟨s.origin, stream, nowMs, 0⟩ rfl
    refine ⟨⟨?_, ?_, hf.classed⟩, ?_, hf.above, fun r hr => .inr ⟨r, hr, rfl, rfl, rfl⟩⟩
    · intro r hr
      rw [hfloor]
      exact hf.above r hr
    · rw [hfloor]
      unfold Db.floor
      rw [hnew]
    · intro o st
      rw [hfloor]

theorem write_floored (hf : Floored s.origin s.stream s.db s.chain) (w : Write) :
    Floored (s.write lib w).origin (s.write lib w).stream (s.write lib w).db (s.write lib w).chain ∧
      Later s.db (s.write lib w).db := by
  cases w with
  | append entries =>
    unfold Store.write
    dsimp only
    split
    · rename_i s' h
      exact append_floored h hf
    · exact ⟨hf, hf.refl⟩
  | insertCopies records =>
    unfold Store.write
    dsimp only
    split
    · rename_i s' inserted h
      exact insertCopies_floored h hf
    · exact ⟨hf, hf.refl⟩
  | keepFrom ms => exact ⟨hf, hf.refl⟩
  | reopen stream nowMs =>
    unfold Store.write
    dsimp only
    split
    · rename_i s' h
      exact open_floored h hf
    · exact ⟨hf, hf.refl⟩

/-! ### Compaction -/

/-- What a row's floor and chain depend on stays. -/
def Keeps (f : Row → Row) : Prop :=
  ∀ r, (f r).key = r.key ∧ (f r).prev = r.prev ∧ (f r).hash = r.hash ∧ (f r).class_ = r.class_

theorem Floored.map (hf : Floored origin stream db chain) {f : Row → Row} (hk : Keeps f)
    (hrecords : db'.records = db.records.map f) (hstreams : db'.streams = db.streams) :
    Floored origin stream db' chain ∧ Later db db' := by
  have hfloor : ∀ o st, db'.floor o st = db.floor o st := by
    intro o st
    unfold Db.floor Db.stream?
    rw [hstreams]
  have habove : ∀ r ∈ db'.records, db.floor r.origin r.stream < r.seq := by
    intro r hr
    rw [hrecords] at hr
    obtain ⟨r0, hr0, rfl⟩ := List.mem_map.mp hr
    have hkey := (hk r0).1
    simp only [Row.key, Prod.mk.injEq] at hkey
    rw [hkey.1, hkey.2.1, hkey.2.2]
    exact hf.above r0 hr0
  refine ⟨⟨?_, ?_, ?_⟩, ?_, habove, ?_⟩
  · intro r hr
    rw [hfloor]
    exact habove r hr
  · rw [hfloor]
    exact hf.own
  · intro r hr
    rw [hrecords] at hr
    obtain ⟨r0, hr0, rfl⟩ := List.mem_map.mp hr
    unfold Row.Classed
    rw [(hk r0).2.2.2]
    exact hf.classed r0 hr0
  · intro o st
    rw [hfloor]
  · intro r hr
    refine .inr ⟨f r, ?_, (hk r).1, (hk r).2.1, (hk r).2.2.1⟩
    rw [hrecords]
    exact List.mem_map_of_mem hr

theorem moved_keeps (s : Store) (keys : List Key) : Keeps (moved s keys) := by
  intro r
  unfold moved
  split <;> exact ⟨rfl, rfl, rfl, rfl⟩

theorem compact_floored (hf : Floored s.origin s.stream s.db s.chain) (job : JobId)
    (stop : Option (Nat × Nat)) :
    Floored (s.compact codec job stop).1.origin (s.compact codec job stop).1.stream
        (s.compact codec job stop).1.db (s.compact codec job stop).1.chain ∧
      Later s.db (s.compact codec job stop).1.db := by
  refine compact_induct
    (P := fun s' => Floored s'.origin s'.stream s'.db s'.chain ∧ Later s.db s'.db) ?_ ?_
    ⟨hf, hf.refl⟩ job stop
  · rintro s' name bytes ⟨hf', hl'⟩
    exact ⟨hf', hl'⟩
  · rintro s' name keys frame raw ⟨hf', hl'⟩
    obtain ⟨hfloored, hlater⟩ := hf'.map (moved_keeps s' keys)
      (@storeFrame_records s' name keys frame raw) rfl
    exact ⟨hfloored, hl'.trans hlater⟩

theorem act_floored (hf : Floored s.origin s.stream s.db s.chain) (a : Action) :
    Floored (s.act lib codec a).origin (s.act lib codec a).stream (s.act lib codec a).db
        (s.act lib codec a).chain ∧ Later s.db (s.act lib codec a).db := by
  cases a with
  | write w => exact write_floored hf w
  | compact job stop => exact compact_floored hf job stop

/-! ### Age -/

theorem foldl_max_le {l : List Nat} {init bound : Nat} (hinit : init ≤ bound) (h : ∀ n ∈ l, n ≤ bound) :
    l.foldl max init ≤ bound := by
  induction l generalizing init with
  | nil => exact hinit
  | cons a l ih =>
    have ha := h a (List.mem_cons_self ..)
    exact ih (by omega) fun n hn => h n (List.mem_cons_of_mem _ hn)

theorem stream?_raiseFloors (db : Db) (cutoff : Int64) (origin stream : String) :
    (db.raiseFloors cutoff).stream? origin stream =
      (db.stream? origin stream).map (·.raise db.records cutoff) := by
  unfold Db.stream? Db.raiseFloors
  rw [List.find?_map]
  rfl

theorem floor_le_raiseFloors (db : Db) (cutoff : Int64) (origin stream : String) :
    db.floor origin stream ≤ (db.raiseFloors cutoff).floor origin stream := by
  unfold Db.floor
  rw [stream?_raiseFloors]
  cases db.stream? origin stream with
  | none => exact Nat.le_refl _
  | some s => exact (le_foldl_max _ _).1

/-- A floor isn't raised above the records of its stream. -/
theorem raiseFloors_floor_le {bound : Nat} {cutoff : Int64} (h : db.floor origin stream ≤ bound)
    (hrows : ∀ r ∈ db.records, r.origin = origin → r.stream = stream → r.seq ≤ bound) :
    (db.raiseFloors cutoff).floor origin stream ≤ bound := by
  unfold Db.floor at h ⊢
  rw [stream?_raiseFloors]
  cases hfind : db.stream? origin stream with
  | none => exact Nat.zero_le _
  | some s =>
    rw [hfind] at h
    have hs := List.find?_some hfind
    simp only [decide_eq_true_eq] at hs
    refine foldl_max_le h ?_
    intro n hn
    obtain ⟨r, hr, rfl⟩ := List.mem_map.mp hn
    obtain ⟨hmem, hcond⟩ := List.mem_filter.mp hr
    simp only [decide_eq_true_eq] at hcond
    exact hrows r hmem (hcond.1.trans hs.1) (hcond.2.1.trans hs.2)

theorem aged_iff {r : Row} (hpos : 1 ≤ r.seq) : db.aged r = true ↔ r.seq ≤ db.floor r.origin r.stream := by
  unfold Db.aged Db.floor
  cases db.stream? r.origin r.stream with
  | none =>
    rw [Option.any_none]
    refine ⟨fun h => (Bool.false_ne_true h).elim, fun h => ?_⟩
    have hzero : r.seq ≤ 0 := h
    omega
  | some s => rw [Option.any_some, decide_eq_true_eq]

theorem deleteAged_floored (hs : Sound origin stream db chain) (hf : Floored origin stream db chain)
    (cutoff : Int64) :
    Floored origin stream (db.raiseFloors cutoff).deleteAged chain ∧
      Later db (db.raiseFloors cutoff).deleteAged := by
  have hkept : ∀ r ∈ (db.raiseFloors cutoff).deleteAged.records, r ∈ db.records ∧
      (db.raiseFloors cutoff).floor r.origin r.stream < r.seq := by
    intro r hr
    obtain ⟨hmem, hcond⟩ := List.mem_filter.mp hr
    rw [Bool.not_eq_true', ← Bool.not_eq_true, aged_iff (hs.pos r hmem)] at hcond
    exact ⟨hmem, Nat.lt_of_not_le hcond⟩
  refine ⟨⟨fun r hr => (hkept r hr).2, ?_, fun r hr => hf.classed r (hkept r hr).1⟩,
    floor_le_raiseFloors db cutoff, ?_, ?_⟩
  · exact raiseFloors_floor_le hf.own fun r hr ho hst => (hs.own r hr ho hst).1
  · intro r hr
    exact Nat.lt_of_le_of_lt (floor_le_raiseFloors ..) (hkept r hr).2
  · intro r hr
    by_cases haged : (db.raiseFloors cutoff).aged r = true
    · exact .inl ((aged_iff (hs.pos r hr)).mp haged)
    · refine .inr ⟨r, List.mem_filter.mpr ⟨hr, ?_⟩, rfl, rfl, rfl⟩
      rw [Bool.not_eq_true', ← Bool.not_eq_true]
      exact haged

theorem Marks.keeps {f : Row → Row} (h : Marks f) : Keeps f := by
  intro r
  rcases h r with heq | heq
  · rw [heq]
    exact ⟨rfl, rfl, rfl, rfl⟩
  · rw [heq]
    exact ⟨rfl, rfl, rfl, rfl⟩

end

/-! ## A pass of retention -/

section

variable {lib : Lib} {codec : Codec} {s : Retained} {policy : Policy} {nowMs : Int64}
  {space : Option (UInt64 × UInt64)}

/-- Records are evicted one after the other, until they are within the budget or none is left. -/
structure Enforced (budget : Nat) (records records' : List Row) : Prop where
  run : ∃ victims, Run (Evicts budget) records victims records'
  within : usedBytes records' ≤ budget ∨ ∀ r ∈ records', r.evictable = false

abbrev Retained.young (s : Retained) (policy : Policy) (nowMs : Int64) : Db :=
  (s.store.db.raiseFloors (policy.cutoff nowMs)).deleteAged

def Retained.passed (s : Retained) (policy : Policy) (nowMs : Int64) (records : List Row) : Store :=
  { s.store with db := { s.young policy nowMs with records } }.dropSegments

theorem retentionClass_classed {records : List Row} {r : Row} (h : r.Classed) :
    classOutput ≤ retentionClass records r ∧ retentionClass records r ≤ classAudit := by
  obtain ⟨hlow, hhigh⟩ := h
  unfold retentionClass classOutput classAudit classJob at *
  split <;> omega

theorem evictAll_enforced {db : Db} {budget : Nat} (hu : (db.records.map Row.key).Nodup)
    (hc : ∀ r ∈ db.records, r.Classed) :
    Enforced budget db.records (evictAll budget evictSteps ⟨db.records, usedBytes db.records, 0⟩).1 := by
  obtain ⟨⟨victims, hrun⟩, hdone⟩ := @evictAll_run budget classOutput
    ⟨db.records, usedBytes db.records, 0⟩ evictSteps evictSteps_picks ⟨rfl, hu⟩
    (.inr fun r hr _ => (retentionClass_classed (hc r hr)).1)
  refine ⟨⟨victims, hrun⟩, hdone.imp_right fun hleast r hr => ?_⟩
  obtain ⟨f, hf, hmap⟩ := evicts_marks hrun
  have hclassed : r.Classed := by
    have hmem := hr
    rw [hmap] at hmem
    obtain ⟨r0, hr0, rfl⟩ := List.mem_map.mp hmem
    unfold Row.Classed
    rw [(hf.keeps r0).2.2.2]
    exact hc r0 hr0
  rw [← Bool.not_eq_true]
  intro he
  have hle := hleast r hr he
  have hge := (@retentionClass_classed
    (evictAll budget evictSteps ⟨db.records, usedBytes db.records, 0⟩).1 r hclassed).2
  have hlast : classOutput + evictSteps.length = classAudit + 1 := rfl
  omega

theorem usedBytes_evicts_le {budget : Nat} {records records' : List Row}
    (h : Run (Evicts budget) records victims records') (hu : (records.map Row.key).Nodup) :
    usedBytes records' ≤ usedBytes records := by
  have hboth := h.invariant
    (I := fun rows => usedBytes rows ≤ usedBytes records ∧ (rows.map Row.key).Nodup) ?_
    ⟨Nat.le_refl _, hu⟩
  · exact hboth.1
  · rintro rows r rows' ⟨hle, hnodup⟩ hstep
    have hused := usedBytes_evictRow hnodup hstep.mem hstep.evictable
    rw [hstep.result, evictRow_keys]
    exact ⟨by omega, hnodup⟩

theorem keepFrom_db (s : Store) (ms : Int64) : (s.keepFrom ms).db = s.db := rfl

theorem dropSegments_records (s : Store) : s.dropSegments.db.records = s.db.records := rfl

theorem mem_dropSegments {s : Store} {g : SegmentRow} :
    g ∈ s.dropSegments.db.segments ↔ g ∈ s.db.segments ∧ g.used s.db.records = true := by
  unfold Store.dropSegments
  rw [List.partition_eq_filter_filter, List.mem_filter]

theorem dropSegments_file {s : Store} {g : SegmentRow} (h : g ∈ s.dropSegments.db.segments) :
    s.dropSegments.segments g.file = s.segments g.file := by
  have hkept := h
  unfold Store.dropSegments at hkept ⊢
  rw [List.partition_eq_filter_filter] at hkept ⊢
  dsimp only at hkept ⊢
  rw [if_neg]
  intro hgone
  have hnone := (List.mem_filter.mp hgone).2
  rw [Bool.and_eq_true, Bool.not_eq_true', ← Bool.not_eq_true, List.any_eq_true] at hnone
  exact hnone.1 ⟨g, hkept, by simp⟩

theorem passed_same (s : Retained) (policy : Policy) (nowMs : Int64) (records : List Row) :
    (s.passed policy nowMs records).origin = s.store.origin ∧
      (s.passed policy nowMs records).stream = s.store.stream ∧
      (s.passed policy nowMs records).chain = s.store.chain := by
  obtain ⟨⟨db, segments, origin, stream, chain, keepFromMs⟩, auditEvictedMs⟩ := s
  dsimp only
  exact ⟨rfl, rfl, rfl⟩

theorem storeUsed_cases (records : List Row) :
    (2 ^ 63 ≤ usedBytes records ∧ storeUsed records = .error (.db "integer overflow")) ∨
    (usedBytes records < 2 ^ 63 ∧ ∃ oldest, storeUsed records = .ok (usedBytes records, oldest)) := by
  unfold storeUsed
  split
  · rename_i hover
    exact .inl ⟨hover, rfl⟩
  · rename_i hfits
    exact .inr ⟨Nat.lt_of_not_le hfits, _, rfl⟩

theorem keepFrom_young (ms : Int64) :
    Retained.young { s with store := s.store.keepFrom ms } policy nowMs = s.young policy nowMs := by
  unfold Retained.young
  dsimp only
  rw [keepFrom_db]

theorem keepFrom_keeps {s : Store} (hk : Kept s) (hf : Floored s.origin s.stream s.db s.chain)
    (ms : Int64) : Kept (s.keepFrom ms) ∧
      Floored (s.keepFrom ms).origin (s.keepFrom ms).stream (s.keepFrom ms).db (s.keepFrom ms).chain :=
  ⟨⟨⟨hk.sound.own, hk.sound.ownKnown, hk.sound.pos, hk.sound.fits, hk.sound.known, hk.sound.unique⟩,
    ⟨hk.tidy.files, hk.tidy.rows⟩⟩, ⟨hf.above, hf.own, hf.classed⟩⟩

theorem apply_cases (hk : Kept s.store)
    (hf : Floored s.store.origin s.store.stream s.store.db s.store.chain) :
    (∃ e, (s.apply policy nowMs space).2 = .error e ∧ (s.apply policy nowMs space).1 = s) ∨
    ∃ report records, (s.apply policy nowMs space).2 = .ok report ∧
      (s.apply policy nowMs space).1.store = s.passed policy nowMs records ∧
      report.usedBytes = usedBytes records ∧
      Enforced report.budgetBytes (s.young policy nowMs).records records := by
  have hclassed := (deleteAged_floored hk.sound hf (policy.cutoff nowMs)).1.classed
  have hunique : ((s.young policy nowMs).records.map Row.key).Nodup :=
    hk.sound.unique.sublist (List.filter_sublist.map _)
  unfold Retained.apply
  dsimp only
  rcases storeUsed_cases (s.young policy nowMs).records with ⟨-, hused⟩ | ⟨hfits, oldest, hused⟩
  · rw [hused]
    exact .inl ⟨_, rfl, rfl⟩
  · rw [hused]
    dsimp only
    have henforced := @evictAll_enforced (s.young policy nowMs)
      (policy.budget (usedBytes (s.young policy nowMs).records) space) hunique hclassed
    obtain ⟨victims, hrun⟩ := henforced.run
    have hle := usedBytes_evicts_le hrun hunique
    generalize evictAll (policy.budget (usedBytes (s.young policy nowMs).records) space) evictSteps
      ⟨(s.young policy nowMs).records, usedBytes (s.young policy nowMs).records, 0⟩ = answer at *
    obtain ⟨records, evicted⟩ := answer
    dsimp only at hle henforced ⊢
    rcases storeUsed_cases records with ⟨hover, -⟩ | ⟨-, oldest', hused'⟩
    · exact absurd (Nat.le_trans hover hle) (Nat.not_le_of_lt hfits)
    · refine .inr ⟨⟨usedBytes records,
        policy.budget (usedBytes (s.young policy nowMs).records) space, oldest',
        s.store.db.records.length - (s.young policy nowMs).records.length, evicted,
        if 0 < evicted.getD 3 0 then some nowMs else s.auditEvictedMs⟩, records, ?_, rfl, rfl, henforced⟩
      rw [dropSegments_records, hused']
      rfl

/-- A pass fails as a whole, or reports what it left. -/
theorem enforce_cases (hk : Kept s.store)
    (hf : Floored s.store.origin s.store.stream s.store.db s.store.chain) :
    (∃ e, (s.enforce policy nowMs space).2 = .error e ∧
      (s.enforce policy nowMs space).1.store = s.store.keepFrom (policy.cutoff nowMs)) ∨
    ∃ report records, (s.enforce policy nowMs space).2 = .ok report ∧
      (s.enforce policy nowMs space).1.store =
        Retained.passed { s with store := s.store.keepFrom (policy.cutoff nowMs) } policy nowMs records ∧
      report.usedBytes = usedBytes records ∧
      Enforced report.budgetBytes (s.young policy nowMs).records records := by
  obtain ⟨hkept, hfloored⟩ := keepFrom_keeps hk hf (policy.cutoff nowMs)
  unfold Retained.enforce
  generalize policy.cutoff nowMs = ms at hkept hfloored ⊢
  rcases @apply_cases { s with store := s.store.keepFrom ms } policy nowMs space
    hkept hfloored with ⟨e, he, hs⟩ | ⟨report, records, hok, hs, hused, henforced⟩
  · exact .inl ⟨e, he, by rw [hs]⟩
  · rw [keepFrom_young] at henforced
    exact .inr ⟨report, records, hok, hs, hused, henforced⟩

theorem passed_keeps {budget : Nat} {records : List Row} (hk : Kept s.store)
    (hf : Floored s.store.origin s.store.stream s.store.db s.store.chain)
    (he : Enforced budget (s.young policy nowMs).records records) :
    Kept (s.passed policy nowMs records) ∧
      Floored (s.passed policy nowMs records).origin (s.passed policy nowMs records).stream
        (s.passed policy nowMs records).db (s.passed policy nowMs records).chain ∧
      Later s.store.db (s.passed policy nowMs records).db := by
  obtain ⟨horigin, hstream, hchain⟩ := passed_same s policy nowMs records
  obtain ⟨victims, hrun⟩ := he.run
  obtain ⟨f, hmarks, hmap⟩ := evicts_marks hrun
  obtain ⟨hfloored, hlater⟩ := deleteAged_floored hk.sound hf (policy.cutoff nowMs)
  obtain ⟨hfloored', hlater'⟩ := @Floored.map _ _ _ (s.passed policy nowMs records).db _ hfloored f
    hmarks.keeps hmap rfl
  have hback : ∀ r ∈ records, ∃ r0 ∈ s.store.db.records, r = f r0 := by
    intro r hr
    rw [hmap] at hr
    obtain ⟨r0, hr0, rfl⟩ := List.mem_map.mp hr
    exact ⟨r0, List.mem_of_mem_filter hr0, rfl⟩
  rw [horigin, hstream, hchain]
  refine ⟨⟨?_, ?_, ?_⟩, hfloored', hlater.trans hlater'⟩
  · rw [horigin, hstream, hchain]
    refine hk.sound.back ?_ ?_ ?_
    · intro r hr
      obtain ⟨r0, hr0, rfl⟩ := hback r hr
      exact ⟨r0, hr0, (hmarks.keeps r0).1, (hmarks.keeps r0).2.2.1⟩
    · rintro origin stream ⟨row, hrow, ho, hst⟩
      exact ⟨row.raise s.store.db.records (policy.cutoff nowMs), List.mem_map_of_mem hrow, ho, hst⟩
    · show (records.map Row.key).Nodup
      rw [evicts_keys hrun]
      exact hk.sound.unique.sublist (List.filter_sublist.map _)
  · -- the file of a frame that is kept stays
    intro g hg
    obtain ⟨bytes, hbytes, hlen⟩ := hk.tidy.files g (mem_dropSegments.mp hg).1
    exact ⟨bytes, (dropSegments_file hg).trans hbytes, hlen⟩
  · intro r hr id hid
    obtain ⟨r0, hr0, rfl⟩ := hback r hr
    have hseg : r0.segment = some id := by
      rcases hmarks r0 with heq | heq
      · rwa [heq] at hid
      · rw [heq] at hid
        cases hid
    obtain ⟨g, hg, hgid⟩ := hk.tidy.rows r0 hr0 id hseg
    refine ⟨g, mem_dropSegments.mpr ⟨hg, ?_⟩, hgid⟩
    refine List.any_eq_true.mpr ⟨f r0, hr, ?_⟩
    rw [hid, hgid]
    exact decide_eq_true rfl

/-! ## Runs -/

theorem change_keeps (hk : Kept s.store)
    (hf : Floored s.store.origin s.store.stream s.store.db s.store.chain) (c : Change) :
    Kept (s.change lib codec c).store ∧
      Floored (s.change lib codec c).store.origin (s.change lib codec c).store.stream
        (s.change lib codec c).store.db (s.change lib codec c).store.chain ∧
      Later s.store.db (s.change lib codec c).store.db := by
  cases c with
  | act a =>
    obtain ⟨hfloored, hlater⟩ := act_floored hf a
    exact ⟨hk.act a, hfloored, hlater⟩
  | enforce policy nowMs space =>
    show Kept (s.enforce policy nowMs space).1.store ∧ _
    obtain ⟨hkept, hfloored⟩ := keepFrom_keeps hk hf (policy.cutoff nowMs)
    rcases @enforce_cases s policy nowMs space hk hf with ⟨e, -, hs⟩ | ⟨report, records, -, hs, -, he⟩
    · unfold Retained.change
      rw [hs]
      refine ⟨hkept, hfloored, ?_⟩
      rw [keepFrom_db]
      exact hf.refl
    · unfold Retained.change
      rw [hs]
      rw [← keepFrom_young (policy.cutoff nowMs)] at he
      generalize policy.cutoff nowMs = ms at hkept hfloored he ⊢
      exact @passed_keeps { s with store := s.store.keepFrom ms } policy nowMs _ _ hkept hfloored he

theorem changes_keep (hk : Kept s.store)
    (hf : Floored s.store.origin s.store.stream s.store.db s.store.chain) (changes : List Change) :
    Kept (s.changes lib codec changes).store ∧
      Floored (s.changes lib codec changes).store.origin (s.changes lib codec changes).store.stream
        (s.changes lib codec changes).store.db (s.changes lib codec changes).store.chain ∧
      Later s.store.db (s.changes lib codec changes).store.db := by
  induction changes generalizing s with
  | nil => exact ⟨hk, hf, hf.refl⟩
  | cons c changes ih =>
    obtain ⟨hk1, hf1, hl1⟩ := @change_keeps lib codec s hk hf c
    obtain ⟨hk2, hf2, hl2⟩ := ih hk1 hf1
    exact ⟨hk2, hf2, hl1.trans hl2⟩

theorem fresh_floored (origin stream : String) (nowMs : Int64) :
    Floored origin stream (Store.fresh origin stream nowMs).db ⟨0, zeroHash⟩ := by
  have hfloor := floor_open {} ⟨origin, stream, nowMs, 0⟩ rfl
  refine ⟨List.forall_mem_nil _, ?_, List.forall_mem_nil _⟩
  show Db.floor { streams := [] ++ [⟨origin, stream, nowMs, 0⟩] } origin stream ≤ 0
  rw [hfloor]
  exact Nat.le_refl _

end

end Bmac.Records
