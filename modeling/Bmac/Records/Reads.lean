import Bmac.Records.Segments

/-!
# What readers see

A reader gets of each row its body, from the row or from the frame it names: `view`. The frame a
reader keeps is only a copy of what it would read again, so two stores whose rows differ only in
where their bodies are, and have the same views, give the same answers to every reader.
-/

namespace Bmac.Records

open Bmac.Base Bmac.Base.Lines Bmac.Core

variable {codec : Codec} {s s' : Store}

def view (codec : Codec) (s : Store) (r : Row) : Except StoreError (Option String) :=
  (bodyOf codec s none r).map (·.1)

/-- A row without the place of its body. -/
def Row.shell (r : Row) : Row := { r with body := none, segment := none }

section

variable {r r' : Row} (h : r'.shell = r.shell)

include h

theorem seq_of_shell : r'.seq = r.seq := by
  show r'.shell.seq = r.shell.seq
  rw [h]

theorem key_of_shell : r'.key = r.key := by
  show r'.shell.key = r.shell.key
  rw [h]

theorem job_of_shell : r'.job = r.job := by
  show r'.shell.job = r.shell.job
  rw [h]

theorem jobSeq_of_shell : r'.jobSeq = r.jobSeq := by
  show r'.shell.jobSeq = r.shell.jobSeq
  rw [h]

theorem kind_of_shell : r'.kind = r.kind := by
  show r'.shell.kind = r.shell.kind
  rw [h]

theorem timeMs_of_shell : r'.timeMs = r.timeMs := by
  show r'.shell.timeMs = r.shell.timeMs
  rw [h]

theorem order_of_shell : r'.order = r.order := by
  show r'.shell.order = r.shell.order
  rw [h]

theorem record_of_shell : r'.record = r.record := by
  show r'.shell.record = r.shell.record
  rw [h]

end

/-! ## The frame a reader keeps -/

def CacheOk (codec : Codec) (s : Store) (cache : FrameCache) : Prop :=
  ∀ id frame, cache = some (id, frame) → readFrame codec s id = .ok frame

theorem CacheOk.none : CacheOk codec s none := by
  intro id frame h
  cases h

variable {cache : FrameCache}

theorem frameFor_eq (hc : CacheOk codec s cache) (segment : Nat) :
    frameFor codec s cache segment = readFrame codec s segment := by
  unfold frameFor
  split
  · rename_i id frame
    split
    · rename_i hid
      rw [← hid, hc id frame rfl]
    · rfl
  · rfl

variable {r : Row}

theorem view_inline {body : String} (h : r.body = some body) :
    view codec s r = .ok (some body) := by
  simp [view, bodyOf, h, Except.map]

theorem view_moved {segment : Nat} (hb : r.body = none) (hs : r.segment = some segment) :
    view codec s r = (readFrame codec s segment).map (·.get? (r.origin, r.stream, r.seq)) := by
  unfold view bodyOf
  rw [hb, hs]
  dsimp only
  rw [frameFor_eq CacheOk.none]
  cases readFrame codec s segment <;> rfl

theorem bodyOf_cases (hc : CacheOk codec s cache) (r : Row) :
    (∃ e, view codec s r = .error e ∧ bodyOf codec s cache r = .error e) ∨
      ∃ body cache', view codec s r = .ok body ∧ bodyOf codec s cache r = .ok (body, cache') ∧
        CacheOk codec s cache' := by
  cases hb : r.body with
  | some body =>
    exact .inr ⟨some body, cache, view_inline hb, by simp [bodyOf, hb], hc⟩
  | none =>
    cases hs : r.segment with
    | none => exact .inr ⟨none, cache, by simp [view, bodyOf, hb, hs, Except.map],
        by simp [bodyOf, hb, hs], hc⟩
    | some segment =>
      have hv : view codec s r = _ := view_moved hb hs
      have hbody : bodyOf codec s cache r = (readFrame codec s segment).bind fun frame =>
          .ok (frame.get? (r.origin, r.stream, r.seq), some (segment, frame)) := by
        unfold bodyOf
        rw [hb, hs]
        dsimp only
        rw [frameFor_eq hc]
        rfl
      cases hf : readFrame codec s segment with
      | error e =>
        rw [hf] at hv hbody
        exact .inl ⟨e, hv, hbody⟩
      | ok frame =>
        rw [hf] at hv hbody
        refine .inr ⟨_, _, hv, hbody, ?_⟩
        intro id frame' heq
        obtain ⟨rfl, rfl⟩ := Prod.mk.inj (Option.some.inj heq)
        exact hf

/-! ## Rows that look the same -/

/-- Two rows of two stores that differ only in where their body is. -/
structure Looks (codec : Codec) (s s' : Store) (r r' : Row) : Prop where
  shell : r'.shell = r.shell
  view : view codec s' r' = view codec s r

theorem readNext_looks {rows rows' : List Row} (h : List.Forall₂ (Looks codec s s') rows rows')
    {out : List Record} {cache' : FrameCache} (hc : CacheOk codec s cache)
    (hc' : CacheOk codec s' cache') :
    (rows'.foldlM (readNext codec s') (out, cache')).map (·.1) =
      (rows.foldlM (readNext codec s) (out, cache)).map (·.1) := by
  induction h generalizing out cache cache' with
  | nil => rfl
  | @cons r r' rows rows' hr _ ih =>
    rw [List.foldlM_cons, List.foldlM_cons]
    rcases bodyOf_cases hc r with ⟨e, hv, hb⟩ | ⟨body, next, hv, hb, hnext⟩
    · rcases bodyOf_cases hc' r' with ⟨e', hv', hb'⟩ | ⟨body', next', hv', -, -⟩
      · rw [hr.view, hv] at hv'
        obtain rfl := Except.error.inj hv'
        simp [readNext, hb, hb', bind, Except.bind, Except.map]
      · rw [hr.view, hv] at hv'
        cases hv'
    · rcases bodyOf_cases hc' r' with ⟨e', hv', -⟩ | ⟨body', next', hv', hb', hnext'⟩
      · rw [hr.view, hv] at hv'
        cases hv'
      · rw [hr.view, hv] at hv'
        obtain rfl := Except.ok.inj hv'
        have hleft : readNext codec s (out, cache) r = .ok (out ++ (body.map r.record).toList, next) := by
          simp [readNext, hb, bind, Except.bind, pure, Except.pure]
        have hright : readNext codec s' (out, cache') r' =
            .ok (out ++ (body.map r.record).toList, next') := by
          simp [readNext, hb', bind, Except.bind, pure, Except.pure, record_of_shell hr.shell]
        rw [hleft, hright]
        exact ih hnext hnext'

theorem push_looks {β : Type} (parse : String → Option β) (job : JobId) (jobSeq : UInt64) {r' : Row}
    (ht : r'.timeMs = r.timeMs) (st : PageState β) (cache cache' cache0' : FrameCache)
    (body : Option String) : ({ st with cache := cache0' }.push parse job jobSeq r' cache' body) =
      { st.push parse job jobSeq r cache body with cache := cache' } := by
  unfold PageState.push
  split
  · rfl
  · split
    · rfl
    · rw [ht]

theorem push_cache {β : Type} (parse : String → Option β) (job : JobId) (jobSeq : UInt64) (r : Row)
    (st : PageState β) (cache : FrameCache) (body : Option String) :
    (st.push parse job jobSeq r cache body).cache = cache := by
  unfold PageState.push
  split
  · rfl
  · split <;> rfl

theorem readPageFrom_looks {β : Type} (parse : String → Option β) (job : JobId) (limit : Nat)
    {rows rows' : List (Int64 × Row)}
    (h : List.Forall₂ (fun a b => b.1 = a.1 ∧ Looks codec s s' a.2 b.2) rows rows')
    {st : PageState β} {cache' : FrameCache} (hc : CacheOk codec s st.cache)
    (hc' : CacheOk codec s' cache') :
    readPageFrom codec parse s' job limit { st with cache := cache' } rows' =
      readPageFrom codec parse s job limit st rows := by
  induction h generalizing st cache' with
  | nil => rfl
  | @cons a b rows rows' hr _ ih =>
    obtain ⟨jobSeq, r⟩ := a
    obtain ⟨jobSeq', r'⟩ := b
    obtain ⟨hseq, hr⟩ := hr
    dsimp only at hseq
    subst hseq
    unfold readPageFrom
    dsimp only
    split
    · exact ih hc hc'
    · split
      · rfl
      · rcases bodyOf_cases hc r with ⟨e, hv, hb⟩ | ⟨body, next, hv, hb, hnext⟩
        · rcases bodyOf_cases hc' r' with ⟨e', hv', hb'⟩ | ⟨body', next', hv', -, -⟩
          · rw [hr.view, hv] at hv'
            obtain rfl := Except.error.inj hv'
            rw [hb, hb']
            rfl
          · rw [hr.view, hv] at hv'
            cases hv'
        · rcases bodyOf_cases hc' r' with ⟨e', hv', -⟩ | ⟨body', next', hv', hb', hnext'⟩
          · rw [hr.view, hv] at hv'
            cases hv'
          · rw [hr.view, hv] at hv'
            obtain rfl := Except.ok.inj hv'
            rw [hb, hb']
            have ht := timeMs_of_shell hr.shell
            show readPageFrom codec parse s' job limit
                ({ st with cache := cache' }.push parse job _ r' next' body) rows' =
              readPageFrom codec parse s job limit (st.push parse job _ r next body) rows
            rw [push_looks parse job _ ht st next next' cache' body]
            refine ih ?_ hnext'
            rw [push_cache]
            exact hnext

/-! ## Stores that look the same -/

/-- The bodies of a store's rows may be elsewhere in the other store, and are found there. -/
structure SameViews (codec : Codec) (s s' : Store) : Prop where
  rows : ∃ f : Row → Row, s'.db.records = s.db.records.map f ∧
    (∀ r, (f r).shell = r.shell) ∧ ∀ r ∈ s.db.records, view codec s' (f r) = view codec s r

theorem SameViews.refl : SameViews codec s s :=
  ⟨id, by simp, fun _ => rfl, fun _ _ => rfl⟩

theorem SameViews.trans {s'' : Store} (h : SameViews codec s s') (h' : SameViews codec s' s'') :
    SameViews codec s s'' := by
  obtain ⟨f, hf, hshell, hview⟩ := h
  obtain ⟨g, hg, hshell', hview'⟩ := h'
  refine ⟨g ∘ f, ?_, ?_, ?_⟩
  · rw [hg, hf, List.map_map]
  · intro r
    exact (hshell' (f r)).trans (hshell r)
  · intro r hr
    have hmem : f r ∈ s'.db.records := by
      rw [hf]
      exact List.mem_map_of_mem hr
    exact (hview' (f r) hmem).trans (hview r hr)

theorem sqlLimit_map {α β : Type} (limit : UInt64) (f : α → β) (rows : List α) :
    sqlLimit limit (rows.map f) = (sqlLimit limit rows).map f := by
  unfold sqlLimit
  split
  · rfl
  · exact List.map_take.symm

theorem sqlLimit_subset {α : Type} (limit : UInt64) (rows : List α) : sqlLimit limit rows ⊆ rows := by
  unfold sqlLimit
  split
  · exact fun _ h => h
  · exact fun _ h => List.mem_of_mem_take h

theorem recordRows_map {f : Row → Row} (hshell : ∀ r, (f r).shell = r.shell)
    (hf : s'.db.records = s.db.records.map f) (origin stream : String) (after limit : UInt64) :
    recordRows s'.db origin stream after limit = (recordRows s.db origin stream after limit).map f := by
  unfold recordRows
  dsimp only
  rw [← sqlLimit_map, List.map_insertionSort (r := fun a b : Row => a.seq ≤ b.seq)
    (s := fun a b : Row => a.seq ≤ b.seq), hf, List.filter_map]
  · congr 3
    refine List.filter_congr fun r _ => ?_
    have hkey := key_of_shell (hshell r)
    simp only [Row.key, Prod.mk.injEq] at hkey
    simp only [Function.comp_apply, hkey.1, hkey.2.1, hkey.2.2]
  · intro a _ b _
    rw [seq_of_shell (hshell a), seq_of_shell (hshell b)]

theorem pageRows_map {f : Row → Row} (hshell : ∀ r, (f r).shell = r.shell)
    (hf : s'.db.records = s.db.records.map f) (job : JobId) (fromSeq : UInt64) :
    pageRows s'.db job fromSeq = (pageRows s.db job fromSeq).map fun a => (a.1, f a.2) := by
  unfold pageRows
  dsimp only
  rw [hf, List.filter_map, ← List.map_insertionSort (r := fun a b : Row => a.order ≤ b.order)
      (s := fun a b : Row => a.order ≤ b.order),
    List.filterMap_map, List.map_filterMap]
  · congr 1
    · funext r
      simp only [Function.comp_apply, jobSeq_of_shell (hshell r), Option.map_map]
      rfl
    · congr 1
      refine List.filter_congr fun r _ => ?_
      simp only [Function.comp_apply, jobSeq_of_shell (hshell r), job_of_shell (hshell r),
        kind_of_shell (hshell r)]
  · intro a _ b _
    rw [order_of_shell (hshell a), order_of_shell (hshell b)]

theorem mem_of_mem_recordRows {origin stream : String} {after limit : UInt64} {db : Db}
    (h : r ∈ recordRows db origin stream after limit) : r ∈ db.records := by
  have hsort := sqlLimit_subset limit _ h
  rw [List.mem_insertionSort] at hsort
  exact (List.mem_filter.mp hsort).1

theorem mem_of_mem_pageRows {job : JobId} {fromSeq : UInt64} {a : Int64 × Row} {db : Db}
    (h : a ∈ pageRows db job fromSeq) : a.2 ∈ db.records := by
  obtain ⟨r, hr, ha⟩ := List.mem_filterMap.mp h
  obtain ⟨n, -, rfl⟩ := Option.map_eq_some_iff.mp ha
  rw [List.mem_insertionSort] at hr
  exact (List.mem_filter.mp hr).1

theorem SameViews.readRecords_eq (h : SameViews codec s s') (origin stream : String)
    (after limit : UInt64) :
    readRecords codec s' origin stream after limit = readRecords codec s origin stream after limit := by
  obtain ⟨f, hf, hshell, hview⟩ := h
  have hread : ∀ t : Store, readRecords codec t origin stream after limit =
      ((recordRows t.db origin stream after limit).foldlM (readNext codec t) ([], none)).map (·.1) := by
    intro t
    unfold readRecords
    cases (recordRows t.db origin stream after limit).foldlM (readNext codec t) ([], none) <;> rfl
  rw [hread, hread, recordRows_map hshell hf]
  refine readNext_looks ?_ CacheOk.none CacheOk.none
  rw [List.forall₂_map_right_iff, List.forall₂_same]
  intro r hr
  exact ⟨hshell r, hview r (mem_of_mem_recordRows hr)⟩

theorem SameViews.readPage_eq {β : Type} (h : SameViews codec s s') (parse : String → Option β)
    (job : JobId) (fromSeq : UInt64) (limit : Nat) :
    readPage codec parse s' job fromSeq limit = readPage codec parse s job fromSeq limit := by
  obtain ⟨f, hf, hshell, hview⟩ := h
  unfold readPage
  rw [pageRows_map hshell hf]
  refine @readPageFrom_looks codec s s' β parse job limit _ _ ?_ {} none CacheOk.none CacheOk.none
  rw [List.forall₂_map_right_iff, List.forall₂_same]
  intro a ha
  exact ⟨rfl, hshell a.2, hview a.2 (mem_of_mem_pageRows ha)⟩

/-! ## One row alone -/

theorem toInt64_ofNat {n : Nat} (h : n < 2 ^ 63) : (UInt64.ofNat n).toInt64.toInt = (n : Int) := by
  rw [UInt64.toInt64_ofNat', Int64.toInt_ofNat_of_lt h]

theorem recordRows_single (hu : (s.db.records.map Row.key).Nodup) (hr : r ∈ s.db.records)
    (hpos : 1 ≤ r.seq) (hfits : r.seq < 2 ^ 63) :
    recordRows s.db r.origin r.stream (UInt64.ofNat (r.seq - 1)) 1 = [r] := by
  have hafter := toInt64_ofNat (n := r.seq - 1) (by omega)
  unfold recordRows
  dsimp only
  set rows := s.db.records.filter fun x =>
    decide (x.origin = r.origin ∧ x.stream = r.stream ∧ (UInt64.ofNat (r.seq - 1)).toInt64.toInt < x.seq)
    with hrows
  have hmem : r ∈ rows := by
    refine List.mem_filter.mpr ⟨hr, ?_⟩
    rw [hafter]
    simp only [decide_eq_true_eq, true_and]
    omega
  have hleast : ∀ x ∈ rows, r.seq ≤ x.seq ∧ (x.seq = r.seq → x = r) := by
    intro x hx
    obtain ⟨hx, hp⟩ := List.mem_filter.mp hx
    rw [hafter] at hp
    simp only [decide_eq_true_eq] at hp
    refine ⟨by omega, ?_⟩
    intro hseq
    refine List.inj_on_of_nodup_map hu hx hr ?_
    unfold Row.key
    rw [hp.1, hp.2.1, hseq]
  have hsorted := List.pairwise_insertionSort (fun a b : Row => a.seq ≤ b.seq) rows
  have hin : r ∈ rows.insertionSort fun a b => a.seq ≤ b.seq := (List.mem_insertionSort _).mpr hmem
  have hback : ∀ x ∈ rows.insertionSort (fun a b => a.seq ≤ b.seq), x ∈ rows := fun x hx =>
    (List.mem_insertionSort _).mp hx
  have hone : sqlLimit 1 (rows.insertionSort fun a b => a.seq ≤ b.seq) =
      (rows.insertionSort fun a b => a.seq ≤ b.seq).take 1 := by
    unfold sqlLimit
    rw [if_neg (by decide)]
    rfl
  rw [hone]
  generalize rows.insertionSort (fun a b => a.seq ≤ b.seq) = sorted at hsorted hin hback
  cases sorted with
  | nil => cases hin
  | cons x rest =>
    have hx := hleast x (hback x (List.mem_cons_self ..))
    have heq : x = r := by
      rcases List.mem_cons.mp hin with heq | hin
      · exact heq.symm
      · have hle := (List.pairwise_cons.mp hsorted).1 r hin
        exact hx.2 (by omega)
    rw [heq]
    rfl

theorem readRecords_single (hu : (s.db.records.map Row.key).Nodup) (hr : r ∈ s.db.records)
    (hpos : 1 ≤ r.seq) (hfits : r.seq < 2 ^ 63) :
    readRecords codec s r.origin r.stream (UInt64.ofNat (r.seq - 1)) 1 =
      (view codec s r).map fun body => (body.map r.record).toList := by
  unfold readRecords view
  rw [recordRows_single hu hr hpos hfits, List.foldlM_cons]
  unfold readNext
  dsimp only
  cases hbody : bodyOf codec s none r with
  | error e => rfl
  | ok answer => rfl

end Bmac.Records
