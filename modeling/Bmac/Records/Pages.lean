import Bmac.Records.Reads

/-!
# Event pages

`Store::job_events` of `bmacd/src/store.rs`, and a client that follows its pages. A page ends in the middle
of the rows, so that the same `job_seq` may have rows on both sides and rows without an event may be read
twice; `pages_exact` says that the pages together are the first readable event of each `job_seq`.
-/

namespace Bmac.Records

open Bmac.Base Bmac.Core

def pageEvents : Nat := 2000

section

variable {β : Type} (codec : Codec) (parse : String → Option β) (s : Store) (job : JobId)

/-- `job`'s events from sequence `fromSeq`, at most `limit` of them and about `pageBytes`. -/
def jobEvents (limit : Nat) (fromSeq : UInt64) : Except StoreError (EventPage β) :=
  readPage codec parse s job fromSeq (min (max limit 1) pageEvents)

/-- Asks for the page after the last event while there are more. -/
def following (limit : Nat) : Nat → UInt64 → Option (Except StoreError (List (JobEvent β)))
  | 0, _ => none
  | fuel + 1, fromSeq =>
    match jobEvents codec parse s job limit fromSeq with
    | .error e => some (.error e)
    | .ok page =>
      match page.more, page.events.getLast? with
      | true, some last => (following limit fuel (last.seq + 1)).map (·.map (page.events ++ ·))
      | _, _ => some (.ok page.events)

/-! ## The events of some rows -/

def eventOf (a : Int64 × Row) (body : Option String) : Option (JobEvent β) :=
  (body.bind parse).map (⟨job, a.1.toUInt64, a.2.timeMs, ·⟩)

/-- The events of rows that are read in order, without a limit. -/
def readEvents : Option UInt64 → List (Int64 × Row) → Except StoreError (List (JobEvent β))
  | _, [] => .ok []
  | last, a :: rest =>
    if last = some a.1.toUInt64 then readEvents last rest
    else do
      match eventOf parse job a (← view codec s a.2) with
      | none => readEvents last rest
      | some event => return event :: (← readEvents (some a.1.toUInt64) rest)

end

/-- A row's `job_seq`, as a client sees it. -/
def jobSeqOf (a : Int64 × Row) : Nat := a.1.toUInt64.toNat

section

variable {β : Type} {codec : Codec} {parse : String → Option β} {s : Store} {job : JobId}
  {limit : Nat} {a b : Int64 × Row} {rows rest : List (Int64 × Row)} {st : PageState β}
  {event : JobEvent β} {body : Option String} {last : Option UInt64}

theorem seq_of_eventOf (h : eventOf parse job a body = some event) : event.seq = a.1.toUInt64 := by
  obtain ⟨parsed, -, rfl⟩ := Option.map_eq_some_iff.mp h
  rfl

variable {cache : FrameCache} {answer : Except StoreError (EventPage β)}

theorem push_eq_none (h : eventOf parse job a body = none) :
    st.push parse job a.1.toUInt64 a.2 cache body = { st with cache } := by
  have hnone : body.bind parse = none := Option.map_eq_none_iff.mp h
  cases body with
  | none => rfl
  | some text =>
    have hnone : parse text = none := hnone
    simp only [PageState.push, hnone]

theorem push_eq_some {cache : FrameCache} {body : Option String} {event : JobEvent β}
    (h : eventOf parse job a body = some event) : ∃ bytes,
      st.push parse job a.1.toUInt64 a.2 cache body =
        ⟨{ st.page with events := st.page.events ++ [event] }, bytes, cache, some a.1.toUInt64⟩ := by
  obtain ⟨parsed, hparsed, rfl⟩ := Option.map_eq_some_iff.mp h
  obtain ⟨text, rfl, htext⟩ := Option.bind_eq_some_iff.mp hparsed
  exact ⟨_, by simp only [PageState.push, htext]; rfl⟩

theorem readEvents_same (h : last = some a.1.toUInt64) :
    readEvents codec parse s job last (a :: rest) = readEvents codec parse s job last rest := by
  rw [readEvents, if_pos h]

theorem readEvents_unviewed {e : StoreError}
    (hnew : last ≠ some a.1.toUInt64) (hview : view codec s a.2 = .error e) :
    readEvents codec parse s job last (a :: rest) = .error e := by
  rw [readEvents, if_neg hnew, hview]
  rfl

theorem readEvents_unread (hnew : last ≠ some a.1.toUInt64) (hview : view codec s a.2 = .ok body)
    (hevent : eventOf parse job a body = none) :
    readEvents codec parse s job last (a :: rest) = readEvents codec parse s job last rest := by
  rw [readEvents, if_neg hnew, hview, ok_bind, hevent]

theorem readEvents_read (hnew : last ≠ some a.1.toUInt64) (hview : view codec s a.2 = .ok body)
    (hevent : eventOf parse job a body = some event) :
    readEvents codec parse s job last (a :: rest) =
      (readEvents codec parse s job (some a.1.toUInt64) rest).map (event :: ·) := by
  rw [readEvents, if_neg hnew, hview, ok_bind, hevent]
  rfl

/-- A `job_seq` that no row has doesn't matter. -/
theorem readEvents_some {last : UInt64} (h : ∀ a ∈ rows, last.toNat < jobSeqOf a) :
    readEvents codec parse s job (some last) rows = readEvents codec parse s job none rows := by
  induction rows with
  | nil => rfl
  | cons a rest ih =>
    have hne : some last ≠ some a.1.toUInt64 := fun heq => by
      have hlt := h a List.mem_cons_self
      cases heq
      exact absurd hlt (lt_irrefl _)
    rw [readEvents, readEvents, if_neg hne, if_neg (by simp), ih fun b hb => h b (List.mem_cons_of_mem a hb)]

/-! ## One page -/

/-- A page that takes no more events. -/
def Full (limit : Nat) (st : PageState β) : Prop :=
  st.page.events.length ≥ limit ∨ st.bytes ≥ pageBytes ∧ st.page.events ≠ []

/-- A page being read, before `rows`. -/
structure Reading (codec : Codec) (s : Store) (st : PageState β) (rows : List (Int64 × Row)) : Prop where
  cache : CacheOk codec s st.cache
  more : st.page.more = false
  last : st.last = st.page.events.getLast?.map (·.seq)
  after : ∀ last ∈ st.last, ∀ a ∈ rows, last.toNat ≤ jobSeqOf a
  sorted : rows.Pairwise fun a b => jobSeqOf a ≤ jobSeqOf b

/-- What a page gives of `rows`: an error that reading them all gives too, all their events, or the first
ones. Then the rows that are left are just those after its last event. -/
inductive PageOf (codec : Codec) (parse : String → Option β) (s : Store) (job : JobId) (limit : Nat)
    (st : PageState β) (rows : List (Int64 × Row)) : Except StoreError (EventPage β) → Prop where
  | error (e : StoreError) (h : readEvents codec parse s job st.last rows = .error e) :
    PageOf codec parse s job limit st rows (.error e)
  | whole (events : List (JobEvent β)) (h : readEvents codec parse s job st.last rows = .ok events) :
    PageOf codec parse s job limit st rows (.ok ⟨st.page.events ++ events, false⟩)
  | cut (events : List (JobEvent β)) (read rest : List (Int64 × Row)) (last : JobEvent β)
    (hrows : rows = read ++ rest) (hne : rest ≠ []) (hlast : (st.page.events ++ events).getLast? = some last)
    (h : readEvents codec parse s job st.last rows =
      (readEvents codec parse s job none rest).map (events ++ ·))
    (hread : ∀ a ∈ read, jobSeqOf a ≤ last.seq.toNat) (hrest : ∀ a ∈ rest, last.seq.toNat < jobSeqOf a)
    (hbefore : ∀ before ∈ st.last, before.toNat ≤ last.seq.toNat)
    (hany : (Full limit st ∧ st.last = some last.seq) ∨ ∃ a ∈ rows, a.1.toUInt64 = last.seq) :
    PageOf codec parse s job limit st rows (.ok ⟨st.page.events ++ events, true⟩)

theorem Reading.tail (h : Reading codec s st (a :: rest)) : Reading codec s st rest :=
  ⟨h.cache, h.more, h.last, fun last hl b hb => h.after last hl b (List.mem_cons_of_mem a hb),
    h.sorted.of_cons⟩

/-- What a page gives doesn't depend on the frames that were read. -/
theorem PageOf.of_cache (h : PageOf codec parse s job limit { st with cache } rows answer) :
    PageOf codec parse s job limit st rows answer := by
  cases h with
  | error e he => exact .error e he
  | whole events he => exact .whole events he
  | cut events read rest last hrows hne hlast he hread hrest hbefore hany =>
    exact .cut events read rest last hrows hne hlast he hread hrest hbefore hany

/-- A row that gives no event changes nothing on the page. -/
theorem PageOf.skip (h : PageOf codec parse s job limit st rest answer)
    (hskip : readEvents codec parse s job st.last (a :: rest) = readEvents codec parse s job st.last rest)
    (hle : ∀ last : JobEvent β, (∀ before ∈ st.last, before.toNat ≤ last.seq.toNat) →
      ((Full limit st ∧ st.last = some last.seq) ∨ ∃ b ∈ rest, b.1.toUInt64 = last.seq) →
        jobSeqOf a ≤ last.seq.toNat) : PageOf codec parse s job limit st (a :: rest) answer := by
  cases h with
  | error e he => exact .error e (hskip.trans he)
  | whole events he => exact .whole events (hskip.trans he)
  | cut events read rest' last hrows hne hlast he hread hrest hbefore hany =>
    refine .cut events (a :: read) rest' last (by rw [hrows]; rfl) hne hlast (hskip.trans he) ?_ hrest hbefore
      (hany.imp_right fun ⟨b, hb, hseq⟩ => ⟨b, List.mem_cons_of_mem _ hb, hseq⟩)
    exact List.forall_mem_cons.mpr ⟨hle last hbefore hany, hread⟩

theorem PageOf.push
    {bytes : Nat} (hreading : Reading codec s st (a :: rest))
    (hread : readEvents codec parse s job st.last (a :: rest) =
      (readEvents codec parse s job (some a.1.toUInt64) rest).map (event :: ·))
    (h : PageOf codec parse s job limit ⟨{ st.page with events := st.page.events ++ [event] }, bytes, cache,
      some a.1.toUInt64⟩ rest answer) : PageOf codec parse s job limit st (a :: rest) answer := by
  have happend (events : List (JobEvent β)) :
      st.page.events ++ [event] ++ events = st.page.events ++ event :: events := by simp
  cases h with
  | error e he =>
    refine .error e ?_
    rw [hread, he]
    rfl
  | whole events he =>
    rw [happend]
    refine .whole (event :: events) ?_
    rw [hread, he]
    rfl
  | cut events read rest' last hrows hne hlast he hbefores hrest hbefore hany =>
    rw [happend] at hlast ⊢
    have hle : a.1.toUInt64.toNat ≤ last.seq.toNat := hbefore _ rfl
    refine .cut (event :: events) (a :: read) rest' last (by rw [hrows]; rfl) hne hlast ?_
      (List.forall_mem_cons.mpr ⟨hle, hbefores⟩) hrest ?_ (.inr ?_)
    · rw [hread, he]
      cases readEvents codec parse s job none rest' <;> rfl
    · exact fun before hb => (hreading.after before hb _ List.mem_cons_self).trans hle
    · rcases hany with ⟨-, hlast⟩ | ⟨b, hb, hseq⟩
      · exact ⟨_, List.mem_cons_self, Option.some.inj hlast⟩
      · exact ⟨b, List.mem_cons_of_mem _ hb, hseq⟩

/-- A page that is full ends before the first row of another `job_seq`. -/
theorem cut_here (hlimit : 1 ≤ limit) (h : Reading codec s st (a :: rest))
    (hfull : Full limit st) (hnew : st.last ≠ some a.1.toUInt64) :
    PageOf codec parse s job limit st (a :: rest) (.ok { st.page with more := true }) := by
  have hne : st.page.events ≠ [] := by
    rcases hfull with hlen | ⟨-, hne⟩
    · exact List.ne_nil_of_length_pos (by omega)
    · exact hne
  obtain ⟨last, hlast⟩ := Option.isSome_iff_exists.mp (List.getLast?_isSome.mpr hne)
  have hseq : st.last = some last.seq := by rw [h.last, hlast]; rfl
  have hlater : ∀ b ∈ a :: rest, last.seq.toNat < jobSeqOf b := by
    have hle := h.after last.seq hseq a List.mem_cons_self
    have hlt : last.seq.toNat < jobSeqOf a := by
      refine lt_of_le_of_ne hle fun heq => hnew ?_
      rw [hseq, UInt64.toNat_inj.mp heq]
    exact List.forall_mem_cons.mpr ⟨hlt, fun b hb => hlt.trans_le (List.rel_of_pairwise_cons h.sorted hb)⟩
  have hpage : ({ st.page with more := true } : EventPage β) = ⟨st.page.events ++ [], true⟩ := by
    rw [List.append_nil]
  rw [hpage]
  refine .cut [] [] (a :: rest) last rfl (by simp) (by rw [List.append_nil, hlast]) ?_ (by simp) hlater ?_
    (.inl ⟨hfull, hseq⟩)
  · rw [hseq, readEvents_some hlater]
    cases readEvents codec parse s job none (a :: rest) <;> rfl
  · intro before hbefore
    rw [hseq] at hbefore
    cases hbefore
    exact le_rfl

theorem readPageFrom_pageOf (hlimit : 1 ≤ limit) (h : Reading codec s st rows) :
    PageOf codec parse s job limit st rows (readPageFrom codec parse s job limit st rows) := by
  induction rows generalizing st with
  | nil =>
    have hpage : st.page = ⟨st.page.events ++ [], false⟩ := by
      rw [List.append_nil, ← h.more]
    rw [readPageFrom, hpage]
    exact .whole [] rfl
  | cons a rest ih =>
    obtain ⟨jobSeq, r⟩ := a
    unfold readPageFrom
    split
    · -- the `job_seq` has its event
      rename_i hsame
      exact (ih h.tail).skip (readEvents_same hsame) fun last hbefore _ => hbefore _ hsame
    · rename_i hnew
      split
      · exact cut_here hlimit h ‹_› hnew
      · rename_i hroom
        rcases bodyOf_cases h.cache r with ⟨e, hview, hbody⟩ | ⟨body, cache, hview, hbody, hcache⟩
        · rw [hbody]
          exact .error e (readEvents_unviewed hnew hview)
        · rw [hbody]
          show PageOf codec parse s job limit st ((jobSeq, r) :: rest)
            (readPageFrom codec parse s job limit (st.push parse job jobSeq.toUInt64 r cache body) rest)
          cases hevent : eventOf parse job (jobSeq, r) body with
          | none =>
            rw [push_eq_none hevent]
            refine (@ih { st with cache } ⟨hcache, h.more, h.last, h.tail.after, h.tail.sorted⟩).of_cache.skip
              (readEvents_unread hnew hview hevent) fun last _ hany => ?_
            obtain ⟨b, hb, hseq⟩ := hany.resolve_left fun hfull => hroom hfull.1
            rw [← hseq]
            exact List.rel_of_pairwise_cons h.sorted hb
          | some event =>
            obtain ⟨bytes, hpush⟩ := @push_eq_some β parse job (jobSeq, r) st cache body event hevent
            have hseq : event.seq = jobSeq.toUInt64 := seq_of_eventOf hevent
            rw [hpush]
            have hreading : Reading codec s ⟨{ st.page with events := st.page.events ++ [event] }, bytes, cache,
                some jobSeq.toUInt64⟩ rest := by
              refine ⟨hcache, h.more, by simp [hseq], ?_, h.tail.sorted⟩
              intro last hlast b hb
              cases hlast
              exact List.rel_of_pairwise_cons h.sorted hb
            exact .push h (readEvents_read hnew hview hevent) (ih hreading)

/-! ## The rows of a job -/

/-- A row of one of the job's events, with its `job_seq`. -/
structure IsEvent (db : Db) (job : JobId) (a : Int64 × Row) : Prop where
  mem : a.2 ∈ db.records
  job : a.2.job = some job
  kind : a.2.kind = .jobEvent
  jobSeq : a.2.jobSeq = some a.1

/-- The keys of the table are unique, and the job's sequence numbers fit an `i64`. -/
structure SignedSeqs (db : Db) (job : JobId) : Prop where
  keys : (db.records.map Row.key).Nodup
  fits : ∀ a, IsEvent db job a → 0 ≤ a.1.toInt

variable {db : Db} {fromSeq fromSeq' : UInt64}

theorem toInt_of_nonneg {n : Int64} (h : 0 ≤ n.toInt) : n.toInt = n.toUInt64.toNat := by
  have hcond := BitVec.toInt_eq_toNat_cond n.toBitVec
  have hint : n.toInt = n.toBitVec.toInt := rfl
  have hnat : n.toUInt64.toNat = n.toBitVec.toNat := rfl
  split at hcond <;> omega

theorem lt_of_nonneg {n : Int64} (h : 0 ≤ n.toInt) : n.toUInt64.toNat < 2 ^ 63 := by
  have hint := toInt_of_nonneg h
  have hlt : n.toInt < 2 ^ 63 := n.toInt_lt
  omega

theorem toInt64_of_lt {n : UInt64} (h : n.toNat < 2 ^ 63) : n.toInt64.toInt = n.toNat := by
  have hn := toInt64_ofNat h
  rwa [UInt64.ofNat_toNat] at hn

theorem mem_pageRows {a : Int64 × Row} : a ∈ pageRows db job fromSeq ↔
    IsEvent db job a ∧ fromSeq.toInt64.toInt ≤ a.1.toInt := by
  unfold pageRows
  simp only [List.mem_filterMap, List.mem_insertionSort, List.mem_filter, decide_eq_true_eq,
    Option.map_eq_some_iff]
  constructor
  · rintro ⟨r, ⟨hmem, hjob, hkind, n, hn, hle⟩, n', hn', rfl⟩
    have heq : r.jobSeq = some n := hn
    rw [heq] at hn'
    cases hn'
    exact ⟨⟨hmem, hjob, hkind, heq⟩, hle⟩
  · rintro ⟨⟨hmem, hjob, hkind, hseq⟩, hle⟩
    exact ⟨a.2, ⟨hmem, hjob, hkind, a.1, hseq, hle⟩, a.1, hseq, rfl⟩

theorem order_pageRows : (pageRows db job fromSeq).Pairwise fun a b => a.2.order ≤ b.2.order := by
  unfold pageRows
  refine List.pairwise_filterMap.mpr ((List.pairwise_insertionSort _ _).imp ?_)
  intro r r' hle a ha b hb
  obtain ⟨n, -, rfl⟩ := Option.map_eq_some_iff.mp ha
  obtain ⟨n', -, rfl⟩ := Option.map_eq_some_iff.mp hb
  exact hle

theorem nodup_pageRows (h : SignedSeqs db job) : (pageRows db job fromSeq).Nodup := by
  have hrecords : db.records.Nodup := List.Nodup.of_map _ h.keys
  unfold pageRows
  refine List.Nodup.filterMap ?_ ((List.perm_insertionSort _ _).nodup_iff.mpr (hrecords.filter _))
  intro r r' a ha ha'
  obtain ⟨n, -, rfl⟩ := Option.map_eq_some_iff.mp ha
  obtain ⟨n', -, heq⟩ := Option.map_eq_some_iff.mp ha'
  cases heq
  rfl

theorem jobSeq_le_of_order (ha : IsEvent db job a) (hb : IsEvent db job b)
    (h : a.2.order ≤ b.2.order) : a.1.toInt ≤ b.1.toInt := by
  have hfirst := Prod.Lex.monotone_fst _ _ h
  have hseq : (toLex (1, a.1.toInt) : Nat ×ₗ Int) ≤ toLex (1, b.1.toInt) := by
    unfold Row.order at hfirst
    rw [ha.jobSeq, hb.jobSeq] at hfirst
    exact hfirst
  rcases Prod.Lex.toLex_le_toLex.mp hseq with hlt | ⟨-, hle⟩
  · exact absurd hlt (lt_irrefl _)
  · exact hle

theorem eq_of_order (hsigned : SignedSeqs db job) (ha : IsEvent db job a) (hb : IsEvent db job b)
    (h : a.2.order = b.2.order) : a = b := by
  have hkey : a.2.key = b.2.key := congrArg (fun o => ((ofLex (ofLex o).2).1, (ofLex (ofLex (ofLex o).2).2).1,
    (ofLex (ofLex (ofLex o).2).2).2)) h
  have hrow : a.2 = b.2 := List.inj_on_of_nodup_map hsigned.keys ha.mem hb.mem hkey
  have hseq : some a.1 = some b.1 := by rw [← ha.jobSeq, hrow, hb.jobSeq]
  exact Prod.ext (Option.some.inj hseq) hrow

theorem sorted_pageRows (hsigned : SignedSeqs db job) :
    (pageRows db job fromSeq).Pairwise fun a b => jobSeqOf a ≤ jobSeqOf b := by
  refine order_pageRows.imp_of_mem fun {a b} ha hb hle => ?_
  have hA := (mem_pageRows.mp ha).1
  have hB := (mem_pageRows.mp hb).1
  have hint := jobSeq_le_of_order hA hB hle
  rw [toInt_of_nonneg (hsigned.fits a hA), toInt_of_nonneg (hsigned.fits b hB)] at hint
  exact_mod_cast hint

theorem pageRows_later (hsigned : SignedSeqs db job) (hle : fromSeq.toInt64.toInt ≤ fromSeq'.toInt64.toInt) :
    pageRows db job fromSeq' =
      (pageRows db job fromSeq).filter fun a => fromSeq'.toInt64.toInt ≤ a.1.toInt := by
  refine @List.Perm.eq_of_pairwise _ (fun a b => a.2.order ≤ b.2.order) _ _ ?_ order_pageRows
    (order_pageRows.filter _) ?_
  · intro a b ha hb hab hba
    exact eq_of_order hsigned (mem_pageRows.mp ha).1 (mem_pageRows.mp (List.mem_of_mem_filter hb)).1
      (le_antisymm hab hba)
  · refine (List.perm_ext_iff_of_nodup (nodup_pageRows hsigned) ((nodup_pageRows hsigned).filter _)).mpr ?_
    intro a
    rw [List.mem_filter, mem_pageRows, mem_pageRows, decide_eq_true_eq]
    exact ⟨fun h => ⟨⟨h.1, hle.trans h.2⟩, h.2⟩, fun h => ⟨h.1.1, h.2⟩⟩

theorem pageRows_next (hsigned : SignedSeqs db job) {last : UInt64} {read : List (Int64 × Row)}
    (hrows : pageRows db job fromSeq = read ++ rest) (hne : rest ≠ [])
    (hread : ∀ a ∈ read, jobSeqOf a ≤ last.toNat) (hrest : ∀ a ∈ rest, last.toNat < jobSeqOf a)
    (hany : ∃ a ∈ pageRows db job fromSeq, a.1.toUInt64 = last) :
    (last + 1).toNat < 2 ^ 63 ∧ pageRows db job (last + 1) = rest := by
  have hevent : ∀ a ∈ read ++ rest, IsEvent db job a ∧ fromSeq.toInt64.toInt ≤ a.1.toInt := fun a ha =>
    mem_pageRows.mp (hrows ▸ ha)
  have hint : ∀ a ∈ read ++ rest, a.1.toInt = jobSeqOf a := fun a ha =>
    toInt_of_nonneg (hsigned.fits a (hevent a ha).1)
  obtain ⟨b, hb⟩ := List.exists_mem_of_ne_nil rest hne
  have hblt : jobSeqOf b < 2 ^ 63 := lt_of_nonneg (hsigned.fits b (hevent b (List.mem_append_right _ hb)).1)
  have hlast := hrest b hb
  have hnext : (last + 1).toNat = last.toNat + 1 := by
    rw [UInt64.toNat_add, UInt64.toNat_one, Nat.mod_eq_of_lt (by omega)]
  have hlt : (last + 1).toNat < 2 ^ 63 := by omega
  have hnextInt : (last + 1).toInt64.toInt = (last.toNat + 1 : Nat) := by rw [toInt64_of_lt hlt, hnext]
  obtain ⟨a, ha, hseq⟩ := hany
  have hfromLe : fromSeq.toInt64.toInt ≤ (last + 1).toInt64.toInt := by
    have hle := (mem_pageRows.mp ha).2
    rw [hint a (hrows ▸ ha), jobSeqOf, hseq] at hle
    omega
  refine ⟨hlt, ?_⟩
  rw [pageRows_later hsigned hfromLe, hrows, List.filter_append, hnextInt,
    List.filter_eq_nil_iff.mpr, List.nil_append, List.filter_eq_self]
  · intro c hc
    have hlater := hrest c hc
    rw [hint c (List.mem_append_right _ hc)]
    exact decide_eq_true (by omega)
  · intro c hc
    have hbefore := hread c hc
    rw [hint c (List.mem_append_left _ hc), decide_eq_true_eq]
    omega

/-! ## All pages -/

theorem not_full : ¬ Full (min (max limit 1) pageEvents) ({} : PageState β) := by
  rintro (hlen | ⟨-, hne⟩)
  · have hlen : min (max limit 1) 2000 ≤ 0 := hlen
    omega
  · exact hne rfl

theorem following_eq (hsigned : SignedSeqs s.db job) (fuel : Nat) (fromSeq : UInt64)
    (hfuel : (pageRows s.db job fromSeq).length < fuel) :
    following codec parse s job limit fuel fromSeq =
      some (readEvents codec parse s job none (pageRows s.db job fromSeq)) := by
  induction fuel generalizing fromSeq with
  | zero => omega
  | succ fuel ih =>
    have hreading : Reading codec s ({} : PageState β) (pageRows s.db job fromSeq) :=
      ⟨CacheOk.none, rfl, rfl, fun last hlast => (by cases hlast), sorted_pageRows hsigned⟩
    have hpage := @readPageFrom_pageOf β codec parse s job (min (max limit 1) pageEvents) _ _
      (by unfold pageEvents; omega) hreading
    unfold following jobEvents readPage
    generalize readPageFrom codec parse s job _ {} (pageRows s.db job fromSeq) = answer at hpage ⊢
    cases hpage with
    | error e he =>
      have he : readEvents codec parse s job none (pageRows s.db job fromSeq) = .error e := he
      rw [he]
    | whole events he =>
      have he : readEvents codec parse s job none (pageRows s.db job fromSeq) = .ok events := he
      rw [he]
      rfl
    | cut events read rest last hrows hne hlast he hread hrest hbefore hany =>
      have hlast : events.getLast? = some last := hlast
      have he : readEvents codec parse s job none (pageRows s.db job fromSeq) =
        (readEvents codec parse s job none rest).map (events ++ ·) := he
      have hany := hany.resolve_left fun hfull => not_full hfull.1
      obtain ⟨-, hnext⟩ := pageRows_next hsigned hrows hne hread hrest hany
      have hshort : rest.length < (pageRows s.db job fromSeq).length := by
        obtain ⟨a, ha, hseq⟩ := hany
        rw [hrows, List.length_append]
        rcases List.mem_append.mp (hrows ▸ ha) with hin | hin
        · have := List.length_pos_of_mem hin
          omega
        · have hlater := hrest a hin
          rw [jobSeqOf, hseq] at hlater
          exact absurd hlater (lt_irrefl _)
      dsimp only [List.nil_append]
      rw [hlast]
      dsimp only
      rw [ih (last.seq + 1) (by rw [hnext]; omega), hnext, he]
      rfl

/-! ## The first readable events -/

def Reads (codec : Codec) (parse : String → Option β) (s : Store) (job : JobId) (a : Int64 × Row)
    (event : JobEvent β) : Prop :=
  ∃ body, view codec s a.2 = .ok body ∧ eventOf parse job a body = some event

/-- The event of the first row of its `job_seq` that has one. -/
structure First (codec : Codec) (parse : String → Option β) (s : Store) (job : JobId)
    (rows : List (Int64 × Row)) (a : Int64 × Row) (event : JobEvent β) : Prop where
  mem : a ∈ rows
  reads : Reads codec parse s job a event
  first : ∀ b ∈ rows, jobSeqOf b = jobSeqOf a → (∃ other, Reads codec parse s job b other) →
    a.2.order ≤ b.2.order

theorem not_reads (hview : view codec s a.2 = .ok body)
    (hnone : eventOf parse job a body = none) : ¬ Reads codec parse s job a event := by
  rintro ⟨body', hview', hevent⟩
  rw [hview] at hview'
  cases hview'
  rw [hnone] at hevent
  cases hevent

theorem Reads.unique {event' : JobEvent β} (h : Reads codec parse s job a event)
    (h' : Reads codec parse s job a event') : event = event' := by
  obtain ⟨body, hview, hevent⟩ := h
  obtain ⟨body', hview', hevent'⟩ := h'
  rw [hview] at hview'
  cases hview'
  exact Option.some.inj (hevent.symm.trans hevent')

theorem Reads.seq {event : JobEvent β} (h : Reads codec parse s job a event) :
    event.seq.toNat = jobSeqOf a := by
  obtain ⟨body, -, hevent⟩ := h
  rw [seq_of_eventOf hevent]
  rfl

/-- Rows that come in order, each place once. -/
structure InOrder (rows : List (Int64 × Row)) : Prop where
  order : rows.Pairwise fun a b => a.2.order < b.2.order
  seqs : rows.Pairwise fun a b => jobSeqOf a ≤ jobSeqOf b

theorem inOrder_pageRows (hsigned : SignedSeqs db job) : InOrder (pageRows db job fromSeq) := by
  refine ⟨?_, sorted_pageRows hsigned⟩
  have hne := (@nodup_pageRows job db fromSeq hsigned)
  refine (order_pageRows.and hne).imp_of_mem fun {a b} ha hb h => lt_of_le_of_ne h.1 fun heq => h.2 ?_
  exact eq_of_order hsigned (mem_pageRows.mp ha).1 (mem_pageRows.mp hb).1 heq

/-- An event that is read comes from the first readable row of its `job_seq`, and one more row in front
changes that only for its own `job_seq`. -/
theorem first_cons (hskip : jobSeqOf b = jobSeqOf a → ∀ other, ¬ Reads codec parse s job a other) :
    First codec parse s job (a :: rest) b event ∧ b ≠ a ↔ First codec parse s job rest b event ∧ b ≠ a := by
  constructor
  · rintro ⟨h, hne⟩
    exact ⟨⟨(List.mem_cons.mp h.mem).resolve_left hne, h.reads,
      fun c hc => h.first c (List.mem_cons_of_mem a hc)⟩, hne⟩
  · rintro ⟨h, hne⟩
    refine ⟨⟨List.mem_cons_of_mem a h.mem, h.reads, fun c hc hseq hreads => ?_⟩, hne⟩
    rcases List.mem_cons.mp hc with rfl | hc
    · obtain ⟨other, hother⟩ := hreads
      exact absurd hother (hskip hseq.symm other)
    · exact h.first c hc hseq hreads

theorem InOrder.tail (h : InOrder (a :: rest)) : InOrder rest :=
  ⟨h.order.of_cons, h.seqs.of_cons⟩

theorem InOrder.ne (h : InOrder (a :: rest)) (hb : b ∈ rest) :
    b ≠ a := fun heq => absurd (List.rel_of_pairwise_cons h.order hb) (heq ▸ lt_irrefl _)

/-- The events of rows: their sequence numbers increase, and they are the first readable ones after
`last`. -/
structure Firsts (codec : Codec) (parse : String → Option β) (s : Store) (job : JobId)
    (rows : List (Int64 × Row)) (last : Option UInt64) (events : List (JobEvent β)) : Prop where
  increasing : events.Pairwise (fun a b => a.seq < b.seq)
  mem_iff : ∀ event, event ∈ events ↔ last ≠ some event.seq ∧ ∃ a, First codec parse s job rows a event

section

variable {last : Option UInt64} {events : List (JobEvent β)} {rest : List (Int64 × Row)}

/-- A row of the last `job_seq` has none. -/
theorem Firsts.same (h : Firsts codec parse s job rest last events) (horder : InOrder (a :: rest))
    (hsame : last = some a.1.toUInt64) : Firsts codec parse s job (a :: rest) last events := by
  refine ⟨h.increasing, fun event => (h.mem_iff event).trans (and_congr_right fun hnew => ⟨?_, ?_⟩)⟩
  · rintro ⟨b, hfirst⟩
    refine ⟨b, ((first_cons fun hseq => ?_).mpr ⟨hfirst, horder.ne hfirst.mem⟩).1⟩
    exact absurd (by rw [hsame, Option.some.injEq, ← UInt64.toNat_inj, hfirst.reads.seq, hseq]; rfl) hnew
  · rintro ⟨b, hfirst⟩
    rcases List.mem_cons.mp hfirst.mem with rfl | hb
    · exact absurd (by rw [hsame, Option.some.injEq, ← UInt64.toNat_inj, hfirst.reads.seq]; rfl) hnew
    · exact ⟨b, hb, hfirst.reads, fun c hc => hfirst.first c (List.mem_cons_of_mem a hc)⟩

/-- Nor has one that can't be read. -/
theorem Firsts.unread (h : Firsts codec parse s job rest last events) (horder : InOrder (a :: rest))
    (hnone : ∀ event, ¬ Reads codec parse s job a event) :
    Firsts codec parse s job (a :: rest) last events := by
  refine ⟨h.increasing, fun event => (h.mem_iff event).trans (and_congr_right fun _ => ⟨?_, ?_⟩)⟩
  · rintro ⟨b, hfirst⟩
    exact ⟨b, ((first_cons fun _ => hnone).mpr ⟨hfirst, horder.ne hfirst.mem⟩).1⟩
  · rintro ⟨b, hfirst⟩
    have hne : b ≠ a := fun heq => hnone event (heq ▸ hfirst.reads)
    exact ⟨b, ((first_cons fun _ => hnone).mp ⟨hfirst, hne⟩).1⟩

/-- Any other row's event is the first of its `job_seq`. -/
theorem Firsts.read {own : JobEvent β} (h : Firsts codec parse s job rest (some a.1.toUInt64) events)
    (horder : InOrder (a :: rest)) (hlast : ∀ l ∈ last, l.toNat ≤ jobSeqOf a)
    (hnew : last ≠ some a.1.toUInt64) (hown : Reads codec parse s job a own) :
    Firsts codec parse s job (a :: rest) last (own :: events) := by
  have hseq : own.seq = a.1.toUInt64 := UInt64.toNat_inj.mp hown.seq
  have hahead : ∀ b ∈ rest, a.2.order < b.2.order := fun b hb => List.rel_of_pairwise_cons horder.order hb
  -- an event after the row's own has a greater sequence number
  have hgreater : ∀ b event, First codec parse s job rest b event →
      some a.1.toUInt64 ≠ some event.seq → jobSeqOf a < event.seq.toNat := by
    intro b event hfirst hne
    have hle : jobSeqOf a ≤ jobSeqOf b := List.rel_of_pairwise_cons horder.seqs hfirst.mem
    rw [← hfirst.reads.seq] at hle
    exact lt_of_le_of_ne hle fun heq => hne (congrArg some (UInt64.toNat_inj.mp heq))
  refine ⟨List.pairwise_cons.mpr ⟨fun event hmem => ?_, h.increasing⟩, fun event => ⟨?_, ?_⟩⟩
  · obtain ⟨hne, b, hfirst⟩ := (h.mem_iff event).mp hmem
    rw [hseq, UInt64.lt_iff_toNat_lt]
    exact hgreater b event hfirst hne
  · intro hmem
    rcases List.mem_cons.mp hmem with rfl | hmem
    · refine ⟨fun heq => hnew (heq.trans (congrArg some hseq)), a, List.mem_cons_self, hown, ?_⟩
      intro c hc _ _
      rcases List.mem_cons.mp hc with rfl | hc
      · exact le_rfl
      · exact (hahead c hc).le
    · obtain ⟨hne, b, hfirst⟩ := (h.mem_iff event).mp hmem
      have hlt := hgreater b event hfirst hne
      refine ⟨fun heq => ?_, b, ((first_cons fun hsame => ?_).mpr ⟨hfirst, horder.ne hfirst.mem⟩).1⟩
      · exact absurd (hlast event.seq heq) (not_le.mpr hlt)
      · rw [← hfirst.reads.seq] at hsame
        omega
  · rintro ⟨-, b, hfirst⟩
    rcases List.mem_cons.mp hfirst.mem with rfl | hb
    · rw [hfirst.reads.unique hown]
      exact List.mem_cons_self
    · refine List.mem_cons_of_mem own ((h.mem_iff event).mpr ⟨fun heq => ?_, b, hb, hfirst.reads,
        fun c hc => hfirst.first c (List.mem_cons_of_mem a hc)⟩)
      have hsame : jobSeqOf a = jobSeqOf b := by
        rw [← hfirst.reads.seq, ← Option.some.inj heq]
        rfl
      exact absurd (hfirst.first a List.mem_cons_self hsame ⟨own, hown⟩) (not_le.mpr (hahead b hb))

theorem readEvents_ok (horder : InOrder rows) (hlast : ∀ l ∈ last, ∀ a ∈ rows, l.toNat ≤ jobSeqOf a)
    (h : readEvents codec parse s job last rows = .ok events) :
    Firsts codec parse s job rows last events := by
  induction rows generalizing last events with
  | nil =>
    cases h
    refine ⟨.nil, fun event => ⟨fun hmem => (by cases hmem), ?_⟩⟩
    rintro ⟨-, a, hfirst⟩
    cases hfirst.mem
  | cons a rest ih =>
    have hlater : ∀ l ∈ last, ∀ b ∈ rest, l.toNat ≤ jobSeqOf b := fun l hl b hb =>
      hlast l hl b (List.mem_cons_of_mem a hb)
    by_cases hsame : last = some a.1.toUInt64
    · rw [readEvents_same hsame] at h
      exact (ih horder.tail hlater h).same horder hsame
    · cases hview : view codec s a.2 with
      | error e =>
        rw [readEvents_unviewed hsame hview] at h
        cases h
      | ok body =>
        cases hevent : eventOf parse job a body with
        | none =>
          rw [readEvents_unread hsame hview hevent] at h
          exact (ih horder.tail hlater h).unread horder fun event => not_reads hview hevent
        | some own =>
          rw [readEvents_read hsame hview hevent] at h
          obtain ⟨others, hothers, rfl⟩ := map_eq_ok.mp h
          have hnext : ∀ l ∈ some a.1.toUInt64, ∀ b ∈ rest, l.toNat ≤ jobSeqOf b := by
            intro l hl b hb
            cases hl
            exact List.rel_of_pairwise_cons horder.seqs hb
          exact (ih horder.tail hnext hothers).read horder (fun l hl => hlast l hl a List.mem_cons_self) hsame
            ⟨body, hview, hevent⟩

end

/-- Reading fails only at a row whose frame can't be read. -/
theorem readEvents_error {e : StoreError}
    (h : readEvents codec parse s job last rows = .error e) : ∃ a ∈ rows, view codec s a.2 = .error e := by
  induction rows generalizing last with
  | nil => cases h
  | cons a rest ih =>
    have htail {last' : Option UInt64} (hrest : readEvents codec parse s job last' rest = .error e) :
        ∃ b ∈ a :: rest, view codec s b.2 = .error e := by
      obtain ⟨b, hb, hview⟩ := ih hrest
      exact ⟨b, List.mem_cons_of_mem a hb, hview⟩
    by_cases hsame : last = some a.1.toUInt64
    · rw [readEvents_same hsame] at h
      exact htail h
    · cases hview : view codec s a.2 with
      | error e' =>
        rw [readEvents_unviewed hsame hview] at h
        cases h
        exact ⟨a, List.mem_cons_self, hview⟩
      | ok body =>
        cases hevent : eventOf parse job a body with
        | none =>
          rw [readEvents_unread hsame hview hevent] at h
          exact htail h
        | some own =>
          rw [readEvents_read hsame hview hevent] at h
          cases hothers : readEvents codec parse s job (some a.1.toUInt64) rest with
          | error e' =>
            rw [hothers] at h
            cases h
            exact htail hothers
          | ok others =>
            rw [hothers] at h
            cases h

end

/-- Following the pages from a sequence number ends: at a row of the job whose frame can't be read, or with
the events of the rows, which are the first readable one of every `job_seq` from there on that has one, in
their order. -/
theorem pages_exact {β : Type} (codec : Codec) (parse : String → Option β) (s : Store) (job : JobId)
    (limit : Nat) (fromSeq : UInt64) (hsigned : SignedSeqs s.db job) (hfrom : fromSeq.toNat < 2 ^ 63) :
    ∃ pages answer, (∀ fuel ≥ pages, following codec parse s job limit fuel fromSeq = some answer) ∧
      (∀ e, answer = .error e → ∃ a, IsEvent s.db job a ∧ fromSeq.toNat ≤ jobSeqOf a ∧
        view codec s a.2 = .error e) ∧
      ∀ events, answer = .ok events → events.Pairwise (fun a b => a.seq < b.seq) ∧
        ∀ event, event ∈ events ↔ ∃ a, IsEvent s.db job a ∧ fromSeq.toNat ≤ jobSeqOf a ∧
          Reads codec parse s job a event ∧ ∀ b, IsEvent s.db job b → jobSeqOf b = jobSeqOf a →
            (∃ other, Reads codec parse s job b other) → a.2.order ≤ b.2.order := by
  have hmem (a : Int64 × Row) : a ∈ pageRows s.db job fromSeq ↔
      IsEvent s.db job a ∧ fromSeq.toNat ≤ jobSeqOf a := by
    rw [mem_pageRows, toInt64_of_lt hfrom]
    refine and_congr_right fun hevent => ?_
    rw [toInt_of_nonneg (hsigned.fits a hevent)]
    exact Nat.cast_le
  refine ⟨_, _, fun fuel hfuel => following_eq hsigned fuel fromSeq hfuel, ?_, ?_⟩
  · intro e he
    obtain ⟨a, ha, hview⟩ := readEvents_error he
    exact ⟨a, ((hmem a).mp ha).1, ((hmem a).mp ha).2, hview⟩
  · intro events hevents
    obtain ⟨hincreasing, hiff⟩ := readEvents_ok (inOrder_pageRows hsigned) (fun l hl => by cases hl) hevents
    refine ⟨hincreasing, fun event => (hiff event).trans ⟨?_, ?_⟩⟩
    · rintro ⟨-, a, hfirst⟩
      obtain ⟨hevent, hle⟩ := (hmem a).mp hfirst.mem
      refine ⟨a, hevent, hle, hfirst.reads, fun b hb hseq hreads => ?_⟩
      exact hfirst.first b ((hmem b).mpr ⟨hb, hseq ▸ hle⟩) hseq hreads
    · rintro ⟨a, hevent, hle, hreads, hfirst⟩
      exact ⟨by simp, a, (hmem a).mpr ⟨hevent, hle⟩, hreads, fun b hb => hfirst b ((hmem b).mp hb).1⟩

/-! ## Copies of three events -/

def plainCodec : Codec := ⟨id, some, Codec.some_id⟩

def someJob : JobId := ⟨0, by decide⟩

/-- A text that isn't JSON. -/
def unparsable : String := "["

def parseBody (text : String) : Option String := if text = unparsable then none else some text

/-- A row of a job's event, in `origin`'s copy. -/
def copyRow (origin : String) (seq : Nat) (job : JobId) (jobSeq : UInt64) (body : String) : Row :=
  rowOf ⟨fun _ => zeroHash, fun _ => {}⟩ origin "0-a" seq ⟨0, .jobEvent, some (job, jobSeq), body⟩
    zeroHash zeroHash false

def storeOf (records : List Row) : Store where
  db := { records }
  segments := fun _ => none
  origin := "mox2"
  stream := "0-b"
  chain := ⟨0, zeroHash⟩
  keepFromMs := 0

/-- Events 1 to 3 on two hosts: the first host's copy of 2 can't be parsed, a third host has its own, 4 is
there without its body, and another job has an event 2 as well. -/
def copies : Store :=
  storeOf [copyRow "mox1" 1 someJob 1 "1", copyRow "mox1" 2 someJob 2 unparsable,
    copyRow "mox1" 3 someJob 3 "3", { copyRow "mox1" 4 someJob 4 "4" with body := none },
    copyRow "mox2" 1 someJob 1 "1", copyRow "mox2" 2 someJob 2 "2", copyRow "mox3" 1 someJob 2 "2",
    copyRow "mox3" 2 ⟨1, by decide⟩ 2 "5"]

theorem signedSeqs_copies : SignedSeqs copies.db someJob := by
  refine ⟨by decide, fun a h => ?_⟩
  have hrows : ∀ row ∈ copies.db.records, row.jobSeq.all (0 ≤ ·.toInt) = true := by decide
  have hseq := hrows a.2 h.mem
  rw [h.jobSeq] at hseq
  exact of_decide_eq_true hseq

/-- With two events a page, the second page begins behind the copies of event 2. -/
theorem following_copies (fuel : Nat) : following plainCodec parseBody copies someJob 2 (fuel + 2) 1 =
    some (.ok [⟨someJob, 1, 0, "1"⟩, ⟨someJob, 2, 0, "2"⟩, ⟨someJob, 3, 0, "3"⟩]) := by
  have hfirst : jobEvents plainCodec parseBody copies someJob 2 1 =
      .ok ⟨[⟨someJob, 1, 0, "1"⟩, ⟨someJob, 2, 0, "2"⟩], true⟩ := rfl
  have hsecond : jobEvents plainCodec parseBody copies someJob 2 3 =
      .ok ⟨[⟨someJob, 3, 0, "3"⟩], false⟩ := rfl
  rw [following, hfirst]
  show (following plainCodec parseBody copies someJob 2 (fuel + 1) 3).map _ = _
  rw [following, hsecond]
  rfl

/-- The two pages are the first readable copy of each event. -/
theorem pages_exact_copies :
    (∀ fuel, following plainCodec parseBody copies someJob 2 (fuel + 2) 1 =
      some (.ok [⟨someJob, 1, 0, "1"⟩, ⟨someJob, 2, 0, "2"⟩, ⟨someJob, 3, 0, "3"⟩])) ∧
    ∀ event, event ∈ [(⟨someJob, 1, 0, "1"⟩ : JobEvent String), ⟨someJob, 2, 0, "2"⟩,
        ⟨someJob, 3, 0, "3"⟩] ↔
      ∃ a, IsEvent copies.db someJob a ∧ (1 : UInt64).toNat ≤ jobSeqOf a ∧
        Reads plainCodec parseBody copies someJob a event ∧
        ∀ b, IsEvent copies.db someJob b → jobSeqOf b = jobSeqOf a →
          (∃ other, Reads plainCodec parseBody copies someJob b other) → a.2.order ≤ b.2.order := by
  obtain ⟨pages, answer, hpages, -, hevents⟩ :=
    pages_exact plainCodec parseBody copies someJob 2 1 signedSeqs_copies (by decide)
  have hanswer := hpages (pages + 2) (Nat.le_add_right ..)
  rw [following_copies] at hanswer
  exact ⟨following_copies, (hevents _ (Option.some.inj hanswer).symm).2⟩

def eventStore (jobSeq : UInt64) : Store := storeOf [copyRow "mox1" 1 someJob jobSeq "1"]

def largeSeq : UInt64 := 9223372036854775808

/-- A `job_seq` from 2^63 on is stored as a negative number, and no page has it. -/
theorem pages_miss_large : ∃ a event, IsEvent (eventStore largeSeq).db someJob a ∧
    (1 : UInt64).toNat ≤ jobSeqOf a ∧ Reads plainCodec some (eventStore largeSeq) someJob a event ∧
    following plainCodec some (eventStore largeSeq) someJob 1 1 1 = some (.ok []) := by
  refine ⟨(largeSeq.toInt64, copyRow "mox1" 1 someJob largeSeq "1"), ⟨someJob, largeSeq, 0, "1"⟩,
    ⟨List.mem_singleton_self _, rfl, rfl, rfl⟩, by decide, ⟨some "1", rfl, rfl⟩, ?_⟩
  rfl

end Bmac.Records
