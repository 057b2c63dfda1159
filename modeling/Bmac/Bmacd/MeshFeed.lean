import Bmac.Bmacd.Mesh

/-!
# A feed sends every record once

While the clock doesn't go back between two starts of the daemon, the streams by their start are the
streams in the order in which they were opened. A feed is then always at a position of the stream that
it reads, with all before it sent and all after it to come.
-/

namespace Bmac.Bmacd.Mesh

open Bmac.Base Bmac.Records

variable {lib : Lib} {codec : Codec} {w w' : World} {f f' : Feed} {act : Act}

/-! ## The streams -/

/-- Invariant of a daemon's streams and of what it published of its own. -/
structure StreamsOk (w : World) : Prop where
  current : ∃ before, w.store.db.opened w.store.origin = before ++ [w.store.stream]
  nodup : (w.store.db.opened w.store.origin).Nodup
  ordered : (w.store.db.numbered w.store.origin).Pairwise (startedBefore · ·)
  continues : ∀ stream, Continues w.store.origin stream 0 (w.store.db.rowsOf w.store.origin stream)
  chain : w.store.chain.seq = (w.store.db.rowsOf w.store.origin w.store.stream).length
  unopened : ∀ stream ∉ w.store.db.opened w.store.origin, w.store.db.rowsOf w.store.origin stream = []
  published : w.published ++ w.pending = w.store.db.content w.store.origin w.store.stream

theorem streamsOk_start (origin stream : String) (nowMs : Int64) :
    StreamsOk (.start origin stream nowMs) := by
  have hopened : (Store.fresh origin stream nowMs).db.opened origin = [stream] := by
    simp [Db.opened, Store.fresh]
  refine ⟨⟨[], hopened⟩, ?_, ?_, fun stream => ⟨List.forall_mem_nil _, rfl⟩, rfl, fun _ _ => rfl, rfl⟩
  · show (Db.opened _ origin).Nodup
    rw [show (World.start origin stream nowMs).store = Store.fresh origin stream nowMs from rfl, hopened]
    exact List.nodup_singleton _
  · exact List.Pairwise.filter _ (List.pairwise_singleton _ _)

variable {stream : String}

theorem rowsOf_append {rows : List Row} {origin : String} {n : Nat} (db : Db)
    (h : Continues origin stream n rows) (stream' : String) :
    Db.rowsOf { db with records := db.records ++ rows } origin stream' =
      db.rowsOf origin stream' ++ if stream' = stream then rows else [] := by
  unfold Db.rowsOf
  rw [List.filter_append]
  congr 1
  by_cases hstream : stream' = stream
  · rw [if_pos hstream, List.filter_eq_self]
    intro r hr
    obtain ⟨horigin, hof, -⟩ := h.of r hr
    simp [horigin, hof, hstream]
  · rw [if_neg hstream, List.filter_eq_nil_iff]
    intro r hr
    obtain ⟨-, hof, -⟩ := h.of r hr
    simp only [hof, decide_eq_true_eq, not_and]
    exact fun _ h => hstream h.symm

theorem continues_append {rows more : List Row} {origin : String}
    (h : Continues origin stream 0 rows) (h' : Continues origin stream rows.length more) :
    Continues origin stream 0 (rows ++ more) where
  of r hr := (List.mem_append.mp hr).elim (h.of r) (h'.of r)
  seqs := by
    rw [List.map_append, h.seqs, h'.seqs, List.length_append, Nat.zero_add, Nat.add_comm rows.length 1]
    exact List.range'_append_1

theorem StreamsOk.append {entries : List Entry} {store : Store} (h : StreamsOk w)
    (happend : w.store.append lib entries = .ok store) :
    StreamsOk
      { w with
        store := store
        pending := w.pending ++ lib.appended w.store.origin w.store.stream w.store.chain entries } := by
  obtain ⟨rows, chain, rfl, hcontinues, hchain, hrecords⟩ := append_eq_ok happend
  have hrows := rowsOf_append w.store.db hcontinues
  refine ⟨h.current, h.nodup, h.ordered, ?_, ?_, ?_, ?_⟩
  · intro stream
    show Continues _ _ 0 (Db.rowsOf _ w.store.origin stream)
    rw [hrows]
    by_cases hstream : stream = w.store.stream
    · rw [if_pos hstream]
      subst hstream
      exact continues_append (h.continues _) (h.chain ▸ hcontinues)
    · rw [if_neg hstream, List.append_nil]
      exact h.continues stream
  · show chain.seq = (Db.rowsOf _ w.store.origin w.store.stream).length
    rw [hrows, if_pos rfl, List.length_append, hchain, h.chain]
  · intro stream hstream
    show Db.rowsOf _ w.store.origin stream = []
    have hne : stream ≠ w.store.stream := by
      rintro rfl
      obtain ⟨before, hbefore⟩ := h.current
      refine hstream ?_
      show w.store.stream ∈ w.store.db.opened w.store.origin
      rw [hbefore]
      exact List.mem_append_right _ (List.mem_singleton_self _)
    rw [hrows, if_neg hne, List.append_nil]
    exact h.unopened stream hstream
  · show w.published ++ (w.pending ++ _) = (Db.rowsOf _ w.store.origin w.store.stream).map _
    rw [hrows, if_pos rfl, List.map_append, hrecords, ← List.append_assoc, h.published]
    rfl

theorem StreamsOk.publish {record : Record} {rest : List Record} (h : StreamsOk w)
    (hpending : w.pending = record :: rest) :
    StreamsOk { w with pending := rest, published := w.published ++ [record] } :=
  { h with
    published := by
      show w.published ++ [record] ++ rest = _
      rw [← h.published, hpending, List.append_assoc, List.singleton_append] }

theorem StreamsOk.restart {nowMs : Int64} {store : Store} (h : StreamsOk w)
    (hopen : Store.open_ w.store.db w.store.segments w.store.origin stream nowMs = .ok store)
    (hclock : ∀ row ∈ w.store.db.streams, row.origin = w.store.origin → row.startedMs ≤ nowMs) :
    StreamsOk ⟨store, [], [], none⟩ := by
  unfold Store.open_ at hopen
  split at hopen
  · cases hopen
  · rename_i hnew
    obtain rfl := (Except.ok.inj hopen).symm
    have hfresh : stream ∉ w.store.db.opened w.store.origin := by
      intro hmem
      obtain ⟨row, hrow, hname⟩ := List.mem_map.mp hmem
      obtain ⟨hrow, horigin⟩ := List.mem_filter.mp hrow
      have := List.find?_eq_none.mp hnew row hrow
      simp only [decide_eq_true_eq] at horigin this
      exact this ⟨horigin, hname⟩
    have hopened : Db.opened { w.store.db with
        streams := w.store.db.streams ++ [⟨w.store.origin, stream, nowMs, 0⟩] } w.store.origin =
        w.store.db.opened w.store.origin ++ [stream] := by
      simp [Db.opened, List.filter_append]
    have hnumbered : Db.numbered { w.store.db with
        streams := w.store.db.streams ++ [⟨w.store.origin, stream, nowMs, 0⟩] } w.store.origin =
        w.store.db.numbered w.store.origin ++
          [(⟨w.store.origin, stream, nowMs, 0⟩, w.store.db.streams.length)] := by
      simp [Db.numbered, List.zipIdx_append, List.filter_append]
    refine ⟨⟨_, hopened⟩, ?_, ?_, h.continues, ?_, ?_, ?_⟩
    · show (Db.opened _ w.store.origin).Nodup
      rw [hopened]
      exact List.nodup_append'.mpr ⟨h.nodup, List.nodup_singleton _,
        List.disjoint_singleton.mpr hfresh⟩
    · show (Db.numbered _ w.store.origin).Pairwise _
      rw [hnumbered]
      refine List.pairwise_append.mpr ⟨h.ordered, List.pairwise_singleton _ _, ?_⟩
      intro a ha b hb
      obtain rfl := List.mem_singleton.mp hb
      obtain ⟨hmem, horigin⟩ := List.mem_filter.mp ha
      have hindex : a.2 < w.store.db.streams.length := List.snd_lt_of_mem_zipIdx hmem
      have hstarted := hclock a.1 (List.fst_mem_of_mem_zipIdx hmem) (by simpa using horigin)
      rw [startedBefore_iff]
      rcases Int64.lt_or_eq_of_le hstarted with hlt | heq
      · exact .inl hlt
      · exact .inr ⟨heq, hindex⟩
    · show 0 = (w.store.db.rowsOf w.store.origin stream).length
      rw [h.unopened stream hfresh]
      rfl
    · intro stream' hstream'
      refine h.unopened stream' fun hmem => hstream' ?_
      show stream' ∈ Db.opened _ w.store.origin
      rw [hopened]
      exact List.mem_append_left _ hmem
    · show [] = (w.store.db.rowsOf w.store.origin stream).map _
      rw [h.unopened stream hfresh]
      rfl

/-! ## What is due -/

theorem openedAfter_eq {before after : List String} (h : stream ∉ before) :
    openedAfter stream (before ++ stream :: after) = after := by
  unfold openedAfter
  rw [List.dropWhile_append_of_pos, List.dropWhile_cons_of_neg (by simp), List.tail_cons]
  intro name hname
  simpa using fun heq : name = stream => h (heq ▸ hname)

/-- The current stream is due last, and once. -/
theorem StreamsOk.due_current (h : StreamsOk w) (asked : Option String) (after : UInt64) :
    ∃ before base, w.due asked after = before ++ [(w.store.stream, base)] ∧
      ∀ p ∈ before, p.1 ≠ w.store.stream := by
  unfold World.due
  dsimp only
  obtain ⟨earlier, hcurrent⟩ := h.current
  have hnodup := h.nodup
  cases hasked : asked.filter (· ∈ w.store.db.opened w.store.origin) with
  | none => exact ⟨[], 0, rfl, List.forall_mem_nil _⟩
  | some stream =>
    dsimp only
    have hmem : stream ∈ w.store.db.opened w.store.origin := by
      simpa using (Option.filter_eq_some_iff.mp hasked).2
    obtain ⟨before, later, hopened⟩ := List.append_of_mem hmem
    rw [hopened] at hnodup hcurrent ⊢
    obtain ⟨-, hlater, hdisjoint⟩ := List.nodup_append.mp hnodup
    have hbefore : stream ∉ before :=
      fun hmem => hdisjoint stream hmem stream (List.mem_cons_self ..) rfl
    rw [openedAfter_eq hbefore]
    rcases List.eq_nil_or_concat later with rfl | ⟨later, last, rfl⟩
    · obtain ⟨-, hlast⟩ := List.append_inj' hcurrent rfl
      obtain rfl := List.singleton_inj.mp hlast
      exact ⟨[], after.toNat, rfl, List.forall_mem_nil _⟩
    · rw [List.concat_eq_append] at hcurrent hlater ⊢
      rw [← List.cons_append, ← List.append_assoc] at hcurrent
      obtain ⟨-, hlast⟩ := List.append_inj' hcurrent rfl
      obtain rfl := List.singleton_inj.mp hlast
      refine ⟨(stream, after.toNat) :: later.map (·, 0), 0, by simp, ?_⟩
      rw [← List.cons_append, List.nodup_append] at hlater
      intro p hp
      rcases List.mem_cons.mp hp with rfl | hp
      · exact hlater.2.2 stream (List.mem_cons_self ..) _ (List.mem_singleton_self _)
      · obtain ⟨name, hname, rfl⟩ := List.mem_map.mp hp
        exact hlater.2.2 name (List.mem_cons_of_mem _ hname) _ (List.mem_singleton_self _)

/-! ## The position of a feed -/

/-- A feed is at the position `k` of a stream, of which it sends what is after `start`: it sent the
streams of `done` and that far of this one, and `rest` is to come. -/
structure At (w : World) (f : Feed) (stream : String) (k : Nat) (rest : List String)
    (done : List (String × Nat)) (start : Nat) : Prop where
  due : w.due f.asked f.after = done ++ (stream, start) :: rest.map (·, 0)
  sent : f.sent =
    w.recordsOf done ++ ((w.store.db.content w.store.origin stream).take k).drop start
  from_start : start ≤ k
  held : k = start ∨ k ≤ (w.store.db.content w.store.origin stream).length
  fits : k < 2 ^ 63

/-- Invariant of a feed. -/
structure FeedOk (w : World) (f : Feed) : Prop where
  after : f.after.toNat < 2 ^ 63
  received : f.received ≤ w.published.length
  listing : f.phase = .listing → f.sent = []
  replay : ∀ stream k rest, f.phase = .replay stream k rest →
    ∃ done start, At w f stream k.toNat rest done start
  live : ∀ last, f.phase = .live last → f.received ≤ last.toNat ∧
    ∃ done start, At w f w.store.stream last.toNat [] done start

section

variable {stream : String} {k : Nat} {rest : List String} {done : List (String × Nat)} {start : Nat}

theorem recordsOf_append (w : World) (streams more : List (String × Nat)) :
    w.recordsOf (streams ++ more) = w.recordsOf streams ++ w.recordsOf more := List.flatMap_append

theorem recordsOf_singleton (w : World) (stream : String) (start : Nat) :
    w.recordsOf [(stream, start)] = (w.store.db.content w.store.origin stream).drop start :=
  List.flatMap_singleton ..

theorem At.prefix (h : At w f stream k rest done start) :
    f.sent <+: w.recordsOf (w.due f.asked f.after) := by
  rw [h.due, h.sent, recordsOf_append]
  refine List.prefix_append_right_inj _ |>.mpr ?_
  unfold World.recordsOf
  rw [List.flatMap_cons]
  exact ((List.take_prefix _ _).drop start).trans (List.prefix_append _ _)

theorem At.all (h : At w f stream k [] done start)
    (hend : (w.store.db.content w.store.origin stream).length ≤ k) :
    f.sent = w.recordsOf (w.due f.asked f.after) := by
  rw [h.due, h.sent, recordsOf_append, List.map_nil, recordsOf_singleton, List.take_of_length_le hend]

/-- The streams before the one that a feed is at aren't appended to. -/
theorem At.done_ne (h : At w f stream k rest done start) (hs : StreamsOk w) :
    ∀ p ∈ done, p.1 ≠ w.store.stream := by
  obtain ⟨before, base, hdue, hne⟩ := hs.due_current f.asked f.after
  rw [h.due] at hdue
  intro p hp
  rcases List.eq_nil_or_concat (rest.map (·, 0)) with hrest | ⟨later, last, hrest⟩
  · rw [hrest] at hdue
    obtain ⟨rfl, -⟩ := List.append_inj' hdue rfl
    exact hne p hp
  · rw [hrest, List.concat_eq_append, ← List.cons_append, ← List.append_assoc] at hdue
    obtain ⟨rfl, -⟩ := List.append_inj' hdue rfl
    exact hne p (List.mem_append_left _ hp)

theorem At.current (h : At w f stream k [] done start) (hs : StreamsOk w) :
    stream = w.store.stream := by
  obtain ⟨before, base, hdue, -⟩ := hs.due_current f.asked f.after
  rw [h.due] at hdue
  obtain ⟨-, hlast⟩ := List.append_inj' hdue rfl
  exact (Prod.mk.inj (List.singleton_inj.mp hlast)).1

theorem At.append {w' : World} {more : List Record} (h : At w f stream k rest done start)
    (hs : StreamsOk w) (hdue : w'.due f.asked f.after = w.due f.asked f.after)
    (horigin : w'.store.origin = w.store.origin)
    (hcontent : ∀ stream, w'.store.db.content w.store.origin stream =
      w.store.db.content w.store.origin stream ++ if stream = w.store.stream then more else []) :
    At w' f stream k rest done start := by
  refine ⟨hdue.trans h.due, ?_, h.from_start, ?_, h.fits⟩
  · have hdone : w'.recordsOf done = w.recordsOf done := by
      unfold World.recordsOf
      refine List.flatMap_congr fun p hp => ?_
      rw [horigin, hcontent, if_neg (h.done_ne hs p hp), List.append_nil]
    rw [hdone, h.sent, horigin, hcontent]
    congr 1
    rcases h.held with rfl | hheld
    · rw [List.drop_take_self, List.drop_take_self]
    · rw [List.take_append_of_le_length hheld]
  · rw [horigin, hcontent, List.length_append]
    rcases h.held with heq | hheld
    · exact .inl heq
    · exact .inr (by omega)

end

/-! ## Sequence numbers -/

/-- The records of a stream are numbered from 1. -/
theorem StreamsOk.seq (h : StreamsOk w) (stream : String) {i : Nat}
    (hi : i < (w.store.db.content w.store.origin stream).length) :
    (w.store.db.content w.store.origin stream)[i].seq.toNat = i + 1 ∧ i + 1 < 2 ^ 63 := by
  have hseq := (h.continues stream).content_seq hi
  omega

theorem last_of_page {l : List Record} {k : UInt64} (hk : k.toNat + l.length < 2 ^ 63)
    (hseq : ∀ i (hi : i < l.length), l[i].seq.toNat = k.toNat + i + 1) :
    (l.foldl (fun _ r => r.seq) k).toNat = k.toNat + l.length := by
  induction l generalizing k with
  | nil => rfl
  | cons r l ih =>
    have hfirst : r.seq.toNat = k.toNat + 1 := hseq 0 (Nat.succ_pos _)
    rw [List.length_cons] at hk
    rw [List.foldl_cons, ih (by omega), hfirst, List.length_cons]
    · omega
    · intro i hi
      have hnext : l[i].seq.toNat = k.toNat + (i + 1) + 1 :=
        hseq (i + 1) (Nat.succ_lt_succ hi)
      omega

/-! ## Steps of a feed -/

section

variable {stream : String} {k : UInt64} {rest : List String} {done : List (String × Nat)}
  {start : Nat}

theorem At.page (h : At w f stream k.toNat rest done start) (hs : StreamsOk w) :
    ∃ k' : UInt64, At w (f.page codec w.store stream k rest) stream k'.toNat rest done start ∧
      ((f.page codec w.store stream k rest).phase = .replay stream k' rest ∨
        ((f.page codec w.store stream k rest).phase = replayed k' rest ∧
          (w.store.db.content w.store.origin stream).length ≤ k'.toNat)) := by
  have hread := @readRecords_eq codec w.store _ stream k pageSize (hs.continues stream) h.fits
    (by decide)
  have hstart := h.from_start
  have hheld := h.held
  have hfits := h.fits
  have hsent := h.sent
  have hseq := fun i => @StreamsOk.seq w hs stream i
  generalize hcontent : w.store.db.content w.store.origin stream = content at *
  have hlength : ((content.drop k.toNat).take pageSize.toNat).length =
      min pageSize.toNat (content.length - k.toNat) := by
    rw [List.length_take, List.length_drop]
  have hbound : content.length < 2 ^ 63 := by
    rcases Nat.eq_zero_or_pos content.length with h0 | h0
    · omega
    · have hlast := (hseq (content.length - 1) (by omega)).2
      omega
  have hpage : pageSize.toNat = 500 := rfl
  have hlast : (((content.drop k.toNat).take pageSize.toNat).foldl (fun _ r => r.seq) k).toNat =
      k.toNat + min pageSize.toNat (content.length - k.toNat) := by
    rw [last_of_page, hlength]
    · omega
    · intro i hi
      rw [hlength] at hi
      rw [List.getElem_take, List.getElem_drop]
      exact (hseq (k.toNat + i) (by omega)).1
  have htaken : (content.take k.toNat).drop start ++ (content.drop k.toNat).take pageSize.toNat =
      (content.take (k.toNat + min pageSize.toNat (content.length - k.toNat))).drop start := by
    rcases Nat.lt_or_ge content.length k.toNat with hbeyond | hin
    · -- nothing is held after the position yet
      rw [List.drop_eq_nil_of_le (Nat.le_of_lt hbeyond), List.take_nil, List.append_nil,
        show content.length - k.toNat = 0 by omega, Nat.min_zero, Nat.add_zero]
    · rw [List.take_add, List.drop_append_of_le_length]
      · congr 1
        rw [← List.length_drop]
        exact List.take_eq_take_min ..
      · rw [List.length_take, Nat.min_eq_left hin]
        exact hstart
  generalize hk' : ((content.drop k.toNat).take pageSize.toNat).foldl (fun _ r => r.seq) k = k' at hlast
  unfold Feed.page
  rw [hread]
  dsimp only
  rw [hk', hlength]
  refine ⟨k', ⟨h.due, ?_, by omega, ?_, by omega⟩, ?_⟩
  · show f.sent ++ _ = _
    rw [hsent, List.append_assoc, hcontent, htaken, ← hlast]
  · rw [hcontent]
    omega
  · by_cases hfull : min pageSize.toNat (content.length - k.toNat) = pageSize.toNat
    · rw [if_pos hfull]
      exact .inl rfl
    · rw [if_neg hfull]
      exact .inr ⟨rfl, by omega⟩

end

/-! ## Steps -/

section

variable {stream : String} {done : List (String × Nat)} {start : Nat}

/-- A feed goes on where it is, whatever it does next. -/
theorem At.congr {k : Nat} {rest : List String} (h : At w f stream k rest done start)
    (hasked : f'.asked = f.asked) (hafter : f'.after = f.after) (hsent : f'.sent = f.sent) :
    At w f' stream k rest done start where
  due := by
    rw [hasked, hafter]
    exact h.due
  sent := hsent.trans h.sent
  from_start := h.from_start
  held := h.held
  fits := h.fits

theorem page_keeps (f : Feed) (stream : String) (k : UInt64) (rest : List String) :
    (f.page codec w.store stream k rest).after = f.after ∧
      (f.page codec w.store stream k rest).received = f.received := by
  unfold Feed.page
  split <;> exact ⟨rfl, rfl⟩

theorem StreamsOk.received_le (hs : StreamsOk w) :
    w.published.length ≤ (w.store.db.content w.store.origin w.store.stream).length := by
  rw [← hs.published, List.length_append]
  omega

theorem StreamsOk.published_getElem (hs : StreamsOk w) {i : Nat} {record : Record}
    (h : w.published[i]? = some record) :
    ∃ hi : i < (w.store.db.content w.store.origin w.store.stream).length,
      (w.store.db.content w.store.origin w.store.stream)[i] = record := by
  obtain ⟨hi, hget⟩ := List.getElem?_eq_some_iff.mp h
  have hcontent := hs.published
  refine ⟨hs.received_le.trans_lt' hi, ?_⟩
  simp only [← hcontent]
  rw [List.getElem_append_left hi]
  exact hget

theorem FeedOk.list (h : FeedOk w f) (hs : StreamsOk w) (hphase : f.phase = .listing) :
    FeedOk w (f.list w.store) := by
  have hsent := h.listing hphase
  have hlater : ∀ asked, laterStreams w.store.db w.store.origin asked =
      if asked ∈ w.store.db.opened w.store.origin then
        some (openedAfter asked (w.store.db.opened w.store.origin)) else none :=
    fun asked => laterStreams_eq hs.ordered
  have hcurrent : w.due f.asked f.after = [(w.store.stream, 0)] →
      FeedOk w { f with phase := .replay w.store.stream 0 [] } := by
    intro hdue
    refine ⟨h.after, h.received, nofun, ?_, nofun⟩
    rintro stream k rest heq
    obtain ⟨rfl, rfl, rfl⟩ := Phase.replay.inj heq
    exact ⟨[], 0, hdue, hsent, Nat.le_refl 0, .inl rfl, by decide⟩
  obtain ⟨asked, after, received, sent, phase⟩ := f
  unfold Feed.list
  cases asked with
  | none => exact hcurrent rfl
  | some asked =>
    dsimp only [Option.bind_some]
    rw [hlater]
    have hdue : w.due (some asked) after =
        if asked ∈ w.store.db.opened w.store.origin then
          (asked, after.toNat) :: (openedAfter asked (w.store.db.opened w.store.origin)).map (·, 0)
        else [(w.store.stream, 0)] := by
      unfold World.due
      dsimp only
      rw [Option.filter_some]
      by_cases hmem : asked ∈ w.store.db.opened w.store.origin
      · rw [if_pos (decide_eq_true hmem), if_pos hmem]
      · rw [if_neg (by simpa using hmem), if_neg hmem]
    by_cases hmem : asked ∈ w.store.db.opened w.store.origin
    · rw [if_pos hmem] at hdue ⊢
      refine ⟨h.after, h.received, nofun, ?_, nofun⟩
      rintro stream k rest heq
      obtain ⟨rfl, rfl, rfl⟩ := Phase.replay.inj heq
      refine ⟨[], after.toNat, hdue, ?_, Nat.le_refl _, .inl rfl, h.after⟩
      show sent = _
      rw [List.drop_take_self]
      exact hsent
    · rw [if_neg hmem] at hdue ⊢
      exact hcurrent hdue

theorem FeedOk.page (h : FeedOk w f) (hs : StreamsOk w) {k : UInt64} {rest : List String}
    (hphase : f.phase = .replay stream k rest) :
    FeedOk w (f.page codec w.store stream k rest) := by
  obtain ⟨done, start, hat⟩ := h.replay stream k rest hphase
  obtain ⟨hafter, hreceived⟩ := @page_keeps codec w f stream k rest
  obtain ⟨k', hat', hnext⟩ := @At.page codec w f stream k rest done start hat hs
  generalize f.page codec w.store stream k rest = f' at *
  rcases hnext with hmore | ⟨hover, hend⟩
  · refine ⟨hafter ▸ h.after, hreceived ▸ h.received, fun hp => ?_, ?_, fun last hp => ?_⟩
    · rw [hmore] at hp
      cases hp
    · intro stream' k'' rest' hp
      rw [hmore] at hp
      obtain ⟨rfl, rfl, rfl⟩ := Phase.replay.inj hp
      exact ⟨done, start, hat'⟩
    · rw [hmore] at hp
      cases hp
  · cases rest with
    | nil =>
      obtain rfl := hat.current hs
      have hle := hs.received_le
      refine ⟨hafter ▸ h.after, hreceived ▸ h.received, fun hp => ?_, fun _ _ _ hp => ?_, ?_⟩
      · rw [hover] at hp
        cases hp
      · rw [hover] at hp
        cases hp
      · intro last hp
        rw [hover] at hp
        obtain rfl := Phase.live.inj hp
        refine ⟨?_, done, start, hat'⟩
        rw [hreceived]
        exact h.received.trans (hle.trans hend)
    | cons next rest =>
      refine ⟨hafter ▸ h.after, hreceived ▸ h.received, fun hp => ?_, ?_, fun last hp => ?_⟩
      · rw [hover] at hp
        cases hp
      · intro stream' k'' rest' hp
        rw [hover] at hp
        obtain ⟨rfl, rfl, rfl⟩ := Phase.replay.inj hp
        refine ⟨done ++ [(stream, start)], 0, ?_, ?_, Nat.le_refl 0, .inl rfl, by decide⟩
        · rw [hat'.due, List.append_assoc, List.singleton_append]
          rfl
        · rw [hat'.sent, recordsOf_append, recordsOf_singleton, List.take_of_length_le hend]
          exact (List.append_nil _).symm
      · rw [hover] at hp
        cases hp

theorem FeedOk.again (h : FeedOk w f) {last : UInt64} {received : Nat}
    (hphase : f.phase = .live last) (hreceived : received ≤ w.published.length) :
    FeedOk w { f with received := received, phase := .replay w.store.stream last [] } := by
  obtain ⟨-, done, start, hat⟩ := h.live last hphase
  refine ⟨h.after, hreceived, nofun, ?_, nofun⟩
  intro stream k rest hp
  obtain ⟨rfl, rfl, rfl⟩ := Phase.replay.inj hp
  exact ⟨done, start, hat.congr rfl rfl rfl⟩

theorem FeedOk.receive (h : FeedOk w f) (hs : StreamsOk w) {last : UInt64} {record : Record}
    (hphase : f.phase = .live last) (hrecord : w.published[f.received]? = some record) :
    FeedOk w (f.receive w.store last record) := by
  obtain ⟨hreceived, done, start, hat⟩ := h.live last hphase
  obtain ⟨hlt, -⟩ := List.getElem?_eq_some_iff.mp hrecord
  obtain ⟨hi, hget⟩ := hs.published_getElem hrecord
  obtain ⟨hseq, hbound⟩ := hs.seq w.store.stream hi
  rw [hget] at hseq
  have hfits := hat.fits
  unfold Feed.receive
  dsimp only
  by_cases hold : record.seq ≤ last
  · -- it was read from the store
    rw [if_pos hold]
    have hle : record.seq.toNat ≤ last.toNat := hold
    refine ⟨h.after, hlt, fun hp => ?_, fun _ _ _ hp => ?_, ?_⟩
    · rw [hphase] at hp
      cases hp
    · rw [hphase] at hp
      cases hp
    · intro last' hp
      rw [hphase] at hp
      obtain rfl := Phase.live.inj hp
      exact ⟨by show f.received + 1 ≤ _; omega, done, start, hat.congr rfl rfl rfl⟩
  · rw [if_neg hold]
    by_cases hnext : record.seq = last + 1
    · -- the next one
      rw [if_pos hnext]
      have hlast : record.seq.toNat = last.toNat + 1 := by
        rw [hnext, UInt64.toNat_add, show (1 : UInt64).toNat = 1 from rfl]
        omega
      have hposition : f.received = last.toNat := by omega
      refine ⟨h.after, hlt, nofun, nofun, ?_⟩
      intro last' hp
      obtain rfl := Phase.live.inj hp
      refine ⟨by show f.received + 1 ≤ _; omega, done, start, hat.due, ?_, ?_, ?_, ?_⟩
      · show f.sent ++ [record] = _
        rw [hat.sent, hlast, ← hposition, List.take_succ_eq_append_getElem hi, hget,
          List.drop_append_of_le_length, List.append_assoc]
        rw [List.length_take]
        have := hat.from_start
        omega
      · have := hat.from_start
        omega
      · right
        omega
      · omega
    · rw [if_neg hnext]
      exact h.again hphase hlt

theorem FeedOk.step (h : FeedOk w f) (hs : StreamsOk w) (hstep : FeedStep codec w f act f') :
    FeedOk w f' := by
  cases hstep with
  | list hphase => exact h.list hs hphase
  | page hphase => exact h.page hs hphase
  | receive hphase hrecord => exact h.receive hs hphase hrecord
  | lag hphase hmore hle => exact h.again hphase hle

end

/-! ## Runs -/

/-- Invariant of a daemon and its feed. -/
structure WorldOk (w : World) : Prop where
  streams : StreamsOk w
  feed : ∀ f, w.feed = some f → FeedOk w f

theorem FeedOk.append {entries : List Entry} {store : Store} (h : FeedOk w f) (hs : StreamsOk w)
    (happend : w.store.append lib entries = .ok store) :
    FeedOk
      { w with
        store := store
        pending := w.pending ++ lib.appended w.store.origin w.store.stream w.store.chain entries } f := by
  obtain ⟨rows, chain, rfl, hcontinues, -, hrecords⟩ := append_eq_ok happend
  have hcontent : ∀ stream, Db.content { w.store.db with records := w.store.db.records ++ rows }
      w.store.origin stream = w.store.db.content w.store.origin stream ++
        if stream = w.store.stream then rows.map (fun r => r.record (r.body.getD "")) else [] := by
    intro stream
    unfold Db.content
    rw [rowsOf_append w.store.db hcontinues, List.map_append]
    split <;> rfl
  refine ⟨h.after, h.received, h.listing, ?_, ?_⟩
  · intro stream k rest hphase
    obtain ⟨done, start, hat⟩ := h.replay stream k rest hphase
    exact ⟨done, start, hat.append hs rfl rfl hcontent⟩
  · intro last hphase
    obtain ⟨hreceived, done, start, hat⟩ := h.live last hphase
    exact ⟨hreceived, done, start, hat.append hs rfl rfl hcontent⟩

theorem WorldOk.step (h : WorldOk w) (hstep : Step lib codec w act w') (horderly : act.Orderly w) :
    WorldOk w' := by
  cases hstep with
  | append happend =>
    exact ⟨h.streams.append happend, fun f hf => (h.feed f hf).append h.streams happend⟩
  | publish hpending =>
    refine ⟨h.streams.publish hpending, fun f hf => ?_⟩
    have hok := h.feed f hf
    refine ⟨hok.after, ?_, hok.listing, ?_, ?_⟩
    · rw [List.length_append]
      exact Nat.le_add_right_of_le hok.received
    · intro stream k rest hphase
      obtain ⟨done, start, hat⟩ := hok.replay stream k rest hphase
      exact ⟨done, start, hat.due, hat.sent, hat.from_start, hat.held, hat.fits⟩
    · intro last hphase
      obtain ⟨hreceived, done, start, hat⟩ := hok.live last hphase
      exact ⟨hreceived, done, start, hat.due, hat.sent, hat.from_start, hat.held, hat.fits⟩
  | restart hopen => exact ⟨h.streams.restart hopen horderly, nofun⟩
  | connect asked after =>
    refine ⟨⟨h.streams.current, h.streams.nodup, h.streams.ordered, h.streams.continues,
      h.streams.chain, h.streams.unopened, h.streams.published⟩, fun f hf => ?_⟩
    obtain rfl := Option.some.inj hf
    exact ⟨horderly, Nat.le_refl _, fun _ => rfl, nofun, nofun⟩
  | feed hfeed hfeedstep =>
    refine ⟨⟨h.streams.current, h.streams.nodup, h.streams.ordered, h.streams.continues,
      h.streams.chain, h.streams.unopened, h.streams.published⟩, fun f hf => ?_⟩
    obtain rfl := Option.some.inj hf
    have hok := (h.feed _ hfeed).step h.streams hfeedstep
    refine ⟨hok.after, hok.received, hok.listing, ?_, ?_⟩
    · intro stream k rest hphase
      obtain ⟨done, start, hat⟩ := hok.replay stream k rest hphase
      exact ⟨done, start, hat.due, hat.sent, hat.from_start, hat.held, hat.fits⟩
    · intro last hphase
      obtain ⟨hreceived, done, start, hat⟩ := hok.live last hphase
      exact ⟨hreceived, done, start, hat.due, hat.sent, hat.from_start, hat.held, hat.fits⟩

/-- A step at which the clock doesn't go back. -/
def OrderlyStep (lib : Lib) (codec : Codec) (w : World) (act : Act) (w' : World) : Prop :=
  Step lib codec w act w' ∧ act.Orderly w

/-- While the clock doesn't go back between two starts of the daemon, a feed has sent the first of the
records that are due to it, and all of them once it has nothing more to read or receive. Every stream's
records are numbered from 1 without a gap. -/
theorem feed_exact (lib : Lib) (codec : Codec) {origin stream : String} {nowMs : Int64}
    {acts : List Act} (h : Run (OrderlyStep lib codec) (.start origin stream nowMs) acts w) :
    (∀ f, w.feed = some f → f.sent <+: w.recordsOf (w.due f.asked f.after) ∧
      (w.Idle f → f.sent = w.recordsOf (w.due f.asked f.after))) ∧
    (w.store.db.opened w.store.origin).Nodup ∧
    ∀ stream i, ∀ hi : i < (w.store.db.content w.store.origin stream).length,
      (w.store.db.content w.store.origin stream)[i].seq.toNat = i + 1 := by
  have hok : WorldOk w :=
    h.invariant (I := WorldOk) (fun _ _ _ hok hstep => hok.step hstep.1 hstep.2)
      ⟨streamsOk_start origin stream nowMs, nofun⟩
  refine ⟨fun f hf => ?_, hok.streams.nodup, fun stream i hi => (hok.streams.seq stream hi).1⟩
  have hfeed := hok.feed f hf
  refine ⟨?_, ?_⟩
  · cases hphase : f.phase with
    | listing =>
      rw [hfeed.listing hphase]
      exact List.nil_prefix
    | replay stream k rest =>
      obtain ⟨done, start, hat⟩ := hfeed.replay stream k rest hphase
      exact hat.prefix
    | live last =>
      obtain ⟨-, done, start, hat⟩ := hfeed.live last hphase
      exact hat.prefix
  · rintro ⟨last, hphase, hreceived, hpending⟩
    obtain ⟨hle, done, start, hat⟩ := hfeed.live last hphase
    refine hat.all ?_
    rw [← hok.streams.published, hpending, List.append_nil, ← hreceived]
    exact hle

/-- A hash, which no feed looks at. -/
def plainLib : Lib := ⟨fun _ => zeroHash, fun _ => {}⟩

def plainCodec : Codec := ⟨id, some, Codec.some_id⟩

/-- A line of `bmacd`'s log. -/
def started : Entry := ⟨0, .log, none, "started"⟩

def stopped : Entry := ⟨1, .log, none, "stopped"⟩

/-- The daemon restarts after two records. A peer that holds the first one gets the second, the first record
of the new stream, once though it is published later, and the next one live. -/
theorem feed_exact_restarted : ∃ w f acts,
    Run (OrderlyStep plainLib plainCodec) (.start "mox1" "a-01" 10) acts w ∧ w.feed = some f ∧
      f.asked = some "a-01" ∧ f.after = 1 ∧
      f.sent.map (fun r => (r.stream, r.seq)) = [("a-01", 2), ("b-02", 1), ("b-02", 2)] ∧
      f.sent = w.recordsOf (w.due f.asked f.after) ∧ (w.store.db.opened w.store.origin).Nodup := by
  have happend : Step plainLib plainCodec (.start "mox1" "a-01" 10) (.append [started, stopped]) _ :=
    .append rfl
  have hclock : ∀ row ∈ (World.start "mox1" "a-01" 10).store.db.streams, row.origin = "mox1" → row.startedMs ≤ 20 := by
    decide
  have hrun : Run (OrderlyStep plainLib plainCodec) (.start "mox1" "a-01" 10) _ _ :=
    .cons ⟨happend, trivial⟩ <|
    .cons ⟨show Step _ _ _ (.restart "b-02" 20) _ from .restart rfl, hclock⟩ <|
    .cons ⟨show Step _ _ _ (.append [started]) _ from .append rfl, trivial⟩ <|
    .cons ⟨.connect _ (some "a-01") 1, show (1 : UInt64).toNat < 2 ^ 63 by decide⟩ <|
    .cons ⟨.feed rfl (.list rfl), trivial⟩ <|
    .cons ⟨.feed rfl (.page rfl), trivial⟩ <|
    .cons ⟨.feed rfl (.page rfl), trivial⟩ <|
    .cons ⟨.publish rfl, trivial⟩ <|
    .cons ⟨.feed rfl (.receive rfl rfl), trivial⟩ <|
    .cons ⟨show Step _ _ _ (.append [stopped]) _ from .append rfl, trivial⟩ <|
    .cons ⟨.publish rfl, trivial⟩ <|
    .single ⟨.feed rfl (.receive rfl rfl), trivial⟩
  obtain ⟨hsent, hnodup, -⟩ := feed_exact plainLib plainCodec hrun
  exact ⟨_, _, _, hrun, rfl, rfl, rfl, rfl, (hsent _ rfl).2 ⟨_, rfl, rfl, rfl⟩, hnodup⟩

/-- The clock goes back between two starts: a feed from the end of the first stream never gets what is
recorded in the second one. -/
theorem not_feed_exact : ∃ w f acts,
    Run (Step plainLib plainCodec) (.start "mox1" "a-01" 10) acts w ∧ w.feed = some f ∧ w.Idle f ∧
      f.asked = some "a-01" ∧ f.after = 1 ∧ f.sent = [] ∧
      (w.recordsOf (w.due f.asked f.after)).length = 1 := by
  have happend : Step plainLib plainCodec (.start "mox1" "a-01" 10) (.append [started]) _ :=
    .append rfl
  have hrun : Run (Step plainLib plainCodec) (.start "mox1" "a-01" 10) _ _ :=
    .cons happend <| .cons (show Step _ _ _ (.restart "5-02" 5) _ from .restart rfl) <|
    .cons (.connect _ (some "a-01") 1) <| .cons (.feed rfl (.list rfl)) <|
    .cons (.feed rfl (.page rfl)) <|
    .cons (show Step _ _ _ (.append [started]) _ from .append rfl) <|
    .cons (.publish rfl) <| .single (.feed rfl (.receive rfl rfl))
  exact ⟨_, _, _, hrun, rfl, ⟨_, rfl, rfl, rfl⟩, rfl, rfl, rfl, rfl⟩

end Bmac.Bmacd.Mesh
