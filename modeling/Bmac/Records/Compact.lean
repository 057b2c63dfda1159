import Bmac.Records.Chain
import Bmac.Records.Reads
import Bmac.Records.Frames

/-!
# Compaction and what readers see

A frame is written to the end of a segment file, and its rows point at it once it is there, so
whatever was readable stays readable wherever compaction stops; what a frame holds is read back as
far as its text allows. `compact_lossless_iff`: in every store that writes and compactions reach,
compacting a job changes no answer of a reader, at whatever point it stops, if and only if the
job's inline events can be framed.
-/

namespace Bmac.Records

open Bmac.Base Bmac.Base.Lines Bmac.Core

/-! ## What segments keep -/

/-- Every frame is in its file, and every row that was moved names a frame. -/
structure Tidy (s : Store) : Prop where
  files : ∀ g ∈ s.db.segments, ∃ bytes, s.segments g.file = some bytes ∧
    g.offset + g.length ≤ bytes.length
  rows : ∀ r ∈ s.db.records, ∀ id, r.segment = some id → ∃ g ∈ s.db.segments, g.id = id

section

variable {codec : Codec} {s : Store}

theorem take_drop_append {α : Type} {a b : List α} {offset length : Nat}
    (h : offset + length ≤ a.length) :
    ((a ++ b).drop offset).take length = (a.drop offset).take length := by
  rw [List.drop_append_of_le_length (by omega), List.take_append_of_le_length]
  rw [List.length_drop]
  omega

/-- Bytes at the end of a file change no frame. -/
theorem readFrame_appendFile (ht : Tidy s) (name : String) (bytes : List UInt8) (id : Nat) :
    readFrame codec (s.appendFile name bytes) id = readFrame codec s id := by
  unfold readFrame
  have hdb : (s.appendFile name bytes).db = s.db := rfl
  rw [hdb]
  cases hfind : s.db.segments.find? (·.id = id) with
  | none => rw [ofOption_none, error_bind, error_bind]
  | some g =>
    obtain ⟨old, hold, hlen⟩ := ht.files g (List.mem_of_find?_eq_some hfind)
    by_cases hname : g.file = name
    · have hfile : (s.appendFile name bytes).segments g.file = some (old ++ bytes) := by
        simp [Store.appendFile, ← hname, hold]
      rw [ofOption_some, ok_bind, ok_bind, hfile, hold, ofOption_some, ofOption_some, ok_bind, ok_bind,
        take_drop_append hlen]
    · have hfile : (s.appendFile name bytes).segments g.file = s.segments g.file := by
        simp [Store.appendFile, Function.update_of_ne hname]
      rw [ofOption_some, ok_bind, ok_bind, hfile]

theorem appendFile_sameViews (ht : Tidy s) (name : String) (bytes : List UInt8) :
    SameViews codec s (s.appendFile name bytes) := by
  refine ⟨id, by simp [Store.appendFile], fun _ => rfl, ?_⟩
  intro r _
  cases hb : r.body with
  | some body => rw [view_inline (r := id r) hb, view_inline hb]
  | none =>
    cases hseg : r.segment with
    | none => simp [view, bodyOf, hb, hseg]
    | some segment =>
      rw [view_moved (r := id r) hb hseg, view_moved hb hseg, readFrame_appendFile ht]
      rfl

theorem appendFile_tidy (ht : Tidy s) (name : String) (bytes : List UInt8) :
    Tidy (s.appendFile name bytes) := by
  refine ⟨?_, ht.rows⟩
  intro g hg
  obtain ⟨old, hold, hlen⟩ := ht.files g hg
  by_cases hname : g.file = name
  · refine ⟨old ++ bytes, by simp [Store.appendFile, ← hname, hold], ?_⟩
    rw [List.length_append]
    omega
  · exact ⟨old, by simp [Store.appendFile, Function.update_of_ne hname, hold], hlen⟩

/-! ### The number of a frame -/

theorem le_foldl_max (l : List Nat) (init : Nat) :
    init ≤ l.foldl max init ∧ ∀ n ∈ l, n ≤ l.foldl max init := by
  induction l generalizing init with
  | nil => simp
  | cons a l ih =>
    obtain ⟨hinit, hall⟩ := ih (max init a)
    rw [List.foldl_cons]
    refine ⟨by omega, ?_⟩
    intro n hn
    rcases List.mem_cons.mp hn with rfl | hn
    · omega
    · exact hall n hn

theorem lt_nextSegmentId {segments : List SegmentRow} {g : SegmentRow} (hg : g ∈ segments) :
    g.id < nextSegmentId segments := by
  have hle := (le_foldl_max (segments.map (·.id)) 0).2 g.id (List.mem_map_of_mem hg)
  unfold nextSegmentId
  omega

/-! ### Committing a frame -/

section

variable {name : String} {keys : List Key} {events : List (Key × String)}

abbrev frameBytesOf (codec : Codec) (events : List (Key × String)) : List UInt8 :=
  codec.deflate (utf8 (frameText events))

abbrev Store.commit (codec : Codec) (s : Store) (name : String) (keys : List Key)
    (events : List (Key × String)) : Store :=
  s.storeFrame name keys (frameBytesOf codec events) (rawBytes events)

theorem readFrame_commit_old (ht : Tidy s) {id : Nat} (hid : ∃ g ∈ s.db.segments, g.id = id) :
    readFrame codec (s.commit codec name keys events) id = readFrame codec s id := by
  rw [← readFrame_appendFile ht name (frameBytesOf codec events)]
  have hfiles : (s.commit codec name keys events).segments =
      (s.appendFile name (frameBytesOf codec events)).segments := rfl
  have hdb : (s.appendFile name (frameBytesOf codec events)).db = s.db := rfl
  have hfind : (s.commit codec name keys events).db.segments.find? (·.id = id) =
      s.db.segments.find? (·.id = id) := by
    obtain ⟨g, hg, hgid⟩ := hid
    have hsome : (s.db.segments.find? (·.id = id)).isSome = true :=
      List.find?_isSome.mpr ⟨g, hg, by simp [hgid]⟩
    obtain ⟨g', hg'⟩ := Option.isSome_iff_exists.mp hsome
    simp only [Store.commit, Store.storeFrame, Db.commitFrame, List.find?_append, hg', Option.some_or]
  unfold readFrame
  rw [hfind, hfiles, hdb]

theorem readFrame_commit_new :
    readFrame codec (s.commit codec name keys events) (nextSegmentId s.db.segments) =
      ofOption (frameRead events) (.segment name) := by
  have hfind : (s.commit codec name keys events).db.segments.find?
      (·.id = nextSegmentId s.db.segments) =
      some ⟨nextSegmentId s.db.segments, name, ((s.segments name).getD []).length,
        (frameBytesOf codec events).length, rawBytes events⟩ := by
    have hnone : s.db.segments.find? (·.id = nextSegmentId s.db.segments) = none := by
      rw [List.find?_eq_none]
      intro g hg
      have hlt := lt_nextSegmentId hg
      simp only [decide_eq_true_eq]
      omega
    simp [Store.commit, Store.storeFrame, Db.commitFrame, List.find?_append, hnone]
  have hfile : (s.commit codec name keys events).segments name =
      some ((s.segments name).getD [] ++ frameBytesOf codec events) := by
    simp [Store.commit, Store.storeFrame, Store.appendFile]
  unfold readFrame frameRead
  rw [hfind, ofOption_some, ok_bind]
  dsimp only
  rw [hfile, ofOption_some, ok_bind, List.drop_left, List.take_length, codec.inflate_deflate,
    ofOption_some, ok_bind]
  generalize decodeUtf8 ((utf8 (frameText events)).take (rawBytes events + frameSlack)) = decoded
  cases decoded with
  | none => rw [ofOption_none, error_bind, Option.map_none, ofOption_none]
  | some text =>
    rw [ofOption_some, ok_bind, Option.map_some, ofOption_some]
    rfl

end

/-! ### The rows of a frame -/

/-- What compaction relies on of the tables. -/
structure Ready (s : Store) : Prop where
  tidy : Tidy s
  unique : (s.db.records.map Row.key).Nodup
  fits : ∀ r ∈ s.db.records, r.seq < 2 ^ 63

def eventsOf (db : Db) (keys : List Key) : List (Key × String) :=
  keys.map fun key => (key, ((db.row? key).bind (·.body)).getD "")

def Inline (db : Db) (keys : List Key) : Prop :=
  ∀ key ∈ keys, ∃ body, (db.row? key).bind (·.body) = some body

variable {keys : List Key}

theorem frameOf_eq {db : Db} (h : Inline db keys) :
    frameOf codec db keys = .ok (frameBytesOf codec (eventsOf db keys), rawBytes (eventsOf db keys)) := by
  have hmap : keys.mapM (selectBody db) = .ok (eventsOf db keys) := by
    induction keys with
    | nil => rfl
    | cons key keys ih =>
      obtain ⟨body, hbody⟩ := h key (List.mem_cons_self ..)
      have hsel : selectBody db key = .ok (key, body) := by simp [selectBody, hbody]
      rw [List.mapM_cons, hsel, ok_bind, ih fun k hk => h k (List.mem_cons_of_mem _ hk), ok_bind]
      simp [eventsOf, hbody, pure, Except.pure]
  unfold frameOf
  rw [hmap, ok_bind]
  rfl

theorem eventsOf_keys (db : Db) (keys : List Key) : (eventsOf db keys).map (·.1) = keys := by
  simp [eventsOf, Function.comp_def]

theorem eventsOf_fits (hr : Ready s) (h : Inline s.db keys) :
    ∀ e ∈ eventsOf s.db keys, e.1.2.2 < 2 ^ 63 := by
  intro e he
  obtain ⟨key, hkey, rfl⟩ := List.mem_map.mp he
  obtain ⟨body, hbody⟩ := h key hkey
  obtain ⟨r, hrow, -⟩ := Option.bind_eq_some_iff.mp hbody
  obtain ⟨hmem, rfl⟩ := Db.row?_eq_some hrow
  exact hr.fits r hmem

variable {r : Row}

theorem body_of_inline (hr : Ready s) (h : Inline s.db keys) (hmem : r ∈ s.db.records)
    (hkey : r.key ∈ keys) : ∃ body, r.body = some body ∧ (r.key, body) ∈ eventsOf s.db keys := by
  obtain ⟨body, hbody⟩ := h r.key hkey
  have hrow := Db.row?_of_mem hr.unique hmem
  have hb : r.body = some body := by simpa [hrow] using hbody
  refine ⟨body, hb, List.mem_map.mpr ⟨r.key, hkey, ?_⟩⟩
  rw [hbody, Option.getD_some]

def moved (s : Store) (keys : List Key) (r : Row) : Row :=
  if r.key ∈ keys then r.moveTo (nextSegmentId s.db.segments) else r

theorem moved_shell (s : Store) (keys : List Key) (r : Row) : (moved s keys r).shell = r.shell := by
  unfold moved
  split <;> rfl

section

variable {name : String} {keys : List Key} {events : List (Key × String)}

theorem storeFrame_records (frame : List UInt8) (raw : Nat) :
    (s.storeFrame name keys frame raw).db.records = s.db.records.map (moved s keys) := rfl

theorem storeFrame_tidy (ht : Tidy s) (frame : List UInt8) (raw : Nat) :
    Tidy (s.storeFrame name keys frame raw) := by
  have happ := appendFile_tidy ht name frame
  refine ⟨?_, ?_⟩
  · intro g hg
    rcases List.mem_append.mp hg with hg | hg
    · exact happ.files g hg
    · rw [List.mem_singleton] at hg
      subst hg
      refine ⟨(s.segments name).getD [] ++ frame, ?_, ?_⟩
      · simp [Store.storeFrame, Store.appendFile]
      · simp
  · intro r hr id hid
    rw [storeFrame_records] at hr
    obtain ⟨r0, hr0, rfl⟩ := List.mem_map.mp hr
    unfold moved at hid
    split at hid
    · refine ⟨_, List.mem_append_right _ (List.mem_singleton_self _), ?_⟩
      exact Option.some.inj hid
    · obtain ⟨g, hg, hgid⟩ := ht.rows r0 hr0 id hid
      exact ⟨g, List.mem_append_left _ hg, hgid⟩

theorem storeFrame_ready (hr : Ready s) (frame : List UInt8) (raw : Nat) :
    Ready (s.storeFrame name keys frame raw) := by
  refine ⟨storeFrame_tidy hr.tidy frame raw, ?_, ?_⟩
  · rw [storeFrame_records, List.map_map]
    have hkeys : Row.key ∘ moved s keys = Row.key := by
      funext r
      exact key_of_shell (moved_shell s keys r)
    rw [hkeys]
    exact hr.unique
  · intro r hmem
    rw [storeFrame_records] at hmem
    obtain ⟨r0, hr0, rfl⟩ := List.mem_map.mp hmem
    rw [seq_of_shell (moved_shell s keys r0)]
    exact hr.fits r0 hr0

theorem appendFile_ready (hr : Ready s) (bytes : List UInt8) : Ready (s.appendFile name bytes) :=
  ⟨appendFile_tidy hr.tidy name bytes, hr.unique, hr.fits⟩

/-- A row that isn't moved looks as before. -/
theorem view_unmoved (ht : Tidy s) (hmem : r ∈ s.db.records) :
    view codec (s.commit codec name keys events) r = view codec s r := by
  cases hb : r.body with
  | some body => rw [view_inline hb, view_inline hb]
  | none =>
    cases hseg : r.segment with
    | none => simp [view, bodyOf, hb, hseg]
    | some segment =>
      rw [view_moved hb hseg, view_moved hb hseg, readFrame_commit_old ht (ht.rows r hmem _ hseg)]

theorem view_commit (hkey : r.key ∈ keys) :
    view codec (s.commit codec name keys events) (moved s keys r) =
      (ofOption (frameRead events) (.segment name)).map (·.get? (frameKey r.key)) := by
  unfold moved
  rw [if_pos hkey, view_moved rfl rfl, readFrame_commit_new]
  rfl

/-- A frame that can be read back changes nothing for readers. -/
theorem commit_sameViews (hr : Ready s) (hin : Inline s.db keys) (hnodup : keys.Nodup)
    (hf : Framable (eventsOf s.db keys)) :
    SameViews codec s (s.commit codec name keys (eventsOf s.db keys)) := by
  refine ⟨moved s keys, rfl, moved_shell s keys, ?_⟩
  intro r hmem
  by_cases hkey : r.key ∈ keys
  · obtain ⟨body, hb, hevent⟩ := body_of_inline hr hin hmem hkey
    rw [view_commit hkey, view_inline hb, frameRead_of_framable hf (eventsOf_fits hr hin), ofOption_some]
    have hget : Frame.get? ((eventsOf s.db keys).map castEvent) (frameKey r.key) = some body := by
      refine Frame.get?_of_mem ?_ (List.mem_map_of_mem hevent)
      refine frame_keys_nodup id ?_
      rw [eventsOf_keys]
      exact hnodup
    show Except.ok (Frame.get? _ _) = _
    rw [hget]
  · have hsame : moved s keys r = r := if_neg hkey
    rw [hsame, view_unmoved hr.tidy hmem]

theorem view_lost {body : String} (hkey : r.key ∈ keys) (hlost : Lost events (r.key, body)) :
    view codec (s.commit codec name keys events) (moved s keys r) ≠ .ok (some body) := by
  rw [view_commit hkey]
  cases hread : frameRead events with
  | none =>
    rw [ofOption_none]
    intro h
    cases h
  | some frame =>
    rw [ofOption_some]
    intro h
    exact hlost frame hread (Except.ok.inj h)

theorem row?_commit {key : Key} (hkey : key ∉ keys) :
    (s.commit codec name keys events).db.row? key = s.db.row? key := by
  unfold Db.row?
  rw [storeFrame_records, List.find?_map]
  have hpred : (fun r : Row => decide (r.key = key)) ∘ moved s keys = fun r => decide (r.key = key) := by
    funext r
    simp only [Function.comp_apply, key_of_shell (moved_shell s keys r)]
  rw [hpred]
  cases hfind : s.db.records.find? (fun r => decide (r.key = key)) with
  | none => rfl
  | some r =>
    have hr : r.key = key := by simpa using List.find?_some hfind
    rw [Option.map_some]
    unfold moved
    rw [if_neg (hr ▸ hkey)]

theorem eventsOf_commit {keys' : List Key} (hdisj : keys.Disjoint keys') :
    eventsOf (s.commit codec name keys events).db keys' = eventsOf s.db keys' := by
  unfold eventsOf
  refine List.map_congr_left fun key hkey => ?_
  rw [row?_commit fun h => hdisj h hkey]

theorem inline_commit {keys' : List Key} (hdisj : keys.Disjoint keys') (h : Inline s.db keys') :
    Inline (s.commit codec name keys events).db keys' := by
  intro key hkey
  rw [row?_commit fun h => hdisj h hkey]
  exact h key hkey

end

/-! ### All frames -/

section

variable {name : String}

/-- A frame whose rows hold their bodies is committed, or left in part. -/
theorem compactFrames_cons (h : Inline s.db keys) (rest : List (List Key))
    (stop : Option (Nat × Nat)) :
    (s.compactFrames codec name (keys :: rest) stop).1 =
      match stop with
      | some (0, written) =>
        s.appendFile name ((frameBytesOf codec (eventsOf s.db keys)).take written)
      | some (n + 1, written) =>
        ((s.commit codec name keys (eventsOf s.db keys)).compactFrames codec name rest
          (some (n, written))).1
      | none =>
        ((s.commit codec name keys (eventsOf s.db keys)).compactFrames codec name rest none).1 := by
  rw [Store.compactFrames, frameOf_eq h]
  dsimp only
  split <;> rfl

/-- The frames of a plan: their keys are distinct, and their rows hold bodies. -/
structure Planned (db : Db) (frames : List (List Key)) : Prop where
  distinct : frames.flatten.Nodup
  inline : ∀ keys ∈ frames, Inline db keys

section

variable {keys : List Key} {rest : List (List Key)} (hp : Planned s.db (keys :: rest))

include hp

theorem Planned.nodup : keys.Nodup := by
  have h := hp.distinct
  rw [List.flatten_cons, List.nodup_append'] at h
  exact h.1

theorem Planned.disjoint : ∀ keys' ∈ rest, keys.Disjoint keys' := by
  have h := hp.distinct
  rw [List.flatten_cons, List.nodup_append'] at h
  intro keys' hk key hkey hkey'
  exact h.2.2 hkey (List.mem_flatten.mpr ⟨keys', hk, hkey'⟩)

theorem Planned.commit (events : List (Key × String)) :
    Planned (s.commit codec name keys events).db rest := by
  have h := hp.distinct
  rw [List.flatten_cons, List.nodup_append'] at h
  refine ⟨h.2.1, ?_⟩
  intro keys' hk
  exact inline_commit (hp.disjoint keys' hk) (hp.inline keys' (List.mem_cons_of_mem _ hk))

end

/-- Frames that can be read back change nothing for readers, wherever compaction stops. -/
theorem compactFrames_sameViews {frames : List (List Key)} (hr : Ready s) (hp : Planned s.db frames)
    (hf : ∀ keys ∈ frames, Framable (eventsOf s.db keys)) (stop : Option (Nat × Nat)) :
    SameViews codec s (s.compactFrames codec name frames stop).1 := by
  induction frames generalizing s stop with
  | nil => exact SameViews.refl
  | cons keys rest ih =>
    have hin := hp.inline keys (List.mem_cons_self ..)
    have hcommit : SameViews codec s (s.commit codec name keys (eventsOf s.db keys)) :=
      commit_sameViews hr hin hp.nodup (hf keys (List.mem_cons_self ..))
    have hnext := fun stop => hcommit.trans
      (ih (storeFrame_ready hr _ _) (hp.commit _) (fun keys' hk => by
        rw [eventsOf_commit (hp.disjoint keys' hk)]
        exact hf keys' (List.mem_cons_of_mem _ hk)) stop)
    rw [compactFrames_cons hin]
    split
    · exact appendFile_sameViews hr.tidy name _
    · exact hnext _
    · exact hnext _

/-- A compaction that stops before its next frame has written nothing of it. -/
theorem compactFrames_stopped (hr : Ready s) (frames : List (List Key)) :
    SameViews codec s (s.compactFrames codec name frames (some (0, 0))).1 := by
  cases frames with
  | nil => exact SameViews.refl
  | cons keys rest =>
    rw [Store.compactFrames]
    cases frameOf codec s.db keys with
    | error e => exact SameViews.refl
    | ok frame => exact appendFile_sameViews hr.tidy name _

/-- A frame that can't be read back leaves a row that readers see otherwise. -/
theorem compactFrames_lost {before : List (List Key)} {keys : List Key} {after : List (List Key)}
    (hr : Ready s) (hp : Planned s.db (before ++ keys :: after))
    (hf : ¬ Framable (eventsOf s.db keys)) :
    ∃ r ∈ s.db.records, ∃ body, r.body = some body ∧
      ∃ r' ∈ (s.compactFrames codec name (before ++ keys :: after)
        (some (before.length + 1, 0))).1.db.records, r'.shell = r.shell ∧
        view codec (s.compactFrames codec name (before ++ keys :: after)
          (some (before.length + 1, 0))).1 r' ≠ .ok (some body) := by
  induction before generalizing s with
  | nil =>
    have hin := hp.inline keys (List.mem_cons_self ..)
    have hnodup : ((eventsOf s.db keys).map (·.1)).Nodup := by
      rw [eventsOf_keys]
      exact hp.nodup
    obtain ⟨e, he, hlost⟩ := exists_lost hf hnodup (eventsOf_fits hr hin)
    obtain ⟨key, hkey, rfl⟩ := List.mem_map.mp he
    obtain ⟨body, hbody⟩ := hin key hkey
    obtain ⟨r, hrow, hb⟩ := Option.bind_eq_some_iff.mp hbody
    obtain ⟨hmem, rfl⟩ := Db.row?_eq_some hrow
    rw [hbody, Option.getD_some] at hlost
    rw [List.nil_append, compactFrames_cons hin]
    dsimp only [List.length_nil]
    set s1 := s.commit codec name keys (eventsOf s.db keys) with hs1
    have hready : Ready s1 := storeFrame_ready hr _ _
    have hstopped : SameViews codec s1 (s1.compactFrames codec name after (some (0, 0))).1 :=
      compactFrames_stopped hready after
    obtain ⟨f, hrecords, hshell, hview⟩ := hstopped
    have hmem1 : moved s keys r ∈ s1.db.records := List.mem_map_of_mem hmem
    refine ⟨r, hmem, body, hb, f (moved s keys r), ?_, ?_, ?_⟩
    · rw [hrecords]
      exact List.mem_map_of_mem hmem1
    · exact (hshell _).trans (moved_shell s keys r)
    · rw [hview _ hmem1]
      exact view_lost hkey hlost
  | cons first before ih =>
    have hin := hp.inline first (List.mem_cons_self ..)
    have hp' : Planned (s.commit codec name first (eventsOf s.db first)).db (before ++ keys :: after) :=
      Planned.commit hp _
    have hdisj := Planned.disjoint hp keys (by simp)
    have hready : Ready (s.commit codec name first (eventsOf s.db first)) := storeFrame_ready hr _ _
    rw [List.cons_append, compactFrames_cons hin]
    dsimp only [List.length_cons]
    obtain ⟨r1, hmem1, body, hb1, r', hr', hshell', hview'⟩ := ih hready hp' (by
      rw [eventsOf_commit hdisj]
      exact hf)
    rw [storeFrame_records] at hmem1
    obtain ⟨r, hmem, rfl⟩ := List.mem_map.mp hmem1
    refine ⟨r, hmem, body, ?_, r', hr', hshell'.trans (moved_shell s first r), hview'⟩
    unfold moved at hb1
    split at hb1
    · cases hb1
    · exact hb1

end

/-! ### The plan -/

theorem foldl_splitNext_flatten (plan : List (Key × Nat)) (split : Split) :
    ((plan.foldl splitNext split).done ++ [(plan.foldl splitNext split).last]).flatten =
      (split.done ++ [split.last]).flatten ++ plan.map (·.1) := by
  induction plan generalizing split with
  | nil => simp
  | cons entry plan ih =>
    obtain ⟨key, len⟩ := entry
    rw [List.foldl_cons, ih]
    unfold splitNext
    dsimp only
    split
    · simp
    · simp

theorem splitFrames_flatten (plan : List (Key × Nat)) :
    (splitFrames plan).flatten = plan.map (·.1) := by
  unfold splitFrames
  dsimp only
  rw [foldl_splitNext_flatten]
  rfl

theorem compactPlan_planned (hr : Ready s) (job : JobId) :
    Planned s.db (splitFrames (compactPlan s.db job)) := by
  have hkeys : (compactPlan s.db job).map (·.1) =
      ((s.db.records.filter fun r => r.job = some job ∧ r.kind = .jobEvent ∧ r.body ≠ none).insertionSort
        fun a b => a.order ≤ b.order).map Row.key := by
    unfold compactPlan
    rw [List.map_map]
    rfl
  refine ⟨?_, ?_⟩
  · rw [splitFrames_flatten, hkeys]
    have hperm := (List.perm_insertionSort (fun a b : Row => a.order ≤ b.order)
      (s.db.records.filter fun r => r.job = some job ∧ r.kind = .jobEvent ∧ r.body ≠ none)).map Row.key
    rw [hperm.nodup_iff]
    exact hr.unique.sublist (List.filter_sublist.map _)
  · intro keys hk key hkey
    have hmem : key ∈ (splitFrames (compactPlan s.db job)).flatten :=
      List.mem_flatten.mpr ⟨keys, hk, hkey⟩
    rw [splitFrames_flatten, hkeys] at hmem
    obtain ⟨r, hsorted, rfl⟩ := List.mem_map.mp hmem
    obtain ⟨hrow, hp⟩ := List.mem_filter.mp ((List.mem_insertionSort _).mp hsorted)
    simp only [decide_eq_true_eq] at hp
    obtain ⟨body, hbody⟩ := Option.ne_none_iff_exists'.mp hp.2.2
    exact ⟨body, by rw [Db.row?_of_mem hr.unique hrow, Option.bind_some, hbody]⟩

/-! ### One compaction -/

/-- What a compaction keeps at every point. -/
theorem compactFrames_induct {P : Store → Prop} {name : String}
    (happ : ∀ s bytes, P s → P (s.appendFile name bytes))
    (hstore : ∀ s keys frame raw, P s → P (s.storeFrame name keys frame raw)) (h : P s)
    (frames : List (List Key)) (stop : Option (Nat × Nat)) :
    P (s.compactFrames codec name frames stop).1 := by
  induction frames generalizing s stop with
  | nil => exact h
  | cons keys rest ih =>
    rw [Store.compactFrames]
    cases frameOf codec s.db keys with
    | error e => exact h
    | ok frame =>
      dsimp only
      split
      · exact happ s _ h
      · exact ih (hstore s keys frame.1 frame.2 h) _
      · exact ih (hstore s keys frame.1 frame.2 h) _

theorem compact_induct {P : Store → Prop} (happ : ∀ s name bytes, P s → P (s.appendFile name bytes))
    (hstore : ∀ s name keys frame raw, P s → P (s.storeFrame name keys frame raw)) (h : P s)
    (job : JobId) (stop : Option (Nat × Nat)) : P (s.compact codec job stop).1 := by
  unfold Store.compact
  dsimp only
  split
  · exact h
  · exact compactFrames_induct (fun s bytes => happ s _ bytes)
      (fun s keys frame raw => hstore s _ keys frame raw) (happ s _ [] h) _ stop

theorem compact_ready (hr : Ready s) (job : JobId) (stop : Option (Nat × Nat)) :
    Ready (s.compact codec job stop).1 :=
  compact_induct (P := Ready) (fun _ _ bytes h => appendFile_ready h bytes)
    (fun _ _ _ frame raw h => storeFrame_ready h frame raw) hr job stop

/-- No reader gets another answer than before, wherever the compaction of a job stops. -/
def Lossless {β : Type} (codec : Codec) (parse : String → Option β) (s : Store) (job : JobId) : Prop :=
  ∀ stop, (∀ origin stream after limit,
      readRecords codec (s.compact codec job stop).1 origin stream after limit =
        readRecords codec s origin stream after limit) ∧
    ∀ fromSeq limit, readPage codec parse (s.compact codec job stop).1 job fromSeq limit =
      readPage codec parse s job fromSeq limit

/-- A job's inline events are few enough to stay, or can be framed as compaction splits them. -/
def Compactable (db : Db) (job : JobId) : Prop :=
  ((compactPlan db job).map (·.2)).sum ≤ compactOver ∨
    ∀ keys ∈ splitFrames (compactPlan db job), Framable (eventsOf db keys)

theorem compact_sameViews (hr : Ready s) {job : JobId} (h : Compactable s.db job)
    (stop : Option (Nat × Nat)) : SameViews codec s (s.compact codec job stop).1 := by
  unfold Store.compact
  dsimp only
  split
  · exact SameViews.refl
  · rename_i hover
    have hf := h.resolve_left hover
    have happ : SameViews codec s (s.appendFile (job.text ++ ".seg") []) :=
      appendFile_sameViews hr.tidy _ _
    exact happ.trans (compactFrames_sameViews (appendFile_ready hr []) (compactPlan_planned hr job) hf
      stop)

theorem not_lossless {β : Type} {parse : String → Option β} (hr : Ready s)
    (hpos : ∀ r ∈ s.db.records, 1 ≤ r.seq) {job : JobId} (h : ¬ Compactable s.db job) :
    ¬ Lossless codec parse s job := by
  unfold Compactable at h
  push Not at h
  obtain ⟨hover, keys, hkeys, hnot⟩ := h
  obtain ⟨before, after, hframes⟩ := List.append_of_mem hkeys
  have hplanned := compactPlan_planned hr job
  rw [hframes] at hplanned
  obtain ⟨r, hmem, body, hbody, r', hmem', hshell, hview⟩ :=
    @compactFrames_lost codec (s.appendFile (job.text ++ ".seg") []) (job.text ++ ".seg")
      before keys after (appendFile_ready hr []) hplanned hnot
  have hcompact : (s.compact codec job (some (before.length + 1, 0))).1 =
      ((s.appendFile (job.text ++ ".seg") []).compactFrames codec (job.text ++ ".seg")
        (before ++ keys :: after) (some (before.length + 1, 0))).1 := by
    unfold Store.compact
    dsimp only
    rw [if_neg (by omega), hframes]
  rw [← hcompact] at hmem' hview
  intro hall
  have hready : Ready (s.compact codec job (some (before.length + 1, 0))).1 := compact_ready hr job _
  have hkey := key_of_shell hshell
  simp only [Row.key, Prod.mk.injEq] at hkey
  have hseq := hpos r hmem
  have hone := (hall (some (before.length + 1, 0))).1 r.origin r.stream (UInt64.ofNat (r.seq - 1)) 1
  rw [readRecords_single hr.unique hmem hseq (hr.fits r hmem), view_inline hbody, ← hkey.1,
    ← hkey.2.1, ← hkey.2.2, readRecords_single hready.unique hmem' (by omega) (hready.fits r' hmem')]
    at hone
  obtain ⟨body', hok, hsame⟩ := map_eq_ok.mp hone
  cases body' with
  | none => cases hsame
  | some text =>
    have hrecord : r'.record text = r.record body := List.singleton_inj.mp hsame
    have htext : text = body := congrArg Record.body hrecord
    rw [htext] at hok
    exact hview hok

end

/-! ## Runs -/

/-- What the store is asked to do: a write, or the compaction of a job, which may stop. -/
inductive Action where
  | write (w : Write)
  | compact (job : JobId) (stop : Option (Nat × Nat))

def Store.act (lib : Lib) (codec : Codec) (s : Store) : Action → Store
  | .write w => s.write lib w
  | .compact job stop => (s.compact codec job stop).1

def Store.acts (lib : Lib) (codec : Codec) (s : Store) (actions : List Action) : Store :=
  actions.foldl (Store.act lib codec) s

section

variable {lib : Lib} {codec : Codec} {s : Store}

/-- The store's records are sound and its segments tidy. -/
structure Kept (s : Store) : Prop where
  sound : Sound s.origin s.stream s.db s.chain
  tidy : Tidy s

theorem Kept.ready (h : Kept s) : Ready s := ⟨h.tidy, h.sound.unique, h.sound.fits⟩

theorem Kept.storeFrame (h : Kept s) (name : String) (keys : List Key) (frame : List UInt8) (raw : Nat) :
    Kept (s.storeFrame name keys frame raw) := by
  have hready : Ready (s.storeFrame name keys frame raw) := storeFrame_ready h.ready frame raw
  refine ⟨h.sound.back ?_ (fun _ _ hk => hk) hready.unique, hready.tidy⟩
  intro r hr
  rw [storeFrame_records] at hr
  obtain ⟨r0, hr0, rfl⟩ := List.mem_map.mp hr
  refine ⟨r0, hr0, key_of_shell (moved_shell s keys r0), ?_⟩
  unfold moved
  split <;> rfl

theorem Kept.write (h : Kept s) (w : Write) : Kept (s.write lib w) := by
  refine ⟨write_sound h.sound w, ?_⟩
  obtain ⟨hgrows, hfiles⟩ := @write_grows lib s w
  refine ⟨?_, ?_⟩
  · rw [hgrows.segments, hfiles]
    exact h.tidy.files
  · intro r hr id hid
    rw [hgrows.segments]
    rcases hgrows.rows r hr with hr | hnone
    · exact h.tidy.rows r hr id hid
    · rw [hnone] at hid
      cases hid

theorem Kept.act (h : Kept s) (a : Action) : Kept (s.act lib codec a) := by
  cases a with
  | write w => exact h.write w
  | compact job stop =>
    refine compact_induct (P := Kept) ?_ ?_ h job stop
    · intro s name bytes h
      exact ⟨h.sound, appendFile_tidy h.tidy name bytes⟩
    · intro s name keys frame raw h
      exact h.storeFrame name keys frame raw

theorem fresh_kept (origin stream : String) (nowMs : Int64) : Kept (Store.fresh origin stream nowMs) := by
  refine ⟨fresh_sound origin stream nowMs, ?_, ?_⟩
  · intro g hg
    cases hg
  · intro r hr
    cases hr

theorem acts_kept (h : Kept s) (actions : List Action) : Kept (s.acts lib codec actions) := by
  induction actions generalizing s with
  | nil => exact h
  | cons a actions ih => exact ih (h.act a)

end

/-- In every store that writes and compactions reach, compacting a job loses nothing if and only if
its inline events can be framed. -/
theorem compact_lossless_iff {β : Type} (lib : Lib) (codec : Codec) (parse : String → Option β)
    (origin stream : String) (nowMs : Int64) (actions : List Action) (job : JobId) :
    Lossless codec parse ((Store.fresh origin stream nowMs).acts lib codec actions) job ↔
      Compactable ((Store.fresh origin stream nowMs).acts lib codec actions).db job := by
  have hkept : Kept ((Store.fresh origin stream nowMs).acts lib codec actions) :=
    acts_kept (fresh_kept origin stream nowMs) actions
  constructor
  · intro h
    by_contra hnot
    exact not_lossless hkept.ready hkept.sound.pos hnot h
  · intro h stop
    have hsame := @compact_sameViews codec _ hkept.ready job h stop
    exact ⟨hsame.readRecords_eq, hsame.readPage_eq parse job⟩

/-! ### A body of two lines -/

theorem hexValue_hexDigit : ∀ n : Fin 16, hexValue (Text.hexDigit n) = some n.val ∧
    Text.hexDigit n ≠ '+' ∧ (Text.hexDigit n).utf8Size = 1 := by
  decide

theorem hexByte_hexDigit (b : UInt8) :
    hexByte (Text.hexDigit (b.toNat / 16 % 16)) (Text.hexDigit (b.toNat % 16)) = some b := by
  obtain ⟨hhigh, hplus, -⟩ := hexValue_hexDigit ⟨b.toNat / 16 % 16, by omega⟩
  obtain ⟨hlow, -, -⟩ := hexValue_hexDigit ⟨b.toNat % 16, by omega⟩
  dsimp only at hhigh hplus hlow
  have hlt := b.toNat_lt
  unfold hexByte
  rw [if_neg hplus, hhigh, hlow]
  show some (UInt8.ofNat (16 * (b.toNat / 16 % 16) + b.toNat % 16)) = some b
  rw [show 16 * (b.toNat / 16 % 16) + b.toNat % 16 = b.toNat by omega, UInt8.ofNat_toNat]

theorem hex_toList (b : UInt8) : (Text.hex 2 b.toNat).toList =
    [Text.hexDigit (b.toNat / 16 % 16), Text.hexDigit (b.toNat % 16)] := by
  simp [Text.hex, List.range_succ]

theorem unhexBytes_hex (l : List UInt8) :
    unhexBytes (l.flatMap fun b => (Text.hex 2 b.toNat).toList) = some l := by
  induction l with
  | nil => rfl
  | cons b l ih =>
    rw [List.flatMap_cons, hex_toList, List.cons_append, List.cons_append, List.nil_append, unhexBytes,
      hexByte_hexDigit, ih]
    rfl

theorem len_hex (l : List UInt8) :
    ((l.flatMap fun b => (Text.hex 2 b.toNat).toList).map Char.utf8Size).sum = 2 * l.length := by
  induction l with
  | nil => rfl
  | cons b l ih =>
    obtain ⟨-, -, h1⟩ := hexValue_hexDigit ⟨b.toNat / 16 % 16, by omega⟩
    obtain ⟨-, -, h2⟩ := hexValue_hexDigit ⟨b.toNat % 16, by omega⟩
    dsimp only at h1 h2
    rw [List.flatMap_cons, hex_toList, List.map_append, List.sum_append, ih]
    simp only [List.map_cons, List.map_nil, List.sum_cons, List.sum_nil, h1, h2, List.length_cons]
    omega

theorem unhex_hex (h : Hash) : unhex (hex h) = some h := by
  obtain ⟨l, hl⟩ := h
  unfold unhex hex
  have hlen : Text.len (String.ofList (l.flatMap fun b => (Text.hex 2 b.toNat).toList)) = 64 := by
    unfold Text.len
    rw [String.toList_ofList, len_hex, hl]
  rw [if_neg (by simpa using hlen), String.toList_ofList, unhexBytes_hex]
  simp [hl]

def twoLines : String := String.ofList ('{' :: '\n' :: (List.replicate 65536 ' ' ++ ['}']))

def twoLinesEntry : Entry := ⟨0, .jobEvent, some (7, 1), twoLines⟩

/-- The first record of a stream of `mox2`, as `mox2` sends it. -/
def twoLinesRecord (lib : Lib) : Record where
  origin := "mox2"
  stream := "1-0a"
  seq := 1
  timeMs := 0
  kind := "job_event"
  job := some 7
  jobSeq := some 1
  body := twoLines
  hash := hex (lib.chainHash zeroHash "mox2" "1-0a" 1 twoLinesEntry)
  prev := none
  evicted := false

/-- The hash of the record `mox2` wrote. -/
abbrev twoLinesHash (lib : Lib) : Hash := lib.chainHash zeroHash "mox2" "1-0a" 1 twoLinesEntry

/-- The tables of `mox1` with that record. -/
def twoLinesDb (lib : Lib) : Db :=
  let db := (Store.fresh "mox1" "1-0b" 0).db.streamKnown "mox2" "1-0a" ((streamStarted "1-0a").getD 0)
  { db with
    records := [rowOf lib "mox2" "1-0a" 1 twoLinesEntry (twoLinesHash lib) zeroHash false] }

theorem copyRecord_twoLines (lib : Lib) :
    (Store.fresh "mox1" "1-0b" 0).copyRecord lib (Store.fresh "mox1" "1-0b" 0).db (twoLinesRecord lib) =
      .ok (some (twoLinesDb lib)) := by
  have hentry : (recordEntry (twoLinesRecord lib)).filter (fun _ =>
      0 < (twoLinesRecord lib).seq && (!(twoLinesRecord lib).evicted || (twoLinesRecord lib).body.isEmpty)) =
      some twoLinesEntry := rfl
  have hhash : unhex (twoLinesRecord lib).hash = some (twoLinesHash lib) := unhex_hex _
  have hcheck : checkCopy lib (Store.fresh "mox1" "1-0b" 0).db (twoLinesRecord lib) twoLinesEntry
      (twoLinesHash lib) none = storeCopy lib (Store.fresh "mox1" "1-0b" 0).db (twoLinesRecord lib)
      twoLinesEntry (twoLinesHash lib) zeroHash := by
    unfold checkCopy
    have hprev : prevHash (hashBefore (Store.fresh "mox1" "1-0b" 0).db (twoLinesRecord lib).origin
        (twoLinesRecord lib).stream (twoLinesRecord lib).seq.toNat) none
        (.copy (.gap (twoLinesRecord lib).origin (twoLinesRecord lib).stream (twoLinesRecord lib).seq))
        (.copy (.chain (twoLinesRecord lib).origin (twoLinesRecord lib).stream (twoLinesRecord lib).seq)) =
        .ok zeroHash := rfl
    dsimp only
    rw [hprev, ok_bind, if_neg (fun h => h.2 rfl)]
  unfold Store.copyRecord
  dsimp only
  rw [if_neg (by simp [twoLinesRecord, Store.fresh])]
  have hprev : ∀ e, unhexPrev (twoLinesRecord lib).prev e = .ok none := fun _ => rfl
  have hkept : ¬ ((twoLinesRecord lib).seq.toInt64.toInt ≤
      ((Store.fresh "mox1" "1-0b" 0).db.floor (twoLinesRecord lib).origin (twoLinesRecord lib).stream : Int) ∨
      (twoLinesRecord lib).timeMs < (Store.fresh "mox1" "1-0b" 0).keepFromMs) := by
    simp only [twoLinesRecord]
    decide
  rw [hentry, hhash, hprev, ok_bind, ofOption_some, ok_bind, ofOption_some, ok_bind, if_neg hkept, hcheck]
  rfl

theorem insertCopies_single {lib : Lib} {s : Store} {record : Record} {db : Db}
    (h : s.copyRecord lib s.db record = .ok (some db)) :
    s.write lib (.insertCopies [record]) = { s with db } := by
  have hcopies : s.insertCopies lib [record] = .ok ({ s with db }, [record]) := by
    unfold Store.insertCopies
    rw [List.foldlM_cons]
    unfold Store.copyNext
    dsimp only
    rw [h, ok_bind]
    rfl
  unfold Store.write
  dsimp only
  rw [hcopies]

theorem twoLines_records (lib : Lib) (codec : Codec) :
    ((Store.fresh "mox1" "1-0b" 0).acts lib codec
      [.write (.insertCopies [twoLinesRecord lib])]).db.records =
      [rowOf lib "mox2" "1-0a" 1 twoLinesEntry (twoLinesHash lib) zeroHash false] := by
  unfold Store.acts
  rw [List.foldl_cons, List.foldl_nil]
  unfold Store.act
  dsimp only
  rw [insertCopies_single (copyRecord_twoLines lib)]
  rfl

theorem len_padded (n : Nat) :
    Text.len (String.ofList ('{' :: '\n' :: (List.replicate n ' ' ++ ['}']))) = n + 3 := by
  have hspace : ' '.utf8Size = 1 := by decide
  have hrest : '{'.utf8Size = 1 ∧ '\n'.utf8Size = 1 ∧ '}'.utf8Size = 1 := by decide
  unfold Text.len
  rw [String.toList_ofList]
  simp only [List.map_cons, List.map_append, List.map_replicate, List.map_nil, List.sum_cons,
    List.sum_append, List.sum_nil, List.sum_replicate, smul_eq_mul, hspace, hrest]
  omega

theorem len_twoLines : Text.len twoLines = 65539 := len_padded 65536

theorem not_compact_lossless : ¬ ∃ (lib : Lib) (codec : Codec) (parse : String → Option Unit),
    ∀ (origin stream : String) (nowMs : Int64) (actions : List Action) (job : JobId),
      Lossless codec parse ((Store.fresh origin stream nowMs).acts lib codec actions) job := by
  rintro ⟨lib, codec, parse, hall⟩
  have hkept : Kept ((Store.fresh "mox1" "1-0b" 0).acts lib codec
      [.write (.insertCopies [twoLinesRecord lib])]) := acts_kept (fresh_kept "mox1" "1-0b" 0) _
  have hrecords := twoLines_records lib codec
  refine not_lossless hkept.ready hkept.sound.pos ?_ (hall "mox1" "1-0b" 0 _ 7)
  set s := (Store.fresh "mox1" "1-0b" 0).acts lib codec [.write (.insertCopies [twoLinesRecord lib])]
  set row := rowOf lib "mox2" "1-0a" 1 twoLinesEntry (twoLinesHash lib) zeroHash false with hrow
  have hbody : row.body = some twoLines := rfl
  have hkey : row.key = ("mox2", "1-0a", 1) := rfl
  have hplan : compactPlan s.db 7 = [(("mox2", "1-0a", 1), 65539)] := by
    unfold compactPlan
    rw [hrecords, List.filter_cons_of_pos (by simp [hrow, rowOf, twoLinesEntry]), List.filter_nil]
    dsimp only
    rw [List.insertionSort_cons, List.insertionSort_nil, List.orderedInsert_nil, List.map_cons,
      List.map_nil, hbody, Option.getD_some, len_twoLines, hkey]
  have hevents : eventsOf s.db [("mox2", "1-0a", 1)] = [(("mox2", "1-0a", 1), twoLines)] := by
    have hfound : s.db.row? ("mox2", "1-0a", 1) = some row := by
      unfold Db.row?
      rw [hrecords, List.find?_cons_of_pos (by simp [hkey])]
    unfold eventsOf
    rw [List.map_cons, List.map_nil, hfound, Option.bind_some, hbody, Option.getD_some]
  rintro (hfew | hframed)
  · rw [hplan] at hfew
    exact absurd hfew (by decide)
  · rw [hplan] at hframed
    have hframe := hframed [("mox2", "1-0a", 1)] (by decide)
    rw [hevents] at hframe
    refine (hframe.plain _ (List.mem_singleton_self _)).bodyLine ?_
    unfold twoLines
    rw [String.toList_ofList]
    exact List.mem_cons_of_mem _ (List.mem_cons_self ..)

end Bmac.Records
