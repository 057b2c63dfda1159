import Bmac.Records.Segments

/-!
# What comes back from a frame

The text of a frame is read back line by line. `Framable` says exactly which frames survive that:
their origins and streams hold no tab and no newline, their bodies hold no newline and do not end
with a carriage return, and the text does not run into the limit a reader sets on it. (The last
newline may be beyond the limit, and then the last body keeps its carriage return.)
-/

namespace Bmac.Records

open Bmac.Base Bmac.Base.Lines Bmac.Core

/-! ## A line -/

def frameKey (key : Key) : FrameKey := (key.1, key.2.1, (key.2.2 : Int))

theorem frameKey_injective : Function.Injective frameKey := by
  rintro ⟨o, t, n⟩ ⟨o', t', n'⟩ h
  simp only [frameKey, Prod.mk.injEq, Nat.cast_inj] at h
  rw [h.1, h.2.1, h.2.2]

def castEvent (e : Key × String) : FrameKey × String := (frameKey e.1, e.2)

/-- Neither the key nor the body of an event breaks its line. -/
structure Plain (e : Key × String) : Prop where
  originTab : '\t' ∉ e.1.1.toList
  originLine : '\n' ∉ e.1.1.toList
  streamTab : '\t' ∉ e.1.2.1.toList
  streamLine : '\n' ∉ e.1.2.1.toList
  bodyLine : '\n' ∉ e.2.toList

theorem not_digit_newline : Text.isDigit '\n' = false := by decide

theorem newline_not_mem_repr (n : Nat) : '\n' ∉ n.repr.toList := by
  intro h
  have hd := Text.isDigit_of_mem_repr h
  rw [not_digit_newline] at hd
  cases hd

theorem tab_not_mem_repr (n : Nat) : '\t' ∉ n.repr.toList := by
  intro h
  have hd := Text.isDigit_of_mem_repr h
  exact absurd hd (by decide)

theorem Plain.line {e : Key × String} (h : Plain e) : '\n' ∉ frameLine e := by
  obtain ⟨⟨origin, stream, seq⟩, body⟩ := e
  simp only [frameLine, List.mem_append, List.mem_cons, not_or]
  exact ⟨h.originLine, by decide, h.streamLine, by decide, newline_not_mem_repr seq, by decide,
    h.bodyLine⟩

theorem parseInt_repr (n : Nat) : Text.parseInt n.repr = some (n : Int) := by
  have hdigit : ∀ c ∈ n.repr.toList, Text.isDigit c = true := fun c hc => Text.isDigit_of_mem_repr hc
  have hdec := Text.decimal_repr n
  have hne := Text.repr_ne_nil n
  have hall : n.repr.toList.all Text.isDigit = true := List.all_eq_true.mpr hdigit
  unfold Text.parseInt
  dsimp only
  split
  · rename_i cs hcs
    rw [hcs] at hdigit
    exact absurd (hdigit '-' (List.mem_cons_self ..)) (by decide)
  · rename_i cs hcs
    rw [hcs] at hdigit
    exact absurd (hdigit '+' (List.mem_cons_self ..)) (by decide)
  · rw [if_pos ⟨hne, hall⟩, hdec]
    rfl

theorem parseI64_repr {n : Nat} (h : n < 2 ^ 63) : parseI64 n.repr.toList = some (n : Int) := by
  unfold parseI64
  rw [String.ofList_toList, parseInt_repr, Option.filter_some, if_pos]
  simp only [decide_eq_true_eq]
  omega

variable {body : String} {e : Key × String}

theorem parseLine_eq_some {line : List Char} {origin stream : String} {n : Int} :
    parseLine line = some ((origin, stream, n), body) ↔ ∃ seq, parseI64 seq = some n ∧
      line = origin.toList ++ '\t' :: (stream.toList ++ '\t' :: (seq ++ '\t' :: body.toList)) ∧
      '\t' ∉ origin.toList ∧ '\t' ∉ stream.toList ∧ '\t' ∉ seq := by
  unfold parseLine
  constructor
  · intro h
    split at h
    · rename_i o t q b hsplit
      obtain ⟨m, hm, heq⟩ := Option.map_eq_some_iff.mp h
      simp only [Prod.mk.injEq] at heq
      obtain ⟨⟨rfl, rfl, rfl⟩, rfl⟩ := heq
      simp only [String.toList_ofList]
      exact ⟨q, hm, splitn_four.mp hsplit⟩
    · cases h
  · rintro ⟨seq, hseq, hline⟩
    rw [splitn_four.mpr hline]
    simp [hseq]

theorem parseLine_frameLine (ho : '\t' ∉ e.1.1.toList) (ht : '\t' ∉ e.1.2.1.toList)
    (hq : e.1.2.2 < 2 ^ 63) : parseLine (frameLine e) = some (castEvent e) := by
  obtain ⟨⟨origin, stream, seq⟩, body⟩ := e
  exact parseLine_eq_some.mpr ⟨seq.repr.toList, parseI64_repr hq, rfl, ho, ht, tab_not_mem_repr seq⟩

variable {key : FrameKey} {events : List (Key × String)} {frame : Frame}

theorem parseLine_prefix {a b : List Char} {key' : FrameKey} {body' : String} (h : a <+: b)
    (ha : parseLine a = some (key, body)) (hb : parseLine b = some (key', body')) :
    key' = key ∧ ∃ rest, b = a ++ rest ∧ body'.toList = body.toList ++ rest := by
  obtain ⟨rest, rfl⟩ := h
  obtain ⟨origin, stream, n⟩ := key
  obtain ⟨seq, hseq, hline, ho, ht, hq⟩ := parseLine_eq_some.mp ha
  have hlong : parseLine (a ++ rest) =
      some ((origin, stream, n), String.ofList (body.toList ++ rest)) := by
    refine parseLine_eq_some.mpr ⟨seq, hseq, ?_, ho, ht, hq⟩
    rw [hline]
    simp
  rw [hlong] at hb
  obtain ⟨rfl, rfl⟩ := Prod.mk.inj (Option.some.inj hb)
  exact ⟨rfl, rest, rfl, by rw [String.toList_ofList]⟩

/-! ## Carriage returns -/

def stripBody (body : String) : String := String.ofList (stripCr body.toList)

theorem stripCr_append_tab (a b : List Char) : stripCr (a ++ '\t' :: b) = a ++ '\t' :: stripCr b := by
  cases b using List.reverseRecOn with
  | nil => simp [stripCr]
  | append_singleton b c =>
    have hassoc : a ++ '\t' :: (b ++ [c]) = (a ++ '\t' :: b) ++ [c] := by simp
    unfold stripCr
    rw [hassoc, List.getLast?_concat, List.getLast?_concat, List.dropLast_concat, List.dropLast_concat]
    split
    · rfl
    · exact hassoc.symm

theorem stripCr_frameLine (e : Key × String) : stripCr (frameLine e) = frameLine (e.1, stripBody e.2) := by
  obtain ⟨⟨origin, stream, seq⟩, body⟩ := e
  unfold frameLine stripBody
  dsimp only
  rw [stripCr_append_tab, stripCr_append_tab, stripCr_append_tab, String.toList_ofList]

theorem stripBody_eq_self : stripBody body = body ↔ body.toList.getLast? ≠ some '\r' := by
  unfold stripBody stripCr
  constructor
  · intro h hcr
    rw [if_pos hcr] at h
    have hlen := congrArg (fun b => b.toList.length) h
    simp only [String.toList_ofList, List.length_dropLast] at hlen
    have hne : body.toList ≠ [] := by
      intro hnil
      rw [hnil] at hcr
      cases hcr
    have hpos := List.length_pos_iff.mpr hne
    omega
  · intro h
    rw [if_neg h, String.ofList_toList]

theorem filterMap_parse_strip (hplain : ∀ e ∈ events, Plain e)
    (hfits : ∀ e ∈ events, e.1.2.2 < 2 ^ 63) :
    ((events.map frameLine).map stripCr).filterMap parseLine =
      events.map fun e => castEvent (e.1, stripBody e.2) := by
  rw [List.map_map, List.filterMap_map]
  rw [← List.filterMap_eq_map]
  refine List.filterMap_congr fun e he => ?_
  have hp := hplain e he
  show parseLine (stripCr (frameLine e)) = some (castEvent (e.1, stripBody e.2))
  rw [stripCr_frameLine]
  exact parseLine_frameLine hp.originTab hp.streamTab (hfits e he)

/-! ## The whole frame -/

def frameRead (events : List (Key × String)) : Option Frame :=
  (decodeUtf8 ((utf8 (frameText events)).take (rawBytes events + frameSlack))).map fun text =>
    (lines text).filterMap parseLine

/-- Every event of a frame comes back. -/
structure Framable (events : List (Key × String)) : Prop where
  plain : ∀ e ∈ events, Plain e
  fits : (utf8 (frameText events)).length ≤ rawBytes events + frameSlack + 1
  returns : ∀ e ∈ events.dropLast, e.2.toList.getLast? ≠ some '\r'
  lastReturn : ∀ e ∈ events.getLast?, e.2.toList.getLast? = some '\r' →
    (utf8 (frameText events)).length = rawBytes events + frameSlack + 1

theorem Frame.mem_of_get? (h : frame.get? key = some body) : (key, body) ∈ frame := by
  obtain ⟨l, r, heq, -⟩ := List.lookup_eq_some_iff.mp h
  rw [← List.mem_reverse, heq]
  simp

theorem Frame.get?_of_mem
    (hnodup : (frame.map (·.1)).Nodup) (h : (key, body) ∈ frame) : frame.get? key = some body := by
  cases hget : frame.get? key with
  | none =>
    have hnone := List.lookup_eq_none_iff.mp hget (key, body) (List.mem_reverse.mpr h)
    simp at hnone
  | some body' =>
    have hmem := Frame.mem_of_get? hget
    have heq := List.inj_on_of_nodup_map hnodup hmem h rfl
    rw [(Prod.mk.inj heq).2]

theorem utf8_newline (text : List Char) : utf8 (text ++ ['\n']) = utf8 text ++ [10] := by
  rw [utf8_append]
  rfl

theorem frameText_snoc (events : List (Key × String)) (e : Key × String) :
    frameText (events ++ [e]) = frameText events ++ frameLine e ++ ['\n'] := by
  unfold frameText
  rw [List.map_append, unlines_append]
  simp [unlines]

theorem frameLine_ne_nil (e : Key × String) : frameLine e ≠ [] := by
  simp [frameLine]

theorem Plain.lines (h : ∀ e ∈ events, Plain e) : ∀ l ∈ events.map frameLine, '\n' ∉ l := by
  intro l hl
  obtain ⟨e, he, rfl⟩ := List.mem_map.mp hl
  exact (h e he).line

section

variable {events : List (Key × String)} (hplain : ∀ e ∈ events, Plain e)
  (hseq : ∀ e ∈ events, e.1.2.2 < 2 ^ 63)

include hplain hseq

/-- The whole text gives every event, without the carriage return at its end. -/
theorem frameRead_whole (hlen : (utf8 (frameText events)).length ≤ rawBytes events + frameSlack) :
    frameRead events = some (events.map fun e => castEvent (e.1, stripBody e.2)) := by
  unfold frameRead
  rw [List.take_of_length_le hlen, decodeUtf8_utf8, Option.map_some]
  unfold frameText
  rw [lines_unlines (Plain.lines hplain), filterMap_parse_strip hplain hseq]

omit hplain hseq in
theorem frameRead_snoc (hplain : ∀ e' ∈ events ++ [e], Plain e')
    (hseq : ∀ e' ∈ events ++ [e], e'.1.2.2 < 2 ^ 63)
    (hlen : (utf8 (frameText (events ++ [e]))).length = rawBytes (events ++ [e]) + frameSlack + 1) :
    frameRead (events ++ [e]) =
      some ((events.map fun e' => castEvent (e'.1, stripBody e'.2)) ++ [castEvent e]) := by
  have hp : ∀ e' ∈ events, Plain e' := fun e' he' => hplain e' (List.mem_append_left _ he')
  have hq : ∀ e' ∈ events, e'.1.2.2 < 2 ^ 63 := fun e' he' => hseq e' (List.mem_append_left _ he')
  have hlast := hplain e (by simp)
  unfold frameRead
  rw [frameText_snoc, utf8_newline] at hlen ⊢
  rw [List.length_append, List.length_singleton] at hlen
  rw [List.take_append_of_le_length (by omega), List.take_of_length_le (by omega), decodeUtf8_utf8,
    Option.map_some]
  unfold frameText
  rw [lines_unlines_append (Plain.lines hp), lines_last hlast.line (frameLine_ne_nil e),
    List.filterMap_append, filterMap_parse_strip hp hq, List.filterMap_cons,
    parseLine_frameLine hlast.originTab hlast.streamTab (hseq e (by simp))]
  rfl

end

theorem frameRead_of_framable (h : Framable events)
    (hseq : ∀ e ∈ events, e.1.2.2 < 2 ^ 63) : frameRead events = some (events.map castEvent) := by
  have hsame : ∀ l : List (Key × String), (∀ e ∈ l, e.2.toList.getLast? ≠ some '\r') →
      (l.map fun e => castEvent (e.1, stripBody e.2)) = l.map castEvent := by
    intro l hl
    refine List.map_congr_left fun e he => ?_
    rw [stripBody_eq_self.mpr (hl e he)]
  cases events using List.reverseRecOn with
  | nil => rfl
  | append_singleton init last =>
    have hinit := h.returns
    have hlast := h.lastReturn
    have hfits := h.fits
    rw [List.dropLast_concat] at hinit
    simp only [List.getLast?_concat, Option.mem_def, Option.some.injEq, forall_eq'] at hlast
    rcases Nat.lt_or_ge (rawBytes (init ++ [last]) + frameSlack)
      (utf8 (frameText (init ++ [last]))).length with hlt | hle
    · rw [frameRead_snoc h.plain hseq (by omega), List.map_append, hsame init hinit]
      rfl
    · rw [frameRead_whole h.plain hseq hle, hsame]
      intro e he hcr
      rw [List.mem_append, List.mem_singleton] at he
      rcases he with he | rfl
      · exact hinit e he hcr
      · have := hlast hcr
        omega

/-! ## What is lost -/

section

variable {events : List (Key × String)}

/-- An event is missing from what is read, or has another body there. -/
def Lost (events : List (Key × String)) (e : Key × String) : Prop :=
  ∀ frame, frameRead events = some frame → frame.get? (frameKey e.1) ≠ some e.2

/-- A key or a body that breaks its line never comes back. -/
theorem lost_of_not_plain (h : ¬ Plain e) : Lost events e := by
  intro frame hframe hget
  obtain ⟨text, -, rfl⟩ := Option.map_eq_some_iff.mp hframe
  obtain ⟨line, hline, hparse⟩ := List.mem_filterMap.mp (Frame.mem_of_get? hget)
  have hnl := not_mem_of_mem_lines hline
  obtain ⟨seq, -, rfl, ho, ht, -⟩ := parseLine_eq_some.mp hparse
  simp only [List.mem_append, List.mem_cons, not_or] at hnl
  exact h ⟨ho, hnl.1, ht, hnl.2.2.1, hnl.2.2.2.2.2.2⟩

theorem frame_keys_nodup (f : String → String) (hnodup : (events.map (·.1)).Nodup) :
    ((events.map fun e => castEvent (e.1, f e.2)).map (·.1)).Nodup := by
  rw [List.map_map]
  have heq : (fun x => x.1) ∘ (fun e : Key × String => castEvent (e.1, f e.2)) =
      frameKey ∘ (fun e => e.1) := rfl
  rw [heq, ← List.map_map]
  exact hnodup.map frameKey_injective

theorem lost_of_return (hread : frameRead events = some frame)
    (hnodup : (frame.map (·.1)).Nodup) (hmem : castEvent (e.1, stripBody e.2) ∈ frame)
    (hcr : e.2.toList.getLast? = some '\r') : Lost events e := by
  intro frame' hframe' hget
  rw [hread] at hframe'
  obtain rfl := Option.some.inj hframe'
  have hget' : frame.get? (frameKey e.1) = some (stripBody e.2) := Frame.get?_of_mem hnodup hmem
  rw [hget] at hget'
  have hstrip : stripBody e.2 = e.2 := (Option.some.inj hget').symm
  exact stripBody_eq_self.mp hstrip hcr

theorem lost_of_cut {last : Key × String} (hplain : ∀ e ∈ events ++ [last], Plain e)
    (hseq : ∀ e ∈ events ++ [last], e.1.2.2 < 2 ^ 63)
    (hnodup : ((events ++ [last]).map (·.1)).Nodup)
    (hlen : rawBytes (events ++ [last]) + frameSlack + 1 <
      (utf8 (frameText (events ++ [last]))).length) : Lost (events ++ [last]) last := by
  intro frame hframe hget
  obtain ⟨text, htext, rfl⟩ := Option.map_eq_some_iff.mp hframe
  have hbytes := decodeUtf8_eq_some.mp htext
  have hpre : text <+: frameText (events ++ [last]) :=
    prefix_of_utf8_prefix (hbytes ▸ List.take_prefix _ _)
  have hshort : (utf8 text).length + 1 < (utf8 (frameText (events ++ [last]))).length := by
    rw [← hbytes, List.length_take]
    omega
  obtain ⟨done, rest, part, hls, rfl, hpart⟩ := prefix_unlines hpre
  obtain ⟨e1, e2, hevents, rfl, rfl⟩ := List.map_eq_append_iff.mp hls
  cases e2 using List.reverseRecOn with
  | nil =>
    -- then nothing is cut
    have hnil : part = [] := by simpa using hpart
    rw [hnil, hevents, List.append_nil, List.append_nil] at hshort
    exact absurd hshort (by unfold frameText; omega)
  | append_singleton e2 last' =>
    rw [← List.append_assoc] at hevents
    obtain ⟨rfl, hlast⟩ := List.append_inj' hevents rfl
    obtain rfl := List.singleton_inj.mp hlast
    have hearlier : ∀ e ∈ e1 ++ e2, e.1 ≠ last.1 := by
      intro e he hk
      rw [List.map_append, List.nodup_append] at hnodup
      exact hnodup.2.2 e.1 (List.mem_map_of_mem he) last.1 (by simp) hk
    have hp1 : ∀ e ∈ e1, Plain e := fun e he => hplain e (by simp [he])
    obtain ⟨line, hline, hparse⟩ := List.mem_filterMap.mp (Frame.mem_of_get? hget)
    rw [lines_unlines_append (Plain.lines hp1), List.mem_append] at hline
    rcases hline with hline | hline
    · -- a whole line has the key of its own event, which comes before the last one
      obtain ⟨l, hl, rfl⟩ := List.mem_map.mp hline
      obtain ⟨e, he, rfl⟩ := List.mem_map.mp hl
      have hmem : e ∈ e1 ++ e2 := List.mem_append_left _ he
      have hp := hplain e (List.mem_append_left _ hmem)
      have hread : parseLine (frameLine (e.1, stripBody e.2)) = some (castEvent (e.1, stripBody e.2)) :=
        parseLine_frameLine hp.originTab hp.streamTab (hseq e (List.mem_append_left _ hmem))
      rw [stripCr_frameLine, hread] at hparse
      have hkey : frameKey e.1 = frameKey last.1 := (Prod.mk.inj (Option.some.inj hparse)).1
      exact hearlier e hmem (frameKey_injective hkey)
    · -- the part of a line that is left has the last key only if it is the whole last line
      rcases hpart with rfl | ⟨l, rest', hrest, hpart⟩
      · cases hline
      · obtain ⟨e, e2', he2, rfl, -⟩ := List.map_eq_cons_iff.mp hrest
        have hmem : e ∈ e1 ++ e2 ++ [last] := by
          rw [List.append_assoc, he2]
          simp
        have hp := hplain e hmem
        have hpartLine : '\n' ∉ part := fun h => hp.line (hpart.subset h)
        have hne : part ≠ [] := by
          rintro rfl
          cases hline
        rw [lines_last hpartLine hne, List.mem_singleton] at hline
        subst hline
        obtain ⟨hkey, tail, htail, hbody⟩ := parseLine_prefix hpart hparse
          (parseLine_frameLine hp.originTab hp.streamTab (hseq e hmem))
        have hke : e.1 = last.1 := frameKey_injective hkey
        obtain rfl : e = last := List.inj_on_of_nodup_map hnodup hmem (by simp) hke
        have hnil : tail = [] := by simpa using hbody
        have he2nil : e2 = [] := by
          cases e2 with
          | nil => rfl
          | cons x xs =>
            obtain ⟨rfl, -⟩ := List.cons.inj he2
            exact absurd rfl (hearlier x (by simp))
        rw [hnil, List.append_nil] at htail
        rw [he2nil, List.append_nil, frameText_snoc, utf8_newline, htail, List.length_append] at hshort
        exact absurd hshort (by unfold frameText; simp)

/-- What is read of a text without its last newline, or with it, has each key once. -/
theorem snoc_keys_nodup {last : Key × String} (hnodup : ((events ++ [last]).map (·.1)).Nodup) :
    (((events.map fun e => castEvent (e.1, stripBody e.2)) ++ [castEvent last]).map (·.1)).Nodup := by
  have heq : (((events.map fun e => castEvent (e.1, stripBody e.2)) ++ [castEvent last]).map (·.1)) =
      ((events ++ [last]).map (·.1)).map frameKey := by
    simp [castEvent, Function.comp_def]
  rw [heq]
  exact hnodup.map frameKey_injective

/-- If a frame isn't framable, some event of it is lost. -/
theorem exists_lost (hnot : ¬ Framable events) (hnodup : (events.map (·.1)).Nodup)
    (hseq : ∀ e ∈ events, e.1.2.2 < 2 ^ 63) : ∃ e ∈ events, Lost events e := by
  by_cases hplain : ∀ e ∈ events, Plain e
  swap
  · push Not at hplain
    obtain ⟨e, he, hbad⟩ := hplain
    exact ⟨e, he, lost_of_not_plain hbad⟩
  cases events using List.reverseRecOn with
  | nil =>
    refine absurd ⟨hplain, ?_, by simp, by simp⟩ hnot
    exact Nat.zero_le _
  | append_singleton init last =>
    by_cases hfits : (utf8 (frameText (init ++ [last]))).length ≤
        rawBytes (init ++ [last]) + frameSlack + 1
    swap
    · exact ⟨last, by simp, lost_of_cut hplain hseq hnodup (by omega)⟩
    by_cases hinit : ∀ e ∈ init, e.2.toList.getLast? ≠ some '\r'
    · -- the last body ends with a carriage return, and the text is read whole
      have hlast : last.2.toList.getLast? = some '\r' ∧
          (utf8 (frameText (init ++ [last]))).length ≠ rawBytes (init ++ [last]) + frameSlack + 1 := by
        by_contra hno
        refine hnot ⟨hplain, hfits, by rwa [List.dropLast_concat], ?_⟩
        intro e he hcr
        rw [List.getLast?_concat, Option.mem_def, Option.some.injEq] at he
        subst he
        by_contra hlen
        exact hno ⟨hcr, hlen⟩
      have hread := frameRead_whole hplain hseq (by omega)
      exact ⟨last, by simp, lost_of_return hread (frame_keys_nodup stripBody hnodup)
        (List.mem_map_of_mem (by simp)) hlast.1⟩
    · push Not at hinit
      obtain ⟨e, he, hcr⟩ := hinit
      refine ⟨e, List.mem_append_left _ he, ?_⟩
      rcases Nat.lt_or_ge (rawBytes (init ++ [last]) + frameSlack)
        (utf8 (frameText (init ++ [last]))).length with hlt | hle
      · have hread := frameRead_snoc hplain hseq (by omega)
        exact lost_of_return hread (snoc_keys_nodup hnodup)
          (List.mem_append_left _ (List.mem_map_of_mem he)) hcr
      · have hread := frameRead_whole hplain hseq hle
        exact lost_of_return hread (frame_keys_nodup stripBody hnodup)
          (List.mem_map_of_mem (List.mem_append_left _ he)) hcr

end

end Bmac.Records
