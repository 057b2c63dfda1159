import Mathlib.Tactic

/-!
# Lines and fields

Texts of lines and of separated fields, as lists of characters: `lines` and `splitn` take a text
apart as Rust's functions of these names do, and the lemmas say what they give on a text that was
put together from its parts. `utf8` and `decodeUtf8` go between texts and bytes; a text that is
decoded from the first bytes of another is a start of it.
-/

namespace Bmac.Base.Lines

/-! ## Lines -/

/-- A line without the carriage return before its newline. -/
def stripCr (line : List Char) : List Char :=
  if line.getLast? = some '\r' then line.dropLast else line

/-- The lines of a text that follows `line` on the same line. A last line without a newline keeps
its carriage return. -/
def linesFrom (line : List Char) : List Char → List (List Char)
  | [] => if line = [] then [] else [line]
  | c :: cs => if c = '\n' then stripCr line :: linesFrom [] cs else linesFrom (line ++ [c]) cs

/-- `str::lines`. -/
def lines (text : List Char) : List (List Char) := linesFrom [] text

theorem linesFrom_cons (line : List Char) (c : Char) (cs : List Char) : linesFrom line (c :: cs) =
    if c = '\n' then stripCr line :: linesFrom [] cs else linesFrom (line ++ [c]) cs := rfl

variable {l line text rest : List Char} {ls : List (List Char)}

theorem linesFrom_append (hl : '\n' ∉ l) :
    linesFrom line (l ++ '\n' :: rest) = stripCr (line ++ l) :: lines rest := by
  induction l generalizing line with
  | nil =>
    rw [List.nil_append, List.append_nil]
    rw [linesFrom_cons, if_pos rfl]
    rfl
  | cons c l ih =>
    have hc : c ≠ '\n' := fun h => hl (h ▸ List.mem_cons_self ..)
    rw [List.cons_append]
    rw [linesFrom_cons, if_neg hc, ih fun h => hl (List.mem_cons_of_mem _ h), List.append_assoc,
      List.singleton_append]

theorem lines_append (hl : '\n' ∉ l) : lines (l ++ '\n' :: rest) = stripCr l :: lines rest := by
  unfold lines
  rw [linesFrom_append hl, List.nil_append]
  rfl

theorem linesFrom_last (hl : '\n' ∉ l) :
    linesFrom line l = if line ++ l = [] then [] else [line ++ l] := by
  induction l generalizing line with
  | nil =>
    rw [List.append_nil]
    rfl
  | cons c l ih =>
    have hc : c ≠ '\n' := fun h => hl (h ▸ List.mem_cons_self ..)
    rw [linesFrom_cons, if_neg hc, ih fun h => hl (List.mem_cons_of_mem _ h), List.append_assoc,
      List.singleton_append]

/-- The text of some lines, each ended. -/
def unlines (ls : List (List Char)) : List Char := ls.flatMap (· ++ ['\n'])

theorem unlines_cons (l : List Char) (ls : List (List Char)) :
    unlines (l :: ls) = l ++ '\n' :: unlines ls := by
  simp [unlines]

theorem unlines_append (ls ms : List (List Char)) : unlines (ls ++ ms) = unlines ls ++ unlines ms := by
  simp [unlines]

theorem lines_unlines_append
    (h : ∀ l ∈ ls, '\n' ∉ l) : lines (unlines ls ++ rest) = ls.map stripCr ++ lines rest := by
  induction ls with
  | nil => rfl
  | cons l ls ih =>
    rw [unlines_cons, List.append_assoc, List.cons_append, lines_append (h l (List.mem_cons_self ..)),
      ih fun m hm => h m (List.mem_cons_of_mem _ hm)]
    rfl

theorem lines_unlines (h : ∀ l ∈ ls, '\n' ∉ l) : lines (unlines ls) = ls.map stripCr := by
  rw [← List.append_nil (unlines ls), lines_unlines_append h]
  exact List.append_nil _

/-- A last line that isn't ended. -/
theorem lines_last (hl : '\n' ∉ l) (hne : l ≠ []) : lines l = [l] := by
  unfold lines
  rw [linesFrom_last hl, List.nil_append, if_neg hne]

theorem not_mem_stripCr (h : '\n' ∉ line) : '\n' ∉ stripCr line := by
  unfold stripCr
  split
  · exact fun hm => h (List.mem_of_mem_dropLast hm)
  · exact h

theorem not_mem_of_mem_linesFrom (hline : '\n' ∉ line)
    (h : l ∈ linesFrom line text) : '\n' ∉ l := by
  induction text generalizing line with
  | nil =>
    unfold linesFrom at h
    split at h
    · cases h
    · rw [List.mem_singleton.mp h]
      exact hline
  | cons c cs ih =>
    rw [linesFrom_cons] at h
    split at h
    · rcases List.mem_cons.mp h with rfl | h
      · exact not_mem_stripCr hline
      · exact ih List.not_mem_nil h
    · rename_i hc
      refine ih ?_ h
      rw [List.mem_append, List.mem_singleton]
      rintro (hm | rfl)
      · exact hline hm
      · exact hc rfl

theorem not_mem_of_mem_lines (h : l ∈ lines text) : '\n' ∉ l :=
  not_mem_of_mem_linesFrom List.not_mem_nil h

/-- The characters at which Python's `str.splitlines` ends a line. -/
def isBreak (c : Char) : Bool :=
  ['\n', '\r', '\x0b', '\x0c', '\x1c', '\x1d', '\x1e', '\u0085', '\u2028', '\u2029'].contains c

/-- The lines of a text that follows `line` on the same line. -/
def splitlinesFrom (line : List Char) : List Char → List (List Char)
  | [] => if line = [] then [] else [line]
  | '\r' :: '\n' :: cs => line :: splitlinesFrom [] cs
  | c :: cs => if isBreak c then line :: splitlinesFrom [] cs else splitlinesFrom (line ++ [c]) cs

/-- `str.splitlines`. -/
def splitlines (text : List Char) : List (List Char) := splitlinesFrom [] text

theorem splitlinesFrom_append (hl : ∀ c ∈ l, isBreak c = false) :
    splitlinesFrom line (l ++ '\n' :: rest) = (line ++ l) :: splitlines rest := by
  induction l generalizing line with
  | nil =>
    rw [List.nil_append, List.append_nil]
    rfl
  | cons c l ih =>
    have hc : isBreak c = false := hl c List.mem_cons_self
    have hcr : c ≠ '\r' := by
      rintro rfl
      cases hc
    rw [List.cons_append, splitlinesFrom, if_neg (by simp [hc]),
      ih fun d hd => hl d (List.mem_cons_of_mem c hd), List.append_assoc, List.singleton_append]
    · intro cs h
      exact absurd h hcr

theorem splitlines_unlines (h : ∀ l ∈ ls, ∀ c ∈ l, isBreak c = false) :
    splitlines (unlines ls) = ls := by
  induction ls with
  | nil => rfl
  | cons l ls ih =>
    rw [unlines_cons, splitlines, splitlinesFrom_append (h l List.mem_cons_self), List.nil_append,
      ih fun m hm => h m (List.mem_cons_of_mem l hm)]

theorem prefix_unlines (h : text <+: unlines ls) :
    ∃ done rest part, ls = done ++ rest ∧ text = unlines done ++ part ∧
      (part = [] ∨ ∃ l rest', rest = l :: rest' ∧ part <+: l) := by
  induction ls generalizing text with
  | nil =>
    have hnil : text = [] := List.prefix_nil.mp h
    exact ⟨[], [], [], rfl, hnil, .inl rfl⟩
  | cons l ls ih =>
    have hl : unlines (l :: ls) = (l ++ ['\n']) ++ unlines ls := by
      rw [unlines_cons]
      simp
    rw [hl] at h
    rcases List.prefix_or_prefix_of_prefix h (List.prefix_append _ _) with hshort | hlong
    · rcases List.prefix_concat_iff.mp hshort with heq | hpart
      · exact ⟨[l], ls, [], rfl, by rw [heq]; simp [unlines], .inl rfl⟩
      · exact ⟨[], l :: ls, text, rfl, rfl, .inr ⟨l, ls, rfl, hpart⟩⟩
    · obtain ⟨text', rfl⟩ := hlong
      obtain ⟨done, rest, part, rfl, rfl, hpart⟩ := ih ((List.prefix_append_right_inj _).mp h)
      refine ⟨l :: done, rest, part, rfl, ?_, hpart⟩
      rw [unlines_cons]
      simp

/-! ## Fields -/

section

variable {sep : Char} {a b c d l : List Char}

/-- The text before the first separator, and the text after it. -/
def cut (sep : Char) : List Char → Option (List Char × List Char)
  | [] => none
  | c :: cs => if c = sep then some ([], cs) else (cut sep cs).map fun (a, b) => (c :: a, b)

theorem cut_eq_some : cut sep l = some (a, b) ↔ l = a ++ sep :: b ∧ sep ∉ a := by
  induction l generalizing a b with
  | nil => simp [cut]
  | cons x l ih =>
    unfold cut
    by_cases hx : x = sep
    · subst hx
      rw [if_pos rfl]
      cases a with
      | nil => simp
      | cons y a => simp +contextual [eq_comm]
    · rw [if_neg hx]
      cases a with
      | nil => simp [hx]
      | cons y a =>
        have hsep : sep ≠ x := fun h => hx h.symm
        simp only [Option.map_eq_some_iff, Prod.exists, ih, Prod.mk.injEq, List.cons.injEq,
          List.cons_append, List.mem_cons, not_or]
        constructor
        · rintro ⟨a', b', ⟨rfl, ha⟩, ⟨rfl, rfl⟩, rfl⟩
          exact ⟨⟨rfl, rfl⟩, hsep, ha⟩
        · rintro ⟨⟨rfl, rfl⟩, -, ha⟩
          exact ⟨a, b, ⟨rfl, ha⟩, ⟨rfl, rfl⟩, rfl⟩

/-- `str::splitn`: at most `n` fields, of which the last is the rest of the text. -/
def splitn (sep : Char) : Nat → List Char → List (List Char)
  | 0, _ => []
  | 1, l => [l]
  | n + 2, l => match cut sep l with
    | some (a, b) => a :: splitn sep (n + 1) b
    | none => [l]

/-- Four fields stand for their text with the separators put back. -/
theorem splitn_four : splitn sep 4 l = [a, b, c, d] ↔
    l = a ++ sep :: (b ++ sep :: (c ++ sep :: d)) ∧ sep ∉ a ∧ sep ∉ b ∧ sep ∉ c := by
  constructor
  · intro h
    unfold splitn at h
    split at h
    · rename_i a' l' hl'
      obtain ⟨rfl, ha⟩ := cut_eq_some.mp hl'
      unfold splitn at h
      split at h
      · rename_i b' l'' hl''
        obtain ⟨rfl, hb⟩ := cut_eq_some.mp hl''
        unfold splitn at h
        split at h
        · rename_i c' l''' hl'''
          obtain ⟨rfl, hc⟩ := cut_eq_some.mp hl'''
          simp only [splitn, List.cons.injEq, and_true] at h
          obtain ⟨rfl, rfl, rfl, rfl⟩ := h
          exact ⟨rfl, ha, hb, hc⟩
        · simp at h
      · simp at h
    · simp at h
  · rintro ⟨rfl, ha, hb, hc⟩
    simp only [splitn, cut_eq_some.mpr ⟨rfl, ha⟩, cut_eq_some.mpr ⟨rfl, hb⟩,
      cut_eq_some.mpr ⟨rfl, hc⟩]

end

/-! ## Bytes -/

/-- A text in UTF-8. -/
def utf8 (text : List Char) : List UInt8 := text.flatMap String.utf8EncodeChar

/-- The text that bytes are, if they are UTF-8. -/
def decodeUtf8 (bytes : List UInt8) : Option (List Char) :=
  bytes.toByteArray.utf8Decode?.map Array.toList

theorem utf8_append (a b : List Char) : utf8 (a ++ b) = utf8 a ++ utf8 b := by
  simp [utf8]

theorem length_utf8 (text : List Char) : (utf8 text).length = (text.map Char.utf8Size).sum := by
  simp [utf8, List.length_flatMap]

theorem decodeUtf8_utf8 (text : List Char) : decodeUtf8 (utf8 text) = some text := by
  unfold decodeUtf8
  have henc : (utf8 text).toByteArray = text.utf8Encode := rfl
  rw [henc, List.utf8Decode?_utf8Encode]
  rfl

theorem toByteArray_inj {a b : List UInt8} (h : a.toByteArray = b.toByteArray) : a = b := by
  have hdata := congrArg (fun x => x.data.toList) h
  simpa using hdata

theorem decodeUtf8_eq_some {bytes : List UInt8} :
    decodeUtf8 bytes = some text ↔ bytes = utf8 text := by
  constructor
  · intro h
    have hsome : (bytes.toByteArray.utf8Decode?).isSome = true := by
      unfold decodeUtf8 at h
      obtain ⟨out, hout, -⟩ := Option.map_eq_some_iff.mp h
      rw [hout]
      rfl
    obtain ⟨m, hm⟩ := ByteArray.isSome_utf8Decode?_iff.mp hsome
    have hbytes : bytes = utf8 m := toByteArray_inj hm
    rw [hbytes, decodeUtf8_utf8] at h
    rw [hbytes, Option.some.inj h]
  · rintro rfl
    exact decodeUtf8_utf8 text

/-- The first character of an encoded text is known from its first bytes. -/
theorem utf8_cons_prefix {c d : Char} {a b : List Char} (h : utf8 (c :: a) <+: utf8 (d :: b)) :
    c = d ∧ utf8 a <+: utf8 b := by
  obtain ⟨rest, hrest⟩ := h
  have hc : utf8 (c :: a) ++ rest = utf8 [c] ++ (utf8 a ++ rest) := by
    rw [← List.append_assoc, ← utf8_append]
    rfl
  have hd : utf8 (d :: b) = utf8 [d] ++ utf8 b := by
    rw [← utf8_append]
    rfl
  rw [hc, hd] at hrest
  have hfirst : ∀ (x : Char) (l : List UInt8),
      (utf8 [x] ++ l).toByteArray.utf8DecodeChar? 0 = some x := by
    intro x l
    rw [List.toByteArray_append]
    exact List.utf8DecodeChar?_utf8Encode_singleton_append
  have heq : c = d := by
    have := hfirst c (utf8 a ++ rest)
    rw [hrest, hfirst] at this
    exact (Option.some.inj this).symm
  subst heq
  exact ⟨rfl, rest, List.append_cancel_left hrest⟩

/-- A text whose bytes start another text is a start of it. -/
theorem prefix_of_utf8_prefix {a b : List Char} (h : utf8 a <+: utf8 b) : a <+: b := by
  induction a generalizing b with
  | nil => exact List.nil_prefix
  | cons c a ih =>
    cases b with
    | nil =>
      have hnil : utf8 (c :: a) = [] := List.prefix_nil.mp h
      have hlen := congrArg List.length hnil
      rw [length_utf8] at hlen
      have hpos := c.utf8Size_pos
      simp only [List.map_cons, List.sum_cons, List.length_nil] at hlen
      omega
    | cons d b =>
      obtain ⟨rfl, htail⟩ := utf8_cons_prefix h
      exact List.cons_prefix_cons.mpr ⟨rfl, ih htail⟩

end Bmac.Base.Lines
