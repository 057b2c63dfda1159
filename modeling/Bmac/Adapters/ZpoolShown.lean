import Bmac.Adapters.ZpoolText
import Bmac.Base.Split

/-!
# What `zpool status` shows

`Shown` is the text of one pool: its name, other lines, and a row for each vdev with two spaces for each
level after a tab. The words of a row's line are read as the row (`configNode_entry`), and its spaces as
the indent (`Config.add_entry`).
-/

namespace Bmac.Adapters.Status

open Bmac.Base Bmac.Base.Indent Bmac.Base.Lines Bmac.Core

abbrev Line := List Char

/-! ## Pools and their texts -/

structure Pool where
  root : ConfigRow
  /-- The sections in the order they are shown in. -/
  sections : List Section
  distinct : (sections.map (·.class)).Nodup
  data : VdevClass.data ∈ sections.map (·.class)

/-- A row of the config section: the name of an auxiliary section, or a pool or vdev. -/
inductive Entry where
  | heading («class» : VdevClass)
  | row (row : ConfigRow)

def Section.entries (root : ConfigRow) (s : Section) : List (Nat × Entry) :=
  (0, if s.class = .data then .row root else .heading s.class) ::
    (rows 2 2 s.vdevs).map fun (indent, row) => (indent, .row row)

def Pool.entries (p : Pool) : List (Nat × Entry) := p.sections.flatMap (·.entries p.root)

/-- The counts as `-p` shows them, or nothing. -/
def countFields : Option ErrorCounts → List String
  | some c => [c.read.repr, c.write.repr, c.checksum.repr]
  | none => []

/-- A row with counts is shown with them as `u64`s; the note of one without them isn't a number. -/
def CountsShown (counts : Option ErrorCounts) (note : List String) : Prop :=
  match counts with
  | some c => c.read < 2 ^ 64 ∧ c.write < 2 ^ 64 ∧ c.checksum < 2 ^ 64
  | none => ∀ word ∈ note.head?, word.toList.head?.any Text.isDigit = false

/-- The fields of a row. A state is a word other than the title of its column. -/
inductive ConfigRow.Fields (row : ConfigRow) : List String → Prop where
  | intro (state : String) (note : List String) (hstate : row.state = some state) (htitle : state ≠ "STATE")
      (hnote : row.note = Text.join " " note) (hcounts : CountsShown row.counts note) :
      Fields row (row.name :: state :: (countFields row.counts ++ note))

def Entry.Fields : Entry → List String → Prop
  | heading c, fields => fields = [c.asStr]
  | row r, fields => r.Fields fields

/-- A line of the config section with these fields. -/
inductive RowLine (indent : Nat) (fields : List String) : Line → Prop where
  | intro (body : Line) (hbody : body.head? ≠ some ' ') (hfields : splitWhitespace body = fields) :
      RowLine indent fields ('\t' :: (List.replicate indent ' ' ++ body))

/-- The lines of the config section: one for each entry, the titles of the columns and blank lines. -/
inductive ConfigShown : List (Nat × Entry) → List Line → Prop where
  | nil : ConfigShown [] []
  | blank {es : List (Nat × Entry)} {line : Line} {ls : List Line} (h : trim line = "")
      (rest : ConfigShown es ls) : ConfigShown es (line :: ls)
  | titles {es : List (Nat × Entry)} {indent : Nat} {line : Line} {ls : List Line} {columns : List String}
      (h : RowLine indent ("NAME" :: "STATE" :: columns) line) (rest : ConfigShown es ls) :
      ConfigShown es (line :: ls)
  | entry {es : List (Nat × Entry)} {indent : Nat} {e : Entry} {fields : List String} {line : Line}
      {ls : List Line} (hfields : e.Fields fields) (h : RowLine indent fields line)
      (rest : ConfigShown es ls) : ConfigShown ((indent, e) :: es) (line :: ls)

/-- A line about the pool that begins neither the config section nor another pool. -/
def Aside (line : Line) : Prop :=
  (∀ value, statusKey line ≠ some ("config", value)) ∧ isPoolLine line = false

/-- What follows the config section: nothing, or the lines of another section and what follows it. -/
def Tail : List Line → Prop
  | [] => True
  | line :: ls => (statusKey line).isSome ∧ line.head? ≠ some '\t' ∧ ∀ l ∈ line :: ls, Aside l

inductive Shown (p : Pool) : List Line → Prop where
  | intro (head config tail : List Line) (hhead : ∀ l ∈ head, Aside l)
      (hconfig : ConfigShown p.entries config) (htail : Tail tail) :
      Shown p (("  pool: ".toList ++ p.root.name.toList) ::
        (head ++ "config:".toList :: (config ++ tail)))

/-- A pool with its text. -/
structure Listing where
  pool : Pool
  lines : List Line
  shown : Shown pool lines
  plain : ∀ l ∈ lines, '\n' ∉ l ∧ '\r' ∉ l

def text (ls : List Listing) : String := String.ofList (unlines (ls.flatMap (·.lines)))

def Listing.text (l : Listing) : String := Status.text [l]

/-- The pool's tree was read. -/
structure Recovered (p : Pool) (status : PoolStatus) : Prop where
  pool : status.pool = p.root.name
  root : status.root = .leaf p.root
  sections : status.sections = p.sections

/-- The text is read as the pool's tree. -/
def Recovers (p : Pool) (text : String) : Prop := ∃ status, parseStatus text = .ok status ∧ Recovered p status

/-- The pool isn't named like one of its own auxiliary sections. -/
def Pool.Apart (p : Pool) : Prop := ∀ s ∈ p.sections, s.class ≠ .data → s.class.asStr ≠ p.root.name

def Entry.node : Entry → ConfigRow
  | heading c => ⟨c.asStr, none, none, ""⟩
  | row r => r

def Pool.names (p : Pool) : List String := p.entries.map (·.2.node.name)

/-! ## Words -/

/-- A word has characters, none of which is a blank. -/
def IsWord (word : String) : Prop := word ≠ "" ∧ ∀ c ∈ word.toList, Text.isWhitespace c = false

variable {word : String} {l line : Line} {fields : List String} {e : Entry} {indent : Nat}

theorem IsWord.toList_ne_nil (h : IsWord word) : word.toList ≠ [] :=
  fun hnil => h.1 (String.toList_eq_nil_iff.mp hnil)

theorem splitWhitespace_cons {c : Char} (hc : Text.isWhitespace c = true) (l : Line) :
    splitWhitespace (c :: l) = splitWhitespace l := by
  unfold splitWhitespace
  rw [List.splitOnP_cons_eq_if_modifyHead, if_pos hc]
  simp

theorem splitWhitespace_append {blanks : Line} (h : ∀ c ∈ blanks, Text.isWhitespace c = true) (l : Line) :
    splitWhitespace (blanks ++ l) = splitWhitespace l := by
  induction blanks with
  | nil => rfl
  | cons c blanks ih =>
    rw [List.cons_append, splitWhitespace_cons (h c List.mem_cons_self),
      ih fun d hd => h d (List.mem_cons_of_mem c hd)]

theorem splitWhitespace_of_blank (h : ∀ c ∈ l, Text.isWhitespace c = true) :
    splitWhitespace l = [] := by
  rw [← List.append_nil l, splitWhitespace_append h]
  rfl

theorem splitWhitespace_word (h : IsWord word) : splitWhitespace word.toList = [word] := by
  unfold splitWhitespace
  rw [List.splitOnP_eq_singleton h.2]
  simp [h.1]

theorem splitWhitespace_word_cons (h : IsWord word) {c : Char} (hc : Text.isWhitespace c = true)
    (rest : Line) : splitWhitespace (word.toList ++ c :: rest) = word :: splitWhitespace rest := by
  unfold splitWhitespace
  rw [List.splitOnP_append_cons_of_forall_mem h.2 _ hc]
  simp [h.1]

/-- What follows the blanks at a line's start: nothing, or a word and more words after a blank. -/
theorem cases_line (l : Line) : (∀ c ∈ l, Text.isWhitespace c = true) ∨
    ∃ word : String, IsWord word ∧
      (l.dropWhile Text.isWhitespace = word.toList ∨
        ∃ c rest, Text.isWhitespace c = true ∧ l.dropWhile Text.isWhitespace = word.toList ++ c :: rest) := by
  cases hbody : l.dropWhile Text.isWhitespace with
  | nil => exact .inl (List.dropWhile_eq_nil_iff.mp hbody)
  | cons d body =>
    have hd : Text.isWhitespace d = false := by
      have hneg := List.head?_dropWhile_not Text.isWhitespace l
      rw [hbody] at hneg
      simpa using hneg
    have hparts := (List.takeWhile_append_dropWhile (p := fun c => !Text.isWhitespace c) (l := d :: body)).symm
    have hword : IsWord (String.ofList ((d :: body).takeWhile fun c => !Text.isWhitespace c)) := by
      refine ⟨?_, fun c hc => ?_⟩
      · rw [Ne, ← String.toList_eq_nil_iff, String.toList_ofList, List.takeWhile_cons_of_pos (by simp [hd])]
        exact List.cons_ne_nil _ _
      · rw [String.toList_ofList] at hc
        simpa using List.mem_takeWhile_imp hc
    refine .inr ⟨_, hword, ?_⟩
    rw [String.toList_ofList]
    cases hrest : (d :: body).dropWhile fun c => !Text.isWhitespace c with
    | nil => exact .inl (by rw [hrest, List.append_nil] at hparts; exact hparts)
    | cons c rest =>
      have hc := List.head?_dropWhile_not (fun c => !Text.isWhitespace c) (d :: body)
      rw [hrest] at hc
      exact .inr ⟨c, rest, by simpa using hc, by rw [hrest] at hparts; exact hparts⟩

theorem splitWhitespace_dropWhile (l : Line) :
    splitWhitespace (l.dropWhile Text.isWhitespace) = splitWhitespace l := by
  have hblank : ∀ c ∈ l.takeWhile Text.isWhitespace, Text.isWhitespace c = true :=
    fun c hc => List.mem_takeWhile_imp hc
  rw [← splitWhitespace_append hblank, List.takeWhile_append_dropWhile]

theorem isWord_of_mem (h : word ∈ splitWhitespace l) : IsWord word := by
  obtain ⟨part, hpart, rfl⟩ := List.mem_map.mp h
  obtain ⟨hmem, hne⟩ := List.mem_filter.mp hpart
  refine ⟨?_, ?_⟩
  · rw [Ne, ← String.toList_eq_nil_iff, String.toList_ofList]
    exact of_decide_eq_true hne
  · rw [String.toList_ofList]
    exact Text.not_of_mem_splitOnP hmem

theorem trim_word (h : IsWord word) : trim word.toList = word := by
  have hself : ∀ l : Line, (∀ c ∈ l, Text.isWhitespace c = false) → l.dropWhile Text.isWhitespace = l := by
    intro l hl
    cases l with
    | nil => rfl
    | cons c l => exact List.dropWhile_cons_of_neg (by simp [hl c])
  rw [trim, Text.trim, String.toList_ofList, hself _ h.2,
    hself _ fun c hc => h.2 c (List.mem_reverse.mp hc), List.reverse_reverse, String.ofList_toList]

theorem trim_eq_empty : trim l = "" ↔ ∀ c ∈ l, Text.isWhitespace c = true := by
  rw [trim, Text.trim, String.toList_ofList, ← String.toList_eq_nil_iff, String.toList_ofList,
    List.reverse_eq_nil_iff, List.dropWhile_eq_nil_iff]
  constructor
  · intro h
    rcases cases_line l with hblank | ⟨word, hword, hbody⟩
    · exact hblank
    · -- the first word's first character isn't a blank
      obtain ⟨c, rest, hc⟩ := List.exists_cons_of_ne_nil hword.toList_ne_nil
      have hsolid : Text.isWhitespace c = false := hword.2 c (by rw [hc]; exact List.mem_cons_self)
      have hmem : c ∈ (l.dropWhile Text.isWhitespace).reverse := by
        rcases hbody with hbody | ⟨d, tail, -, hbody⟩
        · simp [hbody, hc]
        · simp [hbody, hc]
      rw [h c hmem] at hsolid
      cases hsolid
  · intro h c hc
    rw [List.dropWhile_eq_nil_iff.mpr h] at hc
    cases hc

/-! ## Keys -/

theorem dropWhile_append_key {blanks : Line} (h : ∀ c ∈ blanks, Text.isWhitespace c = true)
    (hword : IsWord word) (rest : Line) :
    (blanks ++ (word.toList ++ rest)).dropWhile Text.isWhitespace = word.toList ++ rest := by
  obtain ⟨c, tail, hc⟩ := List.exists_cons_of_ne_nil hword.toList_ne_nil
  have hsolid : Text.isWhitespace c = false := hword.2 c (by rw [hc]; exact List.mem_cons_self)
  rw [List.dropWhile_append_of_pos h, hc, List.cons_append,
    List.dropWhile_cons_of_neg (by rw [hsolid]; exact Bool.false_ne_true)]

/-- A blank line has no key. -/
theorem statusKey_of_blank (h : ∀ c ∈ l, Text.isWhitespace c = true) : statusKey l = none := by
  unfold statusKey
  rw [List.findSome?_eq_none_iff]
  intro key hkey
  have hne : key.toList ++ [':'] ≠ [] := by simp
  obtain ⟨c, rest, hc⟩ := List.exists_cons_of_ne_nil hne
  rw [Option.map_eq_none_iff, afterKey, List.dropWhile_eq_nil_iff.mpr h, hc]
  split <;> rfl

/-- A line begins a pool's text if its first word is `pool:` and a blank follows. -/
theorem isPoolLine_iff : isPoolLine l = true ↔
    ∃ c rest, Text.isWhitespace c = true ∧ l.dropWhile Text.isWhitespace = "pool:".toList ++ c :: rest := by
  have hafter : ∀ rest, afterKey "pool" none l = some rest ↔
      l.dropWhile Text.isWhitespace = "pool:".toList ++ rest := by
    intro rest
    rw [afterKey]
    exact isPrefixOf?_eq_some
  rw [isPoolLine, Option.any_eq_true]
  constructor
  · rintro ⟨rest, hrest, hhead⟩
    obtain ⟨c, hc, hblank⟩ := (Option.any_eq_true _ _).mp hhead
    cases rest with
    | nil => cases hc
    | cons d rest =>
      obtain rfl := Option.some.inj hc
      exact ⟨d, rest, hblank, (hafter _).mp hrest⟩
  · rintro ⟨c, rest, hc, hbody⟩
    exact ⟨c :: rest, (hafter _).mpr hbody, hc⟩

theorem isWord_pool : IsWord "pool:" := ⟨by decide, by decide⟩

theorem isPoolLine_words (h : isPoolLine l = true) : ∃ more, splitWhitespace l = "pool:" :: more := by
  obtain ⟨c, rest, hc, hbody⟩ := isPoolLine_iff.mp h
  rw [← splitWhitespace_dropWhile, hbody, splitWhitespace_word_cons isWord_pool hc]
  exact ⟨_, rfl⟩

theorem isPoolLine_of_words {more : List String}
    (h : splitWhitespace l = "pool:" :: word :: more) : isPoolLine l = true := by
  rcases cases_line l with hblank | ⟨first, hfirst, hbody | ⟨c, rest, hc, hbody⟩⟩
  · rw [splitWhitespace_of_blank hblank] at h
    cases h
  · rw [← splitWhitespace_dropWhile, hbody, splitWhitespace_word hfirst] at h
    cases h
  · rw [← splitWhitespace_dropWhile, hbody, splitWhitespace_word_cons hfirst hc] at h
    obtain ⟨rfl, -⟩ := List.cons.inj h
    exact isPoolLine_iff.mpr ⟨c, rest, hc, hbody⟩

/-! ## Rows -/

theorem digits_unsigned (cs : List Char) : (∀ digits, cs ≠ '+' :: digits) →
    (match cs with
      | '+' :: digits => digits
      | digits => digits) = cs := by
  intro h
  split
  · exact absurd rfl (h _)
  · rfl

/-- Digits without a sign are read as they are. -/
theorem parseU64_unsigned {text : String} (h : ∀ digits, text.toList ≠ '+' :: digits) :
    parseU64 text =
      if text.toList ≠ [] ∧ text.toList.all Text.isDigit ∧ Text.decimal text.toList < 2 ^ 64 then
        some (Text.decimal text.toList)
      else none :=
  congrArg (fun digits : List Char =>
    if digits ≠ [] ∧ digits.all Text.isDigit ∧ Text.decimal digits < 2 ^ 64 then
      some (Text.decimal digits)
    else none) (digits_unsigned _ h)

theorem parseU64_repr {n : Nat} (h : n < 2 ^ 64) : parseU64 n.repr = some n := by
  have hdigits : n.repr.toList.all Text.isDigit = true :=
    List.all_eq_true.mpr fun _ hc => Text.isDigit_of_mem_repr hc
  have hplus : ∀ digits, n.repr.toList ≠ '+' :: digits := fun digits heq =>
    nomatch (Text.isDigit_of_mem_repr (by rw [heq]; exact List.mem_cons_self) : Text.isDigit '+' = true)
  rw [parseU64_unsigned hplus, Text.decimal_repr, if_pos ⟨Text.repr_ne_nil n, hdigits, h⟩]

theorem head_repr_isDigit (n : Nat) : n.repr.toList.head?.any Text.isDigit = true := by
  obtain ⟨c, rest, hc⟩ := List.exists_cons_of_ne_nil (Text.repr_ne_nil n)
  rw [hc]
  exact Text.isDigit_of_mem_repr (n := n) (by rw [hc]; exact List.mem_cons_self)

theorem configNode_fields {row : ConfigRow} (h : row.Fields fields) :
    configNode fields = .ok row := by
  obtain ⟨state, note, hstate, -, hnote, hcounts⟩ := h
  obtain ⟨name, _, counts, _⟩ := row
  subst hstate hnote
  cases counts with
  | some counts =>
    obtain ⟨hread, hwrite, hchecksum⟩ := hcounts
    have hparse : ∀ {n : Nat} (e : String), n < 2 ^ 64 → ofOption (parseU64 n.repr) e = .ok n :=
      fun e hn => by rw [parseU64_repr hn]; rfl
    refine (if_pos (head_repr_isDigit _)).trans ?_
    change (ofOption (parseU64 counts.read.repr) _ >>= _) = _
    rw [hparse _ hread, ok_bind]
    change (ofOption (parseU64 counts.write.repr) _ >>= _) = _
    rw [hparse _ hwrite, ok_bind]
    change (ofOption (parseU64 counts.checksum.repr) _ >>= _) = _
    rw [hparse _ hchecksum, ok_bind]
    rfl
  | none =>
    match note, hcounts with
    | [], _ => rfl
    | [_], _ => rfl
    | [_, _], _ => rfl
    | first :: _ :: _ :: _, hcounts =>
      have hdigit : first.toList.head?.any Text.isDigit = false := hcounts first rfl
      exact if_neg (by rw [hdigit]; exact Bool.false_ne_true)

theorem configNode_entry (h : e.Fields fields) : configNode fields = .ok e.node := by
  cases e with
  | heading c =>
    rw [show fields = [c.asStr] from h]
    rfl
  | row r => exact configNode_fields h

theorem Entry.Fields.title (h : e.Fields fields) : fields[1]? ≠ some "STATE" := by
  cases e with
  | heading c =>
    rw [show fields = [c.asStr] from h]
    exact fun hsome => nomatch hsome
  | row r =>
    obtain ⟨state, note, -, htitle, -, -⟩ := h
    exact fun hsome => htitle (Option.some.inj hsome)

theorem Entry.Fields.ne_nil (h : e.Fields fields) : fields ≠ [] := by
  cases e with
  | heading c =>
    rw [show fields = [c.asStr] from h]
    exact List.cons_ne_nil _ _
  | row r =>
    obtain ⟨⟩ := h
    exact List.cons_ne_nil _ _

theorem Entry.Fields.head (h : e.Fields fields) : ∃ more, fields = e.node.name :: more := by
  cases e with
  | heading c => exact ⟨[], h⟩
  | row r =>
    obtain ⟨⟩ := h
    exact ⟨_, rfl⟩

theorem RowLine.splitWhitespace {indent : Nat} {fields : List String} {line : Line}
    (h : RowLine indent fields line) : splitWhitespace line = fields := by
  obtain ⟨body, -, hfields⟩ := h
  have hspaces : ∀ c ∈ List.replicate indent ' ', Text.isWhitespace c = true := by
    intro c hc
    rw [List.eq_of_mem_replicate hc]
    decide
  rw [splitWhitespace_cons (by decide), splitWhitespace_append hspaces, hfields]

theorem RowLine.trim_ne (h : RowLine indent fields line) (hne : fields ≠ []) : trim line ≠ "" := by
  intro htrim
  have hnil := splitWhitespace_of_blank (trim_eq_empty.mp htrim)
  exact hne (h.splitWhitespace.symm.trans hnil)

namespace Config

variable {pool : String} {c : Config}

/-- The line of a row is read without its tab, and its spaces are the indent. -/
theorem add_row (h : RowLine indent fields line) (hne : fields ≠ []) : c.add pool line =
      if fields[0]? = some "NAME" ∧ fields[1]? = some "STATE" then .ok c
      else configNode fields >>= c.place pool indent := by
  rw [add, if_neg (h.trim_ne hne)]
  obtain ⟨body, hbody, rfl⟩ := h
  have hspaces : ∀ x ∈ List.replicate indent ' ', Text.isWhitespace x = true := by
    intro x hx
    rw [List.eq_of_mem_replicate hx]
    decide
  have hindent : ((List.replicate indent ' ' ++ body).takeWhile (· = ' ')).length = indent := by
    have htail : body.takeWhile (· = ' ') = [] := by
      cases body with
      | nil => rfl
      | cons x body => exact List.takeWhile_cons_of_neg (by simpa using hbody)
    rw [List.takeWhile_append_of_pos (by simp [List.mem_replicate]), htail, List.append_nil,
      List.length_replicate]
  simp only [List.head?_cons, if_true, List.tail_cons, hindent, splitWhitespace_append hspaces]

theorem add_titles {columns : List String}
    (h : RowLine indent ("NAME" :: "STATE" :: columns) line) : c.add pool line = .ok c := by
  rw [add_row h (List.cons_ne_nil _ _), if_pos ⟨rfl, rfl⟩]

theorem add_entry (hfields : e.Fields fields)
    (h : RowLine indent fields line) : c.add pool line = c.place pool indent e.node := by
  rw [add_row h hfields.ne_nil, if_neg fun htitles => hfields.title htitles.2, configNode_entry hfields,
    ok_bind]

theorem add_lines {es : List (Nat × Entry)} {ls : List Line} (h : ConfigShown es ls) :
    ls.foldlM (add pool) c = es.foldlM (fun c e => c.place pool e.1 e.2.node) c := by
  induction h generalizing c with
  | nil => rfl
  | blank htrim _ ih =>
    rw [List.foldlM_cons, add, if_pos htrim, ok_bind]
    exact ih
  | titles hrow _ ih =>
    rw [List.foldlM_cons, add_titles hrow, ok_bind]
    exact ih
  | entry hfields hrow _ ih =>
    rw [List.foldlM_cons, List.foldlM_cons, add_entry hfields hrow]
    exact bind_congr fun c => ih

end Config

theorem ConfigShown.isWord {es : List (Nat × Entry)} {ls : List Line} (h : ConfigShown es ls) :
    ∀ e ∈ es, IsWord e.2.node.name := by
  induction h with
  | nil => exact fun _ he => nomatch he
  | blank _ _ ih => exact ih
  | titles _ _ ih => exact ih
  | entry hfields hline _ ih =>
    refine List.forall_mem_cons.mpr ⟨?_, ih⟩
    obtain ⟨more, rfl⟩ := hfields.head
    obtain ⟨body, -, hwords⟩ := hline
    exact isWord_of_mem (l := body) (by rw [hwords]; exact List.mem_cons_self)

end Bmac.Adapters.Status
