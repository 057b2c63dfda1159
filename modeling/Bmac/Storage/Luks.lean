import Bmac.Base.Keyed
import Bmac.Base.Lines
import Bmac.Core.Text

/-!
# LUKS members in crypttab

`bmac-storage/src/luks.rs`: the one form every member of a pool is listed in, and the edits of
`/etc/crypttab`: `withEntries` lists members, and `withoutEntries` takes those that have left the pool
out. A line is for the first of its fields; comments and blank lines are for no name.
`entries_exact` says that the other lines stay as they are.
-/

namespace Bmac.Storage.Luks

open Bmac.Base.Lines Bmac.Core

def sharedOptions : String := "luks,initramfs,nofail,keyscript=decrypt_keyctl"

def isPoolName (text : String) : Bool :=
  let allowed (c : Char) := Text.isAlphanumeric c || "_-.:".toList.contains c
  let reserved := ["mirror", "raidz", "draid", "spare"].any fun r => (Text.stripStart r text).isSome
  let digit : Bool := match text.toList with
    | 'c' :: d :: _ => Text.isDigit d
    | _ => false
  text ≠ "" && text.toList.all allowed && text ≠ "." && text ≠ ".." &&
    (text.toList.head?.any fun c => Text.isLower c || Text.isUpper c) && Text.len text ≤ 255 &&
    !reserved && text ≠ "log" && !digit

structure PoolName where
  text : String
  valid : isPoolName text

/-- The keyring key `decrypt_keyctl` shares the passphrase under. -/
def sharedKeyId (pool : PoolName) : String := "bmac-" ++ pool.text

/-- One member's line. -/
structure Entry where
  name : String
  luksUuid : String

def Entry.source (entry : Entry) : String := "UUID=" ++ entry.luksUuid

def Entry.line (pool : PoolName) (entry : Entry) : List Char :=
  entry.name.toList ++ '\t' :: (entry.source.toList ++ '\t' ::
    ((sharedKeyId pool).toList ++ '\t' :: sharedOptions.toList))

/-- `str::trim`. -/
def trim (line : List Char) : List Char :=
  ((line.dropWhile Text.isWhitespace).reverse.dropWhile Text.isWhitespace).reverse

/-- `str::split_whitespace`. -/
def words (line : List Char) : List String :=
  ((line.splitOnP Text.isWhitespace).filter (· ≠ [])).map String.ofList

def fields (line : List Char) : Option (List String) :=
  let trimmed := trim line
  if trimmed = [] ∨ trimmed.head? = some '#' then none else some (words trimmed)

def shared (pool : PoolName) (entry : Entry) (f : List String) : Bool :=
  f[1]? = some entry.source && f[2]? = some (sharedKeyId pool) && f[3]? = some sharedOptions

/-- `lists` after `matching` lines for the entry's name. -/
def listsFrom (pool : PoolName) (entry : Entry) (matching : Nat) : List (List String) → Bool
  | [] => matching = 1
  | f :: rest =>
    if f.head? ≠ some entry.name then listsFrom pool entry matching rest
    else if !shared pool entry f then false
    else listsFrom pool entry (matching + 1) rest

/-- Whether `text` lists `entry` exactly once, in the shared form. -/
def lists (text : String) (pool : PoolName) (entry : Entry) : Bool :=
  listsFrom pool entry 0 ((lines text.toList).filterMap fields)

/-- The line is for one of the names. -/
def isFor (names : List String) (line : List Char) : Bool :=
  match (fields line).bind (·.head?) with
  | none => false
  | some name => names.contains name

def joined (ls : List (List Char)) : String := String.ofList (['\n'].intercalate ls ++ ['\n'])

/-- `text` with every line for these entries' names replaced by one shared line each, appended. -/
def withEntries (text : String) (pool : PoolName) (entries : List Entry) : String :=
  joined (((lines text.toList).filter (!isFor (entries.map (·.name)) ·)) ++ entries.map (·.line pool))

/-- `text` without the lines for these mapper names. -/
def withoutEntries (text : String) (names : List String) : String :=
  let kept := (lines text.toList).filter (!isFor names ·)
  if kept = [] then "" else joined kept

/-! ## What an edit does -/

/-- A line without the carriage returns before its end. -/
def bare (line : List Char) : List Char := (line.reverse.dropWhile (· = '\r')).reverse

/-- The lines of a text, up to their terminators. -/
def bareLines (text : String) : List (List Char) := (lines text.toList).map bare

/-- The lines of a text that are for none of the names. -/
def keptLines (text : String) (names : List String) : List (List Char) :=
  (lines text.toList).filter (!isFor names ·)

def others (text : String) (names : List String) : List (List Char) := (keptLines text names).map bare

/-- What `withEntries` is for. -/
structure Exact (text : String) (pool : PoolName) (entries : List Entry) : Prop where
  listed : ∀ e ∈ entries, lists (withEntries text pool entries) pool e = true
  /-- The other lines stay, in order, and the entries follow. -/
  kept : bareLines (withEntries text pool entries) =
    others text (entries.map (·.name)) ++ entries.map (·.line pool)
  again : bareLines (withEntries (withEntries text pool entries) pool entries) =
    bareLines (withEntries text pool entries)
  undone : bareLines (withoutEntries (withEntries text pool entries) (entries.map (·.name))) =
    others text (entries.map (·.name))

def Solid (text : String) : Prop := ∀ c ∈ text.toList, Text.isWhitespace c = false

/-- Distinct names without blanks, none of which starts a comment. -/
structure Named (entries : List Entry) : Prop where
  distinct : (entries.map (·.name)).Nodup
  solid : ∀ e ∈ entries, Solid e.name
  uncommented : ∀ e ∈ entries, e.name.toList.head? ≠ some '#'

/-- The entries that the storage operations make: each has a name, and a UUID without blanks. -/
structure Proper (entries : List Entry) : Prop extends Named entries where
  nonempty : ∀ e ∈ entries, e.name ≠ ""
  uuid : ∀ e ∈ entries, Solid e.luksUuid

/-! ## Lines -/

theorem bare_append_cr (line : List Char) : bare (line ++ ['\r']) = bare line := by
  simp [bare]

theorem stripCr_cases (line : List Char) : stripCr line = line ∨ line = stripCr line ++ ['\r'] := by
  unfold stripCr
  split
  · rename_i h
    exact .inr (List.dropLast_append_getLast? _ h).symm
  · exact .inl rfl

theorem bare_stripCr (line : List Char) : bare (stripCr line) = bare line := by
  rcases stripCr_cases line with h | h
  · rw [h]
  · conv => rhs; rw [h, bare_append_cr]

theorem trim_append_cr (line : List Char) : trim (line ++ ['\r']) = trim line := by
  have hcr : Text.isWhitespace '\r' = true := by decide
  unfold trim
  rw [List.dropWhile_append]
  split
  · rename_i h
    rw [List.isEmpty_iff.mp h]
    simp [hcr]
  · simp [hcr]

theorem isFor_stripCr (names : List String) (line : List Char) :
    isFor names (stripCr line) = isFor names line := by
  have hfields : fields (stripCr line) = fields line := by
    rcases stripCr_cases line with h | h
    · rw [h]
    · conv => rhs; rw [h]
      unfold fields
      rw [trim_append_cr]
  rw [isFor, hfields, isFor]

theorem lines_joined {ls : List (List Char)} (hne : ls ≠ []) (h : ∀ l ∈ ls, '\n' ∉ l) :
    lines (joined ls).toList = ls.map stripCr := by
  have hjoined : (joined ls).toList = unlines ls := by
    rw [joined, String.toList_ofList]
    induction ls with
    | nil => exact absurd rfl hne
    | cons l ls ih =>
      cases ls with
      | nil => simp [unlines]
      | cons m ls =>
        rw [unlines_cons, ← ih (by simp) fun x hx => h x (List.mem_cons_of_mem l hx),
          List.intercalate_cons_cons]
        simp
  rw [hjoined, lines_unlines h]

theorem bareLines_joined {ls : List (List Char)} (hne : ls ≠ []) (h : ∀ l ∈ ls, '\n' ∉ l) :
    bareLines (joined ls) = ls.map bare := by
  rw [bareLines, lines_joined hne h, List.map_map]
  exact List.map_congr_left fun l _ => bare_stripCr l

theorem lines_ne_nil {text : String} (h : text ≠ "") : lines text.toList ≠ [] := by
  have hgo : ∀ (line cs : List Char), line ++ cs ≠ [] → linesFrom line cs ≠ [] := by
    intro line cs
    induction cs generalizing line with
    | nil =>
      intro hne
      rw [linesFrom, if_neg (by simpa using hne)]
      exact List.cons_ne_nil _ _
    | cons c cs ih =>
      intro _
      unfold linesFrom
      split
      · exact List.cons_ne_nil _ _
      · exact ih _ (by simp)
  refine hgo [] _ fun hnil => h ?_
  exact String.toList_eq_nil_iff.mp hnil

/-! ## The line of an entry -/

variable {pool : PoolName} {e : Entry} {entries : List Entry} {text : String}

theorem isWhitespace_of_range {c : Char} (h : 33 ≤ c.toNat ∧ c.toNat ≤ 126) :
    Text.isWhitespace c = false := by
  simp only [Text.isWhitespace, Bool.or_eq_false_iff, Bool.and_eq_false_iff, decide_eq_false_iff_not]
  omega

theorem isWhitespace_of_isAlphanumeric {c : Char} (h : Text.isAlphanumeric c = true) :
    Text.isWhitespace c = false := by
  refine isWhitespace_of_range ?_
  simp only [Text.isAlphanumeric, Text.isDigit, Text.isLower, Text.isUpper, Bool.or_eq_true,
    Bool.and_eq_true, decide_eq_true_eq, Char.le_def, UInt32.le_iff_toNat_le] at h
  change ((48 ≤ c.toNat ∧ c.toNat ≤ 57) ∨ (97 ≤ c.toNat ∧ c.toNat ≤ 122)) ∨
    (65 ≤ c.toNat ∧ c.toNat ≤ 90) at h
  omega

theorem PoolName.solid (pool : PoolName) : Solid (sharedKeyId pool) := by
  have hvalid := pool.valid
  unfold isPoolName at hvalid
  simp only [Bool.and_eq_true, List.all_eq_true, Bool.or_eq_true] at hvalid
  have hallowed := hvalid.1.1.1.1.1.1.1.2
  intro c hc
  rw [sharedKeyId, String.toList_append, List.mem_append] at hc
  rcases hc with hc | hc
  · exact (by decide : ∀ c ∈ "bmac-".toList, Text.isWhitespace c = false) c hc
  · rcases hallowed c hc with halnum | hpunct
    · exact isWhitespace_of_isAlphanumeric halnum
    · exact (by decide : ∀ c ∈ "_-.:".toList, Text.isWhitespace c = false) c (by simpa using hpunct)

theorem solid_source (h : Solid e.luksUuid) : Solid e.source := by
  intro c hc
  rw [Entry.source, String.toList_append, List.mem_append] at hc
  rcases hc with hc | hc
  · exact (by decide : ∀ c ∈ "UUID=".toList, Text.isWhitespace c = false) c hc
  · exact h c hc

theorem solid_options : Solid sharedOptions := by
  unfold Solid
  decide

theorem words_line (hname : e.name ≠ "") (hsolid : Solid e.name) (huuid : Solid e.luksUuid) :
    words (e.line pool) = [e.name, e.source, sharedKeyId pool, sharedOptions] := by
  have htab : Text.isWhitespace '\t' = true := by decide
  have hsource : e.source.toList ≠ [] := by simp [Entry.source]
  have hkey : (sharedKeyId pool).toList ≠ [] := by simp [sharedKeyId]
  have hoptions : sharedOptions.toList ≠ [] := by simp [sharedOptions]
  have hname : e.name.toList ≠ [] := by simpa using hname
  unfold words Entry.line
  rw [List.splitOnP_append_cons_of_forall_mem hsolid _ htab,
    List.splitOnP_append_cons_of_forall_mem (solid_source huuid) _ htab,
    List.splitOnP_append_cons_of_forall_mem pool.solid _ htab,
    List.splitOnP_eq_singleton solid_options]
  simp [hname, hsource, hkey, hoptions]

/-- A line that starts and ends with no blank isn't trimmed. -/
theorem trim_solid {c d : Char} {line : List Char} (hc : Text.isWhitespace c = false)
    (hd : Text.isWhitespace d = false) (hlast : (c :: line).getLast? = some d) :
    trim (c :: line) = c :: line := by
  have hfront : (c :: line).dropWhile Text.isWhitespace = c :: line := by
    rw [List.dropWhile_cons_of_neg (by simp [hc])]
  have hback : (c :: line).reverse.dropWhile Text.isWhitespace = (c :: line).reverse := by
    rw [List.getLast?_eq_head?_reverse] at hlast
    obtain ⟨rest, hrest⟩ := List.head?_eq_some_iff.mp hlast
    rw [hrest, List.dropWhile_cons_of_neg (by simp [hd])]
  rw [trim, hfront, hback, List.reverse_reverse]

theorem getLast?_line : (e.line pool).getLast? = some 'l' := by
  have hoptions : sharedOptions.toList.getLast? = some 'l' := by decide
  simp [Entry.line, List.getLast?_append, List.getLast?_cons, hoptions]

theorem fields_line (hname : e.name ≠ "") (hsolid : Solid e.name) (huuid : Solid e.luksUuid)
    (hcomment : e.name.toList.head? ≠ some '#') :
    fields (e.line pool) = some [e.name, e.source, sharedKeyId pool, sharedOptions] := by
  have hwords := @words_line pool e hname hsolid huuid
  obtain ⟨c, rest, hcons⟩ := List.exists_cons_of_ne_nil (by simpa using hname : e.name.toList ≠ [])
  have hline : e.line pool = c :: (rest ++ '\t' :: (e.source.toList ++ '\t' ::
      ((sharedKeyId pool).toList ++ '\t' :: sharedOptions.toList))) := by
    rw [Entry.line, hcons, List.cons_append]
  have htrim : trim (e.line pool) = e.line pool := by
    have hlast := @getLast?_line pool e
    rw [hline] at hlast ⊢
    exact trim_solid (hsolid c (by simp [hcons])) (by decide) hlast
  have hhash : ¬ (e.line pool = [] ∨ (e.line pool).head? = some '#') := by
    rw [hcons, List.head?_cons] at hcomment
    rw [hline]
    simpa using hcomment
  rw [fields, htrim, if_neg hhash, hwords]

theorem stripCr_line : stripCr (e.line pool) = e.line pool := by
  rw [stripCr, getLast?_line, if_neg (by decide)]

theorem bare_line : bare (e.line pool) = e.line pool := by
  have hlast := @getLast?_line pool e
  rw [List.getLast?_eq_head?_reverse] at hlast
  obtain ⟨rest, hrest⟩ := List.head?_eq_some_iff.mp hlast
  rw [bare, hrest, List.dropWhile_cons_of_neg (by decide), ← hrest, List.reverse_reverse]

theorem newline_not_mem_line (hsolid : Solid e.name) (huuid : Solid e.luksUuid) :
    '\n' ∉ e.line pool := by
  have hnot : ∀ {text : String}, Solid text → '\n' ∉ text.toList := by
    intro text h hmem
    exact absurd (h _ hmem) (by decide)
  simp only [Entry.line, List.mem_append, List.mem_cons, hnot hsolid, hnot (solid_source huuid),
    hnot pool.solid, hnot solid_options]
  decide

/-! ## The lines for a name -/

theorem listsFrom_eq (matching : Nat) (fs : List (List String)) :
    listsFrom pool e matching fs =
      ((fs.filter (·.head? = some e.name)).all (shared pool e) &&
        decide (matching + (fs.filter (·.head? = some e.name)).length = 1)) := by
  induction fs generalizing matching with
  | nil => rfl
  | cons f fs ih =>
    unfold listsFrom
    by_cases hf : f.head? = some e.name
    · rw [if_neg (by simpa using hf)]
      cases hshared : shared pool e f with
      | false => simp [hf, hshared]
      | true => simp [ih, hf, hshared, Nat.add_assoc, Nat.add_comm 1]
    · rw [if_pos hf, ih]
      simp [hf]

/-! ## The edits -/

theorem fields_entry (h : Proper entries) (he : e ∈ entries) :
    fields (e.line pool) = some [e.name, e.source, sharedKeyId pool, sharedOptions] :=
  fields_line (h.nonempty e he) (h.solid e he) (h.uuid e he) (h.uncommented e he)

theorem isFor_entry (h : Proper entries) (he : e ∈ entries) :
    isFor (entries.map (·.name)) (e.line pool) = true := by
  rw [isFor, fields_entry h he]
  simpa using ⟨e, he, rfl⟩

theorem edited_ne_nil (hne : text ≠ "" ∨ entries ≠ []) :
    keptLines text (entries.map (·.name)) ++ entries.map (·.line pool) ≠ [] := by
  by_cases hentries : entries = []
  · subst hentries
    have hall : keptLines text [] = lines text.toList := by
      refine List.filter_eq_self.mpr fun line _ => ?_
      unfold isFor
      split <;> rfl
    rw [List.map_nil, List.map_nil, List.append_nil, hall]
    exact lines_ne_nil (hne.resolve_right fun h => h rfl)
  · simp [hentries]

theorem lines_withEntries (h : Proper entries) (hne : text ≠ "" ∨ entries ≠ []) :
    lines (withEntries text pool entries).toList =
      (keptLines text (entries.map (·.name))).map stripCr ++ entries.map (·.line pool) := by
  have hnewline : ∀ l ∈ keptLines text (entries.map (·.name)) ++ entries.map (·.line pool), '\n' ∉ l := by
    intro l hl
    rcases List.mem_append.mp hl with hl | hl
    · exact not_mem_of_mem_lines (List.mem_of_mem_filter hl)
    · obtain ⟨e, he, rfl⟩ := List.mem_map.mp hl
      exact newline_not_mem_line (h.solid e he) (h.uuid e he)
  rw [withEntries, ← keptLines, lines_joined (edited_ne_nil hne) hnewline, List.map_append, List.map_map]
  congr 1
  exact List.map_congr_left fun e _ => stripCr_line

/-- Of an edited text's lines, those that are for none of the entries' names were there before. -/
theorem keptLines_withEntries (h : Proper entries) (hne : text ≠ "" ∨ entries ≠ []) :
    keptLines (withEntries text pool entries) (entries.map (·.name)) =
      (keptLines text (entries.map (·.name))).map stripCr := by
  have hold : ((keptLines text (entries.map (·.name))).map stripCr).filter
      (!isFor (entries.map (·.name)) ·) = (keptLines text (entries.map (·.name))).map stripCr := by
    refine List.filter_eq_self.mpr fun l hl => ?_
    obtain ⟨m, hm, rfl⟩ := List.mem_map.mp hl
    rw [isFor_stripCr]
    exact (List.mem_filter.mp hm).2
  have hnew : (entries.map (·.line pool)).filter (!isFor (entries.map (·.name)) ·) = [] := by
    refine List.filter_eq_nil_iff.mpr fun l hl => ?_
    obtain ⟨e, he, rfl⟩ := List.mem_map.mp hl
    simp [isFor_entry h he]
  rw [keptLines, lines_withEntries h hne, List.filter_append, hold, hnew, List.append_nil]

theorem map_bare_stripCr (ls : List (List Char)) : (ls.map stripCr).map bare = ls.map bare := by
  rw [List.map_map]
  exact List.map_congr_left fun l _ => bare_stripCr l

theorem bareLines_withEntries (h : Proper entries) (hne : text ≠ "" ∨ entries ≠ []) :
    bareLines (withEntries text pool entries) =
      others text (entries.map (·.name)) ++ entries.map (·.line pool) := by
  rw [bareLines, lines_withEntries h hne, List.map_append, map_bare_stripCr, others, List.map_map]
  congr 1
  exact List.map_congr_left fun e _ => bare_line

theorem withEntries_ne_empty : withEntries text pool entries ≠ "" := by
  unfold withEntries joined
  intro h
  have hlist := congrArg String.toList h
  simp at hlist

theorem lists_withEntries (h : Proper entries) (hne : text ≠ "" ∨ entries ≠ []) (he : e ∈ entries) :
    lists (withEntries text pool entries) pool e = true := by
  have hold : (((keptLines text (entries.map (·.name))).map stripCr).filterMap fields).filter
      (·.head? = some e.name) = [] := by
    refine List.filter_eq_nil_iff.mpr fun f hf hhead => ?_
    obtain ⟨l, hl, hfields⟩ := List.mem_filterMap.mp hf
    obtain ⟨m, hm, rfl⟩ := List.mem_map.mp hl
    have hfor : isFor (entries.map (·.name)) (stripCr m) = true := by
      rw [isFor, hfields, Option.bind_some, of_decide_eq_true hhead]
      simpa using ⟨e, he, rfl⟩
    have hnot := (List.mem_filter.mp hm).2
    rw [← isFor_stripCr, hfor] at hnot
    cases hnot
  have hnew : ((entries.map (·.line pool)).filterMap fields).filter (·.head? = some e.name) =
      [[e.name, e.source, sharedKeyId pool, sharedOptions]] := by
    have hall : (entries.map (·.line pool)).filterMap fields =
        entries.map fun x => [x.name, x.source, sharedKeyId pool, sharedOptions] := by
      rw [List.filterMap_map, ← List.filterMap_eq_map]
      exact List.filterMap_congr fun x hx => fields_entry h hx
    rw [hall, List.filter_map]
    have hname : (fun f : List String => decide (f.head? = some e.name)) ∘
        (fun x : Entry => [x.name, x.source, sharedKeyId pool, sharedOptions]) =
        fun x => decide (x.name = e.name) := by
      funext x
      simp
    rw [hname, Base.Keyed.filter_of_mem h.distinct he]
    rfl
  rw [lists, lines_withEntries h hne, listsFrom_eq, List.filterMap_append, List.filter_append, hold, hnew]
  simp [shared]

theorem withoutEntries_eq (text : String) (names : List String) : withoutEntries text names =
    if keptLines text names = [] then "" else joined (keptLines text names) := rfl

/-- The edits do what they are for. -/
theorem entries_exact (h : Proper entries) (hne : text ≠ "" ∨ entries ≠ []) :
    Exact text pool entries where
  listed _ he := lists_withEntries h hne he
  kept := bareLines_withEntries h hne
  again := by
    rw [bareLines_withEntries h (.inl withEntries_ne_empty), bareLines_withEntries h hne, others,
      keptLines_withEntries h hne, map_bare_stripCr, others]
  undone := by
    have hkept := @keptLines_withEntries pool entries text h hne
    rw [withoutEntries_eq, hkept]
    by_cases hnil : (keptLines text (entries.map (·.name))).map stripCr = []
    · rw [if_pos hnil, others, List.map_eq_nil_iff.mp hnil]
      rfl
    · have hnewline : ∀ l ∈ (keptLines text (entries.map (·.name))).map stripCr, '\n' ∉ l := by
        intro l hl
        obtain ⟨m, hm, rfl⟩ := List.mem_map.mp hl
        exact not_mem_stripCr (not_mem_of_mem_lines (List.mem_of_mem_filter hm))
      rw [if_neg hnil, bareLines_joined hnil hnewline, map_bare_stripCr, others]

def rpool : PoolName := ⟨"rpool", by decide⟩

def twoMembers : List Entry := [⟨"bmac-rpool-sA", "u1"⟩, ⟨"bmac-rpool-sB", "u2"⟩]

theorem twoMembers_proper : Proper twoMembers where
  distinct := by decide
  solid := by
    unfold Solid
    decide
  uncommented := by decide
  nonempty := by decide
  uuid := by
    unfold Solid
    decide

/-- A text with a comment, a line to replace, and a last line without an end. -/
theorem entries_exact_two :
    Exact "# <target name>\r\nbmac-rpool-sA UUID=old none luks\nother UUID=x none luks" rpool twoMembers :=
  entries_exact twoMembers_proper (.inr (by decide))

/-- A UUID with a blank, a name without characters, and no entries for an empty text each break it. -/
theorem not_entries_exact : ∃ pool : PoolName,
    (Named [⟨"a", "u 1"⟩] ∧ ¬ Exact "" pool [⟨"a", "u 1"⟩]) ∧
    (Named [⟨"", "u1"⟩] ∧ ¬ Exact "" pool [⟨"", "u1"⟩]) ∧
    Named [] ∧ ¬ Exact "" pool [] := by
  refine ⟨rpool, ⟨⟨by decide, ?_, by decide⟩, fun h => ?_⟩, ⟨⟨by decide, ?_, by decide⟩, fun h => ?_⟩,
    ⟨by decide, fun e he => ?_, by decide⟩, fun h => ?_⟩
  · unfold Solid
    decide
  · exact absurd (h.listed _ (List.mem_singleton_self _)) (by decide +kernel)
  · unfold Solid
    decide
  · exact absurd (h.listed _ (List.mem_singleton_self _)) (by decide +kernel)
  · exact absurd he List.not_mem_nil
  · exact absurd h.undone (by decide +kernel)

end Bmac.Storage.Luks
