import Bmac.Adapters.ZpoolTree
import Bmac.Storage.Luks

/-!
# `zpool status` of several pools

`splitPools` begins a block at each line that starts with `pool:` and a blank, and a row of the config
section may be such a line, which `parseStatus` knows by its tab. So the texts of several pools are taken
apart where no row is named `pool:`; `status_recovered` says when each one's tree is read.
-/

namespace Bmac.Adapters.Status

open Bmac.Base Bmac.Base.Indent Bmac.Base.Lines Bmac.Core

/-! ## Blocks as lines -/

def addToGroups (groups : List (List Line)) (line : Line) : List (List Line) :=
  if isPoolLine line || groups.isEmpty then groups ++ [[line]]
  else groups.dropLast ++ [groups.getLastD [] ++ [line]]

def groupsFrom (groups : List (List Line)) (ls : List Line) : List (List Line) := ls.foldl addToGroups groups

theorem addToGroups_concat (groups : List (List Line)) (g : List Line) (line : Line) :
    addToGroups (groups ++ [g]) line =
      if isPoolLine line then groups ++ [g] ++ [[line]] else groups ++ [g ++ [line]] := by
  have hne : (groups ++ [g]).isEmpty = false := by simp
  rw [addToGroups, hne, Bool.or_false, List.dropLast_concat, List.getLastD_concat]

theorem addToBlocks_unlines (groups : List (List Line)) (line : Line) :
    addToBlocks (groups.map unlines) line = (addToGroups groups line).map unlines := by
  have hone : unlines [line] = line ++ ['\n'] := by simp [unlines]
  cases groups using List.reverseRecOn with
  | nil =>
    unfold addToBlocks addToGroups
    simp [hone]
  | append_singleton groups g =>
    have hblocks : addToBlocks ((groups ++ [g]).map unlines) line =
        if isPoolLine line then (groups ++ [g]).map unlines ++ [line ++ ['\n']]
        else groups.map unlines ++ [unlines g ++ line ++ ['\n']] := by
      have hne : ((groups ++ [g]).map unlines).isEmpty = false := by simp
      rw [addToBlocks, hne, Bool.or_false, List.map_append, List.map_singleton, List.dropLast_concat,
        List.getLastD_concat]
    rw [hblocks, addToGroups_concat]
    split
    · simp [hone]
    · simp [unlines_append, hone]

theorem foldl_addToBlocks (groups : List (List Line)) (ls : List Line) :
    ls.foldl addToBlocks (groups.map unlines) = (groupsFrom groups ls).map unlines := by
  induction ls generalizing groups with
  | nil => rfl
  | cons l ls ih =>
    rw [List.foldl_cons, addToBlocks_unlines, ih]
    rfl

/-- Lines that begin no block go to the last. -/
theorem groupsFrom_rest {groups : List (List Line)} {g rest : List Line}
    (h : ∀ l ∈ rest, isPoolLine l = false) : groupsFrom (groups ++ [g]) rest = groups ++ [g ++ rest] := by
  induction rest generalizing g with
  | nil => rw [List.append_nil]; rfl
  | cons l rest ih =>
    obtain ⟨hl, hrest⟩ := List.forall_mem_cons.mp h
    change groupsFrom (addToGroups (groups ++ [g]) l) rest = _
    rw [addToGroups_concat, if_neg (by rw [hl]; exact Bool.false_ne_true), ih hrest, List.append_assoc,
      List.singleton_append]

/-- What each line adds: a group, or more of the last. -/
theorem groupsFrom_concat (groups : List (List Line)) (g ls : List Line) :
    (groupsFrom (groups ++ [g]) ls).length = groups.length + 1 + ls.countP isPoolLine ∧
      (groupsFrom (groups ++ [g]) ls).flatten = (groups ++ [g]).flatten ++ ls ∧
      ((∀ x ∈ groups ++ [g], ∃ l ∈ x, isPoolLine l = true) →
        ∀ x ∈ groupsFrom (groups ++ [g]) ls, ∃ l ∈ x, isPoolLine l = true) := by
  induction ls generalizing groups g with
  | nil =>
    refine ⟨?_, (List.append_nil _).symm, id⟩
    change (groups ++ [g]).length = _
    rw [List.length_append, List.countP_nil, Nat.add_zero, List.length_singleton]
  | cons l ls ih =>
    have hstep : groupsFrom (groups ++ [g]) (l :: ls) = groupsFrom (addToGroups (groups ++ [g]) l) ls := rfl
    rw [hstep, addToGroups_concat]
    by_cases hl : isPoolLine l = true
    · obtain ⟨hlength, hflatten, hled⟩ := ih (groups ++ [g]) [l]
      rw [if_pos hl]
      refine ⟨?_, ?_, fun h => hled ?_⟩
      · rw [hlength, List.countP_cons_of_pos hl, List.length_append, List.length_singleton]
        omega
      · rw [hflatten]
        simp
      · intro x hx
        rcases List.mem_append.mp hx with hx | hx
        · exact h x hx
        · exact ⟨l, by rw [List.mem_singleton.mp hx]; exact List.mem_cons_self, hl⟩
    · obtain ⟨hlength, hflatten, hled⟩ := ih groups (g ++ [l])
      rw [if_neg hl]
      refine ⟨?_, ?_, fun h => hled ?_⟩
      · rw [hlength, List.countP_cons_of_neg hl]
      · rw [hflatten]
        simp
      · intro x hx
        rcases List.mem_append.mp hx with hx | hx
        · exact h x (List.mem_append_left _ hx)
        · obtain ⟨first, hfirst, hpool⟩ := h g (by simp)
          rw [List.mem_singleton.mp hx]
          exact ⟨first, List.mem_append_left _ hfirst, hpool⟩

variable {ls : List Line}

/-- The groups of lines of which the first begins one: one for each line that does. -/
theorem groupsFrom_nil (h : ∀ l ∈ ls.head?, isPoolLine l = true) :
    (groupsFrom [] ls).length = ls.countP isPoolLine ∧ (groupsFrom [] ls).flatten = ls ∧
      ∀ g ∈ groupsFrom [] ls, ∃ l ∈ g, isPoolLine l = true := by
  cases ls with
  | nil => exact ⟨rfl, rfl, fun _ hg => nomatch hg⟩
  | cons l ls =>
    have hl : isPoolLine l = true := h l rfl
    have hfirst : groupsFrom [] (l :: ls) = groupsFrom ([] ++ [[l]]) ls := by
      change groupsFrom (addToGroups [] l) ls = _
      rw [addToGroups, hl]
      rfl
    obtain ⟨hlength, hflatten, hled⟩ := groupsFrom_concat [] [l] ls
    rw [hfirst]
    refine ⟨?_, hflatten, hled ?_⟩
    · rw [hlength, List.countP_cons_of_pos hl, List.length_nil]
      omega
    · intro g hg
      exact ⟨l, by rw [List.mem_singleton.mp hg]; exact List.mem_cons_self, hl⟩

theorem lines_plain (h : ∀ l ∈ ls, '\n' ∉ l ∧ '\r' ∉ l) : lines (unlines ls) = ls := by
  have hsame : ∀ l ∈ ls, stripCr l = l := fun l hl =>
    if_neg fun hlast => (h l hl).2 (List.mem_of_getLast? hlast)
  rw [lines_unlines fun l hl => (h l hl).1]
  exact (List.map_congr_left hsame).trans (List.map_id ls)

theorem splitPools_unlines (hplain : ∀ l ∈ ls, '\n' ∉ l ∧ '\r' ∉ l)
    (hfirst : ∀ l ∈ ls.head?, isPoolLine l = true) :
    splitPools (String.ofList (unlines ls)) =
      (groupsFrom [] ls).map fun g => String.ofList (unlines g) := by
  obtain ⟨-, hflatten, hled⟩ := groupsFrom_nil hfirst
  have hkept : ∀ block ∈ (groupsFrom [] ls).map unlines, (lines block).any isPoolLine = true := by
    intro block hblock
    obtain ⟨g, hg, rfl⟩ := List.mem_map.mp hblock
    have hgroup : ∀ l ∈ g, '\n' ∉ l ∧ '\r' ∉ l := fun l hl =>
      hplain l (by rw [← hflatten]; exact List.mem_flatten.mpr ⟨g, hg, hl⟩)
    rw [lines_plain hgroup]
    exact List.any_eq_true.mpr (hled g hg)
  have hblocks : ls.foldl addToBlocks [] = (groupsFrom [] ls).map unlines := foldl_addToBlocks [] ls
  unfold splitPools
  rw [String.toList_ofList, lines_plain hplain, hblocks]
  dsimp only
  rw [List.filter_eq_self.mpr hkept, List.map_map]
  rfl

/-! ## Lines that begin a pool's text -/

theorem isPoolLine_of_blank {l : Line} (h : trim l = "") : isPoolLine l = false := by
  refine Bool.eq_false_iff.mpr fun hpool => ?_
  obtain ⟨more, hwords⟩ := isPoolLine_words hpool
  rw [splitWhitespace_of_blank (trim_eq_empty.mp h)] at hwords
  cases hwords

theorem isPoolLine_row {e : Entry} {indent : Nat} {fields : List String} {line : Line}
    (hfields : e.Fields fields) (h : RowLine indent fields line) :
    isPoolLine line = false ↔ e.node.name ≠ "pool:" := by
  rw [Bool.eq_false_iff, not_iff_not]
  constructor
  · intro hpool
    obtain ⟨more, hwords⟩ := isPoolLine_words hpool
    obtain ⟨rest, hhead⟩ := hfields.head
    exact (List.cons.inj ((hhead.symm.trans h.splitWhitespace.symm).trans hwords)).1
  · intro hname
    cases e with
    | heading c => cases c <;> exact nomatch hname
    | row r =>
      have hr : r.name = "pool:" := hname
      obtain ⟨state, note, -, -, -, -⟩ := hfields
      rw [hr] at h
      exact isPoolLine_of_words h.splitWhitespace

theorem ConfigShown.isPoolLine {es : List (Nat × Entry)} {ls : List Line} (h : ConfigShown es ls) :
    (∀ l ∈ ls, isPoolLine l = false) ↔ "pool:" ∉ es.map (·.2.node.name) := by
  induction h with
  | nil => exact iff_of_true (fun _ hl => nomatch hl) List.not_mem_nil
  | blank htrim _ ih => rw [List.forall_mem_cons, ih, and_iff_right (isPoolLine_of_blank htrim)]
  | titles hrow _ ih =>
    have hline : ∀ {indent : Nat} {columns : List String} {line : Line},
        RowLine indent ("NAME" :: "STATE" :: columns) line → Status.isPoolLine line = false := by
      intro indent columns line hrow
      refine Bool.eq_false_iff.mpr fun hpool => ?_
      obtain ⟨more, hwords⟩ := isPoolLine_words hpool
      rw [hrow.splitWhitespace] at hwords
      exact nomatch (List.cons.inj hwords).1
    rw [List.forall_mem_cons, ih, and_iff_right (hline hrow)]
  | entry hfields hrow _ ih =>
    rw [List.forall_mem_cons, ih, isPoolLine_row hfields hrow, List.map_cons, List.mem_cons, not_or]
    exact and_congr_left fun _ => ne_comm

/-- A pool's text begins with its line, and no other begins a text unless a row is named so. -/
theorem Shown.begins {p : Pool} (h : Shown p ls) : ∃ first rest, ls = first :: rest ∧
    isPoolLine first = true ∧ ((∀ l ∈ rest, isPoolLine l = false) ↔ "pool:" ∉ p.names) := by
  obtain ⟨head, config, tail, hhead, hconfig, htail⟩ := h
  refine ⟨_, _, rfl, ?_, ?_⟩
  · have hblank : ∀ c ∈ [' ', ' '], Text.isWhitespace c = true := by decide
    exact isPoolLine_iff.mpr ⟨' ', p.root.name.toList, by decide,
      dropWhile_append_key hblank isWord_pool (' ' :: p.root.name.toList)⟩
  · have hopen : isPoolLine "config:".toList = false := by decide
    have hend : ∀ l ∈ tail, isPoolLine l = false := by
      cases tail with
      | nil => exact fun _ hl => nomatch hl
      | cons line tail => exact fun l hl => (htail.2.2 l hl).2
    rw [Pool.names, ← hconfig.isPoolLine]
    constructor
    · exact fun h l hl => h l (by simp [hl])
    · intro h l hl
      rcases List.mem_append.mp hl with hl | hl
      · exact (hhead l hl).2
      · rcases List.mem_cons.mp hl with rfl | hl
        · exact hopen
        · exact (List.mem_append.mp hl).elim (h l) (hend l)

/-! ## Listings -/

/-- No row of the pool is named like the key of the pool's line. -/
def Pool.Unsplit (p : Pool) : Prop := "pool:" ∉ p.names

theorem plain_flatMap (ls : List Listing) : ∀ l ∈ ls.flatMap (·.lines), '\n' ∉ l ∧ '\r' ∉ l := by
  intro l hl
  obtain ⟨listing, -, hmem⟩ := List.mem_flatMap.mp hl
  exact listing.plain l hmem

theorem lines_text (ls : List Listing) : lines (text ls).toList = ls.flatMap (·.lines) := by
  rw [text, String.toList_ofList, lines_plain (plain_flatMap ls)]

theorem Listing.lines_text (l : Listing) : Lines.lines l.text.toList = l.lines := by
  rw [Listing.text, Status.lines_text, List.flatMap_singleton]

theorem head_flatMap (ls : List Listing) : ∀ l ∈ (ls.flatMap (·.lines)).head?, isPoolLine l = true := by
  cases ls with
  | nil => exact fun _ hl => nomatch hl
  | cons listing ls =>
    obtain ⟨first, rest, hlines, hfirst, -⟩ := listing.shown.begins
    rw [List.flatMap_cons, hlines]
    rintro _ ⟨⟩
    exact hfirst

theorem groupsFrom_listings {ls : List Listing} (h : ∀ l ∈ ls, l.pool.Unsplit) (groups : List (List Line)) :
    groupsFrom groups (ls.flatMap (·.lines)) = groups ++ ls.map (·.lines) := by
  induction ls generalizing groups with
  | nil => exact (List.append_nil groups).symm
  | cons listing ls ih =>
    obtain ⟨hlisting, hls⟩ := List.forall_mem_cons.mp h
    obtain ⟨first, rest, hlines, hfirst, hrest⟩ := listing.shown.begins
    have hone : groupsFrom groups listing.lines = groups ++ [listing.lines] := by
      have hbegun : addToGroups groups first = groups ++ [[first]] := by
        rw [addToGroups, hfirst]
        rfl
      rw [hlines]
      change groupsFrom (addToGroups groups first) rest = _
      rw [hbegun, groupsFrom_rest (hrest.mpr hlisting)]
      rfl
    have happend : groupsFrom groups (listing.lines ++ ls.flatMap (·.lines)) =
        groupsFrom (groupsFrom groups listing.lines) (ls.flatMap (·.lines)) := List.foldl_append
    rw [List.flatMap_cons, happend, hone, ih hls, List.map_cons, List.append_assoc, List.singleton_append]

/-- Some texts with as many lines that begin one as there are texts. -/
theorem unsplit_of_countP {ls : List Listing} :
    ls.length ≤ (ls.flatMap (·.lines)).countP isPoolLine ∧
      ((ls.flatMap (·.lines)).countP isPoolLine ≤ ls.length → ∀ l ∈ ls, l.pool.Unsplit) := by
  induction ls with
  | nil => exact ⟨le_rfl, fun _ _ hl => nomatch hl⟩
  | cons listing ls ih =>
    obtain ⟨first, rest, hlines, hfirst, hrest⟩ := listing.shown.begins
    have hcount : listing.lines.countP isPoolLine = rest.countP isPoolLine + 1 := by
      rw [hlines, List.countP_cons_of_pos hfirst]
    rw [List.flatMap_cons, List.countP_append, hcount, List.length_cons]
    refine ⟨by omega, fun hle => List.forall_mem_cons.mpr ⟨hrest.mp ?_, ih.2 (by omega)⟩⟩
    have hzero : rest.countP isPoolLine = 0 := by omega
    exact fun l hl => Bool.eq_false_iff.mpr (List.countP_eq_zero.mp hzero l hl)

theorem length_splitPools (ls : List Listing) :
    (splitPools (text ls)).length = (ls.flatMap (·.lines)).countP isPoolLine := by
  rw [text, splitPools_unlines (plain_flatMap ls) (head_flatMap ls), List.length_map,
    (groupsFrom_nil (head_flatMap ls)).1]

theorem splitPools_listings {ls : List Listing} (h : ∀ l ∈ ls, l.pool.Unsplit) :
    splitPools (text ls) = ls.map (·.text) := by
  rw [text, splitPools_unlines (plain_flatMap ls) (head_flatMap ls), groupsFrom_listings h, List.nil_append,
    List.map_map]
  refine List.map_congr_left fun l _ => ?_
  rw [Listing.text, text, List.flatMap_singleton]
  rfl

/-- Rows make the forest of their indents. The tree of a pool is read from its text unless the pool is
named like one of its own auxiliary sections, and the trees of several pools are read from theirs unless
there is such a pool or a row named `pool:`. -/
theorem status_recovered (rows : List (Nat × ConfigRow)) (l : Listing) (ls : List Listing) :
    Nested rows (nest (State.leaves rows)) ∧ (Recovers l.pool l.text ↔ l.pool.Apart) ∧
    (List.Forall₂ (fun l block => Recovers l.pool block) ls (splitPools (text ls)) ↔
      ∀ l ∈ ls, l.pool.Apart ∧ l.pool.Unsplit) := by
  have hone : ∀ l : Listing, Recovers l.pool l.text ↔ l.pool.Apart := fun l =>
    recovers_iff l.shown l.lines_text
  have hall : ∀ ls : List Listing,
      List.Forall₂ (fun l block => Recovers l.pool block) ls (ls.map (·.text)) ↔ ∀ l ∈ ls, l.pool.Apart := by
    intro ls
    rw [List.forall₂_map_right_iff, List.forall₂_same]
    exact forall₂_congr fun l _ => hone l
  refine ⟨nest_nested rows, hone l, fun h => ?_, fun h => ?_⟩
  · have hunsplit : ∀ l ∈ ls, l.pool.Unsplit :=
      unsplit_of_countP.2 (by rw [← length_splitPools, ← h.length_eq])
    rw [splitPools_listings hunsplit, hall] at h
    exact fun l hl => ⟨h l hl, hunsplit l hl⟩
  · rw [splitPools_listings fun l hl => (h l hl).2, hall]
    exact fun l hl => (h l hl).1

/-! ## A pool named like its section -/

def online (name : String) : ConfigRow := ⟨name, some "ONLINE", some ⟨0, 0, 0⟩, ""⟩

def onlineFields (name : String) : List String := [name, "ONLINE", "0", "0", "0"]

theorem online_fields (name : String) : (online name).Fields (onlineFields name) :=
  .intro "ONLINE" [] rfl (by decide) rfl ⟨Nat.two_pow_pos 64, Nat.two_pow_pos 64, Nat.two_pow_pos 64⟩

/-- A pool `cache` with a disk and a cache device. -/
def cachePool : Pool where
  root := online "cache"
  sections := [⟨.data, [.leaf (online "/dev/sda")]⟩, ⟨.cache, [.leaf (online "/dev/sdb")]⟩]
  distinct := by decide
  data := by decide

def row (indent : Nat) (body : String) : Line := '\t' :: (List.replicate indent ' ' ++ body.toList)

def cacheConfig : List Line :=
  ["".toList, row 0 "NAME        STATE     READ WRITE CKSUM", row 0 "cache       ONLINE       0     0     0",
    row 2 "/dev/sda  ONLINE       0     0     0", row 0 "cache", row 2 "/dev/sdb  ONLINE       0     0     0",
    "".toList]

theorem cacheConfig_shown : ConfigShown cachePool.entries cacheConfig := by
  have hrow : ∀ {indent : Nat} {body : String} {fields : List String}, body.toList.head? ≠ some ' ' →
      splitWhitespace body.toList = fields → RowLine indent fields (row indent body) :=
    fun hhead hwords => .intro _ hhead hwords
  have htitles : splitWhitespace "NAME        STATE     READ WRITE CKSUM".toList =
      ["NAME", "STATE", "READ", "WRITE", "CKSUM"] := by decide
  refine .blank (by decide) (.titles (hrow (by decide) htitles) ?_)
  refine .entry (online_fields "cache") (hrow (by decide) (by decide)) ?_
  refine .entry (online_fields "/dev/sda") (hrow (by decide) (by decide)) ?_
  refine .entry (e := .heading .cache) rfl (hrow (by decide) (by decide)) ?_
  refine .entry (online_fields "/dev/sdb") (hrow (by decide) (by decide)) ?_
  exact .blank (by decide) .nil

def cacheListing : Listing where
  pool := cachePool
  lines := "  pool: cache".toList :: ([" state: ONLINE".toList] ++ "config:".toList ::
    (cacheConfig ++ ["errors: No known data errors".toList]))
  shown := by
    refine .intro _ cacheConfig _ ?_ cacheConfig_shown ?_
    · refine List.forall_mem_singleton.mpr ⟨fun value h => ?_, by decide⟩
      have hkey : statusKey " state: ONLINE".toList = some ("state", "ONLINE".toList) := by decide
      exact absurd (hkey.symm.trans h) (by simp)
    · have hkey : statusKey "errors: No known data errors".toList =
          some ("errors", "No known data errors".toList) := by decide
      refine ⟨by rw [hkey]; rfl, by decide, List.forall_mem_singleton.mpr ⟨fun value h => ?_, by decide⟩⟩
      exact absurd (hkey.symm.trans h) (by simp)
  plain := by decide

/-- The pool's name is valid, but the row of its cache is taken for the pool's own. -/
theorem not_status_recovered :
    ¬ ∀ l : Listing, Storage.Luks.isPoolName l.pool.root.name = true → Recovers l.pool l.text := by
  intro h
  have hapart : cachePool.Apart :=
    (recovers_iff cacheListing.shown cacheListing.lines_text).mp (h cacheListing (by decide))
  exact hapart ⟨.cache, [.leaf (online "/dev/sdb")]⟩ (by simp [cachePool]) (by decide) rfl

end Bmac.Adapters.Status
