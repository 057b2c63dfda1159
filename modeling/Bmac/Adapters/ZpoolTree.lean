import Bmac.Adapters.ZpoolShown

/-!
# The tree of a `zpool status` text

`parseStatus` reads the tree that the rows of a pool show (`recovers_iff`), except for a pool that is named
like one of its own auxiliary sections: the row that begins the section is then taken for the pool's, and
its vdevs become data.
-/

namespace Bmac.Adapters.Status

open Bmac.Base Bmac.Base.Indent Bmac.Base.Lines Bmac.Core

/-! ## The sections of a text -/

namespace Scan

variable {s : Scan} {line : Line} {name : String}

/-- The first pool named is `name`. -/
def Named (name : String) (s : Scan) : Prop := ∃ more, s.header.get? "pool" = some (name :: more)

theorem note_named (h : s.Named name) (key : String) (value : Option String) :
    ∃ more, (s.note key value).get? "pool" = some (name :: more) := by
  obtain ⟨more, hmore⟩ := h
  unfold note
  by_cases hkey : key = "pool"
  · subst hkey
    rw [Dict.get?_insert, hmore]
    exact ⟨more ++ value.toList, rfl⟩
  · rw [Dict.get?_insert_of_ne _ _ (Ne.symm hkey)]
    exact ⟨more, hmore⟩

theorem add_config (hcurrent : s.current = some "config")
    (hline : statusKey line = none ∨ line.head? = some '	') :
    s.add line = { s with configLines := s.configLines ++ [line] } := by
  have hextend : s.extend line = { s with configLines := s.configLines ++ [line] } := by
    unfold extend
    rw [hcurrent]
    rfl
  unfold add
  split
  · rename_i key value hkey
    have htab : line.head? = some '	' := hline.resolve_left (by rw [hkey]; exact Option.some_ne_none _)
    rw [if_pos ⟨hcurrent, htab⟩, hextend]
  · exact hextend

theorem add_configLines {ls : List Line} (hcurrent : s.current = some "config")
    (hls : ∀ l ∈ ls, statusKey l = none ∨ l.head? = some '	') :
    ls.foldl add s = { s with configLines := s.configLines ++ ls } := by
  induction ls generalizing s with
  | nil => rw [List.append_nil]; rfl
  | cons l ls ih =>
    obtain ⟨hl, hls⟩ := List.forall_mem_cons.mp hls
    have hadded : (s.add l).current = some "config" := by rw [add_config hcurrent hl, hcurrent]
    rw [List.foldl_cons, ih hadded hls, add_config hcurrent hl, List.append_assoc, List.singleton_append]

theorem begin_other (s : Scan) {key : String} (hkey : key ≠ "config") (value : Line) :
    (s.begin key value).current = some key ∧ (s.begin key value).configLines = s.configLines ∧
      ∀ name, s.Named name → (s.begin key value).Named name := by
  refine ⟨rfl, rfl, fun name h => ?_⟩
  have hheader : (s.begin key value).header =
      s.note key (if trim value = "" then none else some (trim value)) := if_neg hkey
  rw [Named, hheader]
  exact note_named h key _

theorem extend_outside (hcurrent : s.current ≠ some "config") :
    (s.extend line).current = s.current ∧ (s.extend line).configLines = s.configLines ∧
      ∀ name, s.Named name → (s.extend line).Named name := by
  unfold extend
  split
  · rename_i hconfig
    exact absurd hconfig hcurrent
  · split
    · exact ⟨rfl, rfl, fun _ => id⟩
    · exact ⟨rfl, rfl, fun _ h => note_named h _ _⟩
  · exact ⟨rfl, rfl, fun _ => id⟩

/-- Other lines add to the header only, and the pool's name stays first. -/
theorem add_aside (hcurrent : s.current ≠ some "config") (hline : Aside line) :
    (s.add line).current ≠ some "config" ∧ (s.add line).configLines = s.configLines ∧
      ∀ name, s.Named name → (s.add line).Named name := by
  unfold add
  split
  · rename_i key value hkey
    have hne : key ≠ "config" := fun h => hline.1 value (by rw [hkey, h])
    rw [if_neg fun h => hcurrent h.1]
    obtain ⟨hafter, hlines, hnamed⟩ := s.begin_other hne value
    exact ⟨by rw [hafter]; exact fun h => hne (Option.some.inj h), hlines, hnamed⟩
  · obtain ⟨hafter, hlines, hnamed⟩ := extend_outside hcurrent
    exact ⟨by rw [hafter]; exact hcurrent, hlines, hnamed⟩

theorem add_asides {ls : List Line} (hcurrent : s.current ≠ some "config") (hls : ∀ l ∈ ls, Aside l) :
    (ls.foldl add s).current ≠ some "config" ∧ (ls.foldl add s).configLines = s.configLines ∧
      ∀ name, s.Named name → (ls.foldl add s).Named name := by
  induction ls generalizing s with
  | nil => exact ⟨hcurrent, rfl, fun _ => id⟩
  | cons l ls ih =>
    obtain ⟨hl, hls⟩ := List.forall_mem_cons.mp hls
    obtain ⟨hafter, hlines, hnamed⟩ := add_aside hcurrent hl
    obtain ⟨hend, hmore, hkept⟩ := ih hafter hls
    exact ⟨hend, hmore.trans hlines, fun name h => hkept name (hnamed name h)⟩

theorem add_tail {ls : List Line} (hls : Tail ls) :
    (ls.foldl add s).configLines = s.configLines ∧
      ∀ name, s.Named name → (ls.foldl add s).Named name := by
  cases ls with
  | nil => exact ⟨rfl, fun _ => id⟩
  | cons line ls =>
    obtain ⟨hsome, htab, hall⟩ := hls
    obtain ⟨hline, hls⟩ := List.forall_mem_cons.mp hall
    obtain ⟨⟨key, value⟩, hkey⟩ := Option.isSome_iff_exists.mp hsome
    have hne : key ≠ "config" := fun h => hline.1 value (by rw [hkey, h])
    have hbegin : s.add line = s.begin key value := by
      unfold add
      rw [hkey]
      exact if_neg fun h => htab h.2
    obtain ⟨hafter, hlines, hnamed⟩ := s.begin_other hne value
    have hcurrent : (s.begin key value).current ≠ some "config" := by
      rw [hafter]
      exact fun h => hne (Option.some.inj h)
    obtain ⟨-, hmore, hkept⟩ := add_asides hcurrent hls
    rw [List.foldl_cons, hbegin]
    exact ⟨hmore.trans hlines, fun name h => hkept name (hnamed name h)⟩

end Scan

theorem statusKey_poolLine (name : String) :
    statusKey ("  pool: ".toList ++ name.toList) = some ("pool", name.toList) := by
  have hblank : ∀ c ∈ [' ', ' '], Text.isWhitespace c = true := by decide
  have hbody := dropWhile_append_key hblank isWord_pool (' ' :: name.toList)
  have hline : "  pool: ".toList ++ name.toList = [' ', ' '] ++ ("pool:".toList ++ ' ' :: name.toList) := rfl
  have hafter : afterKey "pool" (some 8) ("  pool: ".toList ++ name.toList) = some (' ' :: name.toList) := by
    rw [hline, afterKey, hbody, if_pos]
    · exact isPrefixOf?_eq_some.mpr rfl
    · simp
  rw [statusKey, statusKeys, List.findSome?_cons, hafter]
  rfl

theorem ConfigShown.line {es : List (Nat × Entry)} {ls : List Line} (h : ConfigShown es ls) :
    ∀ l ∈ ls, statusKey l = none ∨ l.head? = some '	' := by
  have hrow : ∀ {indent : Nat} {fields : List String} {line : Line}, RowLine indent fields line →
      statusKey line = none ∨ line.head? = some '	' := by
    rintro _ _ _ ⟨⟩
    exact .inr rfl
  induction h with
  | nil => exact fun _ hl => nomatch hl
  | blank htrim _ ih =>
    exact List.forall_mem_cons.mpr ⟨.inl (statusKey_of_blank (trim_eq_empty.mp htrim)), ih⟩
  | titles hline _ ih => exact List.forall_mem_cons.mpr ⟨hrow hline, ih⟩
  | entry _ hline _ ih => exact List.forall_mem_cons.mpr ⟨hrow hline, ih⟩

variable {p : Pool} {ls : List Line}

theorem Pool.root_mem_entries (p : Pool) : (0, .row p.root) ∈ p.entries := by
  obtain ⟨s, hs, hclass⟩ := List.mem_map.mp p.data
  refine List.mem_flatMap.mpr ⟨s, hs, ?_⟩
  rw [Section.entries, if_pos hclass]
  exact List.mem_cons_self

/-- What is read of a pool's text line by line: its name first, and the lines of its rows. -/
theorem Shown.scan (h : Shown p ls) : ConfigShown p.entries (ls.foldl Scan.add {}).configLines ∧
    (ls.foldl Scan.add {}).Named p.root.name := by
  obtain ⟨head, config, tail, hhead, hconfig, htail⟩ := h
  have hword : IsWord p.root.name := hconfig.isWord _ p.root_mem_entries
  have hfirst : Scan.add {} ("  pool: ".toList ++ p.root.name.toList) =
      { header := [("pool", [p.root.name])], current := some "pool" } := by
    unfold Scan.add
    rw [statusKey_poolLine]
    simp only [reduceCtorEq, false_and, if_false, Scan.begin, trim_word hword, if_neg hword.1]
    rfl
  have hcurrent : (some "pool" : Option String) ≠ some "config" := by decide
  obtain ⟨-, hheadLines, hheadNamed⟩ :=
    Scan.add_asides (s := { header := [("pool", [p.root.name])], current := some "pool" }) hcurrent hhead
  rw [List.foldl_cons, hfirst, List.foldl_append, List.foldl_cons, List.foldl_append]
  generalize head.foldl Scan.add _ = s at hheadLines hheadNamed ⊢
  have hopen : s.add "config:".toList = { s with current := some "config" } := by
    have hkey : statusKey "config:".toList = some ("config", []) := by decide
    unfold Scan.add
    rw [hkey]
    exact if_neg fun h => nomatch h.2
  rw [hopen, Scan.add_configLines rfl hconfig.line]
  obtain ⟨htailLines, htailNamed⟩ := Scan.add_tail
    (s := { s with configLines := s.configLines ++ config, current := some "config" }) htail
  constructor
  · rw [htailLines]
    change ConfigShown p.entries (s.configLines ++ config)
    rw [hheadLines]
    exact hconfig
  · exact htailNamed _ (hheadNamed _ ⟨[], rfl⟩)

/-! ## The config tree -/

theorem fromSection_asStr {c : VdevClass} (hc : c ≠ .data) : fromSection c.asStr = some c := by
  cases c with
  | data => exact absurd rfl hc
  | logs => rfl
  | cache => rfl
  | spares => rfl
  | special => rfl
  | dedup => rfl

theorem asStr_of_fromSection {name : String} {c : VdevClass} (h : fromSection name = some c) :
    name = c.asStr := by
  unfold fromSection at h
  split at h <;> cases h <;> rfl

variable {ss : List Section} {s : Section}

namespace Config

variable {pool : String} {c : Config}

theorem place_rows {rs : List (Nat × ConfigRow)} (h : ∀ r ∈ rs, r.1 ≠ 0) (root : Option ConfigNode)
    (done : List (VdevClass × List (Nat × ConfigNode))) («class» : VdevClass)
    (began : List (Nat × ConfigNode)) :
    rs.foldlM (fun (c : Config) r => c.place pool r.1 r.2) ⟨root, done ++ [(«class», began)]⟩ =
      .ok ⟨root, done ++ [(«class», began ++ State.leaves rs)]⟩ := by
  induction rs generalizing began with
  | nil =>
    have hnil : State.leaves ([] : List (Nat × ConfigRow)) = [] := rfl
    rw [hnil, List.append_nil]
    rfl
  | cons r rs ih =>
    obtain ⟨hr, hrs⟩ := List.forall_mem_cons.mp h
    have hplace : place pool ⟨root, done ++ [(«class», began)]⟩ r.1 r.2 =
        .ok ⟨root, done ++ [(«class», began ++ [(r.1, .leaf r.2)])]⟩ := by
      rw [place, if_neg hr, List.getLast?_concat, List.dropLast_concat]
    rw [List.foldlM_cons, hplace, ok_bind, ih hrs, List.append_assoc]
    rfl

theorem place_heading {name : String} {cls : VdevClass} (hclass : cls ≠ .data) (h : cls.asStr ≠ name) :
    c.place name 0 (Entry.heading cls).node = .ok ⟨c.root, c.sections ++ [(cls, [])]⟩ := by
  have hsection : fromSection (Entry.heading cls).node.name = some cls := fromSection_asStr hclass
  have hname : (Entry.heading cls).node.name ≠ name := h
  rw [place, if_pos rfl, if_neg hname, hsection]

theorem place_section {root : ConfigRow} (h : s.class ≠ .data → s.class.asStr ≠ root.name) :
    (s.entries root).foldlM (fun c e => c.place root.name e.1 e.2.node) c =
      .ok ⟨if s.class = .data then some (.leaf root) else c.root,
        c.sections ++ [(s.class, State.leaves (rows 2 2 s.vdevs))]⟩ := by
  have hhead : c.place root.name 0 (if s.class = .data then Entry.row root else .heading s.class).node =
      .ok ⟨if s.class = .data then some (.leaf root) else c.root, c.sections ++ [(s.class, [])]⟩ := by
    by_cases hdata : s.class = .data
    · rw [if_pos hdata, if_pos hdata, hdata]
      exact (if_pos rfl).trans (if_pos rfl)
    · rw [if_neg hdata, if_neg hdata]
      exact place_heading hdata (h hdata)
  have hdeep : ∀ r ∈ rows 2 2 s.vdevs, r.1 ≠ 0 := fun r hr =>
    (Nat.lt_of_lt_of_le Nat.two_pos (le_of_mem_rows s.vdevs hr)).ne'
  rw [Section.entries, List.foldlM_cons, hhead, ok_bind, List.foldlM_map]
  exact place_rows hdeep _ _ _ _

theorem place_sections {root : ConfigRow}
    (h : ∀ s ∈ ss, s.class ≠ .data → s.class.asStr ≠ root.name) :
    (ss.flatMap (·.entries root)).foldlM (fun c e => c.place root.name e.1 e.2.node) c =
      .ok ⟨if .data ∈ ss.map (·.class) then some (.leaf root) else c.root,
        c.sections ++ ss.map fun s => (s.class, State.leaves (rows 2 2 s.vdevs))⟩ := by
  induction ss generalizing c with
  | nil =>
    rw [List.flatMap_nil, List.map_nil, List.map_nil, List.append_nil, if_neg List.not_mem_nil]
    rfl
  | cons s ss ih =>
    obtain ⟨hs, hss⟩ := List.forall_mem_cons.mp h
    have hroot : (if .data ∈ ss.map (·.class) then some (.leaf root)
        else if s.class = .data then some (.leaf root) else c.root) =
        if .data ∈ (s :: ss).map (·.class) then some (Rose.leaf root) else c.root := by
      have hmem : VdevClass.data ∈ (s :: ss).map (·.class) ↔
          s.class = .data ∨ VdevClass.data ∈ ss.map (·.class) := by
        rw [List.map_cons, List.mem_cons, eq_comm]
      by_cases hdata : s.class = .data
      · rw [if_pos hdata, ite_self, if_pos (hmem.mpr (.inl hdata))]
      · rw [if_neg hdata]
        exact if_congr (hmem.trans (or_iff_right hdata)).symm rfl rfl
    rw [List.flatMap_cons, List.foldlM_append, place_section hs, ok_bind, ih hss, hroot, List.append_assoc]
    rfl

/-- A section is of data, or was begun by a row with its name, which isn't the pool's. -/
def Begun (pool : String) (c : Config) : Prop := ∀ s ∈ c.sections, s.1 = .data ∨ s.1.asStr ≠ pool

theorem begun_snoc {root root' : Option ConfigNode} {ss : List (VdevClass × List (Nat × ConfigNode))}
    (h : Begun pool ⟨root, ss⟩) {s : VdevClass × List (Nat × ConfigNode)} (hs : s.1 = .data ∨ s.1.asStr ≠ pool) :
    Begun pool ⟨root', ss ++ [s]⟩ := by
  intro x hx
  rcases List.mem_append.mp hx with hx | hx
  · exact h x hx
  · rw [List.mem_singleton.mp hx]
    exact hs

theorem begun_place {c' : Config} {indent : Nat} {node : ConfigRow} (h : Begun pool c)
    (hplace : c.place pool indent node = .ok c') : Begun pool c' := by
  unfold place at hplace
  split at hplace
  · split at hplace
    · cases hplace
      exact begun_snoc h (.inl rfl)
    · rename_i hname
      split at hplace
      · rename_i «class» hclass
        cases hplace
        exact begun_snoc h (.inr (asStr_of_fromSection hclass ▸ hname))
      · cases hplace
  · split at hplace
    · rename_i «class» rs hlast
      cases hplace
      have hmem : («class», rs) ∈ c.sections := List.mem_of_getLast? hlast
      have hinit : Begun pool ⟨c.root, c.sections.dropLast⟩ := fun x hx => h x (List.mem_of_mem_dropLast hx)
      have hclass : «class» = .data ∨ «class».asStr ≠ pool := h («class», rs) hmem
      exact begun_snoc hinit hclass
    · cases hplace

theorem begun_add {c' : Config} {line : Line} (h : Begun pool c) (hadd : c.add pool line = .ok c') :
    Begun pool c' := by
  unfold add at hadd
  split at hadd
  · cases hadd
    exact h
  · generalize (if line.head? = some '\t' then line.tail else line) = body at hadd
    dsimp only at hadd
    split at hadd
    · cases hadd
      exact h
    · obtain ⟨node, -, hplace⟩ := bind_eq_ok.mp hadd
      exact begun_place h hplace

end Config

/-! ## The sections of a pool -/

theorem class_of_mem_merge {«class» : VdevClass} {vdevs : List ConfigNode}
    (h : s ∈ merge «class» vdevs ss) : s.class = «class» ∨ ∃ t ∈ ss, t.class = s.class := by
  induction ss with
  | nil => exact .inl (congrArg Section.class (List.mem_singleton.mp h))
  | cons t ss ih =>
    unfold merge at h
    split at h
    · rcases List.mem_cons.mp h with rfl | h
      · exact .inr ⟨t, List.mem_cons_self, rfl⟩
      · exact .inr ⟨s, List.mem_cons_of_mem t h, rfl⟩
    · rcases List.mem_cons.mp h with rfl | h
      · exact .inr ⟨s, List.mem_cons_self, rfl⟩
      · exact (ih h).imp_right fun ⟨u, hu, hclass⟩ => ⟨u, List.mem_cons_of_mem t hu, hclass⟩

/-- No class is merged that no section has. -/
theorem class_of_mem_merged {xs : List (VdevClass × List (Nat × ConfigNode))} {done : List Section}
    (h : s ∈ xs.foldl (fun merged (c, rows) => merge c (nest rows) merged) done) :
    (∃ t ∈ done, t.class = s.class) ∨ ∃ x ∈ xs, x.1 = s.class := by
  induction xs generalizing done with
  | nil => exact .inl ⟨s, h, rfl⟩
  | cons x xs ih =>
    rcases ih h with ⟨t, ht, hclass⟩ | ⟨y, hy, hclass⟩
    · rcases class_of_mem_merge ht with hx | ⟨u, hu, hclass'⟩
      · exact .inr ⟨x, List.mem_cons_self, hx.symm.trans hclass⟩
      · exact .inl ⟨u, hu, hclass'.trans hclass⟩
    · exact .inr ⟨y, List.mem_cons_of_mem x hy, hclass⟩

theorem merge_new {«class» : VdevClass} (vdevs : List ConfigNode)
    (h : «class» ∉ ss.map (·.class)) : merge «class» vdevs ss = ss ++ [⟨«class», vdevs⟩] := by
  induction ss with
  | nil => rfl
  | cons s ss ih =>
    rw [List.map_cons, List.mem_cons, not_or] at h
    rw [merge, if_neg (Ne.symm h.1), ih h.2, List.cons_append]

theorem merge_sections {ss done : List Section} (h : ((done ++ ss).map (·.class)).Nodup) :
    (ss.map fun s => (s.class, State.leaves (rows 2 2 s.vdevs))).foldl
      (fun merged (c, rows) => merge c (nest rows) merged) done = done ++ ss := by
  induction ss generalizing done with
  | nil => rw [List.append_nil]; rfl
  | cons s ss ih =>
    have hnew : s.class ∉ done.map (·.class) := by
      rw [List.map_append, List.nodup_append] at h
      exact fun hmem => h.2.2 _ hmem _ List.mem_cons_self rfl
    have hnest : nest (State.leaves (rows 2 2 s.vdevs)) = s.vdevs := nest_rows Nat.two_pos 2 s.vdevs
    rw [List.map_cons, List.foldl_cons]
    dsimp only
    rw [hnest, merge_new _ hnew, ih (by simpa using h), List.append_assoc,
      List.singleton_append]

theorem parseStatus_lines (h : Shown p ls) {input : String} (hlines : lines input.toList = ls) :
    ∃ config, ConfigShown p.entries config ∧ ∃ header, parseStatus input =
      config.foldlM (Config.add p.root.name) {} >>= fun c =>
        let merged := c.sections.foldl (fun merged (c, rows) => merge c (nest rows) merged) []
        .ok ⟨p.root.name, c.root.getD (.leaf ⟨p.root.name, none, none, ""⟩), header,
          if merged.any (·.class = .data) then merged else ⟨.data, []⟩ :: merged⟩ := by
  obtain ⟨hconfig, more, hname⟩ := h.scan
  refine ⟨_, hconfig, (ls.foldl Scan.add {}).header, ?_⟩
  unfold parseStatus
  rw [hlines]
  simp only [hname, Option.bind_some, List.head?_cons, ofOption_some, ok_bind]
  rfl

/-- The text of a pool is read as its tree unless the pool is named like one of its own sections. -/
theorem recovers_iff (h : Shown p ls) {input : String} (hlines : lines input.toList = ls) :
    Recovers p input ↔ p.Apart := by
  obtain ⟨config, hconfig, header, hparse⟩ := parseStatus_lines h hlines
  constructor
  · rintro ⟨status, hok, hpool⟩ s hs hdata hname
    rw [hparse] at hok
    obtain ⟨c, hc, hstatus⟩ := bind_eq_ok.mp hok
    have hbegun : Config.Begun p.root.name c :=
      foldlM_invariant (fun _ _ _ => Config.begun_add) hc fun _ hmem => nomatch hmem
    obtain rfl := Except.ok.inj hstatus
    -- the section is among those read, so a row with its name began it
    have hmem : s ∈ c.sections.foldl (fun merged (c, rows) => merge c (nest rows) merged) [] := by
      have hread := hpool.sections.symm ▸ hs
      dsimp only at hread
      split at hread
      · exact hread
      · refine (List.mem_cons.mp hread).resolve_left fun heq => ?_
        rw [heq] at hdata
        exact hdata rfl
    obtain ⟨t, ht, -⟩ | ⟨x, hx, hclass⟩ := class_of_mem_merged hmem
    · cases ht
    · rw [← hclass] at hdata hname
      exact (hbegun x hx).elim hdata fun hne => hne hname
  · intro hapart
    have hplaced : config.foldlM (Config.add p.root.name) {} =
        .ok ⟨some (.leaf p.root), p.sections.map fun s => (s.class, State.leaves (rows 2 2 s.vdevs))⟩ := by
      rw [Config.add_lines hconfig, Pool.entries, Config.place_sections hapart, if_pos p.data]
      rfl
    have hmerged : (p.sections.map fun s => (s.class, State.leaves (rows 2 2 s.vdevs))).foldl
        (fun merged (c, rows) => merge c (nest rows) merged) [] = p.sections :=
      @merge_sections _ [] p.distinct
    have hany : p.sections.any (·.class = .data) = true := by
      obtain ⟨s, hs, hclass⟩ := List.mem_map.mp p.data
      exact List.any_eq_true.mpr ⟨s, hs, by simpa using hclass⟩
    refine ⟨_, by rw [hparse, hplaced, ok_bind], ⟨rfl, rfl, ?_⟩⟩
    dsimp only
    rw [hmerged, if_pos hany]

end Bmac.Adapters.Status
