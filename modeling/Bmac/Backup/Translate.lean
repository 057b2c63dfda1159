import Bmac.Backup.Config
import Bmac.Base.Split

/-!
# The configuration of a restored VM

`translate` of `bmac-backup/src/restore.rs`: what each setting of the original's configuration becomes in the
restored VM's, with the option lists it is made of.
-/

namespace Bmac.Backup

open Bmac.Base Bmac.Core

/-- Configuration keys that name another VM's state. -/
def dropped : List String := ["parent", "lock", "digest", "snaptime", "vmstate", "meta", "unused"]

/-- The VM a restore creates. -/
structure VmConfig where
  /-- Options for `qm create`, without disks. -/
  options : List (String × String)
  /-- Each restored volume's slot and value. -/
  disks : List (String × String)
  leftOut : List String
  deriving DecidableEq

/-- `split('=').next()`. -/
def partKey (part : String) : String := (Text.split '=' part).headD ""

/-- One option list (`a,b=c,d`) with `key=` options replaced or removed. -/
def withOptions (value : String) (drop : List String) (set : List (String × String)) : String :=
  let parts := (Text.split ',' value).filter fun p => !drop.any fun d => partKey p = d
  let parts := set.foldl (fun parts (key, val) =>
    parts.filter (fun p => partKey p ≠ key) ++ [key ++ "=" ++ val]) parts
  Text.join "," parts

def numbered (key start : String) : Bool :=
  (Text.stripStart start key).any fun n => n ≠ "" && n.toList.all Text.isDigit

def isBusSlot (key : String) : Bool :=
  ["scsi", "virtio", "sata", "ide"].any fun bus => numbered key bus

/-- Whose identity a restored VM has. -/
inductive Identity where
  | new (uuid : Uuid)
  | same

/-- `value.contains(pat)`. -/
def contains (value pat : String) : Bool := (Text.splitBefore pat.toList value.toList).isSome

/-- A drive's value with its volume replaced. -/
def driveValue (id value : String) : String :=
  match Text.splitOnce ',' value with
  | some (_, rest) => id ++ "," ++ rest
  | none => id

/-- What becomes of a setting. -/
inductive Carried where
  | skipped
  | disk (value : String)
  | option (value : String)
  | leftOut (text : String)

section

variable (volumes : Dict String) (isolate : Bool) (identity : Identity)

def translateNet (value : String) : String :=
  let (first, rest) := (Text.splitOnce ',' value).getD (value, "")
  let model := ((Text.splitOnce '=' first).map (·.1)).getD first
  let joined := if rest = "" then model else model ++ "," ++ rest
  let link := if isolate then [("link_down", "1")] else []
  match identity with
  | .new _ => withOptions joined ["macaddr"] link
  | .same => withOptions value [] link

def translateSetting (key value : String) : Carried :=
  if key = "name" ∨ dropped.any fun d => key = d || numbered key d then .skipped
  else match volumes.get? key with
  | some id => .disk (driveValue id value)
  | none =>
    if isBusSlot key ∨ key = "efidisk0" ∨ key = "tpmstate0" then
      if (Text.split ',' value).any (Text.trim · = "media=cdrom") then .option "none,media=cdrom"
      else .leftOut s!"{key} ({value}) isn't in the PIT"
    else if numbered key "hostpci" ∨ (numbered key "usb" ∧ contains value "host=") then
      .leftOut s!"{key} ({value}) is a device of the original host"
    else if key = "hookscript" then .leftOut s!"hookscript {value}"
    else if numbered key "net" then .option (translateNet isolate identity value)
    else if key = "smbios1" then match identity with
      | .new uuid => .option (withOptions value [] [("uuid", uuid.text)])
      | .same => .option value
    else if key = "vmgenid" then .option "1"
    else if key = "onboot" then .option "0"
    else if key = "startup" ∧ isolate then .skipped
    else .option value

def VmConfig.add (out : VmConfig) (key : String) : Carried → VmConfig
  | .skipped => out
  | .disk value => { out with disks := out.disks ++ [(key, value)] }
  | .option value => { out with options := out.options ++ [(key, value)] }
  | .leftOut text => { out with leftOut := out.leftOut ++ [text] }

/-- The restored VM's configuration: `volumes` gives each restored slot its new volume ID. -/
def translate (manifest : Manifest) (name : String) : Except String VmConfig := do
  manifest.volumes.forM fun volume =>
    if (volumes.get? volume.slot).isNone then .error s!"{volume.slot} has no restored volume" else .ok ()
  let out := manifest.config.foldl (fun out (key, value) =>
    out.add key (translateSetting volumes isolate identity key value)) ⟨[("name", name)], [], []⟩
  if out.options.any (·.1 = "onboot") then return out
  else return { out with options := out.options ++ [("onboot", "0")] }

end

/-! ## Option lists -/

variable {sep : Char} {parts drop : List String} {part : String}

theorem splitOnce_append {glue : String} (hglue : glue.toList = [sep]) {a : String}
    (h : sep ∉ a.toList) (b : String) : Text.splitOnce sep (a ++ glue ++ b) = some (a, b) := by
  rw [Text.splitOnce, String.toList_append, String.toList_append, hglue, List.append_assoc,
    List.singleton_append, Text.splitBefore_of_not_mem h]
  simp

variable {key value : String} {set : List (String × String)}

theorem partKey_append (h : '=' ∉ key.toList) (value : String) :
    partKey (key ++ "=" ++ value) = key := by
  have hparts : (key.toList ++ '=' :: value.toList).splitOn '=' = key.toList :: value.toList.splitOn '=' :=
    List.splitOnP_append_cons_of_forall_mem (fun c hc => by simpa using fun heq : c = '=' => h (heq ▸ hc)) _
      (by simp) _
  rw [partKey, Text.split, String.toList_append, String.toList_append, List.append_assoc,
    show "=".toList = ['='] from rfl, List.singleton_append, hparts]
  simp

/-- The options that `withOptions` joins. -/
def optionParts (value : String) (drop : List String) (set : List (String × String)) : List String :=
  set.foldl (fun parts (key, val) => parts.filter (fun p => partKey p ≠ key) ++ [key ++ "=" ++ val])
    ((Text.split ',' value).filter fun p => !drop.any fun d => partKey p = d)

theorem withOptions_eq (value : String) (drop : List String) (set : List (String × String)) :
    withOptions value drop set = Text.join "," (optionParts value drop set) := rfl

theorem mem_foldl_parts
    (h : part ∈ set.foldl (fun parts (key, val) =>
      parts.filter (fun p => partKey p ≠ key) ++ [key ++ "=" ++ val]) parts) :
    part ∈ parts ∨ ∃ key val, (key, val) ∈ set ∧ part = key ++ "=" ++ val := by
  induction set generalizing parts with
  | nil => exact .inl h
  | cons entry set ih =>
    obtain ⟨key, val⟩ := entry
    rcases ih h with hmem | ⟨key', val', hmem, rfl⟩
    · rcases List.mem_append.mp hmem with hmem | hmem
      · exact .inl (List.mem_of_mem_filter hmem)
      · exact .inr ⟨key, val, List.mem_cons_self, List.mem_singleton.mp hmem⟩
    · exact .inr ⟨key', val', List.mem_cons_of_mem _ hmem, rfl⟩

/-- An option is one of the value's that isn't dropped, or a new one. -/
theorem mem_optionParts (h : part ∈ optionParts value drop set) :
    (part ∈ Text.split ',' value ∧ partKey part ∉ drop) ∨
      ∃ key val, (key, val) ∈ set ∧ part = key ++ "=" ++ val := by
  refine (mem_foldl_parts h).imp_left fun hmem => ?_
  obtain ⟨hmem, hdrop⟩ := List.mem_filter.mp hmem
  simp only [Bool.not_eq_true', List.any_eq_false, decide_eq_true_eq] at hdrop
  exact ⟨hmem, fun hin => hdrop _ hin rfl⟩

/-- What is set can be told from the other options. -/
def Plain (set : List (String × String)) : Prop :=
  ∀ key val, (key, val) ∈ set → ',' ∉ (key ++ "=" ++ val).toList

theorem split_withOptions (hset : Plain set) (hne : optionParts value drop set ≠ []) :
    Text.split ',' (withOptions value drop set) = optionParts value drop set := by
  rw [withOptions_eq]
  refine Text.split_join (by rfl) hne fun part hpart => ?_
  rcases mem_optionParts hpart with ⟨hmem, -⟩ | ⟨key, val, hmem, rfl⟩
  · exact Text.not_mem_of_mem_split hmem
  · exact hset key val hmem

/-- What `withOptions` writes has no option but those it joins, and the empty one. -/
theorem mem_split_withOptions
    (hset : Plain set) (h : part ∈ Text.split ',' (withOptions value drop set)) :
    part = "" ∨ part ∈ optionParts value drop set := by
  by_cases hne : optionParts value drop set = []
  · rw [withOptions_eq, hne] at h
    exact .inl (List.mem_singleton.mp h)
  · rw [split_withOptions hset hne] at h
    exact .inr h

/-- An option that is set is there once, with its new value. -/
theorem withOptions_set (value : String) (drop : List String) {val : String} (hkey : '=' ∉ key.toList)
    (hset : Plain [(key, val)]) :
    (Text.split ',' (withOptions value drop [(key, val)])).filter (partKey · = key) = [key ++ "=" ++ val] := by
  have hparts : optionParts value drop [(key, val)] =
      ((Text.split ',' value).filter fun p => !drop.any fun d => partKey p = d).filter (fun p => partKey p ≠ key) ++
        [key ++ "=" ++ val] := rfl
  rw [split_withOptions hset (by simp [hparts]), hparts, List.filter_append, List.filter_filter]
  simp [partKey_append hkey]

/-! ## Keys -/

/-- The key of a disk, or of the firmware's or the TPM's volume. -/
def IsDrive (key : String) : Prop := isBusSlot key ∨ key = "efidisk0" ∨ key = "tpmstate0"

/-- A key without its number. -/
def stem (key : String) : List Char := key.toList.takeWhile fun c => !Text.isDigit c

theorem stem_of_numbered {start : String} (hstart : start.toList.all (!Text.isDigit ·) = true)
    (h : numbered key start = true) : stem key = start.toList := by
  rw [numbered, Text.stripStart] at h
  cases hrest : start.toList.isPrefixOf? key.toList with
  | none =>
    rw [hrest] at h
    cases h
  | some rest =>
    rw [hrest, Option.map_some, Option.any_some, String.toList_ofList, Bool.and_eq_true] at h
    rw [stem, isPrefixOf?_eq_some.mp hrest, List.takeWhile_append_of_pos (List.all_eq_true.mp hstart)]
    cases rest with
    | nil => rw [List.takeWhile_nil, List.append_nil]
    | cons c rest =>
      have hc : Text.isDigit c = true := List.all_eq_true.mp h.2 c List.mem_cons_self
      rw [List.takeWhile_cons_of_neg (by simp [hc]), List.append_nil]

def driveStems : List (List Char) :=
  ["scsi".toList, "virtio".toList, "sata".toList, "ide".toList, "efidisk".toList, "tpmstate".toList]

theorem stem_of_drive (h : IsDrive key) : stem key ∈ driveStems := by
  rcases h with h | rfl | rfl
  · obtain ⟨bus, hbus, hnumbered⟩ := List.any_eq_true.mp h
    have hplain : ∀ bus ∈ ["scsi", "virtio", "sata", "ide"],
        bus.toList.all (!Text.isDigit ·) = true ∧ bus.toList ∈ driveStems := by decide
    rw [stem_of_numbered (hplain bus hbus).1 hnumbered]
    exact (hplain bus hbus).2
  · decide
  · decide

theorem isDrive_of_diskRole {role : VolumeRole} (h : diskRole key = some role) : IsDrive key := by
  unfold diskRole at h
  split at h
  · exact .inr (.inl ‹_›)
  · split at h
    · exact .inr (.inr ‹_›)
    · split at h
      · exact .inl ‹_›
      · cases h

/-- The drives' keys aren't those of other settings. -/
theorem not_isDrive {key : String} (h : stem key ∉ driveStems) : ¬ IsDrive key :=
  fun hdrive => h (stem_of_drive hdrive)

theorem not_isDrive_of_numbered {start : String} (hstart : start.toList.all (!Text.isDigit ·) = true)
    (hother : start.toList ∉ driveStems) (h : numbered key start = true) : ¬ IsDrive key :=
  not_isDrive (stem_of_numbered hstart h ▸ hother)

theorem not_dropped (h : IsDrive key) :
    ¬ (key = "name" ∨ dropped.any fun d => key = d || numbered key d) := by
  rintro (rfl | hany)
  · exact absurd h (not_isDrive (by decide))
  · obtain ⟨d, hd, hkey⟩ := List.any_eq_true.mp hany
    have hplain : ∀ d ∈ dropped, d.toList.all (!Text.isDigit ·) = true ∧ stem d = d.toList ∧
        d.toList ∉ driveStems := by decide
    obtain ⟨hdigits, hstem, hother⟩ := hplain d hd
    rcases Bool.or_eq_true_iff.mp hkey with heq | hnumbered
    · rw [of_decide_eq_true heq] at h
      exact not_isDrive (hstem ▸ hother) h
    · exact not_isDrive_of_numbered hdigits hother hnumbered h

/-! ## Settings -/

section

variable {volumes : Dict String} {isolate : Bool} {identity : Identity} {key value : String}

/-- The volume of a drive's value, as `disks` reads it. -/
def volumeOf (value : String) : String := Text.trim ((Text.split ',' value).headD "")

/-- A drive's value that names a volume, with the options of another value: what stands after its first comma. -/
inductive NamesVolume (id original : String) : String → Prop where
  | bare (h : ',' ∉ original.toList) : NamesVolume id original id
  | options {first rest : String} (h : ',' ∉ first.toList) (heq : original = first ++ "," ++ rest) :
      NamesVolume id original (id ++ "," ++ rest)

theorem toList_options (id rest : String) : (id ++ "," ++ rest).toList = id.toList ++ ',' :: rest.toList := by
  rw [String.toList_append, String.toList_append, List.append_assoc]
  rfl

theorem namesVolume_driveValue (id value : String) : NamesVolume id value (driveValue id value) := by
  unfold driveValue
  cases hsplit : Text.splitOnce ',' value with
  | none =>
    refine .bare fun hmem => ?_
    obtain ⟨first, rest, hsome⟩ := Text.exists_splitOnce hmem
    rw [hsplit] at hsome
    cases hsome
  | some parts =>
    obtain ⟨first, rest⟩ := parts
    obtain ⟨htext, hfirst⟩ := Text.splitOnce_eq_some.mp hsplit
    exact .options hfirst (String.toList_inj.mp (htext.trans (toList_options first rest).symm))

/-- What stands before the first separator. -/
theorem head_splitOnP (p : Char → Bool) (cs rest : List Char) (hsep : p sep = true) :
    ((cs ++ sep :: rest).splitOnP p).headD [] = (cs.splitOnP p).headD [] := by
  induction cs with
  | nil => simp [List.splitOnP_cons_eq_if_modifyHead, hsep]
  | cons c cs ih =>
    rw [List.cons_append, List.splitOnP_cons_eq_if_modifyHead, List.splitOnP_cons_eq_if_modifyHead]
    split
    · rfl
    · obtain ⟨first, parts, hparts⟩ := List.exists_cons_of_ne_nil (List.splitOnP_ne_nil p cs)
      obtain ⟨first', parts', hparts'⟩ := List.exists_cons_of_ne_nil (List.splitOnP_ne_nil p (cs ++ sep :: rest))
      rw [hparts, hparts'] at ih ⊢
      exact congrArg (c :: ·) ih

theorem volumeOf_append (id rest : String) : volumeOf (id ++ "," ++ rest) = volumeOf id := by
  have hhead (value : String) : (Text.split ',' value).headD "" =
      String.ofList ((value.toList.splitOnP (· == ',')).headD []) := by
    rw [Text.split, List.splitOn]
    cases value.toList.splitOnP (· == ',') <;> rfl
  rw [volumeOf, hhead, volumeOf, hhead, toList_options, head_splitOnP _ _ _ (by rfl)]

theorem NamesVolume.volumeOf_eq {id original value : String} (h : NamesVolume id original value) :
    volumeOf value = volumeOf id := by
  cases h with
  | bare => rfl
  | options => exact volumeOf_append id _

theorem contains_iff {value pat : String} : contains value pat = true ↔ pat.toList <:+: value.toList := by
  unfold contains
  induction value.toList with
  | nil =>
    by_cases hpat : pat.toList = [] <;> simp [Text.splitBefore, hpat]
  | cons c cs ih =>
    rw [Text.splitBefore, List.infix_cons_iff, ← ih, ← List.isPrefixOf_iff_prefix]
    by_cases hstart : pat.toList.isPrefixOf (c :: cs) = true <;> simp [hstart]

/-- What is found on neither side of a separator holds the separator. -/
theorem infix_or_infix {text before after : List Char} (htext : sep ∉ text)
    (h : text <:+: before ++ sep :: after) : text <:+: before ∨ text <:+: after := by
  have hnil {start : List Char} (hstart : start <+: sep :: after) (hsep : sep ∉ start) : start = [] := by
    cases start with
    | nil => rfl
    | cons c start =>
      obtain ⟨rfl, -⟩ := List.cons_prefix_cons.mp hstart
      exact absurd List.mem_cons_self hsep
  rcases List.infix_append_iff.mp h with hbefore | hafter | ⟨left, right, rfl, hleft, hright⟩
  · exact .inl hbefore
  · rcases List.infix_cons_iff.mp hafter with hstart | hafter
    · rw [hnil hstart htext]
      exact .inl List.nil_infix
    · exact .inr hafter
  · rw [hnil hright fun hmem => htext (List.mem_append_right left hmem), List.append_nil]
    exact .inl hleft.isInfix

/-- A text without commas that is in the value is in the volume or in the options. -/
theorem NamesVolume.contains {id original value text : String} (h : NamesVolume id original value)
    (htext : ',' ∉ text.toList) (hin : contains value text = true) :
    contains id text = true ∨ ∃ first rest, Text.splitOnce ',' original = some (first, rest) ∧
      Backup.contains rest text = true := by
  cases h with
  | bare => exact .inl hin
  | @options first rest hfirst heq =>
    rw [contains_iff, toList_options] at hin
    rcases infix_or_infix htext hin with hid | hrest
    · exact .inl (contains_iff.mpr hid)
    · have hsplit : Text.splitOnce ',' original = some (first, rest) :=
        Text.splitOnce_eq_some.mpr ⟨heq ▸ toList_options first rest, hfirst⟩
      exact .inr ⟨first, rest, hsplit, contains_iff.mpr hrest⟩

theorem translateSetting_captured (hdrive : IsDrive key) {id : String} (hid : volumes.get? key = some id) :
    translateSetting volumes isolate identity key value = .disk (driveValue id value) := by
  unfold translateSetting
  rw [if_neg (not_dropped hdrive), hid]

variable {v : String}

theorem translateSetting_disk (h : translateSetting volumes isolate identity key value = .disk v) :
    ∃ id, volumes.get? key = some id ∧ v = driveValue id value := by
  unfold translateSetting at h
  split at h
  · cases h
  · split at h
    · rename_i id hid
      cases h
      exact ⟨id, hid, rfl⟩
    · split_ifs at h
      cases identity with
      | new => cases h
      | same => cases h

/-- What an option is carried over as. -/
inductive CarriedAs (isolate : Bool) (identity : Identity) (key value : String) : String → Prop where
  | drive (h : IsDrive key) : CarriedAs isolate identity key value "none,media=cdrom"
  | net (h : numbered key "net") : CarriedAs isolate identity key value (translateNet isolate identity value)
  | new (uuid : Uuid) (h : key = "smbios1") (hnew : identity = .new uuid) :
      CarriedAs isolate identity key value (withOptions value [] [("uuid", uuid.text)])
  | same (h : key = "smbios1") (hsame : identity = .same) : CarriedAs isolate identity key value value
  | generation (h : key = "vmgenid") : CarriedAs isolate identity key value "1"
  | onboot (h : key = "onboot") : CarriedAs isolate identity key value "0"
  | other (hdrive : ¬ IsDrive key) (hnet : numbered key "net" = false) (hhost : numbered key "hostpci" = false)
      (h : key ∉ ["smbios1", "vmgenid", "onboot", "hookscript"]) : CarriedAs isolate identity key value value

/-- An option is carried over only where nothing names it or leaves it out. -/
theorem translateSetting_option (h : translateSetting volumes isolate identity key value = .option v) :
    ¬ (key = "name" ∨ dropped.any fun d => key = d || numbered key d) ∧ volumes.get? key = none ∧
      CarriedAs isolate identity key value v := by
  unfold translateSetting at h
  split at h
  · cases h
  · rename_i hkept
    split at h
    · cases h
    · rename_i hnone
      refine ⟨hkept, hnone, ?_⟩
      split at h
      · rename_i hdrive
        split at h
        · cases h
          exact .drive hdrive
        · cases h
      · rename_i hdrive
        split at h
        · cases h
        · rename_i hhost
          split at h
          · cases h
          · rename_i hhook
            split at h
            · rename_i hnet
              cases h
              exact .net hnet
            · rename_i hnet
              split at h
              · rename_i hsmbios
                split at h
                · cases h
                  exact .new _ hsmbios rfl
                · cases h
                  exact .same hsmbios rfl
              · split at h
                · cases h
                  exact .generation ‹_›
                · split at h
                  · cases h
                    exact .onboot ‹_›
                  · split at h
                    · cases h
                    · cases h
                      refine .other hdrive (by simpa using hnet) ?_ (by simp_all)
                      simpa using fun hnumbered => hhost (.inl hnumbered)

theorem CarriedAs.of_drive (h : CarriedAs isolate identity key value v) (hdrive : IsDrive key) :
    v = "none,media=cdrom" := by
  cases h with
  | drive => rfl
  | net hnet => exact absurd hdrive (not_isDrive_of_numbered (by decide) (by decide) hnet)
  | new _ hkey => exact absurd (hkey ▸ hdrive) (not_isDrive (by decide))
  | same hkey => exact absurd (hkey ▸ hdrive) (not_isDrive (by decide))
  | generation hkey => exact absurd (hkey ▸ hdrive) (not_isDrive (by decide))
  | onboot hkey => exact absurd (hkey ▸ hdrive) (not_isDrive (by decide))
  | other hnot => exact absurd hdrive hnot

theorem CarriedAs.of_net (h : CarriedAs isolate identity key value v) (hnet : numbered key "net" = true) :
    v = translateNet isolate identity value := by
  cases h with
  | drive hdrive => exact absurd hdrive (not_isDrive_of_numbered (by decide) (by decide) hnet)
  | net => rfl
  | new _ hkey => exact absurd (hkey ▸ hnet) (by decide)
  | same hkey => exact absurd (hkey ▸ hnet) (by decide)
  | generation hkey => exact absurd (hkey ▸ hnet) (by decide)
  | onboot hkey => exact absurd (hkey ▸ hnet) (by decide)
  | other _ hnot => exact absurd hnet (by simp [hnot])

theorem CarriedAs.of_smbios {uuid : Uuid} (h : CarriedAs isolate (.new uuid) "smbios1" value v) :
    v = withOptions value [] [("uuid", uuid.text)] := by
  cases h with
  | drive hdrive => exact absurd hdrive (not_isDrive (by decide))
  | net hnet => exact absurd hnet (by decide)
  | new _ _ hnew =>
    cases hnew
    rfl
  | same _ hsame => cases hsame
  | generation hkey => exact absurd hkey (by decide)
  | onboot hkey => exact absurd hkey (by decide)
  | other _ _ _ hkey => exact absurd hkey (by decide)

theorem CarriedAs.of_generation (h : CarriedAs isolate identity "vmgenid" value v) : v = "1" := by
  cases h with
  | drive hdrive => exact absurd hdrive (not_isDrive (by decide))
  | net hnet => exact absurd hnet (by decide)
  | new _ hkey => exact absurd hkey (by decide)
  | same hkey => exact absurd hkey (by decide)
  | generation => rfl
  | onboot hkey => exact absurd hkey (by decide)
  | other _ _ _ hkey => exact absurd hkey (by decide)

theorem CarriedAs.of_onboot (h : CarriedAs isolate identity "onboot" value v) : v = "0" := by
  cases h with
  | drive hdrive => exact absurd hdrive (not_isDrive (by decide))
  | net hnet => exact absurd hnet (by decide)
  | new _ hkey => exact absurd hkey (by decide)
  | same hkey => exact absurd hkey (by decide)
  | generation hkey => exact absurd hkey (by decide)
  | onboot => rfl
  | other _ _ _ hkey => exact absurd hkey (by decide)

/-- Neither the original's host devices nor its hook script. -/
theorem CarriedAs.not_host (h : CarriedAs isolate identity key value v) :
    numbered key "hostpci" = false ∧ key ≠ "hookscript" := by
  cases h with
  | drive hdrive =>
    refine ⟨?_, fun hkey => not_isDrive (by decide) (hkey ▸ hdrive)⟩
    exact Bool.eq_false_iff.mpr fun hhost => not_isDrive_of_numbered (by decide) (by decide) hhost hdrive
  | net hnet =>
    refine ⟨Bool.eq_false_iff.mpr fun hhost => ?_, fun hkey => absurd (hkey ▸ hnet) (by decide)⟩
    have hstem := (stem_of_numbered (by decide) hnet).symm.trans (stem_of_numbered (by decide) hhost)
    exact absurd hstem (by decide)
  | new _ hkey => exact hkey ▸ (by decide)
  | same hkey => exact hkey ▸ (by decide)
  | generation hkey => exact hkey ▸ (by decide)
  | onboot hkey => exact hkey ▸ (by decide)
  | other _ _ hhost hkey => exact ⟨hhost, fun heq => hkey (by simp [heq])⟩

end

/-! ## Networks -/

/-- A network device as Proxmox writes it: its model and MAC address, then its options. -/
structure IsNetwork (value model mac : String) (parts : List String) : Prop where
  text : value = Text.join "," ((model ++ "=" ++ mac) :: parts)
  plainModel : ',' ∉ model.toList ∧ '=' ∉ model.toList ∧ model ∉ ["macaddr", "link_down"]
  plainMac : ',' ∉ mac.toList
  others : ∀ p ∈ parts, ',' ∉ p.toList ∧ partKey p ≠ model

theorem plain_link (isolate : Bool) : Plain (if isolate then [("link_down", "1")] else []) := by
  intro key val hmem
  cases isolate with
  | false => cases hmem
  | true =>
    cases List.mem_singleton.mp hmem
    decide

theorem translateNet_link (identity : Identity) (value : String) :
    (Text.split ',' (translateNet true identity value)).filter (partKey · = "link_down") = ["link_down=1"] := by
  have hset (value : String) (drop : List String) :
      (Text.split ',' (withOptions value drop [("link_down", "1")])).filter (partKey · = "link_down") =
        ["link_down=1"] :=
    withOptions_set value drop (by decide) (plain_link true)
  cases identity with
  | new => exact hset _ _
  | same => exact hset _ _

theorem splitOnce_network {model mac : String} (h : IsNetwork value model mac parts) :
    (Text.splitOnce ',' value).getD (value, "") = (model ++ "=" ++ mac, Text.join "," parts) := by
  have hfirst : ',' ∉ (model ++ "=" ++ mac).toList := by
    simp [h.plainModel.1, h.plainMac]
  rw [h.text]
  cases parts with
  | nil =>
    have hone : Text.join "," [model ++ "=" ++ mac] = model ++ "=" ++ mac := String.intercalate_singleton
    rw [hone, Text.splitOnce_eq_none hfirst]
    rfl
  | cons p parts =>
    have hcons : Text.join "," ((model ++ "=" ++ mac) :: p :: parts) =
        model ++ "=" ++ mac ++ "," ++ Text.join "," (p :: parts) := String.intercalate_cons_cons
    rw [hcons, splitOnce_append (by rfl) hfirst]
    rfl

/-- A new VM's network device has no option of the original that gives a MAC address. -/
theorem translateNet_mac {model mac : String} (h : IsNetwork value model mac parts)
    (isolate : Bool) (uuid : Uuid) {p : String} (hp : p ∈ Text.split ',' (translateNet isolate (.new uuid) value)) :
    partKey p ≠ "macaddr" ∧ (partKey p = model → p = model) := by
  have hmodel : Text.splitOnce '=' (model ++ "=" ++ mac) = some (model, mac) :=
    splitOnce_append (by rfl) h.plainModel.2.1 mac
  have hjoined : ∀ q ∈ Text.split ',' (if Text.join "," parts = "" then model
      else model ++ "," ++ Text.join "," parts), q = model ∨ q ∈ parts := by
    intro q hq
    have hone : q ∈ Text.split ',' model → q = model := by
      have hparts : Text.split ',' (Text.join "," [model]) = [model] :=
        Text.split_join (by rfl) (by simp) (by simpa using h.plainModel.1)
      rw [show Text.join "," [model] = model from String.intercalate_singleton] at hparts
      rw [hparts]
      exact List.mem_singleton.mp
    split at hq
    · exact .inl (hone hq)
    · rename_i hne
      have hnil : parts ≠ [] := by
        rintro rfl
        exact hne rfl
      have hjoin : model ++ "," ++ Text.join "," parts = Text.join "," (model :: parts) :=
        (String.intercalate_cons_of_ne_nil hnil).symm
      rw [hjoin, Text.split_join (by rfl) (by simp)
        (List.forall_mem_cons.mpr ⟨h.plainModel.1, fun p hp => (h.others p hp).1⟩)] at hq
      exact List.mem_cons.mp hq
  unfold translateNet at hp
  rw [splitOnce_network h] at hp
  simp only [hmodel, Option.map_some, Option.getD_some] at hp
  rcases mem_split_withOptions (plain_link isolate) hp with rfl | hp
  · exact ⟨by decide, fun hkey => hkey⟩
  · rcases mem_optionParts hp with ⟨hmem, hdrop⟩ | ⟨key, val, hmem, rfl⟩
    · refine ⟨by simpa using hdrop, fun hkey => ?_⟩
      rcases hjoined p hmem with heq | hmem
      · exact heq
      · exact absurd hkey (h.others p hmem).2
    · cases isolate with
      | false => cases hmem
      | true =>
        cases List.mem_singleton.mp hmem
        refine ⟨by decide, fun hkey => absurd ?_ h.plainModel.2.2⟩
        rw [← hkey]
        decide

end Bmac.Backup
