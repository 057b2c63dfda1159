import Bmac.Base.Checks
import Bmac.Base.Keyed
import Bmac.Backup.Translate

/-!
# What a restored configuration keeps apart

`translate` gives each captured disk its new volume once, empties or leaves out the other drives, and replaces
what identifies the original (`translate_restored`). An option that isn't a drive is carried over whatever it
names (`byDevice_not_apart`).
-/

namespace Bmac.Backup

open Bmac.Base Bmac.Core

/-! ## The whole configuration -/

section

variable {volumes : Dict String} {isolate : Bool} {identity : Identity} {manifest : Manifest} {name : String}

def diskEntry (volumes : Dict String) (isolate : Bool) (identity : Identity) (setting : String × String) :
    Option (String × String) :=
  match translateSetting volumes isolate identity setting.1 setting.2 with
  | .disk v => some (setting.1, v)
  | _ => none

def optionEntry (volumes : Dict String) (isolate : Bool) (identity : Identity) (setting : String × String) :
    Option (String × String) :=
  match translateSetting volumes isolate identity setting.1 setting.2 with
  | .option v => some (setting.1, v)
  | _ => none

theorem diskEntry_eq_some {setting entry : String × String}
    (h : diskEntry volumes isolate identity setting = some entry) :
    entry.1 = setting.1 ∧ translateSetting volumes isolate identity setting.1 setting.2 = .disk entry.2 := by
  unfold diskEntry at h
  split at h
  · cases h
    exact ⟨rfl, ‹_›⟩
  · cases h

theorem optionEntry_eq_some {setting entry : String × String}
    (h : optionEntry volumes isolate identity setting = some entry) :
    entry.1 = setting.1 ∧ translateSetting volumes isolate identity setting.1 setting.2 = .option entry.2 := by
  unfold optionEntry at h
  split at h
  · cases h
    exact ⟨rfl, ‹_›⟩
  · cases h

theorem foldl_add (config : List (String × String)) (out : VmConfig) :
    let added := config.foldl (fun out (key, value) =>
      out.add key (translateSetting volumes isolate identity key value)) out
    added.disks = out.disks ++ config.filterMap (diskEntry volumes isolate identity) ∧
      added.options = out.options ++ config.filterMap (optionEntry volumes isolate identity) := by
  induction config generalizing out with
  | nil => simp
  | cons setting config ih =>
    obtain ⟨key, value⟩ := setting
    obtain ⟨hdisks, hoptions⟩ := ih (out.add key (translateSetting volumes isolate identity key value))
    simp only [List.foldl_cons]
    rw [hdisks, hoptions, List.filterMap_cons, List.filterMap_cons, diskEntry, optionEntry]
    cases translateSetting volumes isolate identity key value <;> simp [VmConfig.add]

def heldOff (options : List (String × String)) : List (String × String) :=
  if options.any (·.1 = "onboot") then options else options ++ [("onboot", "0")]

theorem translate_ok (hcover : ∀ v ∈ manifest.volumes, (volumes.get? v.slot).isSome) :
    ∃ out, translate volumes isolate identity manifest name = .ok out ∧
      out.disks = manifest.config.filterMap (diskEntry volumes isolate identity) ∧
      out.options = heldOff (("name", name) :: manifest.config.filterMap (optionEntry volumes isolate identity)) := by
  have hchecks : (manifest.volumes.forM fun volume =>
      if (volumes.get? volume.slot).isNone then .error s!"{volume.slot} has no restored volume"
      else (.ok () : Except String Unit)) = .ok () := by
    refine forM_eq_ok_iff.mpr fun v hv => if_neg ?_
    simpa [Option.isSome_iff_ne_none] using hcover v hv
  obtain ⟨hdisks, hoptions⟩ := @foldl_add volumes isolate identity manifest.config ⟨[("name", name)], [], []⟩
  unfold translate
  rw [hchecks, ok_bind]
  simp only [heldOff]
  rw [List.nil_append] at hdisks
  rw [List.singleton_append] at hoptions
  rw [hoptions]
  split
  · exact ⟨_, rfl, hdisks, hoptions⟩
  · exact ⟨_, rfl, hdisks, rfl⟩

end

/-! ## Restored configurations -/

theorem mem_disks {config : Dict String} {refs : List DiskRef} (h : disks config = .ok refs) {ref : DiskRef}
    (href : ref ∈ refs) : (∃ value, (ref.slot, value) ∈ config) ∧ IsDrive ref.slot := by
  unfold disks at h
  obtain ⟨found, hfound, h⟩ := bind_eq_ok.mp h
  obtain ⟨-, h⟩ := check_eq_ok.mp h
  cases h
  obtain ⟨found?, hmem, heq⟩ := List.mem_filterMap.mp href
  cases heq
  obtain ⟨⟨slot, value⟩, hsetting, hof⟩ := mem_of_mapM_eq_ok hfound hmem
  simp only [diskOf] at hof
  cases hrole : diskRole slot with
  | none => simp [hrole] at hof
  | some role =>
    simp only [hrole] at hof
    split at hof
    · cases hof
    · split at hof
      · cases hof
      · cases hof
        exact ⟨⟨value, hsetting⟩, isDrive_of_diskRole hrole⟩

theorem not_mem_uuid (uuid : Uuid) : ',' ∉ uuid.text.toList := by
  have hdigit : ∀ n < 16, Text.hexDigit n ≠ ',' := by decide
  have hhex (width n : Nat) : ',' ∉ (Text.hex width n).toList := by
    rw [Text.hex, String.toList_ofList]
    intro hmem
    obtain ⟨i, -, hi⟩ := List.mem_map.mp hmem
    exact hdigit _ (Nat.mod_lt _ (by decide)) hi
  simp [Uuid.text, Text.join, String.intercalate_cons_cons, String.intercalate_singleton, hhex]

variable {o : String × String}

theorem mem_heldOff {options : List (String × String)} (h : o ∈ heldOff options) :
    o ∈ options ∨ o = ("onboot", "0") := by
  unfold heldOff at h
  split at h
  · exact .inl h
  · exact (List.mem_append.mp h).imp_right List.mem_singleton.mp

/-- The manifest's volumes are the disks of its configuration, and each has a new volume. -/
structure Covers (manifest : Manifest) (refs : List DiskRef) (volumes : Dict String) : Prop where
  sorted : manifest.config.Sorted
  captured : disks manifest.config = .ok refs
  listed : (manifest.volumes.map (·.slot)).Perm (refs.map (·.slot))
  mapped : ∀ ref ∈ refs, (volumes.get? ref.slot).isSome

/-- A volume that neither a new volume's ID nor an option of the original's drives names. -/
structure Unnamed (config volumes : Dict String) (volume : String) : Prop where
  plain : ',' ∉ volume.toList
  new : ∀ entry ∈ volumes, contains entry.2 volume = false
  options : ∀ setting ∈ config, IsDrive setting.1 → ∀ first rest,
    Text.splitOnce ',' setting.2 = some (first, rest) → contains rest volume = false

/-- What a restored VM's configuration keeps away from the original. -/
structure Restored (manifest : Manifest) (refs : List DiskRef) (volumes : Dict String) (name : String)
    (isolate : Bool) (identity : Identity) (out : VmConfig) : Prop where
  /-- A captured disk has one entry, on its new volume. -/
  captured : ∀ ref ∈ refs, ∃ id original value, volumes.get? ref.slot = some id ∧
    (ref.slot, original) ∈ manifest.config ∧ NamesVolume id original value ∧
    out.disks.filter (·.1 = ref.slot) = [(ref.slot, value)] ∧ ∀ o ∈ out.options, o.1 ≠ ref.slot
  drives : ∀ d ∈ out.disks, IsDrive d.1 ∧ ∃ id original, volumes.get? d.1 = some id ∧
    (d.1, original) ∈ manifest.config ∧ NamesVolume id original d.2
  /-- No disk is on a volume but the new ones, -/
  apart : ∀ volume, (∀ entry ∈ volumes, volumeOf entry.2 ≠ volume) → ∀ d ∈ out.disks, volumeOf d.2 ≠ volume
  /-- and nothing else in its value names another. -/
  unnamed : ∀ volume, Unnamed manifest.config volumes volume → ∀ d ∈ out.disks, contains d.2 volume = false
  /-- Any other drive is empty. -/
  empty : ∀ o ∈ out.options, IsDrive o.1 → o.2 = "none,media=cdrom"
  gone : ∀ o ∈ out.options, (dropped.any fun d => o.1 = d || numbered o.1 d) = false ∧
    numbered o.1 "hostpci" = false ∧ o.1 ≠ "hookscript"
  onboot : out.options.filter (·.1 = "onboot") = [("onboot", "0")]
  isolated : isolate = true → ∀ o ∈ out.options, numbered o.1 "net" →
    (Text.split ',' o.2).filter (partKey · = "link_down") = ["link_down=1"]
  macs : ∀ uuid, identity = .new uuid → ∀ o ∈ out.options, numbered o.1 "net" → ∀ value model mac parts,
    (o.1, value) ∈ manifest.config → IsNetwork value model mac parts →
      ∀ p ∈ Text.split ',' o.2, partKey p ≠ "macaddr" ∧ (partKey p = model → p = model)
  uuid : ∀ uuid, identity = .new uuid → ∀ o ∈ out.options, o.1 = "smbios1" →
    (Text.split ',' o.2).filter (partKey · = "uuid") = ["uuid=" ++ uuid.text]
  generation : ∀ o ∈ out.options, o.1 = "vmgenid" → o.2 = "1"
  named : out.options.filter (·.1 = "name") = [("name", name)]

section

variable {volumes : Dict String} {isolate : Bool} {identity : Identity} {manifest : Manifest} {name : String}
variable {config : Dict String} {out : VmConfig}

theorem mem_carried (h : o ∈ config.filterMap (optionEntry volumes isolate identity)) :
    ∃ value, (o.1, value) ∈ config ∧
      ¬ (o.1 = "name" ∨ dropped.any fun d => o.1 = d || numbered o.1 d) ∧ volumes.get? o.1 = none ∧
      CarriedAs isolate identity o.1 value o.2 := by
  obtain ⟨⟨key, value⟩, hmem, hentry⟩ := List.mem_filterMap.mp h
  obtain ⟨hkey, hset⟩ := optionEntry_eq_some hentry
  rw [hkey]
  exact ⟨value, hmem, translateSetting_option hset⟩

theorem unique_filterMap (hsorted : config.Sorted) {f : String × String → Option (String × String)}
    (hf : ∀ setting entry, f setting = some entry → entry.1 = setting.1) :
    Keyed.Unique (·.1) (config.filterMap f) := by
  refine List.pairwise_map.mpr (List.Pairwise.filterMap f ?_ hsorted)
  intro a b hlt x hx y hy heq
  rw [hf _ _ hx, hf _ _ hy] at heq
  exact String.ne_of_lt hlt heq

/-- The options are the new name, what is carried over, and that the VM doesn't start on boot. -/
theorem mem_options
    (ho : out.options = heldOff (("name", name) :: config.filterMap (optionEntry volumes isolate identity)))
    (h : o ∈ out.options) :
    o = ("name", name) ∨ o = ("onboot", "0") ∨ ∃ value, (o.1, value) ∈ config ∧
      ¬ (o.1 = "name" ∨ dropped.any fun d => o.1 = d || numbered o.1 d) ∧ volumes.get? o.1 = none ∧
      CarriedAs isolate identity o.1 value o.2 := by
  rw [ho] at h
  rcases mem_heldOff h with h | h
  · rcases List.mem_cons.mp h with h | h
    · exact .inl h
    · exact .inr (.inr (mem_carried h))
  · exact .inr (.inl h)

theorem captured_once (hsorted : config.Sorted) (hd : out.disks = config.filterMap (diskEntry volumes isolate identity))
    {key value id : String} (hmem : (key, value) ∈ config) (hdrive : IsDrive key) (hid : volumes.get? key = some id) :
    out.disks.filter (·.1 = key) = [(key, driveValue id value)] := by
  have hentry : (key, driveValue id value) ∈ out.disks := by
    rw [hd]
    refine List.mem_filterMap.mpr ⟨(key, value), hmem, ?_⟩
    rw [diskEntry, translateSetting_captured hdrive hid]
  have hunique : Keyed.Unique (·.1) out.disks :=
    hd ▸ unique_filterMap hsorted fun _ _ hentry => (diskEntry_eq_some hentry).1
  exact Keyed.filter_of_mem hunique hentry

theorem onboot_off (hsorted : config.Sorted)
    (ho : out.options = heldOff (("name", name) :: config.filterMap (optionEntry volumes isolate identity))) :
    out.options.filter (·.1 = "onboot") = [("onboot", "0")] := by
  have hcarried : ∀ o ∈ config.filterMap (optionEntry volumes isolate identity),
      o.1 = "onboot" → o = ("onboot", "0") := by
    intro o hmem honboot
    obtain ⟨value, -, -, -, has⟩ := mem_carried hmem
    obtain ⟨key, v⟩ := o
    cases honboot
    exact congrArg (Prod.mk "onboot") has.of_onboot
  rw [ho, heldOff]
  split
  · rename_i hany
    obtain ⟨o, hmem, honboot⟩ := List.any_eq_true.mp hany
    have honboot : o.1 = "onboot" := of_decide_eq_true honboot
    rcases List.mem_cons.mp hmem with rfl | hmem
    · exact absurd honboot (show ¬ "name" = "onboot" by decide)
    · have heq := hcarried o hmem honboot
      subst heq
      have hunique : Keyed.Unique (·.1) (config.filterMap (optionEntry volumes isolate identity)) :=
        unique_filterMap hsorted fun _ _ hentry => (optionEntry_eq_some hentry).1
      rw [List.filter_cons_of_neg (by simp)]
      exact Keyed.filter_of_mem hunique hmem
  · rename_i hnone
    have hnil : (("name", name) :: config.filterMap (optionEntry volumes isolate identity)).filter
        (·.1 = "onboot") = [] :=
      List.filter_eq_nil_iff.mpr fun o hmem honboot => hnone (List.any_eq_true.mpr ⟨o, hmem, honboot⟩)
    rw [List.filter_append, hnil]
    rfl

theorem named_once
    (ho : out.options = heldOff (("name", name) :: config.filterMap (optionEntry volumes isolate identity))) :
    out.options.filter (·.1 = "name") = [("name", name)] := by
  have hnil : (config.filterMap (optionEntry volumes isolate identity)).filter (·.1 = "name") = [] := by
    refine List.filter_eq_nil_iff.mpr fun o hmem hname => ?_
    obtain ⟨-, -, hkept, -⟩ := mem_carried hmem
    exact hkept (.inl (of_decide_eq_true hname))
  rw [ho, heldOff]
  split
  · rw [List.filter_cons_of_pos (by rfl), hnil]
  · rw [List.filter_append, List.filter_cons_of_pos (by rfl), hnil]
    rfl

theorem disks_named (hdrives : ∀ entry ∈ volumes, IsDrive entry.1)
    (hd : out.disks = config.filterMap (diskEntry volumes isolate identity)) {d : String × String}
    (hmem : d ∈ out.disks) : IsDrive d.1 ∧ ∃ id original, volumes.get? d.1 = some id ∧
      (d.1, original) ∈ config ∧ NamesVolume id original d.2 := by
  rw [hd] at hmem
  obtain ⟨⟨key, value⟩, hsetting, hentry⟩ := List.mem_filterMap.mp hmem
  obtain ⟨hkey, hset⟩ := diskEntry_eq_some hentry
  obtain ⟨id, hid, hvalue⟩ := translateSetting_disk hset
  rw [hkey, hvalue]
  have hdrive : IsDrive key := hdrives (key, id) (Dict.mem_of_get? hid)
  exact ⟨hdrive, id, value, hid, hsetting, namesVolume_driveValue id value⟩

section

variable (ho : out.options = heldOff (("name", name) :: config.filterMap (optionEntry volumes isolate identity)))
include ho

/-- A key with a new volume isn't among the options. -/
theorem options_ne_drive {slot id : String} (hid : volumes.get? slot = some id) (hdrive : IsDrive slot)
    (h : o ∈ out.options) : o.1 ≠ slot := by
  rintro rfl
  rcases mem_options ho h with rfl | rfl | ⟨-, -, -, hnone, -⟩
  · exact @not_isDrive "name" (by decide) hdrive
  · exact @not_isDrive "onboot" (by decide) hdrive
  · rw [hid] at hnone
    cases hnone

theorem drives_empty (h : o ∈ out.options) (hdrive : IsDrive o.1) : o.2 = "none,media=cdrom" := by
  rcases mem_options ho h with rfl | rfl | ⟨value, -, -, -, has⟩
  · exact absurd hdrive (@not_isDrive "name" (by decide))
  · exact absurd hdrive (@not_isDrive "onboot" (by decide))
  · exact has.of_drive hdrive

theorem host_gone (h : o ∈ out.options) :
    (dropped.any fun d => o.1 = d || numbered o.1 d) = false ∧ numbered o.1 "hostpci" = false ∧
      o.1 ≠ "hookscript" := by
  rcases mem_options ho h with rfl | rfl | ⟨value, -, hkept, -, has⟩
  · exact (by decide : (dropped.any fun d => "name" = d || numbered "name" d) = false ∧
      numbered "name" "hostpci" = false ∧ "name" ≠ "hookscript")
  · exact (by decide : (dropped.any fun d => "onboot" = d || numbered "onboot" d) = false ∧
      numbered "onboot" "hostpci" = false ∧ "onboot" ≠ "hookscript")
  · exact ⟨Bool.eq_false_iff.mpr fun hany => hkept (.inr hany), has.not_host⟩

theorem mem_networks (h : o ∈ out.options) (hnet : numbered o.1 "net") :
    ∃ value, (o.1, value) ∈ config ∧ o.2 = translateNet isolate identity value := by
  rcases mem_options ho h with rfl | rfl | ⟨value, hsetting, -, -, has⟩
  · exact absurd hnet (show ¬ numbered "name" "net" = true by decide)
  · exact absurd hnet (show ¬ numbered "onboot" "net" = true by decide)
  · exact ⟨value, hsetting, has.of_net hnet⟩

/-- So is one with any other key than the two that are written. -/
theorem mem_kept (h : o ∈ out.options) (hname : o.1 ≠ "name") (hboot : o.1 ≠ "onboot") :
    ∃ value, CarriedAs isolate identity o.1 value o.2 := by
  rcases mem_options ho h with rfl | rfl | ⟨value, -, -, -, has⟩
  · exact absurd rfl hname
  · exact absurd rfl hboot
  · exact ⟨value, has⟩

theorem macs_replaced (hsorted : config.Sorted) {uuid : Uuid} (hnew : identity = .new uuid)
    (h : o ∈ out.options) (hnet : numbered o.1 "net") {value model mac : String} {parts : List String}
    (hsetting : (o.1, value) ∈ config) (hnetwork : IsNetwork value model mac parts) {p : String}
    (hp : p ∈ Text.split ',' o.2) : partKey p ≠ "macaddr" ∧ (partKey p = model → p = model) := by
  obtain ⟨value', hsetting', hvalue'⟩ := mem_networks ho h hnet
  have hvalue : value = value' := by
    have hget := Dict.get?_of_mem hsorted hsetting
    rw [Dict.get?_of_mem hsorted hsetting'] at hget
    exact (Option.some.inj hget).symm
  subst hnew
  rw [hvalue', ← hvalue] at hp
  exact translateNet_mac hnetwork isolate uuid hp

theorem uuid_replaced {uuid : Uuid} (hnew : identity = .new uuid) (h : o ∈ out.options)
    (hkey : o.1 = "smbios1") :
    (Text.split ',' o.2).filter (partKey · = "uuid") = ["uuid=" ++ uuid.text] := by
  obtain ⟨value, has⟩ := mem_kept ho h (hkey ▸ by decide) (hkey ▸ by decide)
  subst hnew
  rw [hkey] at has
  rw [has.of_smbios]
  refine withOptions_set value [] (by decide) fun key val hset => ?_
  cases List.mem_singleton.mp hset
  rw [String.toList_append, List.mem_append]
  exact not_or_intro (by decide) (not_mem_uuid uuid)

theorem generation_renewed (h : o ∈ out.options) (hkey : o.1 = "vmgenid") : o.2 = "1" := by
  obtain ⟨value, has⟩ := mem_kept ho h (hkey ▸ by decide) (hkey ▸ by decide)
  rw [hkey] at has
  exact has.of_generation

end

/-- A restored VM's configuration uses its own volumes, name and identity, and a drive of the original's that
isn't restored is empty or left out. -/
theorem translate_restored {refs : List DiskRef} (hcovers : Covers manifest refs volumes)
    (hdrives : ∀ entry ∈ volumes, IsDrive entry.1) :
    ∃ out, translate volumes isolate identity manifest name = .ok out ∧
      Restored manifest refs volumes name isolate identity out := by
  obtain ⟨hsorted, hdisks, hvolumes, hcover⟩ := hcovers
  have hcovered : ∀ v ∈ manifest.volumes, (volumes.get? v.slot).isSome := by
    intro v hv
    obtain ⟨ref, href, hslot⟩ := List.mem_map.mp (hvolumes.subset (List.mem_map_of_mem hv))
    exact hslot ▸ hcover ref href
  obtain ⟨out, hout, hd, ho⟩ := @translate_ok volumes isolate identity manifest name hcovered
  refine ⟨out, hout, ?captured, fun d hmem => disks_named hdrives hd hmem, ?apart, ?unnamed,
    fun o hmem => drives_empty ho hmem, fun o hmem => host_gone ho hmem, onboot_off hsorted ho, ?isolated,
    fun uuid hnew o hmem hnet value model mac parts hsetting hnetwork p =>
      macs_replaced ho hsorted hnew hmem hnet hsetting hnetwork,
    fun uuid hnew o hmem => uuid_replaced ho hnew hmem, fun o hmem => generation_renewed ho hmem, named_once ho⟩
  case captured =>
    intro ref href
    obtain ⟨⟨value, hmem⟩, hdrive⟩ := mem_disks hdisks href
    obtain ⟨id, hid⟩ := Option.isSome_iff_exists.mp (hcover ref href)
    exact ⟨id, value, _, hid, hmem, namesVolume_driveValue id value, captured_once hsorted hd hmem hdrive hid,
      fun o ho' => options_ne_drive ho hid hdrive ho'⟩
  case apart =>
    intro volume hnew d hmem
    obtain ⟨-, id, original, hid, -, hnames⟩ := disks_named hdrives hd hmem
    rw [hnames.volumeOf_eq]
    exact hnew (d.1, id) (Dict.mem_of_get? hid)
  case unnamed =>
    intro volume hunnamed d hmem
    obtain ⟨hdrive, id, original, hid, hsetting, hnames⟩ := disks_named hdrives hd hmem
    refine Bool.eq_false_iff.mpr fun hin => ?_
    rcases hnames.contains hunnamed.plain hin with hin | ⟨first, rest, hsplit, hin⟩
    · exact absurd hin (Bool.eq_false_iff.mp (hunnamed.new (d.1, id) (Dict.mem_of_get? hid)))
    · exact absurd hin (Bool.eq_false_iff.mp (hunnamed.options (d.1, original) hsetting hdrive first rest hsplit))
  case isolated =>
    intro hisolate o hmem hnet
    subst hisolate
    obtain ⟨value, -, hvalue⟩ := mem_networks ho hmem hnet
    rw [hvalue]
    exact translateNet_link identity value

end

def oneDisk (config : Dict String) : Manifest :=
  { schemaVersion := 1, clusterUuid := "cluster", vmUuid := "vm", vmid := 100, pitUuid := "pit", branchUuid := "branch"
    parentPitUuid := none, snapshot := ⟨"bmac-pit-20250101T000000Z-0a1b2c", 1735689600⟩, takenAtS := 1735689600
    consistency := .crash, evidence := .null, multiPool := false, versions := ⟨"9.0", "2.3", "3.0"⟩
    configText := "", config := config, configSha256 := "", firmware := ⟨"seabios", none, false⟩
    volumes := [⟨"d0", "scsi0", .disk, "rpool/data/vm-100-disk-0", 7, 8589934592, 16384, true⟩]
    registry := .null, prerequisites := [], sha256 := "" }

def ordinary : Manifest := oneDisk
  [("ide2", "local:iso/debian.iso,media=cdrom"), ("net0", "virtio=BC:24:11:00:00:01,bridge=vmbr0"),
    ("scsi0", "local-zfs:vm-100-disk-0,size=8G"), ("smbios1", "uuid=00000000-0000-0000-0000-000000000007"),
    ("unused0", "local-zfs:vm-100-disk-1"), ("vmgenid", "00000000-0000-0000-0000-000000000008")]

def oneRef : List DiskRef := [⟨"scsi0", .disk, "local-zfs:vm-100-disk-0", false⟩]

def newVolume : Dict String := [("scsi0", "local-zfs:vm-200-disk-0")]

theorem translate_restored_ordinary :
    ∃ out, translate newVolume true (.new 9) ordinary "copy" = .ok out ∧
      Restored ordinary oneRef newVolume "copy" true (.new 9) out ∧
      ∀ d ∈ out.disks, contains d.2 "vm-100-disk-0" = false ∧ contains d.2 "vm-100-disk-1" = false := by
  have hcovers : Covers ordinary oneRef newVolume :=
    { sorted := by unfold Dict.Sorted; decide, captured := by rfl, listed := by decide, mapped := by decide }
  have hdrives : ∀ entry ∈ newVolume, IsDrive entry.1 := by
    intro entry hentry
    cases List.mem_singleton.mp hentry
    exact .inl (by decide)
  have hunnamed : ∀ volume ∈ ["vm-100-disk-0", "vm-100-disk-1"], Unnamed ordinary.config newVolume volume := by
    have hplain : ∀ volume ∈ ["vm-100-disk-0", "vm-100-disk-1"], ',' ∉ volume.toList ∧
        (∀ entry ∈ newVolume, contains entry.2 volume = false) ∧ ∀ setting ∈ ordinary.config,
          ((Text.splitOnce ',' setting.2).all fun parts => !contains parts.2 volume) = true := by decide
    intro volume hmem
    obtain ⟨hcomma, hnew, hoptions⟩ := hplain volume hmem
    refine ⟨hcomma, hnew, fun setting hsetting _ first rest hsplit => ?_⟩
    have hall := hoptions setting hsetting
    rw [hsplit] at hall
    simpa using hall
  obtain ⟨out, hout, hrestored⟩ := @translate_restored newVolume true (.new 9) ordinary "copy" oneRef hcovers hdrives
  refine ⟨out, hout, hrestored, fun d hd => ⟨?_, ?_⟩⟩
  · exact hrestored.unnamed _ (hunnamed _ (by decide)) d hd
  · exact hrestored.unnamed _ (hunnamed _ (by decide)) d hd

def byDevice : Manifest := oneDisk
  [("args", "-drive file=/dev/zvol/rpool/data/vm-100-disk-0"), ("net0", "virtio=BC:24:11:00:00:01,bridge=vmbr0"),
    ("scsi0", "local-zfs:vm-100-disk-0,size=8G")]

def withNetwork : Dict String := [("net0", "local-zfs:vm-200-disk-1"), ("scsi0", "local-zfs:vm-200-disk-0")]

def byDeviceCopy : VmConfig where
  options := [("name", "copy"), ("args", "-drive file=/dev/zvol/rpool/data/vm-100-disk-0"), ("onboot", "0")]
  disks := [("net0", "local-zfs:vm-200-disk-1,bridge=vmbr0"), ("scsi0", "local-zfs:vm-200-disk-0,size=8G")]
  leftOut := []

/-- An option that isn't a drive keeps what it names, and a volume map may name a network device. -/
theorem byDevice_not_apart :
    (¬ ∀ (manifest : Manifest) (refs : List DiskRef) (volumes : Dict String) (name : String) (isolate : Bool)
      (identity : Identity) (out : VmConfig), Covers manifest refs volumes →
        translate volumes isolate identity manifest name = .ok out →
          ∀ o ∈ out.options ++ out.disks, ∀ v ∈ manifest.volumes, contains o.2 v.dataset = false) ∧
    (¬ ∀ (manifest : Manifest) (refs : List DiskRef) (volumes : Dict String) (name : String)
      (identity : Identity) (out : VmConfig), Covers manifest refs volumes →
        translate volumes true identity manifest name = .ok out →
          ∀ o ∈ out.options ++ out.disks, numbered o.1 "net" →
            (Text.split ',' o.2).filter (partKey · = "link_down") = ["link_down=1"]) := by
  have hcovers : Covers byDevice oneRef withNetwork :=
    { sorted := by unfold Dict.Sorted; decide, captured := by rfl, listed := by decide, mapped := by decide }
  have hout : translate withNetwork true (.new 9) byDevice "copy" = .ok byDeviceCopy := by rfl
  constructor
  · intro hall
    have hargs := hall byDevice oneRef withNetwork "copy" true (.new 9) byDeviceCopy hcovers hout
      ("args", "-drive file=/dev/zvol/rpool/data/vm-100-disk-0") (by decide) _ List.mem_cons_self
    exact absurd hargs (by decide)
  · intro hall
    have hnet := hall byDevice oneRef withNetwork "copy" (.new 9) byDeviceCopy hcovers hout
      ("net0", "local-zfs:vm-200-disk-1,bridge=vmbr0") (by decide) (by decide)
    exact absurd hnet (by decide)

end Bmac.Backup
