import Bmac.Base.Keyed
import Bmac.Registry.Resource

/-!
# What the guests of a registry may not share

`validate_registry_invariants` of `cluster_registry.py`. `Consistent` says what a list of records
that it accepts is like; it doesn't depend on the list's order (`Consistent.perm`), and a guest that
no staging guest is a copy of can go (`Consistent.sublist`).
-/

namespace Bmac.Registry

open Bmac.Base Bmac.Core

def maxRoutes : Nat := 4096

/-- The purpose of a production guest, which no other one may have. -/
def productionPurpose (r : Resource) : List String :=
  if r.kind = .production then [r.purpose.slug] else []

/-- Values that are held, each by a guest. -/
abbrev Holders (α : Type) := List (α × GuestName)

def claim {α : Type} [DecidableEq α] (field : String) (shown : α → String) (owner : GuestName)
    (values : List α) (held : Holders α) : Except String (Holders α) :=
  values.foldlM (fun held value =>
    match held.find? (·.1 = value) with
    | some prior => .error s!"duplicate {field} {shown value}: {prior.2} and {owner}"
    | none => .ok ((value, owner) :: held)) held

/-- `unique_fields`. -/
structure Held where
  name : Holders GuestName := []
  vmid : Holders Int := []
  ip : Holders Nat := []
  mac : Holders String := []
  allocationId : Holders String := []
  purpose : Holders String := []
  domain : Holders String := []

def Held.add (h : Held) (r : Resource) : Except String Held := do
  let name ← claim "name" (fun n => quoted n.text) r.name [r.name] h.name
  let vmid ← claim "vmid" toString r.name [r.vmid] h.vmid
  let ip ← claim "ip" (fun n => quoted (Ipv4.text n)) r.name [r.ip] h.ip
  let mac ← claim "mac" quoted r.name [r.mac] h.mac
  let allocationId ← claim "allocation id" quoted r.name r.allocationId.toList h.allocationId
  let purpose ← claim "production purpose" quoted r.name (productionPurpose r) h.purpose
  let domain ← claim "domain" quoted r.name r.domains.routed h.domain
  return { name, vmid, ip, mac, allocationId, purpose, domain }

/-- `shared_snapshot_identity`: the snapshot without the reference that its record holds. -/
def sharedIdentity (s : Snapshot) : Snapshot :=
  { s with staging := s.staging.map ({ · with dependentResources := [], refcount := 0 }) }

/-- Whether a staging guest's snapshot is one of its source. -/
def checkSnapshot (source r : Resource) (s : Snapshot) (st : StagingSnapshot) :
    Except String Unit := do
  if st.sourceResource ≠ source.name then
    throw "staging snapshot dependency source is inconsistent"
  if some st.sourceVolumeId ≠ source.proxmox.volumeId then
    throw "staging snapshot dependency source volume differs from production"
  if s.ownerNode ∉ source.placement then
    throw "staging snapshot owner is outside production placement"
  if st.sourceVolumeIds.any fun volumeId => (Text.split ':' volumeId).headD "" = "" then
    throw "staging snapshot source volume lacks storage id"
  if st.verified then
    if !sameSet (s.guids.map (·.1)) (nodeTexts source.placement) then
      throw "staging snapshot GUIDs must cover every production placement node"
    match st.volumeGuids.find? fun e => !sameSet (e.2.map (·.1)) (nodeTexts source.placement) with
    | some (volumeId, _) =>
      throw s!"snapshot GUIDs for {volumeId} must cover production placement"
    | none => pure ()
  else if r.state ∉ [State.snapshotting, .replicating, .cleanupPending, .failed] then
    throw "unverified staging snapshot intent is invalid in the current state"

def checkShared (prior r : Resource) (name : String) : Except String Unit := do
  let verified (r : Resource) : Bool :=
    (r.proxmox.snapshot.bind (·.staging)).any (·.verified)
  if !(verified r && verified prior) then
    throw (s!"staging snapshot {quoted name} is claimed by {prior.name} and {r.name} before " ++
      "verification; only a verified snapshot may be shared")
  if r.proxmox.snapshot.map sharedIdentity ≠ prior.proxmox.snapshot.map sharedIdentity then
    throw (s!"staging snapshot {quoted name} is shared by {prior.name} and {r.name} with " ++
      "differing metadata")

abbrev SnapshotKey := Option GuestName × String

/-- A staging guest's checks; `keys` has the first holder of each snapshot so far. -/
def checkStaging (rs : List Resource) (keys : List (SnapshotKey × Resource)) (r : Resource) :
    Except String (List (SnapshotKey × Resource)) :=
  if r.kind ≠ .staging then .ok keys
  else match rs.find? (some ·.name = r.source) with
    | none => .error s!"staging resource {r.name} has missing source"
    | some source =>
      if source.kind ≠ .production then
        .error s!"staging resource {r.name} source is not production"
      else match r.proxmox.snapshot with
        | none => .ok keys
        | some s =>
          match s.staging with
          | none => .error "snapshot metadata is missing fields"
          | some st => do
            checkSnapshot source r s st
            match keys.find? (·.1 = (r.source, s.name)) with
            | some prior =>
              checkShared prior.2 r s.name
              return keys
            | none => return ((r.source, s.name), r) :: keys

def validateRegistryInvariants (rs : List Resource) : Except String Unit := do
  let held ← rs.foldlM Held.add {}
  if maxRoutes < held.domain.length then
    throw s!"registry route count exceeds renderer limit of {maxRoutes}"
  let _ ← rs.foldlM (checkStaging rs) []

/-! ## Values held once -/

section

variable {α : Type} [DecidableEq α] {field : String} {shown : α → String} {owner : GuestName}
  {values : List α} {held held' : Holders α}

theorem claim_eq_ok : claim field shown owner values held = .ok held' ↔
    (values.Nodup ∧ ∀ v ∈ values, v ∉ held.map (·.1)) ∧
      held' = (values.map (·, owner)).reverse ++ held := by
  unfold claim
  induction values generalizing held with
  | nil =>
    rw [List.foldlM_nil, pure_eq_ok]
    simp [eq_comm]
  | cons v values ih =>
    rw [foldlM_cons_eq_ok]
    have hfind : held.find? (·.1 = v) = none ↔ v ∉ held.map (·.1) := by
      rw [List.find?_eq_none]
      simp only [decide_eq_true_eq, List.mem_map, Prod.exists, not_exists, not_and]
      exact ⟨fun hn a b hab ha => hn (a, b) hab ha, fun hn e he ha => hn e.1 e.2 he ha⟩
    constructor
    · rintro ⟨u, hu, hrest⟩
      cases hf : held.find? (·.1 = v) with
      | some prior => simp [hf] at hu
      | none =>
        simp only [hf, Except.ok.injEq] at hu
        subst hu
        obtain ⟨⟨hn, hd⟩, rfl⟩ := ih.mp hrest
        refine ⟨⟨List.nodup_cons.mpr ⟨fun hv => ?_, hn⟩, fun w hw => ?_⟩, by simp⟩
        · exact hd v hv (by simp)
        · rcases List.mem_cons.mp hw with rfl | hw
          · exact hfind.mp hf
          · exact fun hmem => hd w hw (List.mem_cons_of_mem _ hmem)
    · rintro ⟨⟨hn, hd⟩, rfl⟩
      obtain ⟨hv, hn⟩ := List.nodup_cons.mp hn
      refine ⟨(v, owner) :: held, ?_, ih.mpr ⟨⟨hn, fun w hw => ?_⟩, by simp⟩⟩
      · rw [hfind.mpr (hd v (by simp))]
      · rw [List.map_cons, List.mem_cons, not_or]
        refine ⟨?_, hd w (by simp [hw])⟩
        rintro rfl
        exact hv hw

end

/-- The guests' values of a field are distinct and not held yet. -/
def Unclaimed {α : Type} (f : Resource → List α) (rs : List Resource) (held : Holders α) :
    Prop :=
  (rs.flatMap f).Nodup ∧ ∀ v ∈ rs.flatMap f, v ∉ held.map (·.1)

variable {rs : List Resource} {r : Resource}

theorem unclaimed_cons {α : Type} {owner : GuestName} {held : Holders α} {f : Resource → List α} :
    Unclaimed f (r :: rs) held ↔ ((f r).Nodup ∧ ∀ v ∈ f r, v ∉ held.map (·.1)) ∧
      Unclaimed f rs (((f r).map (·, owner)).reverse ++ held) := by
  have hkeys : ∀ v, v ∈ (((f r).map (·, owner)).reverse ++ held).map (·.1) ↔
      v ∈ f r ∨ v ∈ held.map (·.1) := by
    intro v
    simp
  simp only [Unclaimed, List.flatMap_cons, List.nodup_append, hkeys, List.mem_append]
  constructor
  · rintro ⟨⟨h1, h2, h3⟩, h4⟩
    exact ⟨⟨h1, fun v hv => h4 v (.inl hv)⟩, h2,
      fun v hv => not_or.mpr ⟨fun hr => h3 v hr v hv rfl, h4 v (.inr hv)⟩⟩
  · rintro ⟨⟨h1, h2⟩, h3, h4⟩
    refine ⟨⟨h1, h3, ?_⟩, fun v hv => hv.elim (h2 v) fun hv => (not_or.mp (h4 v hv)).2⟩
    rintro v hv w hw rfl
    exact (not_or.mp (h4 v hw)).1 hv

theorem unclaimed_nil {α : Type} {f : Resource → List α} :
    Unclaimed f rs [] ↔ (rs.flatMap f).Nodup := by
  simp [Unclaimed]

/-- What the guests hold beside `h` is held once. -/
structure Claims (rs : List Resource) (h : Held) : Prop where
  name : Unclaimed (fun r => [r.name]) rs h.name
  vmid : Unclaimed (fun r => [r.vmid]) rs h.vmid
  ip : Unclaimed (fun r => [r.ip]) rs h.ip
  mac : Unclaimed (fun r => [r.mac]) rs h.mac
  allocationId : Unclaimed (fun r => r.allocationId.toList) rs h.allocationId
  purpose : Unclaimed productionPurpose rs h.purpose
  domain : Unclaimed (fun r => r.domains.routed) rs h.domain

/-- What `h` is when a guest's claims are added. -/
def Held.with (h : Held) (r : Resource) : Held :=
  { name := ([r.name].map (·, r.name)).reverse ++ h.name
    vmid := ([r.vmid].map (·, r.name)).reverse ++ h.vmid
    ip := ([r.ip].map (·, r.name)).reverse ++ h.ip
    mac := ([r.mac].map (·, r.name)).reverse ++ h.mac
    allocationId := (r.allocationId.toList.map (·, r.name)).reverse ++ h.allocationId
    purpose := ((productionPurpose r).map (·, r.name)).reverse ++ h.purpose
    domain := (r.domains.routed.map (·, r.name)).reverse ++ h.domain }

theorem claims_cons {h : Held} :
    Claims (r :: rs) h ↔ h.add r = .ok (h.with r) ∧ Claims rs (h.with r) := by
  have hadd : h.add r = .ok (h.with r) ↔
      (([r.name].Nodup ∧ ∀ v ∈ [r.name], v ∉ h.name.map (·.1)) ∧
        ([r.vmid].Nodup ∧ ∀ v ∈ [r.vmid], v ∉ h.vmid.map (·.1)) ∧
        ([r.ip].Nodup ∧ ∀ v ∈ [r.ip], v ∉ h.ip.map (·.1)) ∧
        ([r.mac].Nodup ∧ ∀ v ∈ [r.mac], v ∉ h.mac.map (·.1)) ∧
        (r.allocationId.toList.Nodup ∧
          ∀ v ∈ r.allocationId.toList, v ∉ h.allocationId.map (·.1)) ∧
        ((productionPurpose r).Nodup ∧ ∀ v ∈ productionPurpose r, v ∉ h.purpose.map (·.1)) ∧
        (r.domains.routed.Nodup ∧ ∀ v ∈ r.domains.routed, v ∉ h.domain.map (·.1))) := by
    simp only [Held.add, bind_eq_ok, pure_eq_ok, claim_eq_ok]
    constructor
    · rintro ⟨_, ⟨h1, rfl⟩, _, ⟨h2, rfl⟩, _, ⟨h3, rfl⟩, _, ⟨h4, rfl⟩, _, ⟨h5, rfl⟩, _, ⟨h6, rfl⟩, _,
        ⟨h7, rfl⟩, -⟩
      exact ⟨h1, h2, h3, h4, h5, h6, h7⟩
    · rintro ⟨h1, h2, h3, h4, h5, h6, h7⟩
      exact ⟨_, ⟨h1, rfl⟩, _, ⟨h2, rfl⟩, _, ⟨h3, rfl⟩, _, ⟨h4, rfl⟩, _, ⟨h5, rfl⟩, _, ⟨h6, rfl⟩, _,
        ⟨h7, rfl⟩, rfl⟩
  rw [hadd]
  constructor
  · rintro ⟨h1, h2, h3, h4, h5, h6, h7⟩
    obtain ⟨a1, b1⟩ := unclaimed_cons.mp h1
    obtain ⟨a2, b2⟩ := unclaimed_cons.mp h2
    obtain ⟨a3, b3⟩ := unclaimed_cons.mp h3
    obtain ⟨a4, b4⟩ := unclaimed_cons.mp h4
    obtain ⟨a5, b5⟩ := unclaimed_cons.mp h5
    obtain ⟨a6, b6⟩ := unclaimed_cons.mp h6
    obtain ⟨a7, b7⟩ := unclaimed_cons.mp h7
    exact ⟨⟨a1, a2, a3, a4, a5, a6, a7⟩, b1, b2, b3, b4, b5, b6, b7⟩
  · rintro ⟨⟨a1, a2, a3, a4, a5, a6, a7⟩, b1, b2, b3, b4, b5, b6, b7⟩
    exact ⟨unclaimed_cons.mpr ⟨a1, b1⟩, unclaimed_cons.mpr ⟨a2, b2⟩, unclaimed_cons.mpr ⟨a3, b3⟩,
      unclaimed_cons.mpr ⟨a4, b4⟩, unclaimed_cons.mpr ⟨a5, b5⟩, unclaimed_cons.mpr ⟨a6, b6⟩,
      unclaimed_cons.mpr ⟨a7, b7⟩⟩

theorem Held.add_eq_ok {h h' : Held} (ha : h.add r = .ok h') : h' = h.with r := by
  simp only [Held.add, bind_eq_ok, pure_eq_ok, claim_eq_ok] at ha
  obtain ⟨_, ⟨-, rfl⟩, _, ⟨-, rfl⟩, _, ⟨-, rfl⟩, _, ⟨-, rfl⟩, _, ⟨-, rfl⟩, _, ⟨-, rfl⟩, _, ⟨-, rfl⟩,
    rfl⟩ := ha
  rfl

theorem held_eq_ok {h h' : Held} :
    rs.foldlM Held.add h = .ok h' ↔ Claims rs h ∧ h' = rs.foldl Held.with h := by
  induction rs generalizing h with
  | nil =>
    rw [List.foldlM_nil, pure_eq_ok]
    refine ⟨fun he => ⟨⟨?_, ?_, ?_, ?_, ?_, ?_, ?_⟩, he.symm⟩, fun he => he.2.symm⟩ <;>
      simp [Unclaimed]
  | cons r rs ih =>
    rw [foldlM_cons_eq_ok, claims_cons, List.foldl_cons]
    constructor
    · rintro ⟨u, hu, hrest⟩
      obtain rfl := Held.add_eq_ok hu
      obtain ⟨hc, rfl⟩ := ih.mp hrest
      exact ⟨⟨hu, hc⟩, rfl⟩
    · rintro ⟨⟨hu, hc⟩, rfl⟩
      exact ⟨_, hu, ih.mpr ⟨hc, rfl⟩⟩

theorem domain_length (rs : List Resource) (h : Held) : (rs.foldl Held.with h).domain.length =
    h.domain.length + (rs.flatMap fun r => r.domains.routed).length := by
  induction rs generalizing h with
  | nil => simp
  | cons r rs ih =>
    rw [List.foldl_cons, ih]
    simp [Held.with]
    omega

/-! ## Snapshots -/

/-- A staging guest is a copy of a registered production guest, and its snapshot is one of that
guest's. -/
def Sourced (rs : List Resource) (r : Resource) : Prop :=
  r.kind = .staging → ∃ source ∈ rs, some source.name = r.source ∧ source.kind = .production ∧
    ∀ s, r.proxmox.snapshot = some s →
      ∃ st, s.staging = some st ∧ checkSnapshot source r s st = .ok ()

def holding (r : Resource) : Option SnapshotKey :=
  if r.kind = .staging then r.proxmox.snapshot.map fun s => (r.source, s.name) else none

/-- Two guests that hold one snapshot. -/
def Compatible (a b : Resource) : Prop :=
  ∀ key, holding a = some key → holding b = some key → checkShared a b key.2 = .ok ()

theorem checkShared_eq_ok {a b : Resource} {name : String} : checkShared a b name = .ok () ↔
    (b.proxmox.snapshot.bind (·.staging)).any (·.verified) = true ∧
      (a.proxmox.snapshot.bind (·.staging)).any (·.verified) = true ∧
      b.proxmox.snapshot.map sharedIdentity = a.proxmox.snapshot.map sharedIdentity := by
  simp only [checkShared, check_eq_ok, last_check_eq_ok, Bool.not_eq_true', Bool.not_eq_false,
    Bool.and_eq_true, ne_eq, not_not, and_assoc]
  simp [pure, Except.pure]

theorem Compatible.symm {a b : Resource} (h : Compatible a b) : Compatible b a := by
  intro key hb ha
  have := checkShared_eq_ok.mp (h key ha hb)
  exact checkShared_eq_ok.mpr ⟨this.2.1, this.1, this.2.2.symm⟩

theorem Compatible.trans_of {a b c : Resource} (hab : Compatible a b) (hac : Compatible a c)
    (hkey : ∀ key, holding b = some key → holding a = some key) : Compatible b c := by
  intro key hb hc
  have h1 := checkShared_eq_ok.mp (hab key (hkey key hb) hb)
  have h2 := checkShared_eq_ok.mp (hac key (hkey key hb) hc)
  exact checkShared_eq_ok.mpr ⟨h2.1, h1.1, h2.2.2.trans h1.2.2.symm⟩

theorem find_source (hn : (rs.map (·.name)).Nodup) {name : Option GuestName} {source : Resource} :
    rs.find? (some ·.name = name) = some source ↔ source ∈ rs ∧ some source.name = name := by
  constructor
  · intro h
    exact ⟨List.mem_of_find?_eq_some h, by simpa using List.find?_some h⟩
  · rintro ⟨hmem, rfl⟩
    have := Keyed.find_of_mem hn hmem
    simpa [Keyed.find] using this

/-- The first holders `keys` of the snapshots of `seen`. -/
structure FirstHolders (keys : List (SnapshotKey × Resource)) (seen : List Resource) : Prop where
  holds : ∀ e ∈ keys, e.2 ∈ seen ∧ holding e.2 = some e.1
  first : ∀ r ∈ seen, ∀ key, holding r = some key →
    ∃ e, keys.find? (·.1 = key) = some e ∧ ∀ c, Compatible e.2 c → Compatible r c

/-- `staging_snapshot_keys` after a guest's checks. -/
def nextKeys (keys : List (SnapshotKey × Resource)) (r : Resource) :
    List (SnapshotKey × Resource) :=
  match holding r with
  | none => keys
  | some key => if (keys.find? (·.1 = key)).isSome then keys else (key, r) :: keys

section

variable {rs seen : List Resource} {keys keys' : List (SnapshotKey × Resource)} {r : Resource}
  {key : SnapshotKey}

theorem FirstHolders.shared_iff (hk : FirstHolders keys seen) (hkey : holding r = some key)
    {prior : SnapshotKey × Resource} (hprior : keys.find? (·.1 = key) = some prior) :
    checkShared prior.2 r key.2 = .ok () ↔ ∀ a ∈ seen, Compatible a r := by
  have hmem := List.mem_of_find?_eq_some hprior
  have hpk : prior.1 = key := by simpa using List.find?_some hprior
  have hph : holding prior.2 = some key := hpk ▸ (hk.holds _ hmem).2
  constructor
  · intro hc a ha key' hka hkr
    obtain rfl := Option.some.inj (hkey.symm.trans hkr)
    obtain ⟨e, he, hea⟩ := hk.first a ha key hka
    obtain rfl := Option.some.inj (hprior.symm.trans he)
    refine hea r (fun key' _ hkr' => ?_) _ hka hkr
    obtain rfl := Option.some.inj (hkey.symm.trans hkr')
    exact hc
  · exact fun hall => hall _ (hk.holds _ hmem).1 _ hph hkey

theorem FirstHolders.compatible_of_new (hk : FirstHolders keys seen) (hkey : holding r = some key)
    (hprior : keys.find? (·.1 = key) = none) : ∀ a ∈ seen, Compatible a r := by
  intro a ha key' hka hkr
  obtain rfl := Option.some.inj (hkey.symm.trans hkr)
  obtain ⟨e, he, -⟩ := hk.first a ha key hka
  rw [hprior] at he
  cases he

theorem sourced_iff (hn : (rs.map (·.name)).Nodup) (hkind : r.kind = .staging) :
    Sourced rs r ↔ ∃ source, rs.find? (some ·.name = r.source) = some source ∧
      source.kind = .production ∧ ∀ s, r.proxmox.snapshot = some s →
        ∃ st, s.staging = some st ∧ checkSnapshot source r s st = .ok () := by
  simp only [Sourced, hkind, forall_const, find_source hn, and_assoc]

theorem checkStaging_of_holding (hkind : r.kind = .staging) {s : Snapshot}
    (hsnap : r.proxmox.snapshot = some s) : checkStaging rs keys r = .ok keys' ↔
      ∃ source, rs.find? (some ·.name = r.source) = some source ∧ source.kind = .production ∧
        ∃ st, s.staging = some st ∧ checkSnapshot source r s st = .ok () ∧
          match keys.find? (·.1 = (r.source, s.name)) with
          | some prior => checkShared prior.2 r s.name = .ok () ∧ keys' = keys
          | none => keys' = ((r.source, s.name), r) :: keys := by
  unfold checkStaging
  rw [if_neg (by simpa using hkind)]
  cases hfind : rs.find? (some ·.name = r.source) with
  | none => simp
  | some source =>
    by_cases hprod : source.kind = .production
    · simp only [hprod, ne_eq, not_true_eq_false, if_false, hsnap]
      cases hst : s.staging with
      | none => simp
      | some st =>
        simp only [bind_eq_ok, Option.some.injEq, exists_eq_left']
        cases keys.find? (·.1 = (r.source, s.name)) with
        | none =>
          simp only [pure_eq_ok]
          exact ⟨fun ⟨_, h1, h2⟩ => ⟨hprod, h1, h2.symm⟩, fun ⟨_, h1, h2⟩ => ⟨(), h1, h2.symm⟩⟩
        | some prior =>
          simp only [bind_eq_ok, pure_eq_ok]
          exact ⟨fun ⟨_, h1, _, h2, h3⟩ => ⟨hprod, h1, h2, h3.symm⟩,
            fun ⟨_, h1, h2, h3⟩ => ⟨(), h1, (), h2, h3.symm⟩⟩
    · simp [hprod]

theorem checkStaging_eq_ok (hn : (rs.map (·.name)).Nodup) (hk : FirstHolders keys seen) :
    checkStaging rs keys r = .ok keys' ↔
      Sourced rs r ∧ (∀ a ∈ seen, Compatible a r) ∧ keys' = nextKeys keys r := by
  by_cases hkind : r.kind = .staging
  · cases hsnap : r.proxmox.snapshot with
    | none =>
      have hnone : holding r = none := by simp [holding, hkind, hsnap]
      have hfree : ∀ a ∈ seen, Compatible a r := fun a _ key _ hkr => by simp [hnone] at hkr
      rw [sourced_iff hn hkind]
      unfold checkStaging
      rw [if_neg (by simpa using hkind)]
      cases rs.find? (some ·.name = r.source) with
      | none => simp
      | some source =>
        by_cases hprod : source.kind = .production
        · simp only [hprod, hsnap, nextKeys, hnone, ne_eq, not_true_eq_false, if_false,
            Except.ok.injEq]
          refine ⟨fun h => ⟨⟨source, rfl, hprod, fun s hs => by cases hs⟩, hfree, h.symm⟩, ?_⟩
          exact fun ⟨_, _, h⟩ => h.symm
        · simp [hprod]
    | some s =>
      have hkey : holding r = some (r.source, s.name) := by simp [holding, hkind, hsnap]
      rw [checkStaging_of_holding hkind hsnap, sourced_iff hn hkind]
      simp only [hsnap, Option.some.injEq, forall_eq', nextKeys, hkey]
      cases hprior : keys.find? (·.1 = (r.source, s.name)) with
      | none =>
        simp only [Option.isSome_none, Bool.false_eq_true, if_false]
        constructor
        · rintro ⟨source, h1, h2, st, h3, h4, rfl⟩
          exact ⟨⟨source, h1, h2, st, h3, h4⟩, hk.compatible_of_new hkey hprior, rfl⟩
        · rintro ⟨⟨source, h1, h2, st, h3, h4⟩, -, rfl⟩
          exact ⟨source, h1, h2, st, h3, h4, rfl⟩
      | some prior =>
        have hshared := hk.shared_iff hkey hprior
        simp only [Option.isSome_some, if_true]
        constructor
        · rintro ⟨source, h1, h2, st, h3, h4, h5, rfl⟩
          exact ⟨⟨source, h1, h2, st, h3, h4⟩, hshared.mp h5, rfl⟩
        · rintro ⟨⟨source, h1, h2, st, h3, h4⟩, h5, rfl⟩
          exact ⟨source, h1, h2, st, h3, h4, hshared.mpr h5, rfl⟩
  · have hnone : holding r = none := by simp [holding, hkind]
    have hfree : ∀ a ∈ seen, Compatible a r := fun a _ key _ hkr => by simp [hnone] at hkr
    have hskip : checkStaging rs keys r = .ok keys := by simp [checkStaging, hkind]
    rw [hskip, Except.ok.injEq]
    refine ⟨fun h => ⟨fun hk => absurd hk hkind, hfree, ?_⟩, fun ⟨_, _, h⟩ => ?_⟩
    · simp only [nextKeys, hnone, h]
    · simp only [h, nextKeys, hnone]

theorem FirstHolders.next (hk : FirstHolders keys seen) (hc : ∀ a ∈ seen, Compatible a r) :
    FirstHolders (nextKeys keys r) (seen ++ [r]) := by
  have hold : ∀ e ∈ keys, e.2 ∈ seen ++ [r] ∧ holding e.2 = some e.1 := fun e he =>
    ⟨List.mem_append_left _ (hk.holds e he).1, (hk.holds e he).2⟩
  cases hkey : holding r with
  | none =>
    simp only [nextKeys, hkey]
    refine ⟨hold, fun a ha key hka => ?_⟩
    rcases List.mem_append.mp ha with ha | ha
    · exact hk.first a ha key hka
    · obtain rfl := List.mem_singleton.mp ha
      rw [hkey] at hka
      cases hka
  | some key =>
    cases hf : keys.find? (·.1 = key) with
    | some prior =>
      simp only [nextKeys, hkey, hf, Option.isSome_some, if_true]
      refine ⟨hold, fun a ha key' hka => ?_⟩
      rcases List.mem_append.mp ha with ha | ha
      · exact hk.first a ha key' hka
      · obtain rfl := List.mem_singleton.mp ha
        obtain rfl := Option.some.inj (hkey.symm.trans hka)
        have hmem := List.mem_of_find?_eq_some hf
        have hph : prior.1 = key := by simpa using List.find?_some hf
        refine ⟨prior, hf, fun c hpc => ?_⟩
        refine Compatible.trans_of (hc _ (hk.holds _ hmem).1) hpc fun key' hka' => ?_
        rw [← hka', hka, ← hph, (hk.holds _ hmem).2]
    | none =>
      simp only [nextKeys, hkey, hf, Option.isSome_none, Bool.false_eq_true, if_false]
      refine ⟨fun e he => ?_, fun a ha key' hka => ?_⟩
      · rcases List.mem_cons.mp he with rfl | he
        · exact ⟨by simp, hkey⟩
        · exact hold e he
      · rcases List.mem_append.mp ha with ha | ha
        · obtain ⟨e, he, hea⟩ := hk.first a ha key' hka
          refine ⟨e, ?_, hea⟩
          have hne : key ≠ key' := by
            rintro rfl
            simp [hf] at he
          simpa [hne] using he
        · obtain rfl := List.mem_singleton.mp ha
          obtain rfl := Option.some.inj (hkey.symm.trans hka)
          exact ⟨(key, a), by simp, fun c h => h⟩

theorem staging_eq_ok (hn : (rs.map (·.name)).Nodup) {rest : List Resource}
    (hk : FirstHolders keys seen) :
    (∃ keys', rest.foldlM (checkStaging rs) keys = .ok keys') ↔ (∀ r ∈ rest, Sourced rs r) ∧
      rest.Pairwise Compatible ∧ ∀ a ∈ seen, ∀ b ∈ rest, Compatible a b := by
  induction rest generalizing keys seen with
  | nil => simp [List.foldlM_nil, pure_eq_ok]
  | cons r rest ih =>
    simp only [foldlM_cons_eq_ok, checkStaging_eq_ok hn hk, List.pairwise_cons,
      List.forall_mem_cons]
    constructor
    · rintro ⟨keys', _, ⟨hs, hc, rfl⟩, hrest⟩
      obtain ⟨h1, h2, h3⟩ := (ih (hk.next hc)).mp ⟨keys', hrest⟩
      refine ⟨⟨hs, h1⟩, ⟨fun b hb => h3 r (by simp) b hb, h2⟩, fun a ha => ⟨hc a ha, ?_⟩⟩
      exact fun b hb => h3 a (List.mem_append_left _ ha) b hb
    · rintro ⟨⟨hs, h1⟩, ⟨hr, h2⟩, h3⟩
      have hc : ∀ a ∈ seen, Compatible a r := fun a ha => (h3 a ha).1
      obtain ⟨keys', hrest⟩ := (ih (hk.next hc)).mpr ⟨h1, h2, fun a ha b hb => by
        rcases List.mem_append.mp ha with ha | ha
        · exact (h3 a ha).2 b hb
        · exact List.mem_singleton.mp ha ▸ hr b hb⟩
      exact ⟨keys', _, ⟨hs, hc, rfl⟩, hrest⟩

end

/-! ## Consistent registries -/

/-- The guests share no name, VMID, IP, MAC, allocation id, production purpose or domain, each
staging guest's source is a production guest, and a snapshot that two guests hold is one snapshot,
verified by both. -/
structure Consistent (rs : List Resource) : Prop where
  names : (rs.map (·.name)).Nodup
  vmids : (rs.map (·.vmid)).Nodup
  ips : (rs.map (·.ip)).Nodup
  macs : (rs.map (·.mac)).Nodup
  allocationIds : (rs.flatMap fun r => r.allocationId.toList).Nodup
  purposes : (rs.flatMap productionPurpose).Nodup
  domains : (rs.flatMap fun r => r.domains.routed).Nodup
  routes : (rs.flatMap fun r => r.domains.routed).length ≤ maxRoutes
  sourced : ∀ r ∈ rs, Sourced rs r
  shared : rs.Pairwise Compatible

theorem validateRegistryInvariants_eq_ok :
    validateRegistryInvariants rs = .ok () ↔ Consistent rs := by
  have hsingle {α : Type} (f : Resource → α) : (rs.flatMap fun r => [f r]) = rs.map f := by
    rw [List.map_eq_flatMap]
  have hclaims : Claims rs {} ↔ (rs.map (·.name)).Nodup ∧ (rs.map (·.vmid)).Nodup ∧
      (rs.map (·.ip)).Nodup ∧ (rs.map (·.mac)).Nodup ∧
      (rs.flatMap fun r => r.allocationId.toList).Nodup ∧
      (rs.flatMap productionPurpose).Nodup ∧ (rs.flatMap fun r => r.domains.routed).Nodup := by
    simp only [← hsingle, ← unclaimed_nil]
    exact ⟨fun ⟨a, b, c, d, e, f, g⟩ => ⟨a, b, c, d, e, f, g⟩,
      fun ⟨a, b, c, d, e, f, g⟩ => ⟨a, b, c, d, e, f, g⟩⟩
  have hkeys : FirstHolders [] [] :=
    ⟨fun e he => absurd he List.not_mem_nil, fun r hr => absurd hr List.not_mem_nil⟩
  simp only [validateRegistryInvariants, bind_eq_ok, check_eq_ok, held_eq_ok]
  constructor
  · rintro ⟨_, ⟨hc, rfl⟩, hlen, keys', hs, -⟩
    obtain ⟨h1, h2, h3, h4, h5, h6, h7⟩ := hclaims.mp hc
    rw [domain_length] at hlen
    obtain ⟨hsourced, hshared, -⟩ := (staging_eq_ok h1 hkeys).mp ⟨keys', hs⟩
    exact ⟨h1, h2, h3, h4, h5, h6, h7, by simpa using hlen, hsourced, hshared⟩
  · rintro ⟨h1, h2, h3, h4, h5, h6, h7, h8, h9, h10⟩
    obtain ⟨keys', hs⟩ := (staging_eq_ok h1 hkeys).mpr
      ⟨h9, h10, fun a ha => absurd ha List.not_mem_nil⟩
    refine ⟨_, ⟨hclaims.mpr ⟨h1, h2, h3, h4, h5, h6, h7⟩, rfl⟩, ?_, keys', hs, rfl⟩
    rw [domain_length]
    simpa using h8

theorem Sourced.mono {rs' : List Resource} (h : ∀ a ∈ rs, a ∈ rs')
    (hs : Sourced rs r) : Sourced rs' r := by
  intro hkind
  obtain ⟨source, hmem, hrest⟩ := hs hkind
  exact ⟨source, h _ hmem, hrest⟩

namespace Consistent

variable {rs rs' : List Resource}

theorem perm (h : Consistent rs) (hp : rs.Perm rs') : Consistent rs' where
  names := (hp.map _).nodup_iff.mp h.names
  vmids := (hp.map _).nodup_iff.mp h.vmids
  ips := (hp.map _).nodup_iff.mp h.ips
  macs := (hp.map _).nodup_iff.mp h.macs
  allocationIds := (hp.flatMap_right _).nodup_iff.mp h.allocationIds
  purposes := (hp.flatMap_right _).nodup_iff.mp h.purposes
  domains := (hp.flatMap_right _).nodup_iff.mp h.domains
  routes := (hp.flatMap_right _).length_eq ▸ h.routes
  sourced := fun r hr => (h.sourced r (hp.mem_iff.mpr hr)).mono fun _ ha => hp.mem_iff.mp ha
  shared := hp.pairwise h.shared fun h => h.symm

/-- Guests that no staging guest left is a copy of can go. -/
theorem sublist (h : Consistent rs) (hs : rs'.Sublist rs)
    (hsource : ∀ r ∈ rs', r.kind = .staging → ∀ source ∈ rs, some source.name = r.source →
      source ∈ rs') : Consistent rs' where
  names := h.names.sublist (hs.map _)
  vmids := h.vmids.sublist (hs.map _)
  ips := h.ips.sublist (hs.map _)
  macs := h.macs.sublist (hs.map _)
  allocationIds := h.allocationIds.sublist (hs.flatMap _)
  purposes := h.purposes.sublist (hs.flatMap _)
  domains := h.domains.sublist (hs.flatMap _)
  routes := (hs.flatMap _).length_le.trans h.routes
  sourced := fun r hr hkind => by
    obtain ⟨source, hmem, hsrc, hrest⟩ := h.sourced r (hs.subset hr) hkind
    exact ⟨source, hsource r hr hkind source hmem hsrc, hsrc, hrest⟩
  shared := h.shared.sublist hs

end Consistent

end Bmac.Registry
