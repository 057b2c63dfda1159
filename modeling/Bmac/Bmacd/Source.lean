import Bmac.Base.Checks
import Bmac.Bmacd.Offers

/-!
# What an appliance may pull

`bmacd/src/backup/source.rs`: the listing of an appliance's offer with the base it pulls from, and
`authorize_send`, which resolves each send from the catalog. Both walk the same parents
(`ancestors`). What the store, the registry and the host's ZFS answer are parameters.
-/

namespace Bmac.Bmacd

open Bmac.Base Bmac.Core Bmac.Backup

/-- Lowercase hex without separators, if it is a SHA-256. -/
def normalizedFingerprint (text : String) : Option String :=
  let hex := (text.toList.filter fun c => c ≠ ':' ∧ c ≠ ' ').map Char.toLower
  if hex.length = 64 && hex.all fun c => Text.isDigit c || ('a' ≤ c && c ≤ 'f') then
    some (String.ofList hex)
  else none

/-- What the registry says about a production VM. -/
structure Production where
  vmUuid : Uuid
  name : GuestName
  vmid : Nat
  placement : List HostSlot
  record : Value

/-- A VM's PITs, oldest first. Each record is in the file of its UUID. -/
structure PitList where
  pits : List PitRecord
  unique : pits.Pairwise (·.pitUuid ≠ ·.pitUuid)

/-- The backup records and the registry as they are read. -/
structure Records where
  appliances : Except ApiError (List ApplianceRecord)
  policy : Uuid → Except ApiError (Option Policy)
  pits : Uuid → Except ApiError PitList
  byUuid : Uuid → Except String (Option Production)

/-- This host. -/
structure SendingHost where
  slot : HostSlot
  members : Except String (List HostSlot)
  /-- The snapshots and bookmarks here, with their GUIDs. -/
  live : String → Option SnapshotGuid
  /-- `zfs get guid`: those of the names that exist. -/
  guids : List String → Except String (Dict SnapshotGuid)
  guids_live : ∀ {names found name guid}, guids names = .ok found → found.get? name = some guid →
    live name = some guid
  /-- The snapshot that a receive resume token continues, with its GUID. -/
  resumeTarget : String → Except String (String × SnapshotGuid)

structure SendRequest where
  transferUuid : Uuid
  vmUuid : Uuid
  pitUuid : Uuid
  volumeUuid : Uuid
  base : Option Uuid
  resumeToken : Option String
  largeBlocks : Bool
  compressed : Bool

/-- A send `bmac-source` may run: every name resolved from the catalog. -/
structure SendPlan where
  transferUuid : Uuid
  snapshot : String
  guid : SnapshotGuid
  /-- `dataset@…` or `dataset#…`, for an incremental. -/
  from_ : Option String
  resumeToken : Option String
  largeBlocks : Bool
  compressed : Bool

inductive BaseKind where
  | snapshot | bookmark
  deriving DecidableEq

structure OfferBase where
  pitUuid : Uuid
  kind : BaseKind
  deriving DecidableEq

structure OfferedPit where
  vmUuid : Uuid
  pitUuid : Uuid
  branchUuid : Uuid
  name : String
  takenS : Int
  parent : Option Uuid
  base : Option OfferBase
  hosts : List HostSlot
  manifest : String

def forbidden (message : String) : ApiError := .new .forbidden message
def invalid (message : String) : ApiError := .new .invalid message
def internal (message : String) : ApiError := .new .internal message

/-- The first `left` PITs of the walk up from `next`. -/
def ancestorsFrom (pits : List PitRecord) : Nat → Option Uuid → List PitRecord
  | 0, _ => []
  | left + 1, next =>
    match pits.find? fun p => some p.pitUuid = next with
    | none => []
    | some parent => parent :: ancestorsFrom pits left parent.parent

/-- `pit`'s ancestors in the catalog, nearest first, across the branches it descends from; a
parent no longer in the catalog ends the walk. -/
def ancestors (pits : List PitRecord) (pit : PitRecord) : List PitRecord :=
  ancestorsFrom pits pits.length pit.parent

/-- The VM's placement hosts that are in the cluster. -/
def placedMembers (host : SendingHost) (placement : List HostSlot) : Except String (List HostSlot) :=
  host.members.map fun members => placement.filter (· ∈ members)

namespace Records

variable (records : Records)

def enrolled (fingerprint : String) : Except ApiError ApplianceRecord := do
  let wanted ← ofOption (normalizedFingerprint fingerprint) (forbidden "no client certificate")
  let appliances ← records.appliances
  ofOption ((appliances.find? fun a => normalizedFingerprint a.fingerprint = some wanted).filter
      fun a => a.enrollment = .approved && !a.retired)
    (forbidden "this appliance isn't enrolled with the cluster")

def assignedPolicy (appliance vm : Uuid) : Except ApiError Policy := do
  let policy ← records.policy vm
  ofOption (policy.filter (appliance ∈ ·.appliances))
    (forbidden "that VM isn't backed up to this appliance")

def placement (vm : Uuid) : Except ApiError (List HostSlot) := do
  let production ← (records.byUuid vm).mapError internal
  return (production.map (·.placement)).getD []

/-- The newest PIT of `vm` still offered to the appliance, with the base it pulls from: the nearest
ancestor in `held`. -/
def offer (host : SendingHost) (appliance vm : Uuid) (pits : PitList) (held : List Uuid) (nowS : Int)
    (settings : BackupSettings) : Except ApiError (Option OfferedPit) :=
  let offered (p : PitRecord) : Bool := p.presence = .snapshot &&
    (p.offers.get? appliance).any fun o => o.pending && o.holds nowS settings
  match pits.pits.reverse.find? offered with
  | none => .ok none
  | some pit => do
    let base := ((ancestors pits.pits pit).find? (·.pitUuid ∈ held)).map fun base =>
      (⟨base.pitUuid, if base.presence = .snapshot then .snapshot else .bookmark⟩ : OfferBase)
    let placement ← records.placement vm
    let hosts ← (placedMembers host placement).mapError internal
    return some ⟨vm, pit.pitUuid, pit.branchUuid, pit.name.text, pit.takenS, pit.parent, base,
      hosts, pit.manifest⟩

/-- The names under which this host may hold a base's copy of a volume: a restored disk carries
its base under the disk's own name. -/
def candidates (volume fromVolume : Volume) (from_ : PitRecord) : List String :=
  ([volume.dataset, fromVolume.dataset].flatMap fun dataset =>
    [s!"{dataset}@{from_.name.text}", s!"{dataset}#{from_.name.text}"]).eraseDups

def sendBase (codec : Codec) (pits : PitList) (pit : PitRecord) (volume : Volume) (base : Uuid) :
    Except ApiError (List String × SnapshotGuid) := do
  let from_ ← ofOption (pits.pits.find? (·.pitUuid = base))
    (invalid "the base isn't in the catalog any more")
  if !(ancestors pits.pits pit).any (·.pitUuid = base) then
    throw (invalid "the base isn't an ancestor of the PIT")
  let manifest ← (Manifest.open_ codec from_.manifest).mapError fun e => internal e.text
  let fromVolume ← ofOption (manifest.volumes.find? (·.volumeUuid = volume.volumeUuid))
    (invalid "the base has no such volume")
  return (candidates volume fromVolume from_, fromVolume.snapshotGuid)

def sendBaseOf (codec : Codec) (pits : PitList) (pit : PitRecord) (volume : Volume) :
    Option Uuid → Except ApiError (Option (List String × SnapshotGuid))
  | none => .ok none
  | some base => (sendBase codec pits pit volume base).map some

/-- The first of the base's names that has its GUID here. -/
def sendFrom (host : SendingHost) (found : Dict SnapshotGuid) :
    Option (List String × SnapshotGuid) → Except ApiError (Option String)
  | none => .ok none
  | some (copies, guid) =>
    (ofOption (copies.find? fun n => found.get? n = some guid)
      (.new .notFound s!"{host.slot} has neither a snapshot nor a bookmark of the base")).map some

def isGraphic (c : Char) : Bool := 0x21 ≤ c.toNat && c.toNat ≤ 0x7e

def checkToken (host : SendingHost) (snapshot : String) (guid : SnapshotGuid) (token : String) :
    Except ApiError Unit := do
  if token.isEmpty || Text.len token > 4096 || !token.toList.all isGraphic then
    throw (invalid "not a resume token")
  let target ← (host.resumeTarget token).mapError fun e =>
    invalid s!"the resume token can't be used: {e}"
  if target ≠ (snapshot, guid) then
    throw (forbidden "the resume token continues another snapshot")

def checkResume (host : SendingHost) (snapshot : String) (guid : SnapshotGuid) :
    Option String → Except ApiError Unit
  | none => .ok ()
  | some token => checkToken host snapshot guid token

def authorizeSend (codec : Codec) (host : SendingHost) (fingerprint : String) (request : SendRequest) :
    Except ApiError SendPlan := do
  let appliance ← records.enrolled fingerprint
  let id := appliance.applianceUuid
  let _ ← records.assignedPolicy id request.vmUuid
  let placement ← records.placement request.vmUuid
  if host.slot ∉ placement then
    throw (forbidden s!"{host.slot} doesn't hold this VM")
  let pits ← records.pits request.vmUuid
  let pit ← ofOption (pits.pits.find? (·.pitUuid = request.pitUuid))
    (.new .notFound "no such PIT in the catalog")
  if !(pit.offers.get? id).any (·.pending) then
    throw (forbidden "the PIT isn't offered to this appliance")
  if pit.presence ≠ .snapshot then
    throw (.new .conflict "the PIT's snapshots were released")
  let manifest ← (Manifest.open_ codec pit.manifest).mapError fun e => internal e.text
  let volume ← ofOption (manifest.volumes.find? (·.volumeUuid = request.volumeUuid.text))
    (invalid "the PIT has no such volume")
  let snapshot := s!"{volume.dataset}@{pit.name.text}"
  let base ← sendBaseOf codec pits pit volume request.base
  let names := snapshot :: (base.map (·.1)).getD []
  let found ← (host.guids names).mapError (.new .unavailable)
  if found.get? snapshot ≠ some volume.snapshotGuid then
    throw (.new .notFound s!"{host.slot} doesn't have {snapshot} with the catalog's GUID")
  let from_ ← sendFrom host found base
  checkResume host snapshot volume.snapshotGuid request.resumeToken
  return ⟨request.transferUuid, snapshot, volume.snapshotGuid, from_, request.resumeToken,
    request.largeBlocks, request.compressed⟩

end Records

/-! ## Ancestors -/

/-- `a` is reached from `pit` over parents that are in the catalog. -/
inductive Ancestor (pits : List PitRecord) : PitRecord → PitRecord → Prop where
  | parent {pit a : PitRecord} : a ∈ pits → pit.parent = some a.pitUuid → Ancestor pits pit a
  | up {pit p a : PitRecord} : p ∈ pits → pit.parent = some p.pitUuid → Ancestor pits p a →
      Ancestor pits pit a

variable {pit : PitRecord}

theorem ancestor_of_mem {pits : List PitRecord} {left : Nat} {a : PitRecord}
    (h : a ∈ ancestorsFrom pits left pit.parent) : Ancestor pits pit a := by
  induction left generalizing pit with
  | zero => cases h
  | succ left ih =>
    unfold ancestorsFrom at h
    split at h
    · cases h
    · rename_i p hp
      have hmem := List.mem_of_find?_eq_some hp
      have hparent : some p.pitUuid = pit.parent := by simpa using List.find?_some hp
      rcases List.mem_cons.mp h with rfl | h
      · exact .parent hmem hparent.symm
      · exact .up hmem hparent.symm (ih h)

theorem Ancestor.mem {pits : List PitRecord} {a : PitRecord} (h : Ancestor pits pit a) :
    a ∈ pits := by
  induction h with
  | parent hmem => exact hmem
  | up _ _ _ ih => exact ih

/-! ## What an authorized send says -/

/-- The PIT's manifest lists `volume` as the volume with that UUID. -/
def ListsVolume (codec : Codec) (pit : PitRecord) (uuid : String) (volume : Volume) : Prop :=
  ∃ manifest, Manifest.open_ codec pit.manifest = .ok manifest ∧ volume ∈ manifest.volumes ∧
    volume.volumeUuid = uuid

/-- The appliance with the certificate, approved and not retired. -/
structure EnrolledAs (records : Records) (fingerprint : String) (appliance : ApplianceRecord) :
    Prop where
  listed : ∃ appliances, records.appliances = .ok appliances ∧ appliance ∈ appliances
  fingerprint_eq : normalizedFingerprint appliance.fingerprint = normalizedFingerprint fingerprint
  isSome : (normalizedFingerprint fingerprint).isSome
  approved : appliance.enrollment = .approved
  active : appliance.retired = false

/-- `name` is this host's copy of the base's volume, and the base an ancestor of `pit`. -/
structure SendsFrom (codec : Codec) (host : SendingHost) (pits : PitList) (pit : PitRecord)
    (volume : Volume) (base : Uuid) (name : String) : Prop where
  ancestor : ∃ from_, Ancestor pits.pits pit from_ ∧ from_.pitUuid = base ∧
    ∃ fromVolume, ListsVolume codec from_ volume.volumeUuid fromVolume ∧
      host.live name = some fromVolume.snapshotGuid

/-- What an allowed send rests on. -/
structure Authorized (records : Records) (codec : Codec) (host : SendingHost) (fingerprint : String)
    (request : SendRequest) (plan : SendPlan) (appliance : ApplianceRecord) (pits : PitList)
    (pit : PitRecord) (volume : Volume) : Prop where
  enrolled : EnrolledAs records fingerprint appliance
  assigned : ∃ policy, records.policy request.vmUuid = .ok (some policy) ∧
    appliance.applianceUuid ∈ policy.appliances
  placed : ∃ placement, records.placement request.vmUuid = .ok placement ∧ host.slot ∈ placement
  catalog : records.pits request.vmUuid = .ok pits
  listed : pit ∈ pits.pits
  pit_eq : pit.pitUuid = request.pitUuid
  offered : ∃ offer, pit.offers.get? appliance.applianceUuid = some offer ∧ offer.pending = true
  present : pit.presence = .snapshot
  volume_listed : ListsVolume codec pit request.volumeUuid.text volume
  snapshot : plan.snapshot = s!"{volume.dataset}@{pit.name.text}"
  guid : plan.guid = volume.snapshotGuid
  live : host.live plan.snapshot = some volume.snapshotGuid
  full : request.base = none → plan.from_ = none
  incremental : ∀ base, request.base = some base →
    ∃ name, plan.from_ = some name ∧ SendsFrom codec host pits pit volume base name
  resumed : ∀ token, request.resumeToken = some token →
    host.resumeTarget token = .ok (plan.snapshot, plan.guid)

section

variable {records : Records} {codec : Codec} {host : SendingHost} {fingerprint : String}
  {request : SendRequest}

theorem Records.enrolled_eq_ok {appliance : ApplianceRecord}
    (h : records.enrolled fingerprint = .ok appliance) :
    EnrolledAs records fingerprint appliance := by
  simp only [enrolled, bind_eq_ok, ofOption_eq_ok, Option.filter_eq_some_iff, Bool.and_eq_true,
    decide_eq_true_eq, Bool.not_eq_true'] at h
  obtain ⟨wanted, hwanted, appliances, happliances, hfind, happroved, hretired⟩ := h
  have hfp : normalizedFingerprint appliance.fingerprint = some wanted := by
    simpa using List.find?_some hfind
  exact ⟨⟨appliances, happliances, List.mem_of_find?_eq_some hfind⟩, hfp.trans hwanted.symm,
    by rw [hwanted]; rfl, happroved, hretired⟩

theorem Records.assignedPolicy_eq_ok {appliance vm : Uuid} {policy : Policy}
    (h : records.assignedPolicy appliance vm = .ok policy) :
    records.policy vm = .ok (some policy) ∧ appliance ∈ policy.appliances := by
  simp only [assignedPolicy, bind_eq_ok, ofOption_eq_ok, Option.filter_eq_some_iff,
    decide_eq_true_eq] at h
  obtain ⟨found, hfound, rfl, hmem⟩ := h
  exact ⟨hfound, hmem⟩

variable {volume : Volume}

theorem listsVolume_of_find {manifest : Manifest} {uuid : String}
    (hopen : Manifest.open_ codec pit.manifest = .ok manifest)
    (hfind : manifest.volumes.find? (·.volumeUuid = uuid) = some volume) :
    ListsVolume codec pit uuid volume :=
  ⟨manifest, hopen, List.mem_of_find?_eq_some hfind, by simpa using List.find?_some hfind⟩

variable {pits : PitList}

theorem PitList.eq_of_pitUuid {p q : PitRecord} (hp : p ∈ pits.pits)
    (hq : q ∈ pits.pits) (heq : p.pitUuid = q.pitUuid) : p = q := by
  have hsymm : Std.Symm fun p q : PitRecord => p.pitUuid ≠ q.pitUuid := ⟨fun _ _ h => h.symm⟩
  by_contra hne
  exact pits.unique.forall hp hq hne heq

theorem PitList.find?_pitUuid {p : PitRecord} (hp : p ∈ pits.pits) :
    pits.pits.find? (·.pitUuid = p.pitUuid) = some p := by
  cases hq : pits.pits.find? (·.pitUuid = p.pitUuid) with
  | none => simpa using List.find?_eq_none.mp hq p hp
  | some q =>
    have hid : q.pitUuid = p.pitUuid := by simpa using List.find?_some hq
    rw [PitList.eq_of_pitUuid (List.mem_of_find?_eq_some hq) hp hid]

theorem Records.sendBase_eq_ok {base : Uuid} {copies : List String}
    {guid : SnapshotGuid} (h : sendBase codec pits pit volume base = .ok (copies, guid)) :
    ∃ from_, Ancestor pits.pits pit from_ ∧ from_.pitUuid = base ∧
      ∃ fromVolume, ListsVolume codec from_ volume.volumeUuid fromVolume ∧
        fromVolume.snapshotGuid = guid := by
  simp only [sendBase, bind_eq_ok, check_eq_ok, ofOption_eq_ok, mapError_eq_ok, pure_eq_ok] at h
  obtain ⟨from_, hfrom, hanc, manifest, hopen, fromVolume, hvolume, hret⟩ := h
  simp only [Bool.not_eq_true', Bool.not_eq_false, List.any_eq_true, decide_eq_true_eq] at hanc
  obtain ⟨a, ha, haid⟩ := hanc
  have hanc : Ancestor pits.pits pit a := ancestor_of_mem ha
  have hid : from_.pitUuid = base := by simpa using List.find?_some hfrom
  obtain rfl : a = from_ :=
    PitList.eq_of_pitUuid hanc.mem (List.mem_of_find?_eq_some hfrom) (haid.trans hid.symm)
  exact ⟨a, hanc, hid, fromVolume, listsVolume_of_find hopen hvolume, (Prod.mk.inj hret).2⟩

theorem Records.checkToken_eq_ok {snapshot token : String} {guid : SnapshotGuid}
    (h : checkToken host snapshot guid token = .ok ()) :
    host.resumeTarget token = .ok (snapshot, guid) := by
  simp only [checkToken, bind_eq_ok, check_eq_ok, last_check_eq_ok, mapError_eq_ok, not_not] at h
  obtain ⟨-, target, htarget, heq, -⟩ := h
  rw [htarget, heq]

theorem Records.sendFrom_eq_ok {base : Option (List String × SnapshotGuid)}
    {names : List String} {found : Dict SnapshotGuid} {from_ : Option String}
    (hbase : sendBaseOf codec pits pit volume request.base = .ok base)
    (hfound : host.guids names = .ok found) (h : sendFrom host found base = .ok from_) :
    (request.base = none → from_ = none) ∧ ∀ id, request.base = some id →
      ∃ name, from_ = some name ∧ SendsFrom codec host pits pit volume id name := by
  cases hid : request.base with
  | none =>
    rw [hid] at hbase
    obtain rfl := Except.ok.inj hbase
    obtain rfl := Except.ok.inj h
    exact ⟨fun _ => rfl, fun _ hc => absurd hc (by simp)⟩
  | some id =>
    rw [hid] at hbase
    refine ⟨fun hc => absurd hc (by simp), fun id' hid' => ?_⟩
    cases hid'
    obtain ⟨⟨copies, guid⟩, hsend, rfl⟩ := map_eq_ok.mp hbase
    obtain ⟨name, hname, rfl⟩ := map_eq_ok.mp h
    have hlive : host.live name = some guid := by
      have hget := List.find?_some (ofOption_eq_ok.mp hname)
      exact host.guids_live hfound (by simpa using hget)
    obtain ⟨p, hanc, hp, fromVolume, hlists, rfl⟩ := sendBase_eq_ok hsend
    exact ⟨name, rfl, p, hanc, hp, fromVolume, hlists, hlive⟩

/-- A send is allowed only to an approved appliance, for a volume of a PIT offered to it, from this
host's own copy with the catalog's GUID. -/
theorem authorizeSend_sound {plan : SendPlan}
    (h : records.authorizeSend codec host fingerprint request = .ok plan) :
    ∃ appliance pits pit volume,
      Authorized records codec host fingerprint request plan appliance pits pit volume := by
  unfold Records.authorizeSend at h
  simp only [bind_eq_ok, check_eq_ok, ofOption_eq_ok, mapError_eq_ok, pure_eq_ok, not_not] at h
  obtain ⟨appliance, henrolled, policy, hpolicy, placement, hplacement, hslot, pits, hpits, pit,
    hpit, hoffer, hpresent, manifest, hopen, volume, hvolume, base, hbase, found, hfound, hlive,
    from_, hfrom, _, htoken, rfl⟩ := h
  refine ⟨appliance, pits, pit, volume, ?_⟩
  have hoffer : (pit.offers.get? appliance.applianceUuid).any (·.pending) = true := by
    simpa using hoffer
  obtain ⟨hfull, hincr⟩ := Records.sendFrom_eq_ok hbase hfound hfrom
  exact {
    enrolled := Records.enrolled_eq_ok henrolled
    assigned := ⟨policy, Records.assignedPolicy_eq_ok hpolicy⟩
    placed := ⟨placement, hplacement, hslot⟩
    catalog := hpits
    listed := List.mem_of_find?_eq_some hpit
    pit_eq := by simpa using List.find?_some hpit
    offered := (Option.any_eq_true _ _).mp hoffer
    present := hpresent
    volume_listed := listsVolume_of_find hopen hvolume
    snapshot := rfl
    guid := rfl
    live := host.guids_live hfound hlive
    full := hfull
    incremental := hincr
    resumed := fun token ht => by
      rw [ht] at htoken
      exact Records.checkToken_eq_ok htoken }

/-! ## What the listing names -/

/-- The base that the listing of an appliance's offer names is in the catalog and passes the
send's check that it is an ancestor of the offered PIT. -/
theorem offer_base_ancestor {appliance vm : Uuid} {held : List Uuid} {nowS : Int}
    {settings : BackupSettings} {offered : OfferedPit} {base : OfferBase}
    (h : records.offer host appliance vm pits held nowS settings = .ok (some offered))
    (hbase : offered.base = some base) :
    ∃ pit from_, pits.pits.find? (·.pitUuid = offered.pitUuid) = some pit ∧
      pits.pits.find? (·.pitUuid = base.pitUuid) = some from_ ∧
      (ancestors pits.pits pit).any (·.pitUuid = base.pitUuid) = true := by
  unfold Records.offer at h
  dsimp only at h
  split at h
  · cases h
  · rename_i pit hpit
    simp only [bind_eq_ok, mapError_eq_ok, pure_eq_ok, Option.some.injEq] at h
    obtain ⟨placement, -, hosts, -, rfl⟩ := h
    obtain ⟨a, ha, rfl⟩ := Option.map_eq_some_iff.mp hbase
    have hmem : pit ∈ pits.pits := List.mem_reverse.mp (List.mem_of_find?_eq_some hpit)
    have hanc := List.mem_of_find?_eq_some ha
    refine ⟨pit, a, PitList.find?_pitUuid hmem, PitList.find?_pitUuid (ancestor_of_mem hanc).mem, ?_⟩
    exact List.any_eq_true.mpr ⟨a, hanc, by simp⟩

end

/-- Sends are allowed only as the catalog says, and every base the listing of an offer names passes
the send's ancestor check. -/
theorem sends_sound_and_offered :
    (∀ (records : Records) (codec : Codec) (host : SendingHost) (fingerprint : String)
        (request : SendRequest) (plan : SendPlan),
      records.authorizeSend codec host fingerprint request = .ok plan →
      ∃ appliance pits pit volume,
        Authorized records codec host fingerprint request plan appliance pits pit volume) ∧
    ∀ (records : Records) (host : SendingHost) (appliance vm : Uuid) (pits : PitList) (held : List Uuid)
        (nowS : Int) (settings : BackupSettings) (offered : OfferedPit) (base : OfferBase),
      records.offer host appliance vm pits held nowS settings = .ok (some offered) →
      offered.base = some base →
      ∃ pit from_, pits.pits.find? (·.pitUuid = offered.pitUuid) = some pit ∧
        pits.pits.find? (·.pitUuid = base.pitUuid) = some from_ ∧
        (ancestors pits.pits pit).any (·.pitUuid = base.pitUuid) = true :=
  ⟨fun _ _ _ _ _ _ h => authorizeSend_sound h, fun _ _ _ _ _ _ _ _ _ _ h => offer_base_ancestor h⟩

/-! ### An incremental send -/

def sentManifest : Manifest where
  schemaVersion := 1
  clusterUuid := "c1"
  vmUuid := Uuid.text 7
  vmid := 100
  pitUuid := Uuid.text 10
  branchUuid := Uuid.text 11
  parentPitUuid := none
  snapshot := ⟨"bmac-pit-19700101T000140Z-a1b2c3", 100⟩
  takenAtS := 100
  consistency := .crash
  evidence := .null
  multiPool := false
  versions := ⟨"9.0", "2.3", "3.0"⟩
  configText := ""
  config := []
  configSha256 := ""
  volumes := [⟨Uuid.text 3, "scsi0", .disk, "rpool/data/vm-100-disk-0", 17, 1048576, 16384, true⟩]
  firmware := ⟨"seabios", none, false⟩
  registry := .null
  prerequisites := []
  sha256 := ""

def sentCodec : Codec := ⟨fun _ => .ok sentManifest, fun _ => "", fun _ => "", fun _ => ""⟩

def sentPit : PitRecord :=
  { offeredPit with
    parent := some 9
    name := ⟨"bmac-pit-19700101T000140Z-a1b2c3", 100⟩
    takenS := 100 }

def sentBase : PitRecord := { offeredPit with pitUuid := 9, offers := [(5, .published)] }

def sentPits : PitList := ⟨[sentBase, sentPit], by decide⟩

def sentFingerprint : String := String.ofList (List.replicate 64 'a')

def sentRecords : Records where
  appliances := .ok [⟨1, 5, "attic", sentFingerprint, .approved, false, false, none, none, false,
    .normal, [], 0⟩]
  policy _ := .ok (some ⟨1, 7, "prod1", "backup-7", [5], ⟨0, 0, 0⟩, none, .never, false, true, "", 0⟩)
  pits _ := .ok sentPits
  byUuid _ := .ok (some ⟨7, .production 1, 100, [⟨1, HostSlot.range_one⟩], .null⟩)

/-- A host that has what `live` says. -/
def SendingHost.ofLive (slot : HostSlot) (live : String → Option SnapshotGuid) : SendingHost where
  slot := slot
  members := .ok [slot]
  live := live
  guids names := .ok (names.filterMap fun n => (live n).map fun g => (n, g))
  guids_live := by
    intro names found name guid h hget
    obtain rfl := Except.ok.inj h
    obtain ⟨n, -, hn⟩ := List.mem_filterMap.mp (Dict.mem_of_get? hget)
    obtain ⟨g, hg, heq⟩ := Option.map_eq_some_iff.mp hn
    obtain ⟨rfl, rfl⟩ := Prod.mk.inj heq
    exact hg
  resumeTarget _ := .error "no token"

def sentHost : SendingHost := .ofLive ⟨1, HostSlot.range_one⟩ fun name =>
  if name = "rpool/data/vm-100-disk-0@bmac-pit-19700101T000140Z-a1b2c3" then some 17
  else if name = "rpool/data/vm-100-disk-0#bmac-pit-19700101T000000Z-a1b2c3" then some 17
  else none

def sentRequest : SendRequest := ⟨1, 7, 10, 3, some 9, none, true, true⟩

def sentPlan : SendPlan :=
  ⟨1, "rpool/data/vm-100-disk-0@bmac-pit-19700101T000140Z-a1b2c3", 17,
    some "rpool/data/vm-100-disk-0#bmac-pit-19700101T000000Z-a1b2c3", none, true, true⟩

theorem sends_sound_and_offered_incremental :
    (∃ appliance pits pit volume, Authorized sentRecords sentCodec sentHost sentFingerprint
      sentRequest sentPlan appliance pits pit volume) ∧
    ∃ pit from_, sentPits.pits.find? (·.pitUuid = 10) = some pit ∧
      sentPits.pits.find? (·.pitUuid = 9) = some from_ ∧
      (ancestors sentPits.pits pit).any (·.pitUuid = 9) = true :=
  ⟨sends_sound_and_offered.1 sentRecords sentCodec sentHost sentFingerprint sentRequest sentPlan
      (by rfl),
    sends_sound_and_offered.2 sentRecords sentHost 5 7 sentPits [9] 60 .default
      ⟨7, 10, 11, "bmac-pit-19700101T000140Z-a1b2c3", 100, some 9, some ⟨9, .snapshot⟩,
        [⟨1, HostSlot.range_one⟩], ""⟩ ⟨9, .snapshot⟩ (by rfl) rfl⟩

end Bmac.Bmacd
