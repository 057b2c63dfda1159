import Bmac.Base.Checks
import Bmac.Bmacd.Operations
import Bmac.Backupd.Journal
import Mathlib.Logic.Equiv.Basic

/-!
# Exports

`bmac-backupd/src/grants.rs` and `plan_export` of `bmac-backupd/src/export.rs`: what a client may
read of the appliance. A trusted peer reads every published PIT, a cluster host what a live
restore grant names, and a host rebuilding a lost cluster every PIT of its recovery grant's
cluster. Only the hash of a grant's token is kept; the hash is a parameter.
-/

namespace Bmac.Backupd

open Bmac.Base Bmac.Core Bmac.Bmacd

/-! ## Grants -/

inductive GrantKind where
  | restore | recovery
  deriving DecidableEq

structure Grant where
  grantId : String
  tokenSha256 : String
  clusterUuid : String
  pits : List Uuid
  createdAtMs : Int
  expiresAtMs : Int
  by_ : String
  revoked : Bool
  lastUsedMs : Option Int
  kind : GrantKind
  /-- A recovery grant's host certificate. -/
  hostFingerprint : Option String
  deriving DecidableEq

def Grant.live (grant : Grant) (nowMs : Int) : Bool := !grant.revoked && nowMs < grant.expiresAtMs

structure Grants where
  grants : List Grant

variable (sha256Hex : String → String)

namespace Grants

def liveAny (grants : Grants) (token cluster : String) (nowMs : Int) : Except String Grant :=
  match grants.grants.find? (·.tokenSha256 = sha256Hex token) with
  | none => .error "that isn't a restore grant of this appliance"
  | some grant =>
    if !grant.live nowMs then .error s!"restore grant {grant.grantId} has ended"
    else if grant.clusterUuid ≠ cluster then
      .error s!"restore grant {grant.grantId} is for another cluster"
    else .ok grant

/-- The live recovery grant `token` is, if it is `grantId` for `cluster`. -/
def recovery (grants : Grants) (token cluster grantId : String) (nowMs : Int) :
    Except String Grant := do
  let grant ← grants.liveAny sha256Hex token cluster nowMs
  if grant.kind ≠ .recovery ∨ grant.grantId ≠ grantId then
    throw s!"grant {grant.grantId} isn't this host's recovery grant"
  return grant

/-- The live restore grant `token` is, if it is `cluster`'s. -/
def liveFor (grants : Grants) (token cluster : String) (nowMs : Int) : Except String Grant := do
  let grant ← grants.liveAny sha256Hex token cluster nowMs
  if grant.kind ≠ .restore then
    throw s!"grant {grant.grantId} is a recovery grant"
  return grant

/-- The live grant `token` is, if it lets `cluster` read `pit`. -/
def check (grants : Grants) (token cluster : String) (pit : Uuid) (nowMs : Int) :
    Except String Grant := do
  let grant ← grants.liveFor sha256Hex token cluster nowMs
  if pit ∉ grant.pits then
    throw s!"restore grant {grant.grantId} doesn't name PIT {pit.text}"
  return grant

end Grants

/-! ## The plan -/

/-- Who a verified connection belongs to. -/
inductive Client where
  | peer (applianceUuid fingerprint : String)
  | cluster (clusterUuid fingerprint : String)
  /-- The host a live recovery grant names. -/
  | recovery (clusterUuid grantId fingerprint : String)
  deriving DecidableEq

structure ExportRequest where
  clusterUuid : String
  pitUuid : Uuid
  volumeUuid : Uuid
  fromGuid : Option SnapshotGuid
  resumeToken : Option String
  grant : Option String
  deriving DecidableEq

structure ExportPlan where
  snapshot : String
  guid : SnapshotGuid
  /-- The incremental's base snapshot and its GUID. -/
  base : Option (String × SnapshotGuid)
  resumeToken : Option String
  grantId : Option String
  deriving DecidableEq

/-- The grant under which `client` may ask, or none for a peer. -/
def exportGrant (grants : Grants) (request : ExportRequest) (nowMs : Int) :
    Client → Except ApiError (Option String)
  | .peer _ _ => return none
  | .cluster clusterUuid _ => do
    if clusterUuid ≠ request.clusterUuid then
      throw (.new .forbidden "a host reads only its own cluster's PITs")
    let token ← ofOption request.grant (.new .forbidden
      "reading a PIT needs a restore grant from the appliance administrator")
    let grant ← (grants.check sha256Hex token clusterUuid request.pitUuid nowMs).mapError (.new .forbidden)
    return some grant.grantId
  | .recovery clusterUuid grantId _ => do
    if clusterUuid ≠ request.clusterUuid then
      throw (.new .forbidden "a recovery reads only its grant's cluster")
    let token ← ofOption request.grant (.new .forbidden "reading a PIT needs the recovery grant")
    let _ ← (grants.recovery sha256Hex token clusterUuid grantId nowMs).mapError (.new .forbidden)
    return some grantId

def exportBase (journal : Journal) (request : ExportRequest) (pit : StoredPit)
    (guid : SnapshotGuid) : Option String :=
  ((journal.pitsOf request.clusterUuid pit.vmUuid).filter (·.takenS < pit.takenS)).findSome?
    fun p => ((p.volume request.volumeUuid).filter (·.guid = guid)).map p.snapshot

def planExport (journal : Journal) (grants : Grants) (client : Client) (request : ExportRequest)
    (nowMs : Int) : Except ApiError ExportPlan := do
  let grantId ← exportGrant sha256Hex grants request nowMs client
  let pit ← ofOption (journal.pit request.clusterUuid request.pitUuid)
    (.new .notFound "that PIT isn't published here")
  let volume ← ofOption (pit.volume request.volumeUuid)
    (.new .notFound "that PIT has no such volume")
  let base ← match request.fromGuid with
    | none => pure none
    | some guid => do
      let found ← ofOption (exportBase journal request pit guid)
        (.new .notFound "no earlier published snapshot of that volume has that GUID")
      pure (some (found, guid))
  return ⟨pit.snapshot volume, volume.guid, base, request.resumeToken, grantId⟩

/-! ## What a plan says about its request -/

section

variable {sha256Hex : String → String} {journal : Journal} {grants : Grants} {client : Client}
  {request : ExportRequest} {nowMs : Int}

/-- The request carries the one token of `grant`. -/
def Presents (sha256Hex : String → String) (request : ExportRequest) (grant : Grant) : Prop :=
  ∃ token, request.grant = some token ∧ ∀ t, sha256Hex t = grant.tokenSha256 ↔ t = token

/-- A live grant of the appliance for the cluster of the request, whose token the request has. -/
structure GrantUsed (sha256Hex : String → String) (grants : Grants) (request : ExportRequest)
    (nowMs : Int) (grant : Grant) : Prop where
  issued : grant ∈ grants.grants
  presents : Presents sha256Hex request grant
  unrevoked : grant.revoked = false
  unexpired : nowMs < grant.expiresAtMs
  cluster : grant.clusterUuid = request.clusterUuid

theorem Grants.liveAny_eq_ok (hinj : Function.Injective sha256Hex) {token : String} {grant : Grant}
    (h : grants.liveAny sha256Hex token request.clusterUuid nowMs = .ok grant)
    (hreq : request.grant = some token) : GrantUsed sha256Hex grants request nowMs grant := by
  unfold liveAny at h
  split at h
  · cases h
  · rename_i g hg
    have hsha : g.tokenSha256 = sha256Hex token := by simpa using List.find?_some hg
    split at h
    · cases h
    · rename_i hlive
      split at h
      · cases h
      · rename_i hc
        cases h
        have hl : grant.live nowMs = true := by simpa using hlive
        rw [Grant.live, Bool.and_eq_true, Bool.not_eq_true', decide_eq_true_eq] at hl
        refine ⟨List.mem_of_find?_eq_some hg, ⟨token, hreq, fun t => ?_⟩, hl.1, hl.2, not_not.mp hc⟩
        rw [hsha]
        exact hinj.eq_iff

/-- What lets `client` read the PIT of `request`. -/
inductive Entitled (sha256Hex : String → String) (grants : Grants) (request : ExportRequest)
    (nowMs : Int) : Client → Prop where
  | peer (applianceUuid fingerprint : String) :
      Entitled sha256Hex grants request nowMs (.peer applianceUuid fingerprint)
  | restore {fingerprint : String} {grant : Grant} :
      GrantUsed sha256Hex grants request nowMs grant → grant.kind = .restore →
      request.pitUuid ∈ grant.pits →
      Entitled sha256Hex grants request nowMs (.cluster request.clusterUuid fingerprint)
  | recovery {fingerprint : String} {grant : Grant} :
      GrantUsed sha256Hex grants request nowMs grant → grant.kind = .recovery →
      Entitled sha256Hex grants request nowMs
        (.recovery request.clusterUuid grant.grantId fingerprint)

theorem exportGrant_entitled (hinj : Function.Injective sha256Hex) {grantId : Option String}
    (h : exportGrant sha256Hex grants request nowMs client = .ok grantId) :
    Entitled sha256Hex grants request nowMs client := by
  cases client with
  | peer uuid fp => exact .peer uuid fp
  | cluster c fp =>
    simp only [exportGrant, check_eq_ok, bind_eq_ok, ofOption_eq_ok, mapError_eq_ok, not_not] at h
    obtain ⟨rfl, token, htoken, grant, hcheck, -⟩ := h
    simp only [Grants.check, Grants.liveFor, bind_eq_ok, check_eq_ok, pure_eq_ok, not_not] at hcheck
    obtain ⟨g, ⟨g', hlive, hkind, rfl⟩, hpit, rfl⟩ := hcheck
    exact .restore (Grants.liveAny_eq_ok hinj hlive htoken) hkind hpit
  | recovery c id fp =>
    simp only [exportGrant, check_eq_ok, bind_eq_ok, ofOption_eq_ok, mapError_eq_ok, not_not] at h
    obtain ⟨rfl, token, htoken, grant, hcheck, -⟩ := h
    simp only [Grants.recovery, bind_eq_ok, check_eq_ok, pure_eq_ok, not_or, not_not] at hcheck
    obtain ⟨g, hlive, ⟨hkind, rfl⟩, rfl⟩ := hcheck
    exact .recovery (Grants.liveAny_eq_ok hinj hlive htoken) hkind

/-- `base` is an earlier published PIT's copy of the request's volume, with the GUID asked for. -/
def BaseOf (journal : Journal) (request : ExportRequest) (pit : StoredPit) :
    Option (String × SnapshotGuid) → Prop
  | none => request.fromGuid = none
  | some (name, guid) => request.fromGuid = some guid ∧ ∃ p ∈ journal.pits, ∃ v ∈ p.volumes,
      p.clusterUuid = request.clusterUuid ∧ p.vmUuid = pit.vmUuid ∧ p.takenS < pit.takenS ∧
        v.volumeUuid = request.volumeUuid ∧ v.guid = guid ∧ name = p.snapshot v

theorem exportBase_some {pit : StoredPit} {guid : SnapshotGuid} {name : String}
    (h : exportBase journal request pit guid = some name) :
    ∃ p ∈ journal.pits, ∃ v ∈ p.volumes, p.clusterUuid = request.clusterUuid ∧
      p.vmUuid = pit.vmUuid ∧ p.takenS < pit.takenS ∧ v.volumeUuid = request.volumeUuid ∧
        v.guid = guid ∧ name = p.snapshot v := by
  obtain ⟨p, hp, hname⟩ := List.exists_of_findSome?_eq_some h
  rw [List.mem_filter, Journal.mem_pitsOf, decide_eq_true_eq] at hp
  obtain ⟨⟨hmem, hc, hvm⟩, htaken⟩ := hp
  obtain ⟨v, hv, rfl⟩ := Option.map_eq_some_iff.mp hname
  obtain ⟨hv, hguid⟩ := Option.filter_eq_some_iff.mp hv
  obtain ⟨hvol, hid⟩ := StoredPit.volume_eq_some hv
  exact ⟨p, hmem, v, hvol, hc, hvm, htaken, hid, by simpa using hguid, rfl⟩

/-- The published PIT and volume that `plan` sends, and its base. -/
structure Sends (journal : Journal) (request : ExportRequest) (plan : ExportPlan)
    (pit : StoredPit) (volume : StoredVolume) : Prop where
  published : pit ∈ journal.pits
  cluster : pit.clusterUuid = request.clusterUuid
  pit_eq : pit.pitUuid = request.pitUuid
  held : volume ∈ pit.volumes
  volume_eq : volume.volumeUuid = request.volumeUuid
  snapshot : plan.snapshot = pit.snapshot volume
  guid : plan.guid = volume.guid
  base : BaseOf journal request pit plan.base

/-- Every plan is for a client entitled to the PIT, and sends the published PIT's volume from a
base the appliance published earlier. -/
theorem planExport_sound (hinj : Function.Injective sha256Hex) {plan : ExportPlan}
    (h : planExport sha256Hex journal grants client request nowMs = .ok plan) :
    Entitled sha256Hex grants request nowMs client ∧
      ∃ pit volume, Sends journal request plan pit volume := by
  unfold planExport at h
  simp only [bind_eq_ok, ofOption_eq_ok] at h
  obtain ⟨grantId, hgrant, pit, hpit, volume, hvolume, h⟩ := h
  refine ⟨exportGrant_entitled hinj hgrant, pit, volume, ?_⟩
  obtain ⟨hmem, hc, hid⟩ := Journal.pit_eq_some hpit
  obtain ⟨hvol, hvid⟩ := StoredPit.volume_eq_some hvolume
  cases hfrom : request.fromGuid with
  | none =>
    simp only [hfrom, bind_eq_ok, pure_eq_ok] at h
    obtain ⟨base, rfl, rfl⟩ := h
    exact ⟨hmem, hc, hid, hvol, hvid, rfl, rfl, hfrom⟩
  | some guid =>
    simp only [hfrom, bind_eq_ok, ofOption_eq_ok, pure_eq_ok] at h
    obtain ⟨found, hfound, base, rfl, rfl⟩ := h
    exact ⟨hmem, hc, hid, hvol, hvid, rfl, rfl, hfrom, exportBase_some hfound⟩

/-! ### A restore -/

def grantedPit : StoredPit where
  clusterUuid := "c1"
  vmUuid := 7
  branchUuid := 11
  pitUuid := 10
  parent := none
  name := "bmac-pit-20261013T030000Z-a1b2c3"
  takenS := 100
  publishedAtMs := 100000
  volumes := [⟨3, "bk/bmac/clusters/c1/vms/7/11/3", 17, 1048576, 16384⟩]
  bytes := 4096
  manifestSha256 := ""
  receivedFrom := none

def earlierPit : StoredPit :=
  { grantedPit with
    pitUuid := 9
    takenS := 50
    name := "bmac-pit-20261012T030000Z-0f0f0f"
    volumes := [⟨3, "bk/bmac/clusters/c1/vms/7/11/3", 16, 1048576, 16384⟩] }

def grantedJournal : Journal := ⟨2, [earlierPit, grantedPit], [], []⟩

def grantToken : String := "bmac-grant-token"

/-- SHA-256 of `grantToken`. -/
def grantHash : String := "c120aeac19761066136044a2a7173fd24eabe381e25854dcb995a200017327a4"

/-- A hash that is right for the token, and tells other texts apart as well. -/
def grantSha256 : String → String := Equiv.swap grantToken grantHash

theorem grantSha256_injective : Function.Injective grantSha256 := (Equiv.swap grantToken grantHash).injective

def restoreGrant : Grant :=
  ⟨"a0", grantHash, "c1", [10], 0, 86400000, "admin", false, none, .restore, none⟩

def restoreRequest : ExportRequest := ⟨"c1", 10, 3, some 16, none, some grantToken⟩

/-- A host restores a granted PIT from the one before it. -/
theorem planExport_restore :
    Entitled grantSha256 ⟨[restoreGrant]⟩ restoreRequest 1 (.cluster "c1" "ab") ∧
      ∃ pit volume, Sends grantedJournal restoreRequest
        ⟨"bk/bmac/clusters/c1/vms/7/11/3@bmac-pit-20261013T030000Z-a1b2c3", 17,
          some ("bk/bmac/clusters/c1/vms/7/11/3@bmac-pit-20261012T030000Z-0f0f0f", 16), none,
          some "a0"⟩ pit volume :=
  planExport_sound grantSha256_injective (by decide)

/-- A trusted peer reads a published PIT without any grant. -/
theorem not_only_granted : ¬ ∀ (sha256Hex : String → String) (journal : Journal) (grants : Grants)
    (client : Client) (request : ExportRequest) (nowMs : Int) (plan : ExportPlan),
    Function.Injective sha256Hex →
    planExport sha256Hex journal grants client request nowMs = .ok plan →
    ∃ grant, GrantUsed sha256Hex grants request nowMs grant ∧
      (grant.kind = .recovery ∨ grant.kind = .restore ∧ request.pitUuid ∈ grant.pits) := by
  intro h
  obtain ⟨grant, hused, -⟩ := h grantSha256 grantedJournal ⟨[]⟩ (.peer "p" "ab")
    ⟨"c1", 10, 3, none, none, none⟩ 1
    ⟨"bk/bmac/clusters/c1/vms/7/11/3@bmac-pit-20261013T030000Z-a1b2c3", 17, none, none, none⟩
    grantSha256_injective (by decide)
  exact absurd hused.issued (by simp)

end

end Bmac.Backupd
