import Bmac.Registry.Valid

/-!
# What a guest's record keeps of its request

A guest's record has its allocation id and its request's fingerprint as long as it is registered
(`Asked`), whatever commands are run, and a copy's fingerprint is of a request for a copy of its
source (`FromRequest`).
-/

namespace Bmac.Registry

open Bmac.Base Bmac.Core

variable {py : Python} {digests : Digests} {reg : Registry} {policy : Policy} {clock : Int}

/-! ## Updates -/

/-- What stays of the request that a guest was allocated for. -/
structure Asked (old new : Resource) : Prop where
  name : new.name = old.name
  kind : new.kind = old.kind
  source : new.source = old.source
  allocationId : new.allocationId = old.allocationId
  requestFingerprint : new.requestFingerprint = old.requestFingerprint
  storage : new.spec.storage = old.spec.storage

theorem Asked.refl (r : Resource) : Asked r r := ⟨rfl, rfl, rfl, rfl, rfl, rfl⟩

theorem Asked.trans {a b c : Resource} (h : Asked a b) (h' : Asked b c) : Asked a c where
  name := h'.name.trans h.name
  kind := h'.kind.trans h.kind
  source := h'.source.trans h.source
  allocationId := h'.allocationId.trans h.allocationId
  requestFingerprint := h'.requestFingerprint.trans h.requestFingerprint
  storage := h'.storage.trans h.storage

variable {new old : Resource} {rs : List Resource} {out : Outcome Allocation} {id : Uuid}

/-- A record that differs in other fields only. -/
theorem Asked.of_eq (h : new = { old with
    state := new.state, placement := new.placement, initialNode := new.initialNode,
    ownerNode := new.ownerNode, routesEnabled := new.routesEnabled, purpose := new.purpose,
    domains := new.domains, proxmox := new.proxmox, updatedAt := new.updatedAt,
    revision := new.revision, spec := { old.spec with diskBytes := new.spec.diskBytes } }) :
    Asked old new := by
  rw [h]
  exact ⟨rfl, rfl, rfl, rfl, rfl, rfl⟩

theorem Expired.asked (h : Expired old new) : Asked old new := by
  rw [h.fields]
  exact ⟨rfl, rfl, rfl, rfl, rfl, rfl⟩

section

variable {resources : List Resource} {current r new : Resource} {args : UpdateArgs}

theorem asked_withArg {α : Type} {arg : Option α} {f : α → Except String Resource}
    (h : withArg arg r f = .ok new) (hf : ∀ a, f a = .ok new → Asked r new) : Asked r new := by
  cases arg with
  | none => exact Except.ok.inj h ▸ .refl r
  | some a => exact hf a h

theorem updateState_asked (h : updateState current args current = .ok new) : Asked current new :=
  .of_eq (by rw [(updateState_eq_ok h).1])

theorem updatePlacement_asked (h : updatePlacement policy current args r = .ok new) : Asked r new :=
  asked_withArg h fun nodes h => by
  simp only [bind_eq_ok, check_eq_ok, pure_eq_ok] at h
  obtain ⟨_, -, _, -, -, -, rfl⟩ := h
  exact .of_eq rfl

theorem updateInitialNode_asked (h : updateInitialNode args r = .ok new) : Asked r new :=
  asked_withArg h fun node h => by
  simp only [bind_eq_ok, pure_eq_ok] at h
  obtain ⟨_, -, rfl⟩ := h
  exact .of_eq rfl

theorem updateOwnerNode_asked (h : updateOwnerNode args r = .ok new) : Asked r new :=
  asked_withArg h fun node h => by
  cases node with
  | none => exact Except.ok.inj h ▸ .of_eq rfl
  | some node =>
    simp only [bind_eq_ok, pure_eq_ok] at h
    obtain ⟨_, -, rfl⟩ := h
    exact .of_eq rfl

theorem updateRoutes_asked (h : updateRoutes args r = .ok new) : Asked r new :=
  asked_withArg h fun enabled h => by
  simp only [check_eq_ok, pure_eq_ok] at h
  obtain ⟨-, rfl⟩ := h
  exact .of_eq rfl

theorem updatePurpose_asked (h : updatePurpose py resources current args r = .ok new) :
    Asked r new := asked_withArg h fun purpose h => by
  simp only [bind_eq_ok, check_eq_ok, pure_eq_ok] at h
  obtain ⟨-, -, _, -, rfl⟩ := h
  exact .of_eq rfl

theorem updatePrimaryDomain_asked (h : updatePrimaryDomain py args r = .ok new) : Asked r new :=
  asked_withArg h fun domain h => by
  simp only [bind_eq_ok, pure_eq_ok] at h
  obtain ⟨_, -, rfl⟩ := h
  exact .of_eq rfl

theorem updateAliases_asked (h : updateAliases py args r = .ok new) : Asked r new :=
  asked_withArg h fun values h => by
  simp only [bind_eq_ok, check_eq_ok, pure_eq_ok] at h
  obtain ⟨_, -, -, rfl⟩ := h
  exact .of_eq rfl

theorem updateStagingBase_asked (h : updateStagingBase py resources current args r = .ok new) :
    Asked r new := asked_withArg h fun domain h => by
  simp only [bind_eq_ok, check_eq_ok, pure_eq_ok] at h
  obtain ⟨-, -, _, -, rfl⟩ := h
  exact .of_eq rfl

theorem updateHaNodes_asked (h : updateHaNodes policy current args r = .ok new) : Asked r new :=
  asked_withArg h fun nodes h => by
  simp only [bind_eq_ok, check_eq_ok, pure_eq_ok] at h
  obtain ⟨_, -, -, -, rfl⟩ := h
  exact .of_eq rfl

theorem updateReplicationTargets_asked (h : updateReplicationTargets policy args r = .ok new) :
    Asked r new := asked_withArg h fun nodes h => by
  simp only [bind_eq_ok, check_eq_ok, pure_eq_ok] at h
  obtain ⟨_, -, -, rfl⟩ := h
  exact .of_eq rfl

theorem updateVolume_asked (h : updateVolume resources current args r = .ok new) : Asked r new :=
  asked_withArg h fun volumeId h => by
  simp only [bind_eq_ok, pure_eq_ok] at h
  obtain ⟨_, -, _, -, rfl⟩ := h
  exact .of_eq rfl

theorem updateSnapshot_asked (h : updateSnapshot args r = .ok new) : Asked r new := by
  obtain ⟨snapshot, rfl, -⟩ := updateSnapshot_eq_ok h
  exact .of_eq rfl

theorem updateDiskBytes_asked (h : updateDiskBytes current args r = .ok new) : Asked r new :=
  asked_withArg h fun diskBytes h => by
  simp only [check_eq_ok, pure_eq_ok] at h
  obtain ⟨-, -, -, rfl⟩ := h
  exact .of_eq rfl

end

/-! ## What a command writes -/

/-- The record is written in place of one that was registered for the same request. -/
def Succeeds (py : Python) (reg : Registry) (new : Resource) : Prop :=
  ∃ rs old, reg.resources py = .ok rs ∧ old ∈ rs ∧ Asked old new

theorem saveUpdated_succeeds {updated : Resource}
    {out : Outcome Resource} (hrs : reg.resources py = .ok rs) (hold : old ∈ rs)
    (hasked : Asked old updated) (h : saveUpdated py policy rs updated clock = .ok out)
    (hnew : .writeResource new ∈ out.ops) : Succeeds py reg new := by
  simp only [saveUpdated, bind_eq_ok, pure_eq_ok] at h
  obtain ⟨_, -, _, -, rfl⟩ := h
  obtain rfl := Op.writeResource.inj (List.mem_singleton.mp hnew)
  exact ⟨rs, old, hrs, hold, hasked.trans (.of_eq rfl)⟩

section

variable {name : GuestName} {new : Resource} {out : Outcome Resource}

theorem update_succeeds {args : UpdateArgs} (h : update py reg name args clock = .ok out)
    (hnew : .writeResource new ∈ out.ops) : Succeeds py reg new := by
  simp only [update, bind_eq_ok, check_eq_ok, existing_eq_ok] at h
  obtain ⟨policy, -, rs, hrs, old, hold, _, -, r1, h1, r2, h2, r3, h3, r4, h4, r5, h5, r6, h6,
    r7, h7, r8, h8, r9, h9, r10, h10, r11, h11, r12, h12, r13, h13, r14, h14, -, h⟩ := h
  have hasked := (updateState_asked h1).trans <| (updatePlacement_asked h2).trans <|
    (updateInitialNode_asked h3).trans <| (updateOwnerNode_asked h4).trans <|
    (updateRoutes_asked h5).trans <| (updatePurpose_asked h6).trans <|
    (updatePrimaryDomain_asked h7).trans <| (updateAliases_asked h8).trans <|
    (updateStagingBase_asked h9).trans <| (updateHaNodes_asked h10).trans <|
    (updateReplicationTargets_asked h11).trans <| (updateVolume_asked h12).trans <|
    (updateSnapshot_asked h13).trans (updateDiskBytes_asked h14)
  exact saveUpdated_succeeds hrs (named_mem hold).1 hasked h hnew

theorem recordStagingSnapshotIntent_succeeds {args : IntentArgs}
    (h : recordStagingSnapshotIntent py reg name args clock = .ok out)
    (hnew : .writeResource new ∈ out.ops) : Succeeds py reg new := by
  simp only [recordStagingSnapshotIntent, bind_eq_ok, check_eq_ok, existing_eq_ok] at h
  obtain ⟨policy, -, snapshotName, -, _, -, _, -, -, rs, hrs, old, hold, -, source, -, -, _, -, h⟩ := h
  split at h
  · obtain rfl := pure_eq_ok.mp h
    exact absurd hnew List.not_mem_nil
  · simp only [check_eq_ok, bind_eq_ok] at h
    obtain ⟨-, _, -, -, h⟩ := h
    split at h
    · exact absurd h throw_ne_ok
    · exact saveUpdated_succeeds hrs (named_mem hold).1 (.of_eq rfl) h hnew

theorem recordStagingSnapshot_succeeds {args : RecordArgs}
    (h : recordStagingSnapshot py reg name args clock = .ok out)
    (hnew : .writeResource new ∈ out.ops) : Succeeds py reg new := by
  simp only [recordStagingSnapshot, bind_eq_ok, check_eq_ok, existing_eq_ok] at h
  obtain ⟨policy, -, snapshotName, -, _, -, _, -, _, -, rs, hrs, old, hold, -, source, -, -, _, -,
    h⟩ := h
  split at h
  · exact absurd h throw_ne_ok
  · simp only [check_eq_ok, bind_eq_ok] at h
    obtain ⟨-, _, -, -, h⟩ := h
    split at h
    · obtain rfl := pure_eq_ok.mp h
      exact absurd hnew List.not_mem_nil
    · simp only [check_eq_ok, bind_eq_ok] at h
      obtain ⟨-, _, -, -, h⟩ := h
      exact saveUpdated_succeeds hrs (named_mem hold).1 (.of_eq rfl) h hnew

theorem shareStagingSnapshot_succeeds {donor : GuestName} {expectedRevision : Option Int}
    (h : shareStagingSnapshot py reg name donor expectedRevision clock = .ok out)
    (hnew : .writeResource new ∈ out.ops) : Succeeds py reg new := by
  simp only [shareStagingSnapshot, bind_eq_ok, check_eq_ok, existing_eq_ok] at h
  obtain ⟨policy, -, rs, hrs, old, hold, donor, -, -, -, -, source, -, h⟩ := h
  split at h
  · exact absurd h throw_ne_ok
  · simp only [check_eq_ok] at h
    obtain ⟨-, -, h⟩ := h
    split at h
    · obtain rfl := pure_eq_ok.mp h
      exact absurd hnew List.not_mem_nil
    · simp only [check_eq_ok, bind_eq_ok] at h
      obtain ⟨-, _, -, -, h⟩ := h
      exact saveUpdated_succeeds hrs (named_mem hold).1 (.of_eq rfl) h hnew

end

/-! ## Allocations -/

/-- The request that the arguments of `allocate-prod` normalise to. -/
def prodRequest (py : Python) (policy : Policy) (args : AllocateProdArgs) :
    Except String Request := do
  let placement ← validateNodes policy.limits.maxHosts (flattenNodes args.placement) false false
  let initialNode ← ofOption
    (match given args.initialNode with
      | some node => nodeIn placement node
      | none => placement.head?)
    "initial node must belong to production placement"
  let purposeSlug ← normalizePurpose py args.purpose
  let primary ← normalizeDomain py args.primaryDomain
  let aliases ← normalizeDomains py args.alias_
  if primary ∈ aliases then throw "primary domain may not also be an alias"
  let stagingBase ←
    normalizeDomain py ((given args.stagingDnsBase).getD s!"staging.{primary}")
  if stagingBase ∈ primary :: aliases then
    throw "staging DNS base must differ from production routes"
  validateVmid args.vmid policy
  let spec ← effectiveSpec args.spec policy .production
  return .production args.vmid purposeSlug primary aliases stagingBase placement initialNode spec

/-- The placement of the arguments of `allocate-staging`. -/
def stagingPlacement (policy : Policy) (args : AllocateStagingArgs) : Except String (List HostSlot) :=
  validateNodes policy.limits.maxHosts (flattenNodes args.placement) false true

/-- The request that the arguments of `allocate-staging` normalise to, for a copy of `source`. -/
def stagingRequest (py : Python) (policy : Policy) (source : Resource) (args : AllocateStagingArgs) :
    Except String Request := do
  let placement ← stagingPlacement policy args
  validateVmid args.vmid policy
  let requestedDomain ← (given args.domain).mapM (normalizeDomain py)
  let spec ← effectiveSpec args.spec policy .staging
  if args.spec.storage.any (· ≠ source.spec.storage) then
    throw s!"staging clones live on their source's storage, {source.spec.storage}"
  return .staging source.name args.vmid requestedDomain placement
    { spec with storage := source.spec.storage }

/-- A new record of an allocation. -/
structure Allocated (py : Python) (policy : Policy) (rs : List Resource) (kind : Kind)
    (allocationId : Option String) (fingerprint : String) (new : Resource) : Prop where
  registers : Registers py policy rs new
  kind : new.kind = kind
  allocationId : new.allocationId = allocationId
  requestFingerprint : new.requestFingerprint = fingerprint

/-- What an allocation gives: the guest of its allocation id, or a new one. -/
inductive Allots (py : Python) (policy : Policy) (rs : List Resource) (kind : Kind)
    (allocationId : Option String) (fingerprint : String) : Outcome Allocation → Prop where
  | existing {r : Resource}
    (hfound : findIdempotentAllocation rs allocationId fingerprint kind = .ok (some r)) :
    Allots py policy rs kind allocationId fingerprint ⟨[], false, r⟩
  | created {new : Resource}
    (hfound : findIdempotentAllocation rs allocationId fingerprint kind = .ok none)
    (hnew : Allocated py policy rs kind allocationId fingerprint new) :
    Allots py policy rs kind allocationId fingerprint ⟨[.writeResource new], true, new⟩

theorem register_allots {r : NewResource}
    (hfound : findIdempotentAllocation rs r.allocationId r.fingerprint r.kind = .ok none)
    (h : register py policy rs (baseResource py policy r id clock) = .ok out) :
    Allots py policy rs r.kind r.allocationId r.fingerprint out := by
  simp only [register, bind_eq_ok, pure_eq_ok] at h
  obtain ⟨_, hvalid, _, hset, rfl⟩ := h
  exact .created hfound
    ⟨⟨hvalid, validateRegistryInvariants_eq_ok.mp hset, rfl, rfl, rfl⟩, rfl, rfl, rfl⟩

theorem register_source {r : NewResource}
    (h : register py policy rs (baseResource py policy r id clock) = .ok out)
    (hnew : .writeResource new ∈ out.ops) : new.source = r.source := by
  simp only [register, bind_eq_ok, pure_eq_ok] at h
  obtain ⟨_, -, _, -, rfl⟩ := h
  obtain rfl := Op.writeResource.inj (List.mem_singleton.mp hnew)
  rfl

/-- `allocate-prod` looks its allocation id up before anything else of the registry. -/
theorem allocateProd_allots {args : AllocateProdArgs}
    (h : allocateProd py digests reg args id clock = .ok out) : ∃ policy allocationId req rs,
      reg.policy = .ok policy ∧ normalizeAllocationId args.allocationId = .ok allocationId ∧
      prodRequest py policy args = .ok req ∧ reg.resources py = .ok rs ∧
      Allots py policy rs .production allocationId (digests.request req) out := by
  simp only [allocateProd, bind_eq_ok, check_eq_ok] at h
  obtain ⟨policy, hpolicy, placement, hplacement, initialNode, hinitial, purpose, hpurpose, primary,
    hprimary, aliases, haliases, halias, base, hbase, hdistinct, allocationId, hid, _, hvmid, spec,
    hspec, rs, hrs, found, hfound, h⟩ := h
  refine ⟨policy, allocationId,
    .production args.vmid purpose primary aliases base placement initialNode spec, rs, hpolicy, hid,
    ?_, hrs, ?_⟩
  · simp only [prodRequest, bind_eq_ok, check_eq_ok, pure_eq_ok]
    exact ⟨placement, hplacement, initialNode, hinitial, purpose, hpurpose, primary, hprimary,
      aliases, haliases, halias, base, hbase, hdistinct, (), hvmid, spec, hspec, rfl⟩
  · cases found with
    | some existing => exact pure_eq_ok.mp h ▸ .existing hfound
    | none =>
      obtain ⟨index, -, h⟩ := bind_eq_ok.mp h
      exact register_allots hfound h

variable {req : Request} {args : AllocateStagingArgs}

theorem allocateProd_existing {args : AllocateProdArgs} {allocationId : Option String}
    {r : Resource} (hpolicy : reg.policy = .ok policy)
    (hid : normalizeAllocationId args.allocationId = .ok allocationId)
    (hreq : prodRequest py policy args = .ok req) (hrs : reg.resources py = .ok rs)
    (hfound : findIdempotentAllocation rs allocationId (digests.request req) .production =
      .ok (some r)) : allocateProd py digests reg args id clock = .ok ⟨[], false, r⟩ := by
  simp only [prodRequest, bind_eq_ok, check_eq_ok, pure_eq_ok] at hreq
  obtain ⟨placement, hplacement, initialNode, hinitial, purpose, hpurpose, primary, hprimary,
    aliases, haliases, halias, base, hbase, hdistinct, _, hvmid, spec, hspec, rfl⟩ := hreq
  simp only [allocateProd, bind_eq_ok, check_eq_ok]
  exact ⟨policy, hpolicy, placement, hplacement, initialNode, hinitial, purpose, hpurpose, primary,
    hprimary, aliases, haliases, halias, base, hbase, hdistinct, allocationId, hid, (), hvmid, spec,
    hspec, rs, hrs, some r, hfound, rfl⟩

theorem validateNodes_head {maxHosts : Int} {values : List String} {exactlyOne : Bool}
    {nodes : List HostSlot} (h : validateNodes maxHosts values false exactlyOne = .ok nodes) :
    ∃ node, nodes.head? = some node := by
  simp only [validateNodes, check_eq_ok] at h
  obtain ⟨hvalues, -, h⟩ := h
  cases values with
  | nil => exact absurd ⟨rfl, rfl⟩ hvalues
  | cons value values =>
    obtain ⟨first, hfirst, hrest⟩ := foldlM_cons_eq_ok.mp h
    have hne : nodes ≠ [] := by
      refine foldlM_invariant (I := fun nodes => nodes ≠ []) (fun seen node seen' _ hseen => ?_) hrest ?_
      · simp only [bind_eq_ok, check_eq_ok, pure_eq_ok] at hseen
        obtain ⟨slot, -, -, rfl⟩ := hseen
        simp
      · simp only [bind_eq_ok, check_eq_ok, pure_eq_ok] at hfirst
        obtain ⟨slot, -, -, rfl⟩ := hfirst
        simp
    obtain ⟨node, rest, rfl⟩ := List.exists_cons_of_ne_nil hne
    exact ⟨node, rfl⟩

/-- The node of a copy is of its source's placement, and isn't its owner. -/
def Clonable (policy : Policy) (args : AllocateStagingArgs) (source : Resource) : Prop :=
  ∀ placement node, stagingPlacement policy args = .ok placement → placement.head? = some node →
    node ∈ source.placement ∧ source.ownerNode ≠ some node

/-- `allocate-staging` checks its source before it looks its allocation id up. -/
theorem allocateStaging_allots (h : allocateStaging py digests reg args id clock = .ok out) :
    ∃ policy allocationId source req rs, reg.policy = .ok policy ∧
      normalizeAllocationId args.allocationId = .ok allocationId ∧ reg.resources py = .ok rs ∧
      named rs args.source = some source ∧ source.kind = .production ∧
      Clonable policy args source ∧ stagingRequest py policy source args = .ok req ∧
      Allots py policy rs .staging allocationId (digests.request req) out ∧
      ∀ new, .writeResource new ∈ out.ops → new.source = some args.source := by
  simp only [allocateStaging, bind_eq_ok, check_eq_ok, ofOption_eq_ok, Option.filter_eq_some_iff,
    decide_eq_true_eq, not_not] at h
  obtain ⟨policy, hpolicy, placement, hplacement, node, hnode, _, hvmid, allocationId, hid, rs, hrs,
    source, ⟨hsource, hkind⟩, hmember, howner, domain, hdomain, spec, hspec, hstorage, found, hfound,
    h⟩ := h
  refine ⟨policy, allocationId, source, .staging source.name args.vmid domain placement
    { spec with storage := source.spec.storage }, rs, hpolicy, hid, hrs, hsource, hkind, ?_, ?_, ?_⟩
  · intro placement' node' hplacement' hnode'
    obtain rfl := Except.ok.inj (hplacement.symm.trans hplacement')
    obtain rfl := Option.some.inj (hnode.symm.trans hnode')
    exact ⟨hmember, howner⟩
  · simp only [stagingRequest, bind_eq_ok, check_eq_ok, pure_eq_ok]
    exact ⟨placement, hplacement, (), hvmid, domain, hdomain, spec, hspec, hstorage, rfl⟩
  · have hname : source.name = args.source := (named_mem hsource).2
    cases found with
    | some existing =>
      obtain rfl := pure_eq_ok.mp h
      exact ⟨.existing hfound, fun _ hnew => absurd hnew List.not_mem_nil⟩
    | none =>
      simp only [check_eq_ok, bind_eq_ok] at h
      obtain ⟨-, -, suffix, -, h⟩ := h
      cases domain with
      | some domain =>
        simp only [pure_bind, bind_eq_ok] at h
        obtain ⟨ip, -, h⟩ := h
        exact ⟨register_allots hfound h, fun new hnew => hname ▸ register_source h hnew⟩
      | none =>
        simp only [bind_eq_ok] at h
        obtain ⟨_, -, ip, -, h⟩ := h
        exact ⟨register_allots hfound h, fun new hnew => hname ▸ register_source h hnew⟩

theorem allocateStaging_existing {allocationId : Option String}
    {source : Resource} {r : Resource} (hpolicy : reg.policy = .ok policy)
    (hid : normalizeAllocationId args.allocationId = .ok allocationId)
    (hrs : reg.resources py = .ok rs) (hsource : named rs args.source = some source)
    (hkind : source.kind = .production) (hclonable : Clonable policy args source)
    (hreq : stagingRequest py policy source args = .ok req)
    (hfound : findIdempotentAllocation rs allocationId (digests.request req) .staging =
      .ok (some r)) : allocateStaging py digests reg args id clock = .ok ⟨[], false, r⟩ := by
  simp only [stagingRequest, bind_eq_ok, check_eq_ok, pure_eq_ok] at hreq
  obtain ⟨placement, hplacement, _, hvmid, domain, hdomain, spec, hspec, hstorage, rfl⟩ := hreq
  obtain ⟨node, hnode⟩ := validateNodes_head hplacement
  obtain ⟨hmember, howner⟩ := hclonable placement node hplacement hnode
  simp only [allocateStaging, bind_eq_ok, check_eq_ok, ofOption_eq_ok, Option.filter_eq_some_iff,
    decide_eq_true_eq, not_not]
  exact ⟨policy, hpolicy, placement, hplacement, node, hnode, (), hvmid, allocationId, hid, rs, hrs,
    source, ⟨hsource, hkind⟩, hmember, howner, domain, hdomain, spec, hspec, hstorage, some r,
    hfound, rfl⟩

/-! ## Along a run -/

/-- The fingerprint of a copy is of a request for a copy of its source. -/
def FromRequest (digests : Digests) (r : Resource) : Prop :=
  r.kind = .staging → ∃ source vmid domain placement spec, r.source = some source ∧
    r.requestFingerprint = digests.request (.staging source vmid domain placement spec)

theorem FromRequest.asked (h : FromRequest digests old)
    (hasked : Asked old new) : FromRequest digests new := by
  intro hkind
  rw [hasked.kind] at hkind
  rw [hasked.source, hasked.requestFingerprint]
  exact h hkind

theorem stagingRequest_eq {source : Resource}
    (h : stagingRequest py policy source args = .ok req) : ∃ vmid domain placement spec,
      req = .staging source.name vmid domain placement spec := by
  simp only [stagingRequest, bind_eq_ok, check_eq_ok, pure_eq_ok] at h
  obtain ⟨placement, -, _, -, domain, -, spec, -, -, rfl⟩ := h
  exact ⟨_, _, _, _, rfl⟩

/-- A record that is written in a registry: the next one for a guest's request, or a new guest's. -/
def Follows (digests : Digests) (reg : Registry) (new : Resource) : Prop :=
  (∃ old, reg.resourceFiles.get? new.name = some old ∧ Asked old new) ∨
    reg.resourceFiles.get? new.name = none ∧ FromRequest digests new

theorem Sound.succeeds (h : Sound py policy reg) (hnew : Succeeds py reg new) :
    Follows digests reg new := by
  obtain ⟨rs, old, hrs, hold, hasked⟩ := hnew
  have hget := (h.mem_iff hrs).mp hold
  rw [← hasked.name] at hget
  exact .inl ⟨old, hget, hasked⟩

theorem Sound.follows (h : Sound py policy reg) {i : Invocation} {ops : List Op}
    (hops : i.ops py digests reg clock = .ok ops) {new : Resource}
    (hnew : .writeResource new ∈ ops) : Follows digests reg new := by
  cases (h.effect hops).writes hnew with
  | register hid hrs hreg =>
    refine .inr ⟨h.absent hrs hreg, fun hkind => ?_⟩
    cases i with
    | allocateProd args id =>
      obtain ⟨out, hout, rfl⟩ := map_eq_ok.mp hops
      obtain ⟨_, _, _, _, -, -, -, -, hallots⟩ := allocateProd_allots hout
      cases hallots with
      | existing => cases hnew
      | created hfound hcreated =>
        obtain rfl : new = _ := by simpa using hnew
        rw [hcreated.kind] at hkind
        cases hkind
    | allocateStaging args id =>
      obtain ⟨out, hout, rfl⟩ := map_eq_ok.mp hops
      obtain ⟨_, _, source, req, _, -, -, -, hsource, -, -, hreq, hallots, hfrom⟩ :=
        allocateStaging_allots hout
      obtain ⟨vmid, domain, placement, spec, rfl⟩ := stagingRequest_eq hreq
      rw [(named_mem hsource).2] at hallots
      refine ⟨_, vmid, domain, placement, spec, hfrom new hnew, ?_⟩
      cases hallots with
      | existing => cases hnew
      | created hfound hcreated =>
        obtain rfl : new = _ := by simpa using hnew
        exact hcreated.requestFingerprint
    | _ => cases hid
  | save hrs hsaves hchanges =>
    cases hchanges with
    | intent =>
      obtain ⟨out, hout, rfl⟩ := map_eq_ok.mp hops
      exact h.succeeds (recordStagingSnapshotIntent_succeeds hout hnew)
    | record =>
      obtain ⟨out, hout, rfl⟩ := map_eq_ok.mp hops
      exact h.succeeds (recordStagingSnapshot_succeeds hout hnew)
    | share =>
      obtain ⟨out, hout, rfl⟩ := map_eq_ok.mp hops
      exact h.succeeds (shareStagingSnapshot_succeeds hout hnew)
    | update =>
      obtain ⟨out, hout, rfl⟩ := map_eq_ok.mp hops
      exact h.succeeds (update_succeeds hout hnew)
  | expire hold hexpired =>
    rw [← hexpired.guest.name] at hold
    exact .inl ⟨_, hold, hexpired.asked⟩

theorem Valid.follows (h : Valid py reg) (e : Event) :
    Rewritten (Follows digests reg) reg (e.after py digests reg) := by
  unfold Event.after
  cases hops : e.invocation.ops py digests reg e.clock with
  | error message => exact fun _ _ hnew => .inl hnew
  | ok ops =>
    have hthrough : Through apply (Rewritten (Follows digests reg) reg) reg ops := by
      refine rewritten_through fun r hr => ?_
      rcases h with hbare | ⟨policy, hsound⟩
      · exact absurd hr (hbare.not_written hops)
      · exact hsound.follows hops hr
    exact hthrough e.done

/-- Every copy's fingerprint is of a request for a copy of its source. -/
def Fingerprinted (digests : Digests) (reg : Registry) : Prop :=
  ∀ name r, reg.resourceFiles.get? name = some r → FromRequest digests r

theorem Fingerprinted.after (h : Fingerprinted digests reg) (hvalid : Valid py reg) (e : Event) :
    Fingerprinted digests (e.after py digests reg) := by
  intro name r hr
  rcases hvalid.follows e name r hr with hold | ⟨-, ⟨old, hold, hasked⟩ | ⟨-, hnew⟩⟩
  · exact h name r hold
  · exact (h _ old hold).asked hasked
  · exact hnew

theorem run_fingerprinted {events : List Event} (h : Run (step py digests) {} events reg) :
    Valid py reg ∧ Fingerprinted digests reg :=
  h.invariant (I := fun reg => Valid py reg ∧ Fingerprinted digests reg)
    (fun _ e _ hs hstep => by
      obtain rfl := hstep
      exact ⟨hs.1.after e, hs.2.after hs.1 e⟩)
    ⟨.inl bare_empty, fun _ _ hr => by cases hr⟩

theorem Sound.asked (h : Sound py policy reg) (e : Event) {name : GuestName}
    (hold : reg.resourceFiles.get? name = some old)
    (hnew : (e.after py digests reg).resourceFiles.get? name = some new) : Asked old new := by
  rcases @Valid.follows _ digests _ (.inr ⟨policy, h⟩) e name new hnew with
    hsame | ⟨rfl, ⟨old', hold', hasked⟩ | ⟨hnone, -⟩⟩
  · obtain rfl := Option.some.inj (hold.symm.trans hsame)
    exact .refl old
  · obtain rfl := Option.some.inj (hold.symm.trans hold')
    exact hasked
  · rw [hnone] at hold
    cases hold

theorem Sound.source (h : Sound py policy reg) {name : GuestName} {r : Resource}
    (hr : reg.resourceFiles.get? name = some r) (hkind : r.kind = .staging) :
    ∃ source, r.source = some source.name ∧ source.kind = .production ∧
      reg.resourceFiles.get? source.name = some source := by
  have hname : name = r.name := (h.valid _ (Table.mem_of_get? hr)).2
  have hmem := (h.mem_iff h.resources).mpr (hname ▸ hr)
  obtain ⟨source, hsource, hfrom, hproduction, -⟩ :=
    (consistent_resources h.resources).sourced r hmem hkind
  exact ⟨source, hfrom.symm, hproduction, (h.mem_iff h.resources).mp hsource⟩

/-- As long as a copy is registered, it and its source are the guests of their requests. -/
theorem run_asked {name : GuestName} {events : List Event} {reg' : Registry}
    (h : Run (stepWith py digests name id) reg events reg') (hsound : Sound py policy reg)
    (hold : reg.resourceFiles.get? name = some old) (hid : old.id = id) :
    Sound py policy reg' ∧ ∃ new, reg'.resourceFiles.get? name = some new ∧ new.id = id ∧
      Asked old new ∧ (old.kind = .staging → ∀ origin source,
        old.source = some origin → reg.resourceFiles.get? origin = some source →
        ∃ source', reg'.resourceFiles.get? origin = some source' ∧ Asked source source') := by
  induction h generalizing old with
  | nil => exact ⟨hsound, old, hold, hid, .refl old, fun _ _ source _ hs => ⟨source, hs, .refl source⟩⟩
  | @cons a b c e es hs _ ih =>
    obtain ⟨rfl, hguest⟩ := hs
    have hafter := @Sound.after _ digests _ _ hsound e
    obtain ⟨mid, hmid, hmidId⟩ : ∃ mid, (e.after py digests a).resourceFiles.get? name = some mid ∧
        mid.id = id := by
      cases hget : (e.after py digests a).resourceFiles.get? name with
      | none => simp [isGuest, hget] at hguest
      | some mid => exact ⟨mid, rfl, by simpa [isGuest, hget] using hguest⟩
    have hasked := hsound.asked e hold hmid
    obtain ⟨hsound', new, hnew, hnewId, hasked', hsource'⟩ := ih hafter hmid hmidId
    refine ⟨hsound', new, hnew, hnewId, hasked.trans hasked', fun hkind origin source ho hs => ?_⟩
    rw [← hasked.kind] at hkind
    rw [← hasked.source] at ho
    obtain ⟨source1, ho1, -, hs1⟩ := hafter.source hmid hkind
    obtain rfl := Option.some.inj (ho.symm.trans ho1)
    obtain ⟨source', hs', hasked2⟩ := hsource' hkind _ source1 ho hs1
    exact ⟨source', hs', (hsound.asked e hs hs1).trans hasked2⟩

end Bmac.Registry
