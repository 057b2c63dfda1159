import Bmac.Registry.Commands

/-!
# What the registry's commands write

One lemma for each command: which guest's record it writes or removes, and what it keeps of it.
-/

namespace Bmac.Registry

open Bmac.Base Bmac.Core

variable {py : Python} {digests : Digests} {reg : Registry} {clock : Int}

/-! ## Allocating -/

/-- A record that is written for the first time. -/
structure Registers (py : Python) (policy : Policy) (rs : List Resource) (r : Resource) : Prop where
  valid : validateResource py r policy = .ok ()
  consistent : Consistent (rs ++ [r])
  state : r.state = .reserved
  proxmox : r.proxmox = {}
  ownerNode : r.ownerNode = none

variable {rs : List Resource} {policy : Policy} {id : Uuid} {out : Outcome Resource}
  {name : GuestName} {r : Resource}

/-- What `register` writes. -/
theorem register_eq_ok {r : NewResource} {out : Outcome Allocation}
    (h : register py policy rs (baseResource py policy r id clock) = .ok out) :
    ∃ new, out.ops = [.writeResource new] ∧ new.id = id ∧ Registers py policy rs new := by
  simp only [register, bind_eq_ok, pure_eq_ok] at h
  obtain ⟨_, hvalid, _, hset, rfl⟩ := h
  exact ⟨_, rfl, rfl, hvalid, validateRegistryInvariants_eq_ok.mp hset, rfl, rfl, rfl⟩

theorem allocateProd_eq_ok {args : AllocateProdArgs} {out : Outcome Allocation}
    (h : allocateProd py digests reg args id clock = .ok out) : out.ops = [] ∨
      ∃ policy rs new, reg.policy = .ok policy ∧ reg.resources py = .ok rs ∧
        out.ops = [.writeResource new] ∧ new.id = id ∧ Registers py policy rs new := by
  simp only [allocateProd, bind_eq_ok, check_eq_ok] at h
  obtain ⟨policy, hpolicy, _, -, _, -, _, -, _, -, _, -, -, _, -, -, _, -, _, -, _, -, rs, hrs, found,
    -, h⟩ := h
  cases found with
  | some existing => exact .inl (pure_eq_ok.mp h ▸ rfl)
  | none =>
    obtain ⟨index, -, h⟩ := bind_eq_ok.mp h
    exact .inr ⟨policy, rs, (register_eq_ok h).choose, hpolicy, hrs, (register_eq_ok h).choose_spec⟩

theorem allocateStaging_eq_ok {args : AllocateStagingArgs} {out : Outcome Allocation}
    (h : allocateStaging py digests reg args id clock = .ok out) : out.ops = [] ∨
      ∃ policy rs new, reg.policy = .ok policy ∧ reg.resources py = .ok rs ∧
        out.ops = [.writeResource new] ∧ new.id = id ∧ Registers py policy rs new := by
  simp only [allocateStaging, bind_eq_ok, check_eq_ok] at h
  obtain ⟨policy, hpolicy, _, -, _, -, _, -, _, -, rs, hrs, source, -, -, -, domain, -, _, -, -, found,
    -, h⟩ := h
  cases found with
  | some existing => exact .inl (pure_eq_ok.mp h ▸ rfl)
  | none =>
    simp only [check_eq_ok, bind_eq_ok] at h
    obtain ⟨-, -, suffix, -, h⟩ := h
    cases domain with
    | some domain =>
      simp only [pure_bind, bind_eq_ok] at h
      obtain ⟨ip, -, h⟩ := h
      exact .inr ⟨policy, rs, (register_eq_ok h).choose, hpolicy, hrs,
        (register_eq_ok h).choose_spec⟩
    | none =>
      simp only [bind_eq_ok] at h
      obtain ⟨_, -, ip, -, h⟩ := h
      exact .inr ⟨policy, rs, (register_eq_ok h).choose, hpolicy, hrs,
        (register_eq_ok h).choose_spec⟩

/-! ## Updating -/

/-- What stays of a guest's record. -/
structure SameGuest (old new : Resource) : Prop where
  id : new.id = old.id
  kind : new.kind = old.kind
  name : new.name = old.name
  source : new.source = old.source
  vmid : new.vmid = old.vmid
  createdAt : new.createdAt = old.createdAt

theorem SameGuest.refl (r : Resource) : SameGuest r r := ⟨rfl, rfl, rfl, rfl, rfl, rfl⟩

theorem SameGuest.trans {a b c : Resource} (h : SameGuest a b) (h' : SameGuest b c) :
    SameGuest a c where
  id := h'.id.trans h.id
  kind := h'.kind.trans h.kind
  name := h'.name.trans h.name
  source := h'.source.trans h.source
  vmid := h'.vmid.trans h.vmid
  createdAt := h'.createdAt.trans h.createdAt

theorem SameGuest.withSnapshot {a b : Resource} (h : SameGuest a b) (snapshot : Option Snapshot) :
    SameGuest a (b.withSnapshot snapshot) :=
  ⟨h.id, h.kind, h.name, h.source, h.vmid, h.createdAt⟩

/-- What a part of an update keeps, unless it is the state's or the snapshot's. -/
structure Edits (old new : Resource) : Prop where
  guest : SameGuest old new
  revision : new.revision = old.revision
  state : new.state = old.state
  snapshot : new.proxmox.snapshot = old.proxmox.snapshot

theorem Edits.refl (r : Resource) : Edits r r := ⟨⟨rfl, rfl, rfl, rfl, rfl, rfl⟩, rfl, rfl, rfl⟩

theorem Edits.trans {a b c : Resource} (h : Edits a b) (h' : Edits b c) : Edits a c :=
  ⟨h.guest.trans h'.guest, h'.revision.trans h.revision, h'.state.trans h.state,
    h'.snapshot.trans h.snapshot⟩

section

variable {policy : Policy} {resources : List Resource} {current r new : Resource}
  {args : UpdateArgs}

theorem edits_withArg {α : Type} {arg : Option α} {f : α → Except String Resource}
    (h : withArg arg r f = .ok new) (hf : ∀ a, f a = .ok new → Edits r new) : Edits r new := by
  cases arg with
  | none => exact Except.ok.inj h ▸ .refl r
  | some a => exact hf a h

theorem updatePlacement_edits (h : updatePlacement policy current args r = .ok new) :
    Edits r new := edits_withArg h fun nodes h => by
  simp only [bind_eq_ok, check_eq_ok, pure_eq_ok] at h
  obtain ⟨_, -, _, -, -, -, rfl⟩ := h
  exact ⟨⟨rfl, rfl, rfl, rfl, rfl, rfl⟩, rfl, rfl, rfl⟩

theorem updateInitialNode_edits (h : updateInitialNode args r = .ok new) : Edits r new :=
  edits_withArg h fun node h => by
  simp only [bind_eq_ok, pure_eq_ok] at h
  obtain ⟨_, -, rfl⟩ := h
  exact ⟨⟨rfl, rfl, rfl, rfl, rfl, rfl⟩, rfl, rfl, rfl⟩

theorem updateOwnerNode_edits (h : updateOwnerNode args r = .ok new) : Edits r new :=
  edits_withArg h fun node h => by
  cases node with
  | none => exact Except.ok.inj h ▸ ⟨⟨rfl, rfl, rfl, rfl, rfl, rfl⟩, rfl, rfl, rfl⟩
  | some node =>
    simp only [bind_eq_ok, pure_eq_ok] at h
    obtain ⟨_, -, rfl⟩ := h
    exact ⟨⟨rfl, rfl, rfl, rfl, rfl, rfl⟩, rfl, rfl, rfl⟩

theorem updateRoutes_edits (h : updateRoutes args r = .ok new) : Edits r new :=
  edits_withArg h fun enabled h => by
  simp only [check_eq_ok, pure_eq_ok] at h
  obtain ⟨-, rfl⟩ := h
  exact ⟨⟨rfl, rfl, rfl, rfl, rfl, rfl⟩, rfl, rfl, rfl⟩

theorem updatePurpose_edits (h : updatePurpose py resources current args r = .ok new) :
    Edits r new := edits_withArg h fun purpose h => by
  simp only [bind_eq_ok, check_eq_ok, pure_eq_ok] at h
  obtain ⟨-, -, _, -, rfl⟩ := h
  exact ⟨⟨rfl, rfl, rfl, rfl, rfl, rfl⟩, rfl, rfl, rfl⟩

theorem updatePrimaryDomain_edits (h : updatePrimaryDomain py args r = .ok new) : Edits r new :=
  edits_withArg h fun domain h => by
  simp only [bind_eq_ok, pure_eq_ok] at h
  obtain ⟨_, -, rfl⟩ := h
  exact ⟨⟨rfl, rfl, rfl, rfl, rfl, rfl⟩, rfl, rfl, rfl⟩

theorem updateAliases_edits (h : updateAliases py args r = .ok new) : Edits r new :=
  edits_withArg h fun values h => by
  simp only [bind_eq_ok, check_eq_ok, pure_eq_ok] at h
  obtain ⟨_, -, -, rfl⟩ := h
  exact ⟨⟨rfl, rfl, rfl, rfl, rfl, rfl⟩, rfl, rfl, rfl⟩

theorem updateStagingBase_edits (h : updateStagingBase py resources current args r = .ok new) :
    Edits r new := edits_withArg h fun domain h => by
  simp only [bind_eq_ok, check_eq_ok, pure_eq_ok] at h
  obtain ⟨-, -, _, -, rfl⟩ := h
  exact ⟨⟨rfl, rfl, rfl, rfl, rfl, rfl⟩, rfl, rfl, rfl⟩

theorem updateHaNodes_edits (h : updateHaNodes policy current args r = .ok new) : Edits r new :=
  edits_withArg h fun nodes h => by
  simp only [bind_eq_ok, check_eq_ok, pure_eq_ok] at h
  obtain ⟨_, -, -, -, rfl⟩ := h
  exact ⟨⟨rfl, rfl, rfl, rfl, rfl, rfl⟩, rfl, rfl, rfl⟩

theorem updateReplicationTargets_edits (h : updateReplicationTargets policy args r = .ok new) :
    Edits r new := edits_withArg h fun nodes h => by
  simp only [bind_eq_ok, check_eq_ok, pure_eq_ok] at h
  obtain ⟨_, -, -, rfl⟩ := h
  exact ⟨⟨rfl, rfl, rfl, rfl, rfl, rfl⟩, rfl, rfl, rfl⟩

theorem updateVolume_edits (h : updateVolume resources current args r = .ok new) : Edits r new :=
  edits_withArg h fun volumeId h => by
  simp only [bind_eq_ok, pure_eq_ok] at h
  obtain ⟨_, -, _, -, rfl⟩ := h
  exact ⟨⟨rfl, rfl, rfl, rfl, rfl, rfl⟩, rfl, rfl, rfl⟩

theorem updateDiskBytes_edits (h : updateDiskBytes current args r = .ok new) : Edits r new :=
  edits_withArg h fun diskBytes h => by
  simp only [check_eq_ok, pure_eq_ok] at h
  obtain ⟨-, -, -, rfl⟩ := h
  exact ⟨⟨rfl, rfl, rfl, rfl, rfl, rfl⟩, rfl, rfl, rfl⟩

theorem updateState_eq_ok (h : updateState current args current = .ok new) :
    new = { current with state := args.state.getD current.state } ∧
      (new.state = current.state ∨ new.state ∈ stateTransitions current.kind current.state) := by
  unfold updateState at h
  cases hs : args.state with
  | none =>
    rw [hs] at h
    obtain rfl := Except.ok.inj h
    exact ⟨rfl, .inl rfl⟩
  | some state =>
    rw [hs] at h
    simp only [withArg] at h
    by_cases hsame : state = current.state
    · rw [if_pos hsame] at h
      obtain rfl := Except.ok.inj h
      exact ⟨by rw [Option.getD_some, hsame], .inl rfl⟩
    · rw [if_neg hsame] at h
      by_cases hin : state ∈ stateTransitions current.kind current.state
      · rw [if_neg (not_not_intro hin)] at h
        obtain rfl := Except.ok.inj h
        exact ⟨rfl, .inr hin⟩
      · rw [if_pos hin] at h
        cases h

theorem validateSnapshotName_eq_ok {value name : String} :
    validateSnapshotName value = .ok name ↔ (isSnapshotText value ∧
      (Text.stripStart "__replicate_" value) = none) ∧ value = name := by
  simp only [validateSnapshotName, check_eq_ok, pure_eq_ok, not_or]
  simp

theorem baseSnapshot_eq_ok {base : Snapshot} (h : baseSnapshot args r = .ok base) :
    some base.name = args.snapshotName ∨ r.proxmox.snapshot = some base := by
  unfold baseSnapshot at h
  cases hs : r.proxmox.snapshot with
  | some snapshot =>
    rw [hs] at h
    exact .inr (congrArg some (Except.ok.inj h))
  | none =>
    rw [hs] at h
    cases hname : args.snapshotName with
    | none => simp [hname, throw_ne_ok] at h
    | some name =>
      cases hnode : args.snapshotOwnerNode with
      | none => simp [hname, hnode, throw_ne_ok] at h
      | some node =>
        simp only [hname, hnode, bind_eq_ok, pure_eq_ok, validateSnapshotName_eq_ok] at h
        obtain ⟨_, ⟨-, rfl⟩, _, -, rfl⟩ := h
        exact .inl rfl

theorem updateSnapshot_eq_ok (h : updateSnapshot args r = .ok new) : ∃ snapshot,
    new = r.withSnapshot snapshot ∧ ∀ s, snapshot = some s →
      some s.name = args.snapshotName ∨ ∃ s', r.proxmox.snapshot = some s' ∧ s.name = s'.name := by
  unfold updateSnapshot at h
  by_cases hclear : args.clearSnapshot
  · rw [if_pos hclear] at h
    exact ⟨none, (Except.ok.inj h).symm, fun s hs => by cases hs⟩
  · rw [if_neg hclear] at h
    by_cases hgiven : !args.snapshotGiven
    · rw [if_pos hgiven] at h
      exact ⟨r.proxmox.snapshot, (Except.ok.inj h).symm, fun s hs => .inr ⟨s, hs, rfl⟩⟩
    · rw [if_neg hgiven] at h
      obtain ⟨base, hbase, h⟩ := bind_eq_ok.mp h
      simp only [bind_eq_ok, pure_eq_ok] at h
      obtain ⟨name, hname, ownerNode, -, guids, -, rfl⟩ := h
      refine ⟨_, rfl, fun s hs => ?_⟩
      obtain rfl := Option.some.inj hs
      cases hn : args.snapshotName with
      | some given =>
        simp only [updateSnapshotName, hn, validateSnapshotName_eq_ok] at hname
        exact .inl (congrArg some hname.2.symm)
      | none =>
        simp only [updateSnapshotName, hn, Except.ok.injEq] at hname
        rcases baseSnapshot_eq_ok hbase with h | h
        · simp [hn] at h
        · exact .inr ⟨base, h, hname.symm⟩

end

/-- A record that is saved in place of a guest's earlier one. -/
structure Saves (py : Python) (policy : Policy) (rs : List Resource) (old new : Resource) :
    Prop where
  mem : old ∈ rs
  guest : SameGuest old new
  revision : new.revision = old.revision + 1
  state : new.state = old.state ∨ new.state ∈ stateTransitions old.kind old.state
  valid : validateResource py new policy = .ok ()
  consistent : Consistent (revise rs new)

theorem saveUpdated_eq_ok {old updated : Resource} (hmem : old ∈ rs)
    (hguest : SameGuest old updated) (hrevision : updated.revision = old.revision)
    (hstate : updated.state = old.state ∨ updated.state ∈ stateTransitions old.kind old.state)
    (h : saveUpdated py policy rs updated clock = .ok out) :
    ∃ new, out.ops = [.writeResource new] ∧ Saves py policy rs old new ∧
      new.state = updated.state ∧ new.proxmox = updated.proxmox := by
  simp only [saveUpdated, bind_eq_ok, pure_eq_ok] at h
  obtain ⟨_, hvalid, _, hset, rfl⟩ := h
  refine ⟨_, rfl, ⟨hmem, ?_, ?_, hstate, hvalid, validateRegistryInvariants_eq_ok.mp hset⟩, rfl, rfl⟩
  · exact ⟨hguest.id, hguest.kind, hguest.name, hguest.source, hguest.vmid, hguest.createdAt⟩
  · exact congrArg (· + 1) hrevision

theorem existing_eq_ok : existing rs name = .ok r ↔ named rs name = some r := ofOption_eq_ok

theorem named_mem (h : named rs name = some r) : r ∈ rs ∧ r.name = name :=
  ⟨List.mem_of_find?_eq_some h, by simpa using List.find?_some h⟩

/-- What a command that saves one guest's record writes, if it writes anything. -/
def SavesOne (py : Python) (reg : Registry) (name : GuestName) (ops : List Op)
    (P : List Resource → Resource → Resource → Prop) : Prop :=
  ops = [] ∨ ∃ policy rs old new, reg.policy = .ok policy ∧ reg.resources py = .ok rs ∧
    named rs name = some old ∧ ops = [.writeResource new] ∧ Saves py policy rs old new ∧
    P rs old new

/-- What `update` makes of a guest. -/
structure Updated (args : UpdateArgs) (old new : Resource) : Prop where
  state : new.state = args.state.getD old.state
  snapshot : ∀ s, new.proxmox.snapshot = some s → some s.name = args.snapshotName ∨
    ∃ s', old.proxmox.snapshot = some s' ∧ s.name = s'.name

theorem update_eq_ok {args : UpdateArgs} (h : update py reg name args clock = .ok out) :
    SavesOne py reg name out.ops fun _ => Updated args := by
  simp only [update, bind_eq_ok, check_eq_ok, existing_eq_ok] at h
  obtain ⟨policy, hpolicy, rs, hrs, old, hold, _, -, r1, h1, r2, h2, r3, h3, r4, h4, r5, h5, r6, h6,
    r7, h7, r8, h8, r9, h9, r10, h10, r11, h11, r12, h12, r13, h13, r14, h14, -, h⟩ := h
  obtain ⟨rfl, hstate⟩ := updateState_eq_ok h1
  have hedits := (updatePlacement_edits h2).trans <| (updateInitialNode_edits h3).trans <|
    (updateOwnerNode_edits h4).trans <| (updateRoutes_edits h5).trans <|
    (updatePurpose_edits h6).trans <| (updatePrimaryDomain_edits h7).trans <|
    (updateAliases_edits h8).trans <| (updateStagingBase_edits h9).trans <|
    (updateHaNodes_edits h10).trans <| (updateReplicationTargets_edits h11).trans
      (updateVolume_edits h12)
  obtain ⟨snapshot, rfl, hsnapshot⟩ := updateSnapshot_eq_ok h13
  have hlast := updateDiskBytes_edits h14
  have hguest : SameGuest old r14 :=
    have hsame := (hedits.guest.withSnapshot snapshot).trans hlast.guest
    ⟨hsame.id, hsame.kind, hsame.name, hsame.source, hsame.vmid, hsame.createdAt⟩
  obtain ⟨new, hops, hsaves, hs, hp⟩ := saveUpdated_eq_ok (named_mem hold).1 hguest
    (hlast.revision.trans hedits.revision) (by rwa [hlast.state.trans hedits.state]) h
  refine .inr ⟨policy, rs, old, new, hpolicy, hrs, hold, hops, hsaves, ?_, fun s hsome => ?_⟩
  · exact hs.trans (hlast.state.trans hedits.state)
  · rw [hp, hlast.snapshot] at hsome
    rw [hedits.snapshot] at hsnapshot
    exact hsnapshot s hsome

/-! ## Snapshots -/

/-- What recording a snapshot makes of a guest. -/
structure Recorded (snapshotName : String) (old new : Resource) : Prop where
  state : new.state = old.state
  snapshot : ∀ s, new.proxmox.snapshot = some s → s.name = snapshotName

theorem saveSnapshot_eq_ok {old : Resource} {s : Snapshot} (hmem : old ∈ rs)
    (h : saveUpdated py policy rs (old.withSnapshot (some s)) clock = .ok out) :
    ∃ new, out.ops = [.writeResource new] ∧ Saves py policy rs old new ∧
      Recorded s.name old new := by
  have hguest : SameGuest old (old.withSnapshot (some s)) := (SameGuest.refl old).withSnapshot _
  obtain ⟨new, hops, hsaves, hstate, hproxmox⟩ := saveUpdated_eq_ok hmem hguest rfl (.inl rfl) h
  refine ⟨new, hops, hsaves, hstate, fun s' hs => ?_⟩
  rw [hproxmox] at hs
  exact congrArg Snapshot.name (Option.some.inj hs).symm

theorem snapshotSource_eq_ok {source : Resource} (h : snapshotSource rs r = .ok source) :
    r.source = some source.name ∧ source ∈ rs ∧ source.kind = .production := by
  obtain ⟨hbind, hkind⟩ := Option.filter_eq_some_iff.mp (ofOption_eq_ok.mp h)
  obtain ⟨name, hname, hfind⟩ := Option.bind_eq_some_iff.mp hbind
  obtain ⟨hmem, rfl⟩ := named_mem hfind
  exact ⟨hname, hmem, by simpa using hkind⟩

theorem recordStagingSnapshotIntent_eq_ok {args : IntentArgs}
    (h : recordStagingSnapshotIntent py reg name args clock = .ok out) :
    SavesOne py reg name out.ops fun _ => Recorded args.snapshotName := by
  simp only [recordStagingSnapshotIntent, bind_eq_ok, check_eq_ok, existing_eq_ok,
    validateSnapshotName_eq_ok] at h
  obtain ⟨policy, hpolicy, snapshotName, ⟨-, rfl⟩, _, -, _, -, -, rs, hrs, old, hold, -, source, -,
    -, _, -, h⟩ := h
  split at h
  · exact .inl (pure_eq_ok.mp h ▸ rfl)
  · simp only [check_eq_ok, bind_eq_ok] at h
    obtain ⟨-, _, -, -, h⟩ := h
    split at h
    · exact absurd h throw_ne_ok
    · obtain ⟨new, hops, hsaves, hrecorded⟩ := saveSnapshot_eq_ok (named_mem hold).1 h
      exact .inr ⟨policy, rs, old, new, hpolicy, hrs, hold, hops, hsaves, hrecorded⟩

theorem recordStagingSnapshot_eq_ok {args : RecordArgs}
    (h : recordStagingSnapshot py reg name args clock = .ok out) :
    SavesOne py reg name out.ops fun _ old new => Recorded args.snapshotName old new ∧
      old.proxmox.snapshot.any (·.name = args.snapshotName) := by
  simp only [recordStagingSnapshot, bind_eq_ok, check_eq_ok, existing_eq_ok,
    validateSnapshotName_eq_ok] at h
  obtain ⟨policy, hpolicy, snapshotName, ⟨-, rfl⟩, _, -, _, -, _, -, rs, hrs, old, hold, -, source, -,
    -, _, -, h⟩ := h
  split at h
  · exact absurd h throw_ne_ok
  · rename_i intent staging hintent
    simp only [check_eq_ok, bind_eq_ok, not_or, not_not] at h
    obtain ⟨⟨hname, -, -, -⟩, _, -, -, h⟩ := h
    have hhas : old.proxmox.snapshot.any (·.name = args.snapshotName) := by
      obtain ⟨s, hs, hst⟩ := Option.bind_eq_some_iff.mp hintent
      obtain ⟨st, -, heq⟩ := Option.map_eq_some_iff.mp hst
      obtain ⟨rfl, -⟩ := Prod.mk.inj heq
      simp [hs, hname]
    split at h
    · exact .inl (pure_eq_ok.mp h ▸ rfl)
    · simp only [check_eq_ok, bind_eq_ok] at h
      obtain ⟨-, _, -, -, h⟩ := h
      obtain ⟨new, hops, hsaves, hrecorded⟩ := saveSnapshot_eq_ok (named_mem hold).1 h
      exact .inr ⟨policy, rs, old, new, hpolicy, hrs, hold, hops, hsaves,
        ⟨hrecorded.state, fun s hs => (hrecorded.snapshot s hs).trans hname⟩, hhas⟩

theorem shareStagingSnapshot_eq_ok {donor : GuestName} {expectedRevision : Option Int}

    (h : shareStagingSnapshot py reg name donor expectedRevision clock = .ok out) :
    SavesOne py reg name out.ops fun rs old new => ∃ s : Snapshot, Recorded s.name old new ∧
      old.state = .reserved ∧ ∃ holder ∈ rs, holder.kind = .staging ∧ holder.source = old.source ∧
        holder.proxmox.snapshot.any (·.name = s.name) ∧
        holder.state ∉ snapshotReleasingStates := by
  simp only [shareStagingSnapshot, bind_eq_ok, check_eq_ok, existing_eq_ok] at h
  obtain ⟨policy, hpolicy, rs, hrs, old, hold, donor, hdonor, hkinds, -, hsource, source, hsnap, h⟩ := h
  split at h
  · exact absurd h throw_ne_ok
  · rename_i s staging hs
    simp only [check_eq_ok] at h
    obtain ⟨-, hlive, h⟩ := h
    obtain ⟨holder, hholder⟩ := List.exists_mem_of_ne_nil _ hlive
    simp only [stagingSnapshotHolders, List.mem_filter, decide_eq_true_eq] at hholder
    obtain ⟨⟨hin, hkind, hfrom, hnamed⟩, hstate⟩ := hholder
    rw [← (snapshotSource_eq_ok hsnap).1] at hfrom
    obtain ⟨s', hs', hst⟩ := Option.bind_eq_some_iff.mp hs
    obtain ⟨st, -, heq⟩ := Option.map_eq_some_iff.mp hst
    obtain ⟨rfl, -⟩ := Prod.mk.inj heq
    split at h
    · exact .inl (pure_eq_ok.mp h ▸ rfl)
    · simp only [check_eq_ok, bind_eq_ok, not_not] at h
      obtain ⟨-, _, -, hreserved, h⟩ := h
      obtain ⟨new, hops, hsaves, hrecorded⟩ := saveSnapshot_eq_ok (named_mem hold).1 h
      refine .inr ⟨policy, rs, old, new, hpolicy, hrs, hold, hops, hsaves, s', ?_⟩
      exact ⟨hrecorded, hreserved, holder, hin, hkind, hfrom, hnamed, hstate⟩

/-! ## Releasing -/

theorem cleanupRecords_eq_ok {cs : List Cleanup} (h : reg.cleanupRecords = .ok cs) :
    (∀ e ∈ reg.cleanupFiles, validateCleanup e.2 = .ok () ∧ e.1 = e.2.id) ∧
      ∀ c, c ∈ cs ↔ (c.id, c) ∈ reg.cleanupFiles := by
  simp only [cleanupRecords, bind_eq_ok, pure_eq_ok] at h
  obtain ⟨_, hall, rfl⟩ := h
  have hvalid : ∀ e ∈ reg.cleanupFiles, validateCleanup e.2 = .ok () ∧ e.1 = e.2.id := by
    intro e he
    have hone := forM_eq_ok_iff.mp hall e he
    simp only [bind_eq_ok, last_check_eq_ok, ne_eq, not_not, pure_eq_ok] at hone
    obtain ⟨_, hvalid, hid, -⟩ := hone
    exact ⟨hvalid, hid⟩
  refine ⟨hvalid, fun c => ?_⟩
  rw [List.mem_insertionSort]
  constructor
  · intro hc
    obtain ⟨e, he, rfl⟩ := List.mem_map.mp hc
    rw [← (hvalid e he).2]
    exact he
  · exact fun hc => List.mem_map.mpr ⟨_, hc, rfl⟩

/-- Files of completed cleanups, of no guest that is left, are removed. -/
theorem pruneCompletedCleanup_eq_ok {active : List Uuid} {removed : List Op}
    (h : reg.pruneCompletedCleanup active = .ok removed) {op : Op} (hop : op ∈ removed) :
    ∃ c, op = .removeCleanup c.id ∧ (c.id, c) ∈ reg.cleanupFiles ∧ c.state = .completed ∧
      c.resourceId ∉ active := by
  simp only [pruneCompletedCleanup, bind_eq_ok, pure_eq_ok] at h
  obtain ⟨cs, hcs, rfl⟩ := h
  obtain ⟨c, hc, rfl⟩ := List.mem_map.mp hop
  have hremovable := List.mem_of_mem_take hc
  simp only [List.mem_filter, decide_eq_true_eq] at hremovable
  obtain ⟨⟨hmem, hstate⟩, hgone⟩ := hremovable
  exact ⟨c, rfl, ((cleanupRecords_eq_ok hcs).2 c).mp hmem, hstate, hgone⟩

variable {now : Int} {entropy : Uuid} {node : String} {record : Orchestration}

theorem release_eq_ok {force : Bool} {later : Int}
    {out : Outcome GuestName} (h : release py reg name force now later entropy = .ok out) :
    ∃ rs r removed, reg.resources py = .ok rs ∧ named rs name = some r ∧
      checkReleaseLease reg r now = .ok () ∧ (∀ d ∈ rs, d.source ≠ some r.name) ∧
      reg.pruneCompletedCleanup ((rs.filter (·.id ≠ r.id)).map (·.id)) = .ok removed ∧
      out.ops = archiveOps reg r force later entropy ++ [.removeOrchestration name] ++ removed := by
  simp only [release, bind_eq_ok, ofOption_eq_ok] at h
  obtain ⟨_, -, rs, hrs, cs, -, r, hr, _, hlease, _, hreleasable, h⟩ := h
  have hdependents : ∀ d ∈ rs, d.source ≠ some r.name := by
    simp only [checkReleasable, check_eq_ok] at hreleasable
    intro d hd hsource
    have hnone := not_not.mp hreleasable.1
    exact List.not_mem_nil (hnone ▸ List.mem_filter.mpr ⟨hd, by simpa using hsource⟩)
  have htail : ∃ removed, reg.pruneCompletedCleanup ((rs.filter (·.id ≠ r.id)).map (·.id)) =
      .ok removed ∧ out.ops =
        archiveOps reg r force later entropy ++ [.removeOrchestration name] ++ removed := by
    cases force with
    | true =>
      simp only [Bool.not_true, Bool.false_eq_true, if_false, bind_eq_ok, pure_eq_ok] at h
      obtain ⟨removed, hprune, rfl⟩ := h
      exact ⟨removed, hprune, rfl⟩
    | false =>
      simp only [Bool.not_false, if_true, bind_eq_ok, pure_eq_ok] at h
      obtain ⟨_, -, removed, hprune, rfl⟩ := h
      exact ⟨removed, hprune, rfl⟩
  obtain ⟨removed, hprune, hops⟩ := htail
  exact ⟨rs, r, removed, hrs, hr, hlease, hdependents, hprune, hops⟩

/-- What a `finalize-staging-cleanup` that releases a guest has checked. -/
structure Finalizes (py : Python) (reg : Registry) (rs : List Resource) (r : Resource) : Prop where
  resources : reg.resources py = .ok rs
  mem : r ∈ rs
  kind : r.kind = .staging
  state : r.state = .cleanupPending
  owned : ∃ cs source, reg.cleanupRecords = .ok cs ∧
    (∀ c ∈ cs, c.resourceId = r.id → c.state = .completed) ∧ r.source = some source.name ∧
    source ∈ rs ∧ checkCompleted (cs.filter (·.resourceId = r.id)) source r = .ok ()

theorem finalizeStagingCleanup_eq_ok {resourceId : Uuid} {out : Outcome Bool}
    (h : finalizeStagingCleanup py reg name resourceId clock entropy = .ok out) :
    (∃ rs, reg.resources py = .ok rs ∧ named rs name = none ∧
      reg.pruneCompletedCleanup (rs.map (·.id)) = .ok out.ops) ∨
    ∃ rs r removed, named rs name = some r ∧ resourceId = r.id ∧ Finalizes py reg rs r ∧
      reg.pruneCompletedCleanup ((rs.filter (·.id ≠ r.id)).map (·.id)) = .ok removed ∧
      out.ops = archiveOps reg r false clock entropy ++ removed := by
  simp only [finalizeStagingCleanup, bind_eq_ok] at h
  obtain ⟨policy, -, rs, hrs, cs, hcs, h⟩ := h
  cases hr : named rs name with
  | none =>
    simp only [hr, bind_eq_ok, pure_eq_ok] at h
    obtain ⟨removed, hprune, rfl⟩ := h
    exact .inl ⟨rs, hrs, hr, hprune⟩
  | some r =>
    simp only [hr, check_eq_ok, bind_eq_ok, ofOption_eq_ok, pure_eq_ok, ne_eq, not_not] at h
    obtain ⟨rfl, hkind, hstate, -, hpending, source, hsource, _, hcompleted, _, -, _, -, removed,
      hprune, rfl⟩ := h
    obtain ⟨hfrom, hin, -⟩ := snapshotSource_eq_ok (ofOption_eq_ok.mpr hsource)
    have howned : ∀ c ∈ cs, c.resourceId = r.id → c.state = .completed := by
      intro c hc hid
      by_contra hne
      have hmem : c.id ∈ ((cs.filter (·.resourceId = r.id)).filter (·.state ≠ .completed)).map
          (·.id) := by
        refine List.mem_map.mpr ⟨c, ?_, rfl⟩
        simp [hc, hid, hne]
      simp only [ne_eq] at hmem
      rw [hpending] at hmem
      exact List.not_mem_nil hmem
    exact .inr ⟨rs, r, removed, hr, rfl, ⟨hrs, (named_mem hr).1, hkind, hstate, cs, source, hcs, howned,
      hfrom, hin, hcompleted⟩, hprune, rfl⟩

def Cleanup.identity (c : Cleanup) : CleanupIdentity :=
  ⟨c.resource, c.resourceId, c.node, c.action, c.target⟩

/-- What `defer-cleanup` does once its guest and its identity are known. -/
inductive Defers (digests : Digests) (reg : Registry) (rs : List Resource)
    (identity : CleanupIdentity) : Outcome (Except String Deferral) → Prop where
  | found {c : Cleanup} (hfound : reg.cleanupFiles.get? (cleanupId digests identity) = some c) :
    Defers digests reg rs identity ⟨[], .ok ⟨false, c⟩⟩
  | full {pruned : List Op} {message : String}
    (hprune : reg.pruneCompletedCleanup (rs.map (·.id)) = .ok pruned) :
    Defers digests reg rs identity ⟨pruned, .error message⟩
  | made {pruned : List Op} {c : Cleanup}
    (hnew : reg.cleanupFiles.get? (cleanupId digests identity) = none)
    (hprune : reg.pruneCompletedCleanup (rs.map (·.id)) = .ok pruned)
    (hid : c.id = cleanupId digests identity) (hidentity : c.identity = identity)
    (hstate : c.state = .pending) :
    Defers digests reg rs identity ⟨pruned ++ [.writeCleanup c], .ok ⟨true, c⟩⟩

theorem cleanup?_eq_ok {id : String} {c : Option Cleanup} (h : reg.cleanup? id = .ok c) :
    c = reg.cleanupFiles.get? id := by
  simp only [cleanup?, bind_eq_ok] at h
  obtain ⟨_, -, h⟩ := h
  cases hf : reg.cleanupFiles.get? id with
  | none =>
    rw [hf, pure_eq_ok] at h
    exact h.symm
  | some found =>
    simp only [hf, bind_eq_ok, pure_eq_ok] at h
    obtain ⟨_, -, rfl⟩ := h
    rfl

theorem deferCleanup_eq_ok {args : DeferArgs} {out : Outcome (Except String Deferral)}
    (h : deferCleanup py digests reg args clock = .ok out) :
    ∃ rs r node target, reg.resources py = .ok rs ∧ named rs args.resource = some r ∧
      Defers digests reg rs ⟨args.resource, r.id, node, args.action, target⟩ out := by
  simp only [deferCleanup, bind_eq_ok, check_eq_ok, ofOption_eq_ok] at h
  obtain ⟨policy, -, nodes, -, node, -, target, -, -, rs, hrs, r, hr, found, hfound, h⟩ := h
  have hget := cleanup?_eq_ok hfound
  refine ⟨rs, r, node, target, hrs, hr, ?_⟩
  cases found with
  | some c =>
    obtain rfl := pure_eq_ok.mp h
    exact .found hget.symm
  | none =>
    simp only [bind_eq_ok] at h
    obtain ⟨pruned, hprune, h⟩ := h
    split at h
    · obtain rfl := pure_eq_ok.mp h
      exact .full hprune
    · simp only [bind_eq_ok, pure_eq_ok] at h
      obtain ⟨_, -, rfl⟩ := h
      exact .made hget.symm hprune rfl rfl rfl

/-- A reservation that has expired has failed. -/
structure Expired (old new : Resource) : Prop where
  guest : SameGuest old new
  revision : new.revision = old.revision + 1
  state : new.state = .failed
  before : old.state ∈ [State.reserved, .provisioning]
  allowed : .failed ∈ stateTransitions old.kind old.state
  fields : new = { old with
    state := .failed, updatedAt := new.updatedAt, revision := new.revision }

theorem expireReservation_cases (policy : Policy) (observed : Applied) (now clock : Int)
    (r : Resource) : expireReservation policy observed now clock r = r ∨
      Expired r (expireReservation policy observed now clock r) := by
  unfold expireReservation
  split
  · rename_i h
    obtain ⟨-, hbefore, -, hallowed⟩ := h
    exact .inr ⟨⟨rfl, rfl, rfl, rfl, rfl, rfl⟩, rfl, rfl, hbefore, hallowed, rfl⟩
  · exact .inl rfl

theorem reconcileApply_eq_ok {observed : Applied} {out : Outcome Unit}
    (h : reconcileApply py reg observed now clock = .ok out) :
    ∃ policy rs cs pruned, reg.policy = .ok policy ∧ reg.resources py = .ok rs ∧
      reg.cleanupRecords = .ok cs ∧
      (∀ r ∈ rs, validateResource py (expireReservation policy observed now clock r) policy =
        .ok ()) ∧
      Consistent (rs.map (expireReservation policy observed now clock)) ∧
      out.ops = (((rs.map (expireReservation policy observed now clock)).filter (· ∉ rs)).map
          Op.writeResource ++
        ((cs.map (completeCleanup observed clock)).filter (· ∉ cs)).map Op.writeCleanup) ++
        pruned ∧
      ∀ op ∈ pruned, ∃ c : Cleanup, op = .removeCleanup c.id ∧ c.resourceId ∉ rs.map (·.id) := by
  simp only [reconcileApply, bind_eq_ok, pure_eq_ok] at h
  obtain ⟨policy, hpolicy, rs, hrs, cs, hcs, _, hset, _, hvalid, _, -, pruned, hprune, rfl⟩ := h
  refine ⟨policy, rs, cs, pruned, hpolicy, hrs, hcs, fun r hr => ?_,
    validateRegistryInvariants_eq_ok.mp hset, rfl, fun op hop => ?_⟩
  · exact forM_eq_ok_iff.mp hvalid _ (List.mem_map_of_mem hr)
  · obtain ⟨c, rfl, -, -, hgone⟩ := pruneCompletedCleanup_eq_ok hprune hop
    have hids : (rs.map (expireReservation policy observed now clock)).map (·.id) =
        rs.map (·.id) := by
      rw [List.map_map]
      refine List.map_congr_left fun r _ => ?_
      rcases expireReservation_cases policy observed now clock r with h | h
      · exact congrArg Resource.id h
      · exact h.guest.id
    exact ⟨c, rfl, hids ▸ hgone⟩

/-! ## Hosts -/

theorem hostSlots_eq_ok {slots : List HostRecord} (h : reg.hostSlots = .ok slots) {r : HostRecord} :
    r ∈ slots ↔ (r.node, r) ∈ reg.hostFiles := by
  simp only [hostSlots, bind_eq_ok, pure_eq_ok] at h
  obtain ⟨policy, -, _, hall, rfl⟩ := h
  constructor
  · intro hr
    obtain ⟨e, he, rfl⟩ := List.mem_map.mp hr
    have hone := forM_eq_ok_iff.mp hall e he
    simp only [bind_eq_ok, last_check_eq_ok, ne_eq, not_not, pure_eq_ok] at hone
    obtain ⟨_, -, hnode, -⟩ := hone
    rw [← hnode]
    exact he
  · exact fun hr => List.mem_map.mpr ⟨_, hr, rfl⟩

theorem hostSync_eq_ok {members : List String} {out : Outcome (List HostSlot)}
    (h : hostSync reg members clock = .ok out) :
    ∃ records : List HostRecord, out.ops = records.map .writeHost ∧
      ∀ r ∈ records, r.state = .member := by
  simp only [hostSync, bind_eq_ok, pure_eq_ok] at h
  obtain ⟨policy, -, nodes, -, slots, -, _, -, rfl⟩ := h
  refine ⟨_, rfl, fun r hr => ?_⟩
  obtain ⟨node, -, hslot⟩ := List.mem_filterMap.mp hr
  unfold memberSlot at hslot
  split at hslot
  · exact Option.some.inj hslot ▸ rfl
  · split at hslot
    · exact Option.some.inj hslot ▸ rfl
    · cases hslot

theorem hostReserve_eq_ok {allowMember : Bool} {out : Outcome Bool}
    (h : hostReserve reg node allowMember clock = .ok out) :
    out.ops = [] ∨ ∃ r, out.ops = [.writeHost r] ∧ reg.hostFiles.get? r.node = none := by
  simp only [hostReserve, bind_eq_ok] at h
  obtain ⟨policy, -, slot, -, h⟩ := h
  cases hf : reg.hostFiles.get? slot with
  | some r =>
    simp only [hf, bind_eq_ok, check_eq_ok, pure_eq_ok] at h
    obtain ⟨_, -, -, rfl⟩ := h
    exact .inl rfl
  | none =>
    simp only [hf, bind_eq_ok, pure_eq_ok] at h
    obtain ⟨_, -, rfl⟩ := h
    exact .inr ⟨_, rfl, hf⟩

theorem clusterControl_eq_ok {control : Option Control} (h : reg.clusterControl = .ok control) :
    control = reg.controlFile := by
  unfold clusterControl at h
  cases hf : reg.controlFile with
  | none =>
    rw [hf] at h
    exact (Except.ok.inj h).symm
  | some r =>
    simp only [hf, bind_eq_ok, pure_eq_ok] at h
    obtain ⟨_, -, _, -, rfl⟩ := h
    rfl

theorem hostRelease_eq_ok {reason : String} {expectedState : Option HostState} {out : Outcome Bool}
    (h : hostRelease py reg node reason expectedState clock entropy = .ok out) :
    out.ops = [] ∨ ∃ slot name history,
      (∀ c, reg.controlFile = some c → c.controlNode ≠ slot) ∧
      out.ops = reg.pruneHistory (maxHistoryRecords - 1) ++
        [.writeHistory name history, .removeHost slot] := by
  simp only [hostRelease, bind_eq_ok, check_eq_ok] at h
  obtain ⟨policy, -, slot, -, -, h⟩ := h
  cases hf : reg.hostFiles.get? slot with
  | none =>
    simp only [hf, pure_eq_ok] at h
    exact .inl (h ▸ rfl)
  | some r =>
    simp only [hf, bind_eq_ok] at h
    obtain ⟨_, -, h⟩ := h
    have hrest : ∃ control, reg.clusterControl = .ok control ∧
        ¬ control.any (·.controlNode = slot) ∧ out.ops = reg.pruneHistory (maxHistoryRecords - 1) ++
          [.writeHistory (historyName (utcNow clock) slot.text entropy)
            (.hostRelease (utcNow clock) reason r), .removeHost slot] := by
      cases expectedState with
      | none =>
        simp only [bind_eq_ok, check_eq_ok, pure_eq_ok] at h
        obtain ⟨control, hcontrol, hother, _, -, _, -, -, rfl⟩ := h
        exact ⟨control, hcontrol, hother, rfl⟩
      | some expected =>
        simp only [bind_eq_ok, check_eq_ok, pure_eq_ok] at h
        obtain ⟨-, control, hcontrol, hother, _, -, _, -, -, rfl⟩ := h
        exact ⟨control, hcontrol, hother, rfl⟩
    obtain ⟨control, hcontrol, hother, hops⟩ := hrest
    obtain rfl := clusterControl_eq_ok hcontrol
    refine .inr ⟨slot, _, _, fun c hc heq => hother ?_, hops⟩
    rw [hc, Option.any_some, decide_eq_true heq]

theorem writeControlNode_eq_ok {node : HostSlot} {current : Option Control}
    {out : Outcome Control} (h : writeControlNode policy node now current = .ok out) :
    out.ops = [] ∨ ∃ c : Control, out.ops = [.writeControl c] ∧ c.controlNode = node := by
  cases current with
  | none =>
    simp only [writeControlNode, bind_eq_ok, pure_eq_ok] at h
    obtain ⟨_, -, rfl⟩ := h
    exact .inr ⟨_, rfl, rfl⟩
  | some control =>
    simp only [writeControlNode] at h
    split at h
    · exact .inl (pure_eq_ok.mp h ▸ rfl)
    · simp only [bind_eq_ok, pure_eq_ok] at h
      obtain ⟨_, -, rfl⟩ := h
      exact .inr ⟨_, rfl, rfl⟩

theorem controlSet_eq_ok {expected : Option String} {out : Outcome Control}
    (h : controlSet reg node expected clock = .ok out) :
    out.ops = [] ∨ ∃ c slot, out.ops = [.writeControl c] ∧ (c.controlNode, slot) ∈ reg.hostFiles ∧
      slot.state = .member := by
  simp only [controlSet, bind_eq_ok, check_eq_ok] at h
  obtain ⟨policy, -, node, -, slots, hslots, hmember, current, -, h⟩ := h
  obtain ⟨slot, hin, hstate⟩ : ∃ slot, (node, slot) ∈ reg.hostFiles ∧ slot.state = .member := by
    cases hf : slots.find? (·.node = node) with
    | none => simp [hf] at hmember
    | some slot =>
      have hslot := (hostSlots_eq_ok hslots).mp (List.mem_of_find?_eq_some hf)
      obtain rfl : slot.node = node := by simpa using List.find?_some hf
      exact ⟨slot, hslot, by simpa [hf] using hmember⟩
  have hrest : out.ops = [] ∨ ∃ c : Control, out.ops = [.writeControl c] ∧ c.controlNode = node := by
    cases expected with
    | none => exact writeControlNode_eq_ok h
    | some expected =>
      simp only [check_eq_ok] at h
      exact writeControlNode_eq_ok h.2
  rcases hrest with hops | ⟨c, hops, rfl⟩
  · exact .inl hops
  · exact .inr ⟨c, slot, hops, hin, hstate⟩

/-! ## Installs -/

theorem orchestrationResource_eq_ok (h : orchestrationResource py reg name = .ok r) :
    ∃ rs, reg.resources py = .ok rs ∧ named rs name = some r ∧ r.kind = .production := by
  simp only [orchestrationResource, bind_eq_ok] at h
  obtain ⟨rs, hrs, h⟩ := h
  cases hf : rs.find? (·.name = name) with
  | none => simp [hf, throw_ne_ok] at h
  | some found =>
    simp only [hf, check_eq_ok, pure_eq_ok, ne_eq, not_not] at h
    obtain ⟨hkind, rfl⟩ := h
    exact ⟨rs, hrs, hf, hkind⟩

/-- What an orchestration command writes, if it writes anything: the record of a registered
production guest. -/
def Orchestrates (py : Python) (reg : Registry) (ops : List Op) : Prop :=
  ops = [] ∨ ∃ rs r record, reg.resources py = .ok rs ∧ r ∈ rs ∧ r.kind = .production ∧
    record.resourceId = r.id ∧ validateOrchestration record = .ok () ∧
    ops = [.writeOrchestration r.name record]

theorem readOrchestration_owner
    (h : readOrchestration reg r = .ok (some record)) : record.resourceId = r.id := by
  unfold readOrchestration at h
  cases hf : reg.orchestrationFiles.get? r.name with
  | none => simp [hf] at h
  | some found =>
    simp only [hf, bind_eq_ok, check_eq_ok, pure_eq_ok, ne_eq, not_not, Option.some.injEq] at h
    obtain ⟨_, -, hid, rfl⟩ := h
    exact hid

theorem acquireRecord_owner {args : AcquireArgs} {updated : Orchestration}
    (h : acquireRecord py args r now (some record) = .ok updated) :
    updated.resourceId = record.resourceId := by
  simp only [acquireRecord] at h
  cases hl : record.lease with
  | none =>
    simp only [hl, bind_eq_ok, pure_eq_ok] at h
    obtain ⟨_, -, _, -, rfl⟩ := h
    rfl
  | some lease =>
    simp only [hl, check_eq_ok, bind_eq_ok, pure_eq_ok] at h
    obtain ⟨-, _, -, _, -, rfl⟩ := h
    rfl

theorem orchestrationAcquire_orchestrates {args : AcquireArgs} {out : Outcome Orchestration}
    (h : orchestrationAcquire py reg name args clock = .ok out) : Orchestrates py reg out.ops := by
  simp only [orchestrationAcquire, bind_eq_ok, check_eq_ok, pure_eq_ok] at h
  obtain ⟨-, owner, -, -, -, -, r, hr, read, hread, updated, hupdated, _, hvalid, rfl⟩ := h
  obtain ⟨rs, hrs, hnamed, hkind⟩ := orchestrationResource_eq_ok hr
  obtain ⟨hmem, rfl⟩ := named_mem hnamed
  refine .inr ⟨rs, r, _, hrs, hmem, hkind, ?_, hvalid, rfl⟩
  show updated.resourceId = r.id
  cases read with
  | none =>
    obtain rfl := Except.ok.inj hupdated
    rfl
  | some record =>
    rw [← readOrchestration_owner hread]
    exact acquireRecord_owner hupdated

theorem requireOrchestration_orchestrates
    (h : requireOrchestration py reg name = .ok record) : ∃ rs r, reg.resources py = .ok rs ∧
      r ∈ rs ∧ r.name = name ∧ r.kind = .production ∧ record.resourceId = r.id := by
  simp only [requireOrchestration, bind_eq_ok, ofOption_eq_ok] at h
  obtain ⟨r, hr, read, hread, rfl⟩ := h
  obtain ⟨rs, hrs, hnamed, hkind⟩ := orchestrationResource_eq_ok hr
  obtain ⟨hmem, hname⟩ := named_mem hnamed
  exact ⟨rs, r, hrs, hmem, hname, hkind, readOrchestration_owner hread⟩

theorem orchestrationSetPhase_orchestrates {nonce : String}
    {phase : InstallPhase} {confirmWipe : Option String} {later : Int} {out : Outcome Orchestration}
    (h : orchestrationSetPhase py reg name nonce phase confirmWipe clock later = .ok out) :
    Orchestrates py reg out.ops := by
  simp only [orchestrationSetPhase, bind_eq_ok, check_eq_ok] at h
  obtain ⟨-, record, hrecord, _, -, h⟩ := h
  obtain ⟨rs, r, hrs, hmem, rfl, hkind, hid⟩ := requireOrchestration_orchestrates hrecord
  split at h
  · exact .inl (pure_eq_ok.mp h ▸ rfl)
  · simp only [check_eq_ok, bind_eq_ok, pure_eq_ok] at h
    obtain ⟨-, -, _, hvalid, rfl⟩ := h
    refine .inr ⟨rs, r, _, hrs, hmem, hkind, ?_, hvalid, rfl⟩
    exact hid

theorem orchestrationRelease_orchestrates {nonce : String} {out : Outcome Orchestration}
    (h : orchestrationRelease py reg name nonce clock = .ok out) : Orchestrates py reg out.ops := by
  simp only [orchestrationRelease, bind_eq_ok, check_eq_ok] at h
  obtain ⟨-, record, hrecord, h⟩ := h
  obtain ⟨rs, r, hrs, hmem, rfl, hkind, hid⟩ := requireOrchestration_orchestrates hrecord
  cases hl : record.lease with
  | none =>
    simp only [hl, pure_eq_ok] at h
    exact .inl (h ▸ rfl)
  | some lease =>
    simp only [hl, check_eq_ok, bind_eq_ok, pure_eq_ok] at h
    obtain ⟨-, _, hvalid, rfl⟩ := h
    refine .inr ⟨rs, r, _, hrs, hmem, hkind, ?_, hvalid, rfl⟩
    exact hid

theorem initRegistry_eq_ok {args : InitArgs} {out : Outcome Bool}
    (h : initRegistry reg args id clock = .ok out) : out.ops = [] ∨
      reg.policyFile = none ∧ ∃ policy, validatePolicy policy = .ok () ∧
        out.ops = [.writePolicy policy] := by
  unfold initRegistry at h
  cases hf : reg.policyFile with
  | some policy =>
    simp only [hf, Option.isSome_some, if_true, bind_eq_ok, pure_eq_ok] at h
    obtain ⟨_, -, rfl⟩ := h
    exact .inl rfl
  | none =>
    simp only [hf, Option.isSome_none, Bool.false_eq_true, if_false, bind_eq_ok, pure_eq_ok] at h
    obtain ⟨policy, hbuild, rfl⟩ := h
    exact .inr ⟨rfl, policy, validatePolicy_of_build hbuild, rfl⟩

end Bmac.Registry
