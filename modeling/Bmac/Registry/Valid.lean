import Bmac.Registry.Sound

/-!
# The registry stays valid

All that a command can do to a valid registry (`Effect`), that the registry stays valid at every point
of it, and so does every run of commands from an empty registry.
-/

namespace Bmac.Registry

open Bmac.Base Bmac.Core

variable {py : Python} {digests : Digests} {reg : Registry} {policy : Policy} {clock : Int}

/-! ## What a command does -/

def Invocation.newId : Invocation → Option Uuid
  | .allocateProd _ id | .allocateStaging _ id => some id
  | _ => none

/-- How a command changes a guest. -/
inductive Changes (rs : List Resource) (old new : Resource) : Invocation → Prop where
  | intent {args : IntentArgs} (h : Recorded args.snapshotName old new) :
    Changes rs old new (.recordStagingSnapshotIntent old.name args)
  | record {args : RecordArgs} (h : Recorded args.snapshotName old new)
    (hhas : old.proxmox.snapshot.any (·.name = args.snapshotName)) :
    Changes rs old new (.recordStagingSnapshot old.name args)
  | share {donor : GuestName} {expectedRevision : Option Int} {s : Snapshot}
    (h : Recorded s.name old new) (hreserved : old.state = .reserved)
    (hlive : ∃ holder ∈ rs, holder.kind = .staging ∧ holder.source = old.source ∧
      holder.proxmox.snapshot.any (·.name = s.name) ∧ holder.state ∉ snapshotReleasingStates) :
    Changes rs old new (.shareStagingSnapshot old.name donor expectedRevision)
  | update {args : UpdateArgs} (h : Updated args old new) :
    Changes rs old new (.update old.name args)

/-- What a command does to the files of a valid registry. -/
inductive Effect (py : Python) (digests : Digests) (policy : Policy) (reg : Registry) :
    Invocation → List Op → Prop where
  | idle {i : Invocation} : Effect py digests policy reg i []
  | register {i : Invocation} {rs : List Resource} {r : Resource} (hid : i.newId = some r.id)
    (hrs : reg.resources py = .ok rs) (hnew : Registers py policy rs r) :
    Effect py digests policy reg i [.writeResource r]
  | save {i : Invocation} {rs : List Resource} {old new : Resource}
    (hrs : reg.resources py = .ok rs) (hsaves : Saves py policy rs old new)
    (hchanges : Changes rs old new i) : Effect py digests policy reg i [.writeResource new]
  | release {force : Bool} {later : Int} {entropy : Uuid} {rs : List Resource} {r : Resource}
    {removed : List Op} (hrs : reg.resources py = .ok rs) (hr : r ∈ rs)
    (hfree : ∀ d ∈ rs, d.source ≠ some r.name)
    (hprune : reg.pruneCompletedCleanup ((rs.filter (·.id ≠ r.id)).map (·.id)) = .ok removed) :
    Effect py digests policy reg (.release r.name force later entropy)
      (archiveOps reg r force later entropy ++ (.removeOrchestration r.name :: removed))
  | finalize {entropy : Uuid} {clock : Int} {rs : List Resource} {r : Resource}
    {removed : List Op} (hfinal : Finalizes py reg rs r)
    (hprune : reg.pruneCompletedCleanup ((rs.filter (·.id ≠ r.id)).map (·.id)) = .ok removed) :
    Effect py digests policy reg (.finalizeStagingCleanup r.name r.id entropy)
      (archiveOps reg r false clock entropy ++ removed)
  | prune {i : Invocation} {rs : List Resource} {removed : List Op}
    (hrs : reg.resources py = .ok rs)
    (hprune : reg.pruneCompletedCleanup (rs.map (·.id)) = .ok removed) :
    Effect py digests policy reg i removed
  | defer {args : DeferArgs} {rs : List Resource} {r : Resource} {node : HostSlot}
    {target : String} {out : Outcome (Except String Deferral)} (hrs : reg.resources py = .ok rs)
    (hr : named rs args.resource = some r)
    (hdefers : Defers digests reg rs ⟨args.resource, r.id, node, args.action, target⟩ out) :
    Effect py digests policy reg (.deferCleanup args) out.ops
  | reconcile {observed : Applied} {later : Int} {rs : List Resource} {cs : List Cleanup}
    {written : List Resource} {pruned : List Op} (hrs : reg.resources py = .ok rs)
    (hcs : reg.cleanupRecords = .ok cs) (hn : (written.map (·.name)).Nodup)
    (hall : ∀ r ∈ written, ∃ old, reg.resourceFiles.get? old.name = some old ∧ Expired old r ∧
      validateResource py r policy = .ok ())
    (hpruned : ∀ op ∈ pruned, ∃ c : Cleanup,
      op = .removeCleanup c.id ∧ c.resourceId ∉ rs.map (·.id)) :
    Effect py digests policy reg (.reconcileApply observed later)
      (written.map .writeResource ++
        (((cs.map (completeCleanup observed later)).filter (· ∉ cs)).map .writeCleanup ++ pruned))
  | orchestrate {i : Invocation} {ops : List Op} (hops : Orchestrates py reg ops) :
    Effect py digests policy reg i ops
  | ingress {op : Op} (hop : op.isIngress) : Effect py digests policy reg (.ingress op) [op]
  | members {i : Invocation} {slots : List HostRecord} (hmember : ∀ r ∈ slots, r.state = .member) :
    Effect py digests policy reg i (slots.map .writeHost)
  | reserve {i : Invocation} {slot : HostRecord} (hnew : reg.hostFiles.get? slot.node = none) :
    Effect py digests policy reg i [.writeHost slot]
  | free {i : Invocation} {node : HostSlot} {file : String} {history : History}
    (hother : ∀ c, reg.controlFile = some c → c.controlNode ≠ node) :
    Effect py digests policy reg i (reg.pruneHistory (maxHistoryRecords - 1) ++
      [.writeHistory file history, .removeHost node])
  | control {i : Invocation} {c : Control} {slot : HostRecord}
    (hslot : (c.controlNode, slot) ∈ reg.hostFiles) (hmember : slot.state = .member) :
    Effect py digests policy reg i [.writeControl c]

namespace Sound

variable {rs : List Resource} {r : Resource} {ops : List Op} {i : Invocation}

theorem saves_effect {name : GuestName} {P : List Resource → Resource → Resource → Prop}
    (h : Sound py policy reg) (hops : SavesOne py reg name ops P)
    (hP : ∀ rs old new, old.name = name → P rs old new → Changes rs old new i) :
    Effect py digests policy reg i ops := by
  rcases hops with rfl | ⟨policy', rs, old, new, hpolicy, hrs, hold, rfl, hsaves, hchange⟩
  · exact .idle
  · obtain rfl := h.policy_unique hpolicy
    exact .save hrs hsaves (hP rs old new (named_mem hold).2 hchange)

theorem reconcile_effect (h : Sound py policy reg) {observed : Applied} {now : Int}
    {out : Outcome Unit} (hout : reconcileApply py reg observed now clock = .ok out) :
    Effect py digests policy reg (.reconcileApply observed clock) out.ops := by
  obtain ⟨policy', rs, cs, pruned, hpolicy, hrs, hcs, hvalid, -, hops, hpruned⟩ :=
    reconcileApply_eq_ok hout
  obtain rfl := h.policy_unique hpolicy
  have hnames : ((rs.map (expireReservation policy' observed now clock)).map (·.name)) =
      rs.map (·.name) := map_restate fun r _ =>
    (expireReservation_cases policy' observed now clock r).elim (congrArg Resource.name)
      (·.guest.name)
  rw [hops, List.append_assoc]
  refine .reconcile hrs hcs ?_ (fun r hr => ?_) hpruned
  · refine List.Nodup.sublist (List.filter_sublist.map _) ?_
    rw [hnames]
    exact (consistent_resources hrs).names
  · obtain ⟨hmem, hnew⟩ := List.mem_filter.mp hr
    obtain ⟨old, hold, rfl⟩ := List.mem_map.mp hmem
    refine ⟨old, (h.mem_iff hrs).mp hold, ?_, hvalid old hold⟩
    refine (expireReservation_cases policy' observed now clock old).resolve_left fun heq => ?_
    rw [heq] at hnew
    simp [hold] at hnew

theorem effect (h : Sound py policy reg) (hops : i.ops py digests reg clock = .ok ops) :
    Effect py digests policy reg i ops := by
  cases i with
  | init args id =>
    obtain ⟨out, hout, rfl⟩ := map_eq_ok.mp hops
    rcases initRegistry_eq_ok hout with hidle | ⟨hbare, -⟩
    · exact hidle ▸ .idle
    · rw [(policy_eq_ok.mp h.configured).1] at hbare
      cases hbare
  | allocateProd args id =>
    obtain ⟨out, hout, rfl⟩ := map_eq_ok.mp hops
    rcases allocateProd_eq_ok hout with hidle | ⟨policy', rs, r, hpolicy, hrs, hwrite, rfl, hnew⟩
    · exact hidle ▸ .idle
    · obtain rfl := h.policy_unique hpolicy
      exact hwrite ▸ .register rfl hrs hnew
  | allocateStaging args id =>
    obtain ⟨out, hout, rfl⟩ := map_eq_ok.mp hops
    rcases allocateStaging_eq_ok hout with hidle | ⟨policy', rs, r, hpolicy, hrs, hwrite, rfl, hnew⟩
    · exact hidle ▸ .idle
    · obtain rfl := h.policy_unique hpolicy
      exact hwrite ▸ .register rfl hrs hnew
  | recordStagingSnapshotIntent name args =>
    obtain ⟨out, hout, rfl⟩ := map_eq_ok.mp hops
    refine h.saves_effect (recordStagingSnapshotIntent_eq_ok hout) ?_
    rintro rs old new rfl hrecorded
    exact .intent hrecorded
  | recordStagingSnapshot name args =>
    obtain ⟨out, hout, rfl⟩ := map_eq_ok.mp hops
    refine h.saves_effect (recordStagingSnapshot_eq_ok hout) ?_
    rintro rs old new rfl ⟨hrecorded, hhas⟩
    exact .record hrecorded hhas
  | shareStagingSnapshot name donor expectedRevision =>
    obtain ⟨out, hout, rfl⟩ := map_eq_ok.mp hops
    refine h.saves_effect (shareStagingSnapshot_eq_ok hout) ?_
    rintro rs old new rfl ⟨s, hrecorded, hreserved, hlive⟩
    exact .share hrecorded hreserved hlive
  | update name args =>
    obtain ⟨out, hout, rfl⟩ := map_eq_ok.mp hops
    refine h.saves_effect (update_eq_ok hout) ?_
    rintro rs old new rfl hupdated
    exact .update hupdated
  | release name force later entropy =>
    obtain ⟨out, hout, rfl⟩ := map_eq_ok.mp hops
    obtain ⟨rs, r, removed, hrs, hr, -, hfree, hprune, hwrite⟩ := release_eq_ok hout
    obtain ⟨hmem, rfl⟩ := named_mem hr
    rw [hwrite, List.append_assoc]
    exact .release hrs hmem hfree hprune
  | deferCleanup args =>
    obtain ⟨out, hout, rfl⟩ := map_eq_ok.mp hops
    obtain ⟨rs, r, node, target, hrs, hr, hdefers⟩ := deferCleanup_eq_ok hout
    exact .defer hrs hr hdefers
  | finalizeStagingCleanup name resourceId entropy =>
    obtain ⟨out, hout, rfl⟩ := map_eq_ok.mp hops
    rcases finalizeStagingCleanup_eq_ok hout with ⟨rs, hrs, -, hprune⟩ |
      ⟨rs, r, removed, hr, rfl, hfinal, hprune, hwrite⟩
    · exact .prune hrs hprune
    · obtain ⟨-, rfl⟩ := named_mem hr
      exact hwrite ▸ .finalize hfinal hprune
  | hostSync members =>
    obtain ⟨out, hout, rfl⟩ := map_eq_ok.mp hops
    obtain ⟨slots, hwrite, hmember⟩ := hostSync_eq_ok hout
    exact hwrite ▸ .members hmember
  | hostReserve node allowMember =>
    obtain ⟨out, hout, rfl⟩ := map_eq_ok.mp hops
    rcases hostReserve_eq_ok hout with hidle | ⟨slot, hwrite, hnew⟩
    · exact hidle ▸ .idle
    · exact hwrite ▸ .reserve hnew
  | hostRelease node reason expectedState entropy =>
    obtain ⟨out, hout, rfl⟩ := map_eq_ok.mp hops
    rcases hostRelease_eq_ok hout with hidle | ⟨slot, file, history, hother, hwrite⟩
    · exact hidle ▸ .idle
    · exact hwrite ▸ .free hother
  | controlSet node expected =>
    obtain ⟨out, hout, rfl⟩ := map_eq_ok.mp hops
    rcases controlSet_eq_ok hout with hidle | ⟨c, slot, hwrite, hslot, hmember⟩
    · exact hidle ▸ .idle
    · exact hwrite ▸ .control hslot hmember
  | reconcileApply observed later =>
    obtain ⟨out, hout, rfl⟩ := map_eq_ok.mp hops
    exact h.reconcile_effect hout
  | orchestrationAcquire name args =>
    obtain ⟨out, hout, rfl⟩ := map_eq_ok.mp hops
    exact .orchestrate (orchestrationAcquire_orchestrates hout)
  | orchestrationSetPhase name nonce phase confirmWipe later =>
    obtain ⟨out, hout, rfl⟩ := map_eq_ok.mp hops
    exact .orchestrate (orchestrationSetPhase_orchestrates hout)
  | orchestrationRelease name nonce =>
    obtain ⟨out, hout, rfl⟩ := map_eq_ok.mp hops
    exact .orchestrate (orchestrationRelease_orchestrates hout)
  | ingress op =>
    simp only [Invocation.ops] at hops
    split at hops
    · rename_i hingress
      obtain rfl := Except.ok.inj hops
      exact .ingress hingress
    · cases hops

/-- A command keeps the registry valid at every point of its file operations. -/
theorem through (h : Sound py policy reg) (heffect : Effect py digests policy reg i ops) :
    Through apply (Sound py policy) reg ops := by
  cases heffect with
  | idle => exact through_nil.mpr h
  | register hid hrs hnew => exact .single h (h.register hrs hnew)
  | save hrs hsaves => exact .single h (h.save hrs hsaves)
  | @release force later entropy rs r removed hrs hr hfree hprune =>
    have harchive := h.archive hrs (fun d hd _ => hfree d hd) force later entropy
    refine harchive.append (through_cons.mpr ⟨harchive.finish, ?_⟩)
    exact (harchive.finish.removeOrchestration _).through_side (pruneCompletedCleanup_side hprune)
  | finalize hfinal hprune =>
    have hset := consistent_resources hfinal.resources
    have hfree := staging_free hset hfinal.mem hfinal.kind
    exact append_side (h.archive hfinal.resources hfree _ _ _) (pruneCompletedCleanup_side hprune)
  | prune hrs hprune => exact h.through_side (pruneCompletedCleanup_side hprune)
  | defer hrs hr hdefers => exact h.through_side hdefers.side
  | reconcile hrs hcs hn hall hpruned =>
    refine append_side (h.failAll hn hall) fun op hop => ?_
    rcases List.mem_append.mp hop with hop | hop
    · obtain ⟨c, -, rfl⟩ := List.mem_map.mp hop
      rfl
    · obtain ⟨c, rfl, -⟩ := hpruned op hop
      rfl
  | orchestrate hops =>
    rcases hops with rfl | ⟨rs, r, record, -, -, -, -, -, rfl⟩
    · exact through_nil.mpr h
    · exact .single h (h.writeOrchestration _ _)
  | ingress hop => exact .single h (h.side (Op.side_of_isIngress hop))
  | members hmember => exact h.writeHosts hmember
  | reserve hnew =>
    refine .single h (h.writeHost fun c hc hnode => ?_)
    obtain ⟨found, hfound, -⟩ := h.control c hc
    rw [hnode, hnew] at hfound
    cases hfound
  | free hother =>
    have hside := @pruneHistory_side reg (maxHistoryRecords - 1)
    have hprune := h.through_side hside
    refine hprune.append (hprune.finish.removedHost fun c hc => hother c ?_)
    rwa [(foldl_side hside).control] at hc
  | control hslot hmember => exact .single h (h.writeControl hslot hmember)

end Sound

/-! ## Guests' records -/

/-- A record that a command writes is a new guest's, or its guest's next one. -/
inductive Wrote (reg : Registry) (r : Resource) : Prop where
  | new (absent : reg.resourceFiles.get? r.name = none) (state : r.state = .reserved)
    (proxmox : r.proxmox = {})
  | next {old : Resource} (present : reg.resourceFiles.get? r.name = some old)
    (guest : SameGuest old r) (revision : r.revision = old.revision + 1)
    (state : r.state = old.state ∨ r.state ∈ stateTransitions old.kind old.state)

variable {r : Resource} {i : Invocation} {reg' : Registry}

theorem not_written {ops : List Op} (hops : ∀ op ∈ ops, op.isSide) :
    .writeResource r ∉ ops := fun hr => by
  have hside := hops _ hr
  cases hside

theorem not_written_archive {r' : Resource} {forced : Bool} {entropy : Uuid} :
    .writeResource r ∉ archiveOps reg r' forced clock entropy := by
  intro hr
  rcases List.mem_append.mp hr with hr | hr
  · exact not_written (pruneHistory_side _) hr
  · simp at hr

/-- How a command writes a record: for a new guest, in place of a guest's, or of one that fails. -/
inductive Writes (py : Python) (policy : Policy) (reg : Registry) (r : Resource) :
    Invocation → Prop where
  | register {i : Invocation} {rs : List Resource} (hid : i.newId = some r.id)
    (hrs : reg.resources py = .ok rs) (hnew : Registers py policy rs r) : Writes py policy reg r i
  | save {i : Invocation} {rs : List Resource} {old : Resource} (hrs : reg.resources py = .ok rs)
    (hsaves : Saves py policy rs old r) (hchanges : Changes rs old r i) : Writes py policy reg r i
  | expire {observed : Applied} {later : Int} {old : Resource}
    (hold : reg.resourceFiles.get? old.name = some old) (hexpired : Expired old r) :
    Writes py policy reg r (.reconcileApply observed later)

theorem Effect.writes {ops : List Op} (heffect : Effect py digests policy reg i ops)
    (hr : .writeResource r ∈ ops) : Writes py policy reg r i := by
  cases heffect with
  | idle => cases hr
  | register hid hrs hnew =>
    obtain rfl : r = _ := by simpa using hr
    exact .register hid hrs hnew
  | save hrs hsaves hchanges =>
    obtain rfl : r = _ := by simpa using hr
    exact .save hrs hsaves hchanges
  | release hrs hmem hfree hprune =>
    rcases List.mem_append.mp hr with hr | hr
    · exact absurd hr not_written_archive
    · rcases List.mem_cons.mp hr with hr | hr
      · cases hr
      · exact absurd hr (not_written (pruneCompletedCleanup_side hprune))
  | finalize hfinal hprune =>
    rcases List.mem_append.mp hr with hr | hr
    · exact absurd hr not_written_archive
    · exact absurd hr (not_written (pruneCompletedCleanup_side hprune))
  | prune hrs hprune => exact absurd hr (not_written (pruneCompletedCleanup_side hprune))
  | defer hrs hmem hdefers => exact absurd hr (not_written hdefers.side)
  | reconcile hrs hcs hn hall hpruned =>
    rcases List.mem_append.mp hr with hr | hr
    · obtain ⟨s, hs, heq⟩ := List.mem_map.mp hr
      obtain rfl := Op.writeResource.inj heq
      obtain ⟨old, hold, hexpired, -⟩ := hall s hs
      exact .expire hold hexpired
    · rcases List.mem_append.mp hr with hr | hr
      · simp at hr
      · obtain ⟨c, heq, -⟩ := hpruned _ hr
        cases heq
  | orchestrate hops => rcases hops with rfl | ⟨rs, r', record, -, -, -, -, -, rfl⟩ <;> simp at hr
  | ingress hop =>
    obtain rfl := List.mem_singleton.mp hr
    cases hop
  | members => simp at hr
  | reserve => simp at hr
  | free =>
    rcases List.mem_append.mp hr with hr | hr
    · exact absurd hr (not_written (pruneHistory_side _))
    · simp at hr
  | control => simp at hr

namespace Sound

variable {rs : List Resource} {r : Resource} {ops : List Op}

theorem absent (h : Sound py policy reg) (hrs : reg.resources py = .ok rs)
    (hnew : Registers py policy rs r) : reg.resourceFiles.get? r.name = none := by
  have hnames := hnew.consistent.names
  rw [List.map_append, List.nodup_append] at hnames
  cases hget : reg.resourceFiles.get? r.name with
  | none => rfl
  | some old =>
    have hname : old.name = r.name := ((h.valid _ (Table.mem_of_get? hget)).2).symm
    have hold : old ∈ rs := (h.mem_iff hrs).mpr (hname ▸ hget)
    exact absurd hname (hnames.2.2 _ (List.mem_map_of_mem hold) _ (by simp))

theorem wrote (h : Sound py policy reg) (heffect : Effect py digests policy reg i ops)
    (hr : .writeResource r ∈ ops) : Wrote reg r := by
  cases heffect.writes hr with
  | register hid hrs hnew => exact .new (h.absent hrs hnew) hnew.state hnew.proxmox
  | save hrs hsaves =>
    have hold := (h.mem_iff hrs).mp hsaves.mem
    rw [← hsaves.guest.name] at hold
    exact .next hold hsaves.guest hsaves.revision hsaves.state
  | expire hold hexpired =>
    rw [← hexpired.guest.name] at hold
    refine .next hold hexpired.guest hexpired.revision (.inr ?_)
    rw [hexpired.state]
    exact hexpired.allowed

end Sound

/-- The guests of `reg'` are those of `reg`, or have records of which `P` holds. -/
def Rewritten (P : Resource → Prop) (reg reg' : Registry) : Prop :=
  ∀ name new, reg'.resourceFiles.get? name = some new →
    reg.resourceFiles.get? name = some new ∨ new.name = name ∧ P new

theorem rewritten_apply {P : Resource → Prop} {op : Op} (h : Rewritten P reg reg')
    (hop : ∀ r, op = .writeResource r → P r) : Rewritten P reg (reg'.apply op) := by
  intro name new hnew
  cases op with
  | writeResource r =>
    simp only [apply, Table.get?_insert] at hnew
    split at hnew
    · rename_i hname
      obtain rfl := Option.some.inj hnew
      exact .inr ⟨hname.symm, hop r rfl⟩
    · exact h name new hnew
  | removeResource removed =>
    simp only [apply, Table.get?_erase] at hnew
    split at hnew
    · cases hnew
    · exact h name new hnew
  | _ => exact h name new hnew

theorem rewritten_through {P : Resource → Prop} {ops : List Op}
    (hops : ∀ r, .writeResource r ∈ ops → P r) : Through apply (Rewritten P reg) reg ops :=
  .of_step (fun _ _ hnew => .inl hnew) fun _ hop _ hreg =>
    rewritten_apply hreg fun _ hr => hops _ (hr ▸ hop)

/-- The guests of `reg'` are those of `reg`, or have records that a command wrote. -/
def Descends (reg reg' : Registry) : Prop :=
  ∀ name new, reg'.resourceFiles.get? name = some new →
    reg.resourceFiles.get? name = some new ∨ new.name = name ∧ Wrote reg new

theorem Sound.descends (h : Sound py policy reg) {ops : List Op}
    (heffect : Effect py digests policy reg i ops) : Through apply (Descends reg) reg ops :=
  rewritten_through fun _ => h.wrote heffect

/-! ## Runs -/

/-- A registry before `init`. -/
structure Bare (reg : Registry) : Prop where
  policyFile : reg.policyFile = none
  resourceFiles : reg.resourceFiles = []
  hostFiles : reg.hostFiles = []
  controlFile : reg.controlFile = none

namespace Bare

theorem policy_error (h : Bare reg) : reg.policy = .error "registry policy does not exist" := by
  rw [Registry.policy, h.policyFile]
  rfl

theorem resources_error (h : Bare reg) :
    reg.resources py = .error "registry policy does not exist" := by
  rw [Registry.resources, h.policy_error]
  rfl

theorem orchestrate (h : Bare reg) {ops : List Op} (hops : Orchestrates py reg ops) : ops = [] := by
  rcases hops with rfl | ⟨rs, r, record, hrs, -⟩
  · rfl
  · rw [h.resources_error] at hrs
    cases hrs

theorem sound (h : Bare reg) (hvalid : validatePolicy policy = .ok ()) :
    Sound py policy (reg.apply (.writePolicy policy)) where
  configured := policy_eq_ok.mpr ⟨rfl, hvalid⟩
  sorted := by
    simp only [Registry.apply, h.resourceFiles]
    exact Table.sorted_nil
  valid := fun e he => by
    simp only [Registry.apply, h.resourceFiles] at he
    cases he
  consistent := by
    simp only [Registry.apply, h.resourceFiles]
    exact validateRegistryInvariants_eq_ok.mp rfl
  hosts := by
    simp only [Registry.apply, h.hostFiles]
    exact Table.sorted_nil
  control := fun c hc => by
    simp only [Registry.apply, h.controlFile] at hc
    cases hc

theorem ingress (h : Bare reg) {op : Op} (hop : op.isIngress) : Bare (reg.apply op) := by
  cases op <;> first | exact ⟨h.1, h.2, h.3, h.4⟩ | cases hop

/-- Before `init`, only it and the ingress write anything. -/
theorem ops (h : Bare reg) {i : Invocation} {ops : List Op}
    (hops : i.ops py digests reg clock = .ok ops) : ops = [] ∨
      (∃ policy, validatePolicy policy = .ok () ∧ ops = [.writePolicy policy]) ∨
      ∃ op, op.isIngress ∧ ops = [op] := by
  cases i with
  | init args id =>
    obtain ⟨out, hout, rfl⟩ := map_eq_ok.mp hops
    exact (initRegistry_eq_ok hout).imp_right fun hinit => .inl hinit.2
  | ingress op =>
    simp only [Invocation.ops] at hops
    split at hops
    · rename_i hingress
      obtain rfl := Except.ok.inj hops
      exact .inr (.inr ⟨op, hingress, rfl⟩)
    · cases hops
  | orchestrationAcquire name args =>
    obtain ⟨out, hout, rfl⟩ := map_eq_ok.mp hops
    exact .inl (h.orchestrate (orchestrationAcquire_orchestrates hout))
  | orchestrationSetPhase name nonce phase confirmWipe later =>
    obtain ⟨out, hout, rfl⟩ := map_eq_ok.mp hops
    exact .inl (h.orchestrate (orchestrationSetPhase_orchestrates hout))
  | orchestrationRelease name nonce =>
    obtain ⟨out, hout, rfl⟩ := map_eq_ok.mp hops
    exact .inl (h.orchestrate (orchestrationRelease_orchestrates hout))
  -- Every other command begins with the policy.
  | _ =>
    exfalso
    simp only [Invocation.ops, allocateProd, allocateStaging, recordStagingSnapshotIntent,
      recordStagingSnapshot, shareStagingSnapshot, update, release, deferCleanup,
      finalizeStagingCleanup, hostSync, hostReserve, hostRelease, controlSet, reconcileApply,
      h.policy_error, error_bind] at hops
    cases hops

theorem not_written (h : Bare reg) {ops : List Op}
    (hops : i.ops py digests reg clock = .ok ops) : .writeResource r ∉ ops := by
  intro hr
  rcases h.ops hops with rfl | ⟨policy, -, rfl⟩ | ⟨op, hingress, rfl⟩
  · cases hr
  · simp at hr
  · obtain rfl := List.mem_singleton.mp hr
    cases hingress

end Bare

/-- A registry that commands made. -/
def Valid (py : Python) (reg : Registry) : Prop := Bare reg ∨ ∃ policy, Sound py policy reg

theorem bare_empty : Bare {} := ⟨rfl, rfl, rfl, rfl⟩

theorem Sound.after (h : Sound py policy reg) (e : Event) :
    Sound py policy (e.after py digests reg) := by
  unfold Event.after
  cases hops : e.invocation.ops py digests reg e.clock with
  | error message => exact h
  | ok ops => exact h.through (h.effect hops) e.done

theorem Valid.after (h : Valid py reg) (e : Event) : Valid py (e.after py digests reg) := by
  unfold Event.after
  cases hops : e.invocation.ops py digests reg e.clock with
  | error message => exact h
  | ok ops =>
    show Valid py (reg.applyAll (ops.take e.done))
    rcases h with hbare | ⟨policy, hsound⟩
    · have hthrough : Through apply (Valid py) reg ops := by
        rcases hbare.ops hops with rfl | ⟨policy, hvalid, rfl⟩ | ⟨op, hingress, rfl⟩
        · exact through_nil.mpr (.inl hbare)
        · exact .single (.inl hbare) (.inr ⟨policy, hbare.sound hvalid⟩)
        · exact .single (.inl hbare) (.inl (hbare.ingress hingress))
      exact hthrough e.done
    · exact .inr ⟨policy, hsound.through (hsound.effect hops) e.done⟩

theorem Bare.descends (h : Bare reg) (e : Event) : Descends reg (e.after py digests reg) := by
  unfold Event.after
  cases hops : e.invocation.ops py digests reg e.clock with
  | error message => exact fun _ _ hnew => .inl hnew
  | ok ops =>
    have hthrough : Through apply (Descends reg) reg ops :=
      rewritten_through fun r hr => absurd hr (h.not_written hops)
    exact hthrough e.done

theorem Valid.descends (h : Valid py reg) (e : Event) : Descends reg (e.after py digests reg) := by
  rcases h with hbare | ⟨policy, hsound⟩
  · exact hbare.descends e
  · unfold Event.after
    cases hops : e.invocation.ops py digests reg e.clock with
    | error message => exact fun _ _ hnew => .inl hnew
    | ok ops => exact hsound.descends (hsound.effect hops) e.done

theorem run_valid {events : List Event} (h : Run (step py digests) reg events reg')
    (hvalid : Valid py reg) : Valid py reg' :=
  h.invariant (fun _ e _ hs hstep => by
    obtain rfl := hstep
    exact hs.after e) hvalid

def isGuest (reg : Registry) (name : GuestName) (id : Uuid) : Bool :=
  (reg.resourceFiles.get? name).any (·.id = id)

/-- A step after which a name is still that of the guest. -/
def stepWith (py : Python) (digests : Digests) (name : GuestName) (id : Uuid) (reg : Registry)
    (e : Event) (reg' : Registry) : Prop :=
  step py digests reg e reg' ∧ isGuest reg' name id

theorem Descends.revision {reg' : Registry} {name : GuestName} {old new : Resource}
    (h : Descends reg reg') (hold : reg.resourceFiles.get? name = some old)
    (hnew : reg'.resourceFiles.get? name = some new) : old.revision ≤ new.revision := by
  rcases h name new hnew with hsame | ⟨rfl, hwrote⟩
  · obtain rfl := Option.some.inj (hold.symm.trans hsame)
    exact le_refl _
  · cases hwrote with
    | new absent =>
      rw [absent] at hold
      cases hold
    | next present guest revision =>
      obtain rfl := Option.some.inj (hold.symm.trans present)
      omega

theorem run_revision {name : GuestName} {id : Uuid} {events : List Event}
    (h : Run (stepWith py digests name id) reg events reg') (hvalid : Valid py reg)
    {old new : Resource} (hold : reg.resourceFiles.get? name = some old)
    (hnew : reg'.resourceFiles.get? name = some new) : old.revision ≤ new.revision := by
  induction h generalizing old with
  | nil =>
    obtain rfl := Option.some.inj (hold.symm.trans hnew)
    exact le_refl _
  | @cons a b c e es hs _ ih =>
    obtain ⟨hstep, hguest⟩ := hs
    obtain rfl := hstep
    cases hmid : (e.after py digests a).resourceFiles.get? name with
    | none => simp [isGuest, hmid] at hguest
    | some mid => exact ((hvalid.descends e).revision hold hmid).trans (ih (hvalid.after e) hmid hnew)

/-- In every run of the commands, each stopped anywhere, the registry's guests are valid, the control
node's slot is a member's, and a guest's revision doesn't decrease as long as its name is that
guest's. -/
theorem commands_keep_registry {events : List Event}
    (h : Run (step py digests) {} events reg) :
    (reg.policyFile.isSome → ∃ rs, reg.resources py = .ok rs ∧ Consistent rs) ∧
    (∀ c, reg.controlFile = some c →
      ∃ slot, reg.hostFiles.get? c.controlNode = some slot ∧ slot.state = .member) ∧
    ∀ name id later reg' old new, Run (stepWith py digests name id) reg later reg' →
      reg.resourceFiles.get? name = some old → old.id = id →
      reg'.resourceFiles.get? name = some new → old.revision ≤ new.revision := by
  have hvalid := run_valid h (.inl bare_empty)
  refine ⟨fun hinit => ?_, fun c hc => ?_, fun name id later reg' old new hlater hold _ hnew =>
    run_revision hlater hvalid hold hnew⟩
  · rcases hvalid with hbare | ⟨policy, hsound⟩
    · rw [hbare.policyFile] at hinit
      cases hinit
    · exact ⟨_, hsound.resources, consistent_resources hsound.resources⟩
  · rcases hvalid with hbare | ⟨policy, hsound⟩
    · rw [hbare.controlFile] at hc
      cases hc
    · exact hsound.control c hc

theorem Sound.policyFile_isSome (h : Sound py policy reg) : reg.policyFile.isSome := by
  cases hfile : reg.policyFile with
  | none =>
    have hconfigured := h.configured
    rw [Registry.policy, hfile] at hconfigured
    cases hconfigured
  | some _ => rfl

/-- After `init` and two allocations. -/
theorem commands_keep_registry_small : ∃ rs,
    (afterAll smallPython smallDigests {} smallEvents).resources smallPython = .ok rs ∧
      Consistent rs := by
  have hinit : ((completed (.init smallInit 0)).after smallPython smallDigests {}).policyFile.isSome := by
    decide +kernel
  have hvalid : Valid smallPython ((completed (.init smallInit 0)).after smallPython smallDigests {}) :=
    Valid.after (.inl bare_empty) _
  rcases hvalid with hbare | ⟨policy, hsound⟩
  · rw [hbare.policyFile] at hinit
    cases hinit
  · refine (commands_keep_registry (run_afterAll smallPython smallDigests {} smallEvents)).1 ?_
    rw [afterAll, smallEvents, List.foldl_cons, List.foldl_cons, List.foldl_cons, List.foldl_nil]
    exact ((hsound.after _).after _).policyFile_isSome

end Bmac.Registry
