import Bmac.Base.Through
import Bmac.Registry.Effects

/-!
# Valid registries

What a valid registry is like (`Sound`), and that the registry's file operations keep it so.
-/

namespace Bmac.Registry

open Bmac.Base Bmac.Core

variable {py : Python} {reg : Registry} {policy : Policy} {clock : Int} {rs : List Resource}
  {r old : Resource}

theorem named_of_mem (hn : (rs.map (·.name)).Nodup) (hr : r ∈ rs) : named rs r.name = some r := by
  have hfind := Keyed.find_of_mem hn hr
  simpa [Keyed.find, named] using hfind

/-! ## Records in place of others -/

theorem revise_perm {new : Resource} (hn : (rs.map (·.name)).Nodup)
    (hmem : old ∈ rs) (hname : new.name = old.name) :
    (revise rs new).Perm (new :: rs.filter (·.name ≠ new.name)) := by
  induction rs with
  | nil => cases hmem
  | cons r rs ih =>
    obtain ⟨hr, hrs⟩ := List.nodup_cons.mp hn
    have hother : ∀ s ∈ rs, s.name ≠ r.name := fun s hs h =>
      hr (List.mem_map.mpr ⟨s, hs, h⟩)
    rcases List.mem_cons.mp hmem with rfl | hmem
    · have hkeep : rs.filter (·.name ≠ new.name) = rs :=
        List.filter_eq_self.mpr fun s hs => by simpa [hname] using hother s hs
      have htail : revise rs new = rs :=
        (List.map_congr_left fun s hs => if_neg (hname ▸ hother s hs)).trans (List.map_id rs)
      have hhead : revise (old :: rs) new = new :: revise rs new :=
        congrArg (· :: revise rs new) (if_pos hname.symm)
      rw [hhead, htail, List.filter_cons_of_neg (by simpa using hname.symm), hkeep]
    · have hne : r.name ≠ new.name := fun h => hother old hmem (hname.symm.trans h.symm)
      have hhead : revise (r :: rs) new = r :: revise rs new :=
        congrArg (· :: revise rs new) (if_neg hne)
      rw [hhead, List.filter_cons_of_pos (by simpa using hne)]
      exact ((ih hrs hmem).cons r).trans (List.Perm.swap ..)

/-- A record with another state, which may only be `failed`. -/
structure Restated (old new : Resource) : Prop where
  fields : new = { old with
    state := new.state, updatedAt := new.updatedAt, revision := new.revision }
  state : new.state = old.state ∨ new.state = .failed

theorem Restated.refl (r : Resource) : Restated r r := ⟨rfl, .inl rfl⟩

theorem Expired.restated {new : Resource} (h : Expired old new) : Restated old new :=
  ⟨by rw [h.state]; exact h.fields, .inr h.state⟩

theorem map_restate {α : Type} {f : Resource → α} {g : Resource → Resource}
    (hf : ∀ r ∈ rs, f (g r) = f r) : (rs.map g).map f = rs.map f := by
  rw [List.map_map]
  exact List.map_congr_left hf

theorem flatMap_restate {α : Type} {f : Resource → List α} {g : Resource → Resource}
    (hf : ∀ r ∈ rs, f (g r) = f r) : (rs.map g).flatMap f = rs.flatMap f := by
  rw [List.flatMap_map]
  exact List.flatMap_congr hf

theorem checkSnapshot_restate {source source' r' : Resource} {s : Snapshot} {st : StagingSnapshot}
    (hsource : Restated source source') (hr : Restated r r')
    (h : checkSnapshot source r s st = .ok ()) : checkSnapshot source' r' s st = .ok () := by
  have hsame : checkSnapshot source' r' s st = checkSnapshot source r' s st := by
    rw [hsource.fields]
    rfl
  rw [hsame]
  rcases hr.state with hstate | hstate
  · unfold checkSnapshot at h ⊢
    rw [hstate]
    exact h
  · simp only [checkSnapshot, check_eq_ok] at h ⊢
    obtain ⟨h1, h2, h3, h4, hlast⟩ := h
    refine ⟨h1, h2, h3, h4, ?_⟩
    by_cases hverified : st.verified
    · rw [if_pos hverified] at hlast ⊢
      exact hlast
    · rw [if_neg hverified, hstate]
      rfl

theorem Compatible.restate {a b a' b' : Resource} (h : Compatible a b) (ha : Restated a a')
    (hb : Restated b b') : Compatible a' b' := by
  rw [ha.fields, hb.fields]
  exact h

theorem Consistent.restate {rs : List Resource} {g : Resource → Resource} (h : Consistent rs)
    (hg : ∀ r ∈ rs, Restated r (g r)) : Consistent (rs.map g) where
  names := by rw [map_restate fun r hr => by rw [(hg r hr).fields]]; exact h.names
  vmids := by rw [map_restate fun r hr => by rw [(hg r hr).fields]]; exact h.vmids
  ips := by rw [map_restate fun r hr => by rw [(hg r hr).fields]]; exact h.ips
  macs := by rw [map_restate fun r hr => by rw [(hg r hr).fields]]; exact h.macs
  allocationIds := by
    rw [flatMap_restate fun r hr => by rw [(hg r hr).fields]]; exact h.allocationIds
  purposes := by
    rw [flatMap_restate fun r hr => by rw [(hg r hr).fields]; rfl]; exact h.purposes
  domains := by rw [flatMap_restate fun r hr => by rw [(hg r hr).fields]]; exact h.domains
  routes := by rw [flatMap_restate fun r hr => by rw [(hg r hr).fields]]; exact h.routes
  sourced := by
    intro r' hr' hkind
    obtain ⟨r, hr, rfl⟩ := List.mem_map.mp hr'
    have hfields := (hg r hr).fields
    obtain ⟨source, hmem, hname, hproduction, hsnapshot⟩ :=
      h.sourced r hr (by rw [hfields] at hkind; exact hkind)
    have hsource := hg source hmem
    refine ⟨g source, List.mem_map_of_mem hmem, ?_, ?_, fun s hs => ?_⟩
    · rw [hsource.fields, hfields]
      exact hname
    · rw [hsource.fields]
      exact hproduction
    · obtain ⟨st, hst, hcheck⟩ := hsnapshot s (by rw [hfields] at hs; exact hs)
      exact ⟨st, hst, checkSnapshot_restate hsource (hg r hr) hcheck⟩
  shared := List.pairwise_map.mpr <|
    h.shared.imp_of_mem fun ha hb hab => hab.restate (hg _ ha) (hg _ hb)

/-! ## A valid registry -/

structure Sound (py : Python) (policy : Policy) (reg : Registry) : Prop where
  configured : reg.policy = .ok policy
  sorted : Table.Sorted reg.resourceFiles
  valid : ∀ e ∈ reg.resourceFiles, validateResource py e.2 policy = .ok () ∧ e.1 = e.2.name
  consistent : Consistent reg.resourceFiles.values
  hosts : Table.Sorted reg.hostFiles
  /-- The control node's slot is a member's. -/
  control : ∀ c, reg.controlFile = some c →
    ∃ slot, reg.hostFiles.get? c.controlNode = some slot ∧ slot.state = .member

/-- Operations on files that neither `Sound` nor an install speaks of. -/
def Op.isSide : Op → Bool
  | .writePolicy _ | .writeResource _ | .removeResource _ | .writeHost _ | .removeHost _
  | .writeControl _ | .writeOrchestration _ _ | .removeOrchestration _ => false
  | _ => true

namespace Sound

variable {rs : List Resource} {r : Resource} {op : Op} {ops : List Op}

theorem resources (h : Sound py policy reg) :
    reg.resources py = .ok (reg.resourceFiles.values.insertionSort sortsBefore) :=
  resources_eq_ok.mpr ⟨policy, h.configured, h.valid, h.consistent, rfl⟩

theorem mem_iff (h : Sound py policy reg) (hrs : reg.resources py = .ok rs) :
    r ∈ rs ↔ reg.resourceFiles.get? r.name = some r := by
  rw [mem_resources hrs, Table.get?_eq_some_iff h.sorted]

theorem perm (h : Sound py policy reg) (hrs : reg.resources py = .ok rs) :
    rs.Perm reg.resourceFiles.values := by
  obtain rfl := Except.ok.inj (h.resources.symm.trans hrs)
  exact List.perm_insertionSort _ _

theorem policy_unique (h : Sound py policy reg) {policy' : Policy} (h' : reg.policy = .ok policy') :
    policy' = policy := Except.ok.inj (h'.symm.trans h.configured)

theorem side (h : Sound py policy reg) (hop : op.isSide) : Sound py policy (reg.apply op) := by
  cases op with
  | writePolicy | writeResource | removeResource | writeHost | removeHost | writeControl
  | writeOrchestration | removeOrchestration => cases hop
  | _ => exact ⟨h.configured, h.sorted, h.valid, h.consistent, h.hosts, h.control⟩

theorem writeOrchestration (h : Sound py policy reg) (name : GuestName) (record : Orchestration) :
    Sound py policy (reg.apply (.writeOrchestration name record)) :=
  ⟨h.configured, h.sorted, h.valid, h.consistent, h.hosts, h.control⟩

theorem removeOrchestration (h : Sound py policy reg) (name : GuestName) :
    Sound py policy (reg.apply (.removeOrchestration name)) :=
  ⟨h.configured, h.sorted, h.valid, h.consistent, h.hosts, h.control⟩

theorem through_side (h : Sound py policy reg) (hops : ∀ op ∈ ops, op.isSide) :
    Through apply (Sound py policy) reg ops :=
  .of_step h fun op hop _ hs => hs.side (hops op hop)

theorem append_side {ops' : List Op} (h : Through apply (Sound py policy) reg ops)
    (hops : ∀ op ∈ ops', op.isSide) : Through apply (Sound py policy) reg (ops ++ ops') :=
  h.append (h.finish.through_side hops)

/-- The records but one. -/
theorem erase_perm (h : Sound py policy reg) (hrs : reg.resources py = .ok rs) (name : GuestName) :
    (reg.resourceFiles.erase name).values.Perm (rs.filter (·.name ≠ name)) := by
  have hvalues : (reg.resourceFiles.erase name).values =
      reg.resourceFiles.values.filter (·.name ≠ name) := by
    rw [Table.values, Table.values, Table.erase, List.filter_map]
    refine congrArg _ (List.filter_congr fun e he => ?_)
    rw [Function.comp_apply, (h.valid e he).2]
    congr
  rw [hvalues]
  exact ((h.perm hrs).filter _).symm

theorem write (h : Sound py policy reg) (hrs : reg.resources py = .ok rs)
    (hvalid : validateResource py r policy = .ok ())
    (hset : Consistent (r :: rs.filter (·.name ≠ r.name))) :
    Sound py policy (reg.apply (.writeResource r)) where
  configured := h.configured
  sorted := Table.Sorted.insert h.sorted _ _
  valid := fun e he => by
    rcases Table.mem_insert he with rfl | he
    · exact ⟨hvalid, rfl⟩
    · exact h.valid e he
  consistent := by
    have hperm : (reg.resourceFiles.insert r.name r).values.Perm
        (r :: rs.filter (·.name ≠ r.name)) :=
      ((Table.insert_perm h.sorted r.name r).map Prod.snd).trans ((h.erase_perm hrs r.name).cons r)
    exact hset.perm hperm.symm
  hosts := h.hosts
  control := h.control

theorem register (h : Sound py policy reg) (hrs : reg.resources py = .ok rs)
    (hnew : Registers py policy rs r) : Sound py policy (reg.apply (.writeResource r)) := by
  refine h.write hrs hnew.valid ?_
  have hnames := hnew.consistent.names
  rw [List.map_append, List.nodup_append] at hnames
  have hkeep : rs.filter (·.name ≠ r.name) = rs := List.filter_eq_self.mpr fun s hs => by
    simpa using hnames.2.2 s.name (List.mem_map_of_mem hs) r.name (by simp)
  rw [hkeep]
  exact hnew.consistent.perm (List.perm_append_singleton r rs)

theorem save (h : Sound py policy reg) (hrs : reg.resources py = .ok rs) {old : Resource}
    (hnew : Saves py policy rs old r) : Sound py policy (reg.apply (.writeResource r)) := by
  refine h.write hrs hnew.valid (hnew.consistent.perm ?_)
  exact revise_perm (consistent_resources hrs).names hnew.mem hnew.guest.name

theorem fail (h : Sound py policy reg) (hold : reg.resourceFiles.get? old.name = some old)
    (hexpired : Expired old r) (hvalid : validateResource py r policy = .ok ()) :
    Sound py policy (reg.apply (.writeResource r)) := by
  have hrs := h.resources
  refine h.write hrs hvalid ((Consistent.restate (consistent_resources hrs) (g := fun s =>
    if s.name = r.name then r else s) fun s hs => ?_).perm
      (revise_perm (consistent_resources hrs).names ((h.mem_iff hrs).mpr hold)
        hexpired.guest.name))
  split
  · rename_i hname
    have hs' := (h.mem_iff hrs).mp hs
    rw [hname, hexpired.guest.name, hold] at hs'
    exact Option.some.inj hs' ▸ hexpired.restated
  · exact .refl s

theorem remove (h : Sound py policy reg) {name : GuestName}
    (hfree : ∀ e ∈ reg.resourceFiles, e.2.kind = .staging → e.2.source ≠ some name) :
    Sound py policy (reg.apply (.removeResource name)) where
  configured := h.configured
  sorted := Table.Sorted.erase h.sorted _
  valid := fun e he => h.valid e (Table.mem_erase he)
  consistent := by
    have hrs := h.resources
    refine Consistent.perm ?_ (h.erase_perm hrs name).symm
    refine (consistent_resources hrs).sublist List.filter_sublist fun d hd hkind source hs hname => ?_
    refine List.mem_filter.mpr ⟨hs, ?_⟩
    have hne := hfree _ ((mem_resources hrs).mp (List.mem_filter.mp hd).1) hkind
    rw [← hname] at hne
    simpa using hne
  hosts := h.hosts
  control := h.control

theorem writeHost (h : Sound py policy reg) {slot : HostRecord}
    (hslot : ∀ c, reg.controlFile = some c → c.controlNode = slot.node → slot.state = .member) :
    Sound py policy (reg.apply (.writeHost slot)) where
  configured := h.configured
  sorted := h.sorted
  valid := h.valid
  consistent := h.consistent
  hosts := Table.Sorted.insert h.hosts _ _
  control := fun c hc => by
    simp only [Registry.apply, Table.get?_insert]
    split
    · rename_i hnode
      exact ⟨slot, rfl, hslot c hc hnode⟩
    · exact h.control c hc

theorem removeHost (h : Sound py policy reg) {node : HostSlot}
    (hnode : ∀ c, reg.controlFile = some c → c.controlNode ≠ node) :
    Sound py policy (reg.apply (.removeHost node)) where
  configured := h.configured
  sorted := h.sorted
  valid := h.valid
  consistent := h.consistent
  hosts := Table.Sorted.erase h.hosts _
  control := fun c hc => by
    simp only [Registry.apply, Table.get?_erase, if_neg (hnode c hc)]
    exact h.control c hc

theorem writeControl (h : Sound py policy reg) {c : Control} {slot : HostRecord}
    (hslot : (c.controlNode, slot) ∈ reg.hostFiles) (hmember : slot.state = .member) :
    Sound py policy (reg.apply (.writeControl c)) where
  configured := h.configured
  sorted := h.sorted
  valid := h.valid
  consistent := h.consistent
  hosts := h.hosts
  control := fun c' hc => by
    obtain rfl := Option.some.inj hc
    exact ⟨slot, Table.get?_of_mem h.hosts hslot, hmember⟩

end Sound

/-! ## Lists of operations -/

/-- What side operations leave as it is. -/
structure SameGuests (reg reg' : Registry) : Prop where
  resources : reg'.resourceFiles = reg.resourceFiles
  installs : reg'.orchestrationFiles = reg.orchestrationFiles
  control : reg'.controlFile = reg.controlFile

theorem apply_side {op : Op} (hop : op.isSide) : SameGuests reg (reg.apply op) := by
  cases op with
  | writeResource | removeResource | writeControl | writeOrchestration | removeOrchestration =>
    cases hop
  | _ => exact ⟨rfl, rfl, rfl⟩

theorem foldl_side {ops : List Op} (hops : ∀ op ∈ ops, op.isSide) :
    SameGuests reg (ops.foldl apply reg) := by
  induction ops generalizing reg with
  | nil => exact ⟨rfl, rfl, rfl⟩
  | cons op ops ih =>
    have hop := @apply_side reg op (hops op (by simp))
    have hrest : SameGuests (reg.apply op) (ops.foldl apply (reg.apply op)) :=
      ih fun op hop => hops op (List.mem_cons_of_mem _ hop)
    exact ⟨hrest.resources.trans hop.resources, hrest.installs.trans hop.installs,
      hrest.control.trans hop.control⟩

theorem pruneHistory_side (keep : Nat) : ∀ op ∈ reg.pruneHistory keep, op.isSide := by
  intro op hop
  obtain ⟨e, -, rfl⟩ := List.mem_map.mp hop
  rfl

theorem pruneCompletedCleanup_side {active : List Uuid} {removed : List Op}
    (h : reg.pruneCompletedCleanup active = .ok removed) : ∀ op ∈ removed, op.isSide := by
  intro op hop
  obtain ⟨c, rfl, -⟩ := pruneCompletedCleanup_eq_ok h hop
  rfl

theorem Defers.side {digests : Digests} {identity : CleanupIdentity}
    {out : Outcome (Except String Deferral)} (h : Defers digests reg rs identity out) :
    ∀ op ∈ out.ops, op.isSide := by
  cases h with
  | found => exact fun op hop => absurd hop List.not_mem_nil
  | full hprune => exact pruneCompletedCleanup_side hprune
  | made hnew hprune =>
    intro op hop
    rcases List.mem_append.mp hop with hop | hop
    · exact pruneCompletedCleanup_side hprune op hop
    · obtain rfl := List.mem_singleton.mp hop
      rfl

theorem Op.side_of_isIngress {op : Op} (h : op.isIngress) : op.isSide := by
  cases op <;> first | rfl | cases h

namespace Sound

variable {rs : List Resource} {r : Resource} {ops : List Op}

theorem removed (h : Sound py policy reg) {file : String} {history : History} {name : GuestName}
    (hfree : ∀ e ∈ reg.resourceFiles, e.2.kind = .staging → e.2.source ≠ some name) :
    Through apply (Sound py policy) reg [.writeHistory file history, .removeResource name] :=
  have hwritten : Sound py policy (reg.apply (.writeHistory file history)) := h.side rfl
  through_cons.mpr ⟨h, .single hwritten (hwritten.remove hfree)⟩

theorem removedHost (h : Sound py policy reg) {file : String} {history : History} {node : HostSlot}
    (hother : ∀ c, reg.controlFile = some c → c.controlNode ≠ node) :
    Through apply (Sound py policy) reg [.writeHistory file history, .removeHost node] :=
  have hwritten : Sound py policy (reg.apply (.writeHistory file history)) := h.side rfl
  through_cons.mpr ⟨h, .single hwritten (hwritten.removeHost hother)⟩

theorem archive (h : Sound py policy reg) (hrs : reg.resources py = .ok rs)
    (hfree : ∀ d ∈ rs, d.kind = .staging → d.source ≠ some r.name) (forced : Bool) (clock : Int)
    (entropy : Uuid) : Through apply (Sound py policy) reg (archiveOps reg r forced clock entropy) := by
  have hside := @pruneHistory_side reg (maxHistoryRecords - 1)
  have hprune := h.through_side hside
  refine hprune.append (hprune.finish.removed fun e he => ?_)
  rw [(foldl_side hside).resources] at he
  refine hfree e.2 ((mem_resources hrs).mpr ?_)
  rw [← (h.valid e he).2]
  exact he

theorem writeHosts (h : Sound py policy reg) {records : List HostRecord}
    (hmember : ∀ r ∈ records, r.state = .member) :
    Through apply (Sound py policy) reg (records.map .writeHost) :=
  .of_step h fun op hop _ hs => by
    obtain ⟨r, hr, rfl⟩ := List.mem_map.mp hop
    exact hs.writeHost fun _ _ _ => hmember r hr

theorem failAll (h : Sound py policy reg) {written : List Resource}
    (hn : (written.map (·.name)).Nodup)
    (hall : ∀ r ∈ written, ∃ old, reg.resourceFiles.get? old.name = some old ∧ Expired old r ∧
      validateResource py r policy = .ok ()) :
    Through apply (Sound py policy) reg (written.map .writeResource) := by
  induction written generalizing reg with
  | nil => exact through_nil.mpr h
  | cons r written ih =>
    obtain ⟨hr, hn⟩ := List.nodup_cons.mp hn
    obtain ⟨old, hold, hexpired, hvalid⟩ := hall r (by simp)
    refine through_cons.mpr ⟨h, ih (h.fail hold hexpired hvalid) hn fun s hs => ?_⟩
    obtain ⟨old', hold', hexpired', hvalid'⟩ := hall s (List.mem_cons_of_mem _ hs)
    refine ⟨old', ?_, hexpired', hvalid'⟩
    have hne : old'.name ≠ r.name := fun heq =>
      hr (List.mem_map.mpr ⟨s, hs, hexpired'.guest.name.trans heq⟩)
    simp only [Registry.apply, Table.get?_insert, if_neg hne]
    exact hold'

end Sound

/-- A staging guest is no guest's source. -/
theorem staging_free (hset : Consistent rs) (hr : r ∈ rs)
    (hkind : r.kind = .staging) : ∀ d ∈ rs, d.kind = .staging → d.source ≠ some r.name := by
  intro d hd hdkind hsource
  obtain ⟨source, hmem, hname, hproduction, -⟩ := hset.sourced d hd hdkind
  rw [hsource, Option.some.injEq] at hname
  obtain rfl := List.inj_on_of_nodup_map hset.names hmem hr hname
  rw [hkind] at hproduction
  cases hproduction

end Bmac.Registry
