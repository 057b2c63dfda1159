import Bmac.Bmacd.Upkeep

/-!
# The world of upkeep

What the calls of upkeep passes do to one VM's catalog and to the copies of its PITs, and what else
happens to them: appliances check in and claim with the clock that their request read before it had
the lock, PITs are captured, replication carries a host's snapshots over, and the VM moves. The
settings stay, and the clock doesn't go back.
-/

namespace Bmac.Bmacd.Upkeep

open Bmac.Base Bmac.Core Bmac.Backup Bmac.Bmacd

/-- One VM's side of the cluster, with passes `ι` over it. -/
structure World (ι : Type) where
  clock : Int
  pits : List PitRecord
  disks : HostSlot → Copy → Option SnapshotGuid
  production : Option Production
  members : List HostSlot
  /-- The name and manifest of every PIT ever captured. -/
  known : Uuid → Option (PitName × String)
  /-- The PIT whose offers the pass has read again, until it found one that holds or noted what
  became of the release. -/
  releasing : ι → Option Uuid

section

variable {ι : Type}

def World.placed (s : World ι) : List HostSlot :=
  match s.production with
  | some production => production.placement.filter (· ∈ s.members)
  | none => []

def World.setCopy (s : World ι) (host : HostSlot) (copy : Copy) (guid : Option SnapshotGuid) :
    World ι :=
  { s with disks := fun h c => if h = host ∧ c = copy then guid else s.disks h c }

/-- `gone`'s children descend from its parent; `saved` are those whose write went through. -/
def reparent (gone : PitRecord) (saved : Uuid → Bool) (pits : List PitRecord) : List PitRecord :=
  pits.map fun child =>
    if child.parent = some gone.pitUuid ∧ saved child.pitUuid then
      { child with parent := gone.parent, revision := child.revision + 1 }
    else child

def dropPit (gone : PitRecord) (pits : List PitRecord) : List PitRecord :=
  pits.filter (·.pitUuid ≠ gone.pitUuid)

variable [DecidableEq ι]

def World.releases (s : World ι) (p : ι) (id : Option Uuid) : World ι :=
  { s with releasing := Function.update s.releasing p id }

/-- A call of the pass `p` and its answer. A call that fails may have taken effect. -/
def Exec (settings : BackupSettings) (p : ι) (s : World ι) :
    (c : Call) → Reply c → World ι → Prop
  | .byUuid, r, s' => s' = s ∧ ∀ found, r = Except.ok found → found = s.production
  | .liveGuest _, _, s' => s' = s
  | .leased _, _, s' => s' = s
  -- a record that can't be read is left out
  | .readPits, r, s' => s' = s ∧ ∀ pits, r = Except.ok pits → pits ⊆ s.pits
  | .readSettings, r, s' => s' = s ∧ ∀ found, r = Except.ok found → found = settings
  | .readInputs _, _, s' => s' = s
  | .readClock, r, s' => s' = s ∧ r = s.clock
  | .readPit id, r, s' =>
    (∃ e, r = Except.error e) ∧ s' = s.releases p none ∨
    r = Except.ok (s.pits.find? (·.pitUuid = id)) ∧
      s' = s.releases p ((s.pits.find? (·.pitUuid = id)).map (·.pitUuid))
  | .holds settings _ offer, r, s' =>
    r = offer.holds s.clock settings ∧
      s' = if offer.holds s.clock settings then s.releases p none else s
  | .members, r, s' => s' = s ∧ ∀ members, r = Except.ok members → members = s.members
  | .guids host names, r, s' =>
    s' = s ∧ ∀ found, r = Except.ok found → ∀ copy ∈ names, found copy = s.disks host copy
  | .bookmark host snapshot bookmark, r, s' =>
    (∃ e, r = Except.error e) ∧ s' = s ∨
    ∃ guid, s.disks host snapshot = some guid ∧ s.disks host bookmark = none ∧
      s' = s.setCopy host bookmark (some guid)
  | .destroy _ _ host copy, r, s' =>
    (∃ e, r = Except.error e) ∧ s' = s ∨ s' = s.setCopy host copy none
  -- a record is saved over the revision it was read with
  | .savePit pit, r, s' =>
    (∃ e, r = Except.error e) ∧ s' = s ∨
    ∃ stored, s.pits.find? (·.pitUuid = pit.pitUuid) = some stored ∧
      stored.revision = pit.revision ∧ s' = { s with pits := storePit s.pits pit }
  | .deletePit id, r, s' =>
    (∃ e, r = Except.error e) ∧ s' = s ∨
    (∃ e, r = Except.error e) ∧ (∃ gone saved, s.pits.find? (·.pitUuid = id) = some gone ∧
      s' = { s with pits := reparent gone saved s.pits }) ∨
    (s.pits.find? (·.pitUuid = id) = none ∧ s' = s) ∨
    ∃ gone, s.pits.find? (·.pitUuid = id) = some gone ∧
      s' = { s with pits := dropPit gone (reparent gone (fun _ => true) s.pits) }
  | .note _, _, s' => s' = s.releases p none

end

/-- What happens between two calls. `saved` tells which of a handler's writes went through. -/
inductive Event where
  | tick (nowS : Int)
  | capture (pit : PitRecord)
  | checkin (appliance : Uuid) (request : CheckinRequest) (saved : Uuid → Bool) (readS : Int)
  | claim (appliance id : Uuid) (saved : Bool) (readS : Int)
  | snapshot (host : HostSlot) (dataset name : String) (guid : SnapshotGuid)
  | replicate (src dst : HostSlot) (dataset name : String)
  | place (production : Option Production) (members : List HostSlot)

def checkedIn (vm appliance : Uuid) (request : CheckinRequest) (saved : Uuid → Bool) (readS : Int)
    (pits : List PitRecord) : List PitRecord :=
  let (new, changed) := checkinPits vm appliance request readS pits
  storeChanged pits new fun id => saved id && id ∈ changed

inductive Env {ι : Type} (vm : Uuid) (settings : BackupSettings) :
    World ι → Event → World ι → Prop where
  | tick {s : World ι} {nowS : Int} : s.clock ≤ nowS →
      Env vm settings s (.tick nowS) { s with clock := nowS }
  | capture {s : World ι} {pit : PitRecord} : s.known pit.pitUuid = none →
      (∀ entry ∈ pit.offers, ∃ offeredS, entry.2 = .open_ offeredS) →
      Env vm settings s (.capture pit) { s with
        pits := s.pits ++ [pit]
        known := Function.update s.known pit.pitUuid (some (pit.name, pit.manifest)) }
  | checkin {s : World ι} {appliance : Uuid} {request : CheckinRequest} {saved : Uuid → Bool}
      {readS : Int} : readS ≤ s.clock →
      Env vm settings s (.checkin appliance request saved readS)
        { s with pits := checkedIn vm appliance request saved readS s.pits }
  | claim {s : World ι} {appliance id : Uuid} {saved : Bool} {readS : Int} {pit new : PitRecord} :
      readS ≤ s.clock → s.pits.find? (·.pitUuid = id) = some pit →
      claim pit appliance readS settings = .ok (some new) →
      Env vm settings s (.claim appliance id saved readS)
        { s with pits := if saved then storePit s.pits new else s.pits }
  | snapshot {s : World ι} {host : HostSlot} {dataset name : String} {guid : SnapshotGuid} :
      s.disks host (.snapshot dataset name) = none →
      Env vm settings s (.snapshot host dataset name guid)
        (s.setCopy host (.snapshot dataset name) (some guid))
  -- a replica's snapshot comes and goes with the source's
  | replicate {s : World ι} {src dst : HostSlot} {dataset name : String} :
      src ∈ s.placed →
      Env vm settings s (.replicate src dst dataset name)
        (s.setCopy dst (.snapshot dataset name) (s.disks src (.snapshot dataset name)))
  | place {s : World ι} {production : Option Production} {members : List HostSlot} :
      Env vm settings s (.place production members)
        { s with production := production, members := members }

/-- Passes start and end as they like, each on its host. -/
def Starts {ι : Type} [DecidableEq ι] (codec : Codec) (p : ι) (s : World ι) (new : Program Unit)
    (s' : World ι) : Prop :=
  (∃ host, new = upkeepVm codec host) ∧ s' = s.releases p none

/-! ## What a PIT's record can become -/

/-- `new` is `old`, or is stored later in its place. -/
structure Replaces (old new : PitRecord) : Prop where
  pitUuid : new.pitUuid = old.pitUuid
  name : new.name = old.name
  manifest : new.manifest = old.manifest
  revision : old.revision ≤ new.revision
  offers : new.revision = old.revision → new.offers = old.offers

theorem Replaces.refl (pit : PitRecord) : Replaces pit pit := ⟨rfl, rfl, rfl, le_rfl, fun _ => rfl⟩

theorem Replaces.trans {a b c : PitRecord} (h : Replaces a b) (h' : Replaces b c) :
    Replaces a c where
  pitUuid := h'.pitUuid.trans h.pitUuid
  name := h'.name.trans h.name
  manifest := h'.manifest.trans h.manifest
  revision := h.revision.trans h'.revision
  offers := by
    intro heq
    have hle := h.revision
    have hle' := h'.revision
    rw [h'.offers (by omega), h.offers (by omega)]

/-- A check-in changes a PIT's offers and nothing else of it. -/
def Reoffered (old new : PitRecord) : Prop := new = { old with offers := new.offers }

theorem settle_reoffered {pit : PitRecord} {appliance : Uuid} {request : CheckinRequest}
    {head : Option ReportedHead} {nowS : Int} :
    Reoffered pit (settle pit appliance request head nowS).1 := by
  unfold settle
  split
  · rfl
  · split
    · rfl
    · split
      · rfl
      · split
        · rfl
        · split <;> rfl

theorem claim_reoffered {pit new : PitRecord} {appliance : Uuid} {nowS : Int}
    {settings : BackupSettings} (h : claim pit appliance nowS settings = .ok (some new)) :
    Reoffered pit new := by
  unfold claim at h
  split at h
  · cases h
  · split at h
    · split at h
      · obtain rfl := Option.some.inj (Except.ok.inj h)
        rfl
      · cases h
    · cases h
  · cases h

theorem checkinPits_reoffered {vm appliance : Uuid} {request : CheckinRequest} {nowS : Int}
    {pits : List PitRecord} : ∃ f : PitRecord → PitRecord,
      (checkinPits vm appliance request nowS pits).1 = pits.map f ∧ ∀ pit, Reoffered pit (f pit) := by
  unfold checkinPits
  cases reportedHead request vm with
  | none =>
    exact ⟨fun pit => (settle pit appliance request none nowS).1,
      by simp [List.map_map, Function.comp_def], fun pit => settle_reoffered⟩
  | some head =>
    dsimp only
    unfold superseded
    split
    · exact ⟨fun pit => (settle pit appliance request (some head) nowS).1,
        by simp [List.map_map, Function.comp_def], fun pit => settle_reoffered⟩
    · rename_i newest hnewest
      refine ⟨fun pit =>
        let settled := (settle pit appliance request (some head) nowS).1
        if settled.branchUuid = head.branchUuid && settled.takenS < newest.takenS &&
            (settled.offers.get? appliance).any (·.pending) then
          { settled with offers := settled.offers.erase appliance }
        else settled, by simp [List.map_map, Function.comp_def], fun pit => ?_⟩
      have hset : Reoffered pit (settle pit appliance request (some head) nowS).1 := settle_reoffered
      dsimp only
      split
      · rw [Reoffered, hset]
      · exact hset

/-- What a check-in leaves of a PIT: its record as it was, or one with a new revision. -/
theorem mem_checkedIn {vm appliance : Uuid} {request : CheckinRequest} {saved : Uuid → Bool}
    {readS : Int} {pits : List PitRecord} : ∃ f : PitRecord → PitRecord,
      checkedIn vm appliance request saved readS pits = pits.map f ∧
        ∀ pit, f pit = pit ∨
          ∃ offers, f pit = { pit with offers := offers, revision := pit.revision + 1 } := by
  obtain ⟨f, hf, hre⟩ := @checkinPits_reoffered vm appliance request readS pits
  let stores (id : Uuid) : Bool :=
    saved id && id ∈ (checkinPits vm appliance request readS pits).2
  refine ⟨fun pit => if stores pit.pitUuid then { f pit with revision := pit.revision + 1 } else pit,
    ?_, fun pit => ?_⟩
  · rw [← storeChanged_eq_map, ← hf]
    rfl
  · dsimp only
    split
    · refine .inr ⟨(f pit).offers, ?_⟩
      have h : f pit = { pit with offers := (f pit).offers } := hre pit
      rw [h]
    · exact .inl rfl

end Bmac.Bmacd.Upkeep
