import Bmac.Backup.SealedOpens
import Bmac.Bmacd.Capture

/-!
# What a capture leaves

A capture that reports success has its PIT in the catalog and the snapshots on every placement
host. One that reports a failure may leave the PIT's record behind: the record is the first of
several writes, and the cleanup destroys the snapshots whichever of them failed
(`capture_clean_iff`).
-/

namespace Bmac.Bmacd.Capture

open Bmac.Base Bmac.Core Bmac.Backup Bmac.Pmxcfs

/-- The record's manifest lists a volume with this snapshot. -/
def Names (codec : Codec) (pit : PitRecord) (snapshot : String) (guid : SnapshotGuid) : Prop :=
  ∃ m, codec.parse pit.manifest = .ok m ∧
    ∃ v ∈ m.volumes, snapshot = s!"{v.dataset}@{m.snapshot.text}" ∧ guid = v.snapshotGuid

/-- A placement host in the cluster, or the owner. -/
def Holder (cx : Context) (calls : Calls) (production : Production) (host : HostSlot) : Prop :=
  host = cx.thisHost ∨
    ∃ members, calls.members = .ok members ∧ host ∈ members ∧ host ∈ production.placement

/-- After a success the catalog has the PIT, and its snapshots are everywhere with the manifest's
GUIDs; after a failure it names no snapshot that the cleanup destroyed. -/
def Clean (cx : Context) (calls : Calls) (production : Production) :
    EStateM.Result Stop State Uuid → Prop
  | .ok pitUuid s => ∃ pit ∈ s.pits, pit.pitUuid = pitUuid ∧
      (∃ m, cx.codec.parse pit.manifest = .ok m) ∧
      ∀ snapshot guid, Names cx.codec pit snapshot guid →
        ∀ host, Holder cx calls production host → s.snapshots host snapshot = some guid
  | .error _ s => ∀ pit ∈ s.pits, ∀ snapshot guid,
      Names cx.codec pit snapshot guid → snapshot ∉ s.destroyed

/-- All that comes before the record went well. -/
structure Prepared (cx : Context) (calls : Calls) (production : Production) (policy : Policy)
    (s : State) (input : FinishInput) (captured : Captured) (left : State) : Prop where
  lease : calls.lease = .ok ()
  prepared : ∃ s1, takeSnapshots cx calls production policy s = .ok input s1 ∧
    recheck cx calls production input s1 = .ok captured left

/-- The PIT's record gets into the catalog. -/
def StoresPit (calls : Calls) (s : State) : Prop :=
  calls.lock = none ∧ calls.unreadLineage = none ∧ (∀ pit ∈ s.pits, pit.pitUuid ≠ calls.pitUuid) ∧
    calls.savePit.happens = true

/-- The record's write says it failed, or one of the steps after it fails. -/
def FailsAfterPit (calls : Calls) (s : State) : Prop :=
  calls.savePit ≠ .none ∨ calls.saveLineage ≠ .none ∨ calls.unreadPolicy ≠ none ∨
    (∃ policy, s.policy = some policy ∧ policy.startedS = none ∧ calls.savePolicy ≠ .none) ∨
    calls.unlock ≠ none

/-- The capture stores the PIT's record, fails later on, and its cleanup then destroys a snapshot of
the PIT. -/
def Slips (cx : Context) (calls : Calls) (production : Production) (policy : Policy) (s : State) :
    Prop :=
  ∃ input captured left, Prepared cx calls production policy s input captured left ∧
    StoresPit calls s ∧ FailsAfterPit calls s ∧
    ∃ disk ∈ input.disks, calls.destroys (snapshotName calls.name disk) = true

/-! ## What stays -/

/-- The records and the cleanup's log are as they were. -/
structure Keeps (s s' : State) : Prop where
  pits : s'.pits = s.pits
  lineage : s'.lineage = s.lineage
  policy : s'.policy = s.policy
  destroyed : s'.destroyed = s.destroyed

theorem Keeps.refl (s : State) : Keeps s s := ⟨rfl, rfl, rfl, rfl⟩

theorem Keeps.trans {s s' s'' : State} (h : Keeps s s') (h' : Keeps s' s'') : Keeps s s'' :=
  ⟨h'.pits.trans h.pits, h'.lineage.trans h.lineage, h'.policy.trans h.policy,
    h'.destroyed.trans h.destroyed⟩

section Steps

variable {α : Type} {Q : α → State → Prop} {E : Stop → State → Prop} {s : State}

theorem wp_ask {answer : Except String α} :
    wp (ask answer) Q E s ↔
      (∀ a, answer = .ok a → Q a s) ∧ ∀ e, answer = .error e → E (.failed e) s := by
  unfold ask
  cases answer <;> simp [Except.mapError, ofExcept]

theorem wp_readable {Q : Unit → State → Prop} {unread : Option String} :
    wp (readable unread) Q E s ↔ (unread = none → Q () s) ∧ ∀ e, unread = some e → E (.failed e) s := by
  unfold readable
  cases unread <;> simp

theorem wp_called {Q : PUnit → State → Prop} {call : GuestCall} :
    wp (called call) Q E s ↔ Q ⟨⟩ (s.called call) := by
  simp [called]

theorem keeps_called (s : State) (call : GuestCall) : Keeps s (s.called call) := ⟨rfl, rfl, rfl, rfl⟩

theorem keeps_arrive (s : State) (host : HostSlot) (new : List (String × SnapshotGuid)) :
    Keeps s (s.arrive host new) := ⟨rfl, rfl, rfl, rfl⟩

end Steps

variable {s : State} {calls : Calls} {policy : Policy} {cx : Context} {production : Production}
  {guids : Dict SnapshotGuid} {host : HostSlot} {input : FinishInput} {captured : Captured}

theorem wp_freezeGuest {running : Bool} :
    wp (freezeGuest calls policy running) (fun _ s' => Keeps s s') (fun _ s' => Keeps s s') s := by
  unfold freezeGuest
  split
  · simp only [wp_bind, wp_called, wp_ask]
    refine ⟨fun unit _ => ?_, fun _ _ => keeps_called s _⟩
    cases calls.freeze with
    | ok answer => exact (keeps_called _ _).trans (keeps_called _ _)
    | error e =>
      have hkeeps : Keeps s ((((s.called (.armThaw calls.armThaw)).called (.freeze (.error e))).called
          (.thaw calls.thawUnfrozen)).called (.disarmThaw unit calls.disarmUnfrozen)) :=
        ⟨rfl, rfl, rfl, rfl⟩
      simp only [wp_bind, wp_called]
      split
      · exact hkeeps
      · exact hkeeps
  · exact .refl s

theorem wp_thawGuest {consistency : Consistency} {timer : Option String} {E : Stop → State → Prop} :
    wp (thawGuest calls consistency timer) (fun _ s' => Keeps s s') E s := by
  have hthawed : Keeps s (s.called (.thaw calls.thaw)) := keeps_called s _
  unfold thawGuest
  cases timer with
  | none =>
    dsimp only
    split
    · exact hthawed
    · exact .refl s
  | some unit =>
    dsimp only
    split
    · exact hthawed.trans (keeps_called _ _)
    · exact keeps_called s _

theorem wp_snapshotFrozen {running : Bool}
    : wp (snapshotFrozen cx calls policy running) (fun _ s' => Keeps s s')
      (fun _ s' => Keeps s s') s := by
  unfold snapshotFrozen
  rw [wp_bind]
  refine wp_mono wp_freezeGuest (fun frozen s1 h1 => ?_) (fun _ _ h => h)
  simp only [wp_bind, wp_get, wp_set, wp_ask, wp_pure]
  have h2 : Keeps s (s1.arrive cx.thisHost calls.taken) := h1.trans (keeps_arrive s1 _ _)
  refine wp_mono wp_thawGuest (E := fun _ _ => False) (fun _ s3 h3 => ?_) (fun _ _ h => h.elim)
  exact ⟨fun _ _ => h2.trans h3, fun _ _ => h2.trans h3⟩

theorem wp_takeSnapshots : wp (takeSnapshots cx calls production policy) (fun _ s' => Keeps s s')
      (fun _ s' => Keeps s s') s := by
  unfold takeSnapshots
  simp only [wp_bind, wp_ask]
  refine ⟨fun live _ => ⟨fun guest _ => ?_, fun _ _ => .refl s⟩, fun _ _ => .refl s⟩
  split
  · exact .refl s
  · simp only [wp_bind, wp_ask]
    refine ⟨fun disks _ => ?_, fun _ _ => .refl s⟩
    split
    · exact .refl s
    · simp only [wp_bind, wp_pure]
      exact wp_snapshotFrozen

/-! ## The replicas -/

def HasAll (s : State) (host : HostSlot) (guids : Dict SnapshotGuid) : Prop :=
  ∀ name guid, guids.get? name = some guid → s.snapshots host name = some guid

/-- The records stay and no snapshot goes. -/
structure Adds (s s' : State) : Prop where
  keeps : Keeps s s'
  snapshots : ∀ host name guid, s.snapshots host name = some guid →
    s'.snapshots host name = some guid

theorem Adds.refl (s : State) : Adds s s := ⟨.refl s, fun _ _ _ h => h⟩

theorem Adds.trans {s s' s'' : State} (h : Adds s s') (h' : Adds s' s'') : Adds s s'' :=
  ⟨h.keeps.trans h'.keeps, fun host name guid hg => h'.snapshots host name guid (h.snapshots host name guid hg)⟩

variable {s' : State}

theorem HasAll.mono (h : HasAll s host guids) (ha : Adds s s') : HasAll s' host guids :=
  fun name guid hg => ha.snapshots host name guid (h name guid hg)

theorem adds_arrive (s : State) (host : HostSlot) (new : List (String × SnapshotGuid)) :
    Adds s (s.arrive host new) :=
  ⟨keeps_arrive s host new, fun h name guid hg => by simp [State.arrive, hg]⟩

theorem hasAll_of_found
    (hsame : (guids.filterMap fun (name, _) => (s.snapshots host name).map (name, ·)).find?
      (fun (name, guid) => guids.get? name ≠ some guid) = none)
    (hall : (guids.filterMap fun (name, _) => (s.snapshots host name).map (name, ·)).length =
      guids.length) : HasAll s host guids := by
  intro name guid hget
  -- no entry was left out, so this one's snapshot exists
  have hsome := List.filterMap_length_eq_length.mp hall (name, guid) (Dict.mem_of_get? hget)
  obtain ⟨g, hg⟩ := Option.isSome_iff_exists.mp (by simpa using hsome)
  have hmem : (name, g) ∈ guids.filterMap fun (name, _) => (s.snapshots host name).map (name, ·) :=
    List.mem_filterMap.mpr ⟨(name, guid), Dict.mem_of_get? hget, by simp [hg]⟩
  have hsameG : guids.get? name = some g := by
    simpa using List.find?_eq_none.mp hsame (name, g) hmem
  rw [hg, ← hsameG, hget]

theorem wp_replicated {round : ReplicationRound} {target : HostSlot}
    : wp (replicated round guids target)
      (fun done s' => Adds s s' ∧ (done = true → HasAll s' target guids))
      (fun _ s' => Keeps s s') s := by
  unfold replicated
  have h1 : Adds s (s.arrive target (round.arrived target)) := adds_arrive s _ _
  simp only [wp_bind, wp_get, wp_set, wp_readable]
  refine ⟨fun _ => ?_, fun _ _ => h1.keeps⟩
  split
  · exact h1.keeps
  · rename_i hsame
    rw [wp_pure]
    exact ⟨h1, fun hall => hasAll_of_found hsame (by simpa using hall)⟩

theorem wp_replicateRound {round : ReplicationRound}
    {pending : List HostSlot} : wp (replicateRound round guids pending)
      (fun late s' => Adds s s' ∧ ∀ t ∈ pending, t ∈ late ∨ HasAll s' t guids)
      (fun _ s' => Keeps s s') s := by
  induction pending generalizing s with
  | nil => exact ⟨.refl s, by simp⟩
  | cons target rest ih =>
    unfold replicateRound
    simp only [wp_bind, wp_pure]
    refine wp_mono wp_replicated (fun done s1 h1 => ?_) (fun _ _ h => h)
    refine wp_mono ih (fun late s2 h2 => ?_) (fun _ _ h => h1.1.keeps.trans h)
    refine ⟨h1.1.trans h2.1, fun t ht => ?_⟩
    rcases List.mem_cons.mp ht with rfl | ht
    · cases done with
      | true => exact .inr ((h1.2 rfl).mono h2.1)
      | false => exact .inl (by simp)
    · rcases h2.2 t ht with hlate | hall
      · refine .inl ?_
        split
        · exact hlate
        · exact List.mem_cons_of_mem _ hlate
      · exact .inr hall

theorem wp_replicateRounds {rounds : List ReplicationRound} {pending : List HostSlot} :
    wp (replicateRounds cx guids rounds pending)
      (fun _ s' => Adds s s' ∧ ∀ t ∈ pending, HasAll s' t guids) (fun _ s' => Keeps s s') s := by
  induction rounds generalizing pending s with
  | nil => exact .refl s
  | cons round rounds ih =>
    unfold replicateRounds
    split
    · exact .refl s
    · simp only [wp_bind]
      refine wp_mono wp_replicateRound (fun late s1 h1 => ?_) (fun _ _ h => h)
      split
      · rename_i hnone
        refine ⟨h1.1, fun t ht => (h1.2 t ht).resolve_left ?_⟩
        rw [List.isEmpty_iff.mp hnone]
        exact List.not_mem_nil
      · refine wp_mono ih (fun _ s2 h2 => ⟨h1.1.trans h2.1, fun t ht => ?_⟩)
          (fun _ _ h => h1.1.keeps.trans h)
        -- the late ones are waited for; the others have all already
        rcases h1.2 t ht with hlate | hall
        · exact h2.2 t hlate
        · exact hall.mono h2.1

theorem mem_hostSet {hosts : List HostSlot} (h : host ∈ hosts) : host ∈ hostSet hosts := by
  refine List.mem_filter.mpr ⟨List.mem_filterMap.mpr ⟨host.number, ?_, ?_⟩, by simpa using h⟩
  · have := host.range
    exact List.mem_range.mpr (by omega)
  · unfold HostSlot.new
    rw [dif_pos host.range]

theorem wp_replicate : wp (replicate cx calls production guids)
      (fun _ s' => Adds s s' ∧ ∀ members, calls.members = .ok members →
        ∀ t ∈ replicationTargets cx production members, HasAll s' t guids)
      (fun _ s' => Keeps s s') s := by
  unfold replicate
  simp only [wp_bind, wp_ask]
  refine ⟨fun members hmembers => ?_, fun _ _ => .refl s⟩
  rw [hmembers]
  split
  · rename_i hnone
    refine ⟨.refl s, fun members' hm t ht => ?_⟩
    obtain rfl := Except.ok.inj hm
    rw [List.isEmpty_iff.mp hnone] at ht
    cases ht
  · simp only [wp_bind, wp_ask]
    refine ⟨fun jobs _ => ?_, fun _ _ => .refl s⟩
    split
    · exact .refl s
    · refine wp_mono wp_replicateRounds (fun _ s1 h1 => ⟨h1.1, fun members' hm t ht => ?_⟩)
        (fun _ _ h => h)
      obtain rfl := Except.ok.inj hm
      exact h1.2 t (mem_hostSet ht)

/-! ## The recheck -/

/-- The GUIDs are the owner's, one for each of the names. -/
structure Owned (s : State) (host : HostSlot) (names : List String) (guids : Dict SnapshotGuid) :
    Prop where
  sound : HasAll s host guids
  total : ∀ name ∈ names, ∃ guid, guids.get? name = some guid

theorem owned_foldl {entries : List (String × SnapshotGuid)} {names : List String}
    (h : Owned s host names guids) (hentries : ∀ e ∈ entries, s.snapshots host e.1 = some e.2) :
    Owned s host (names ++ entries.map (·.1))
      (entries.foldl (fun d (name, guid) => Dict.insert d name guid) guids) := by
  induction entries generalizing guids names with
  | nil => simpa using h
  | cons entry rest ih =>
    obtain ⟨name, guid⟩ := entry
    have hstep : Owned s host (names ++ [name]) (Dict.insert guids name guid) := by
      constructor
      · intro n g hg
        by_cases hn : n = name
        · subst hn
          rw [Dict.get?_insert] at hg
          rw [hentries _ (List.mem_cons_self ..), hg]
        · rw [Dict.get?_insert_of_ne _ _ hn] at hg
          exact h.sound n g hg
      · intro n hmem
        by_cases hn : n = name
        · exact ⟨guid, by rw [hn, Dict.get?_insert]⟩
        · rw [Dict.get?_insert_of_ne _ _ hn]
          exact h.total n ((List.mem_append.mp hmem).resolve_right (by simpa using hn))
    simpa using ih hstep fun e he => hentries e (List.mem_cons_of_mem _ he)

theorem wp_ownedGuids {snapshots : List String} :
    wp (ownedGuids cx calls snapshots) (fun guids s' => s' = s ∧ Owned s cx.thisHost snapshots guids)
      (fun _ s' => s' = s) s := by
  unfold ownedGuids
  simp only [wp_bind, wp_readable, wp_get, wp_pure]
  refine ⟨fun _ => ?_, fun _ _ => trivial⟩
  -- the names read so far, each with its GUID
  refine wp_mono (wp_mapM (E := fun _ s' => s' = s) (I := fun rest done s' => s' = s ∧
      done.map (·.1) ++ rest = snapshots ∧ ∀ e ∈ done, s.snapshots cx.thisHost e.1 = some e.2) []
    (fun name rest done s' h => ?_) ⟨rfl, by simp, by simp⟩) (fun owned s' h => ?_) (fun _ _ h => h)
  · obtain ⟨rfl, hnames, hdone⟩ := h
    rw [wp_ask]
    refine ⟨fun entry hentry => ⟨rfl, ?_, fun e he => ?_⟩, fun _ _ => rfl⟩
    · obtain ⟨guid, -, rfl⟩ := map_eq_ok.mp hentry
      simpa using hnames
    · rcases List.mem_append.mp he with he | he
      · exact hdone e he
      · obtain ⟨guid, hguid, rfl⟩ := map_eq_ok.mp hentry
        rw [List.mem_singleton.mp he]
        exact ofOption_eq_ok.mp hguid
  · obtain ⟨rfl, hnames, hdone⟩ := h
    refine ⟨rfl, ?_⟩
    have hnone : Owned s' cx.thisHost [] [] := by
      constructor
      · intro n g hg
        cases hg
      · simp
    have := owned_foldl hnone hdone
    simpa [← hnames] using this

/-- What the recheck made sure of. -/
structure Rechecked (cx : Context) (calls : Calls) (production : Production) (input : FinishInput)
    (captured : Captured) (s : State) : Prop where
  guids : ∀ disk ∈ input.disks, ∃ guid,
    captured.guids.get? (snapshotName calls.name disk) = some guid ∧
      ∀ host, Holder cx calls production host →
        s.snapshots host (snapshotName calls.name disk) = some guid
  props : captured.props.length = input.disks.length

theorem length_of_mapM {α β ε : Type} {f : α → Except ε β} {xs : List α} {ys : List β}
    (h : xs.mapM f = .ok ys) : ys.length = xs.length := by
  induction xs generalizing ys with
  | nil =>
    rw [List.mapM_nil, pure_eq_ok] at h
    exact h ▸ rfl
  | cons x xs ih =>
    rw [List.mapM_cons] at h
    obtain ⟨y, -, h⟩ := bind_eq_ok.mp h
    obtain ⟨ys', hys, h⟩ := bind_eq_ok.mp h
    rw [← pure_eq_ok.mp h, List.length_cons, List.length_cons, ih hys]

theorem wp_recheck : wp (recheck cx calls production input)
      (fun captured s' => Keeps s s' ∧ Rechecked cx calls production input captured s')
      (fun _ s' => Keeps s s') s := by
  unfold recheck
  simp only [wp_bind, wp_ask]
  refine ⟨fun again _ => ?_, fun _ _ => .refl s⟩
  split
  · exact .refl s
  · simp only [wp_bind]
    refine wp_mono wp_ownedGuids (fun guids s1 h1 => ?_) (fun _ s1 h1 => h1 ▸ .refl s)
    obtain ⟨rfl, howned⟩ := h1
    refine wp_mono wp_replicate (fun _ s2 h2 => ?_) (fun _ _ h => h)
    obtain ⟨hadds, hall⟩ := h2
    simp only [wp_ask]
    refine ⟨fun owner _ => ?_, fun _ _ => hadds.keeps⟩
    split
    · exact hadds.keeps
    · simp only [wp_bind, wp_ask, wp_pure]
      refine ⟨fun versions _ => ⟨fun props hprops => ⟨hadds.keeps, fun disk hdisk => ?_, ?_⟩,
        fun _ _ => hadds.keeps⟩, fun _ _ => hadds.keeps⟩
      · obtain ⟨guid, hguid⟩ := howned.total _ (List.mem_map_of_mem hdisk)
        refine ⟨guid, hguid, fun host hhost => ?_⟩
        have hthis := hadds.snapshots _ _ _ (howned.sound _ _ hguid)
        rcases hhost with rfl | ⟨members, hmembers, hmem, hplaced⟩
        · exact hthis
        · by_cases hme : host = cx.thisHost
          · exact hme ▸ hthis
          · exact hall members hmembers host
              (List.mem_filter.mpr ⟨hplaced, by simp [hmem, hme]⟩) _ _ hguid
      · exact length_of_mapM hprops

/-! ## The record -/

section Save

variable {Q : Unit → State → Prop} {E : ApiError → State → Prop} {s : State}

theorem wp_save {fault : Pmxcfs.Fault} {change : State → State} :
    wp (save fault change) Q E s ↔ (fault = .none → Q () (change s)) ∧
      (∀ e, fault = .before e → E (backupStorage e) s) ∧
      ∀ e, fault = .after e → E (backupStorage e) (change s) := by
  unfold save
  cases fault with
  | none =>
    simp only [Fault.happens, Fault.answer, Except.mapError, wp_bind, wp_get]
    simp
    exact Iff.rfl
  | before e => simp [Fault.happens, Fault.answer, Except.mapError, wp_ofExcept]
  | after e => simp [Fault.happens, Fault.answer, Except.mapError, wp_ofExcept]

theorem wp_savePit {fault : Pmxcfs.Fault} {pit : PitRecord}
    (htaken : ∀ e, (∃ p ∈ s.pits, p.pitUuid = pit.pitUuid) → E e s)
    (hsaved : (∀ p ∈ s.pits, p.pitUuid ≠ pit.pitUuid) →
      wp (save fault fun s => { s with pits := s.pits ++ [{ pit with revision := 1 }] }) Q E s) :
    wp (savePit fault pit) Q E s := by
  unfold savePit
  simp only [wp_bind, wp_get]
  split
  · rename_i found hfound
    have := List.find?_some hfound
    exact htaken _ ⟨found, List.mem_of_find?_eq_some hfound, by simpa using this⟩
  · rename_i hnone
    exact hsaved fun p hp => by simpa using List.find?_eq_none.mp hnone p hp

theorem wp_readRecord {Q : State → State → Prop} {unread : Option ApiError} :
    wp (readRecord unread) Q E s ↔
      (unread = none → Q s s) ∧ ∀ e, unread = some e → E e s := by
  unfold readRecord
  cases unread <;> simp

end Save

def recordedPit (cx : Context) (calls : Calls) (production : Production) (policy : Policy)
    (available : List Uuid) (input : FinishInput) (captured : Captured) (s : State) : PitRecord :=
  let lineage := lineageOf calls production s
  let sealed := sealedManifest cx calls production policy input captured lineage
  { newPit calls production available input.consistency lineage sealed.2 with revision := 1 }

/-- The PIT is in the catalog, and nothing else of the claim's changed. -/
structure Stored (pit : PitRecord) (s s' : State) : Prop where
  pits : s'.pits = s.pits ++ [pit]
  snapshots : s'.snapshots = s.snapshots
  destroyed : s'.destroyed = s.destroyed

def RecordFailed (calls : Calls) (pit : PitRecord) (s s' : State) : Prop :=
  StoresPit calls s ∧ FailsAfterPit calls s ∧ Stored pit s s' ∨
    ¬ StoresPit calls s ∧ s'.pits = s.pits ∧ s'.destroyed = s.destroyed

theorem wp_startPolicy {pit : PitRecord} {s1 : State} (hs : Stored pit s s1)
    (hpolicy : s1.policy = s.policy) :
    wp (startPolicy calls s1.policy) (fun _ s' => Stored pit s s' ∧
        ¬ ∃ policy, s.policy = some policy ∧ policy.startedS = none ∧ calls.savePolicy ≠ .none)
      (fun _ s' => Stored pit s s' ∧
        ∃ policy, s.policy = some policy ∧ policy.startedS = none ∧ calls.savePolicy ≠ .none) s1 := by
  unfold startPolicy
  rw [hpolicy]
  cases hp : s.policy with
  | none => exact ⟨hs, by simp⟩
  | some policy =>
    dsimp only
    split
    · rename_i hstart
      unfold savePolicy
      refine wp_save.mpr ⟨fun hnone => ⟨⟨hs.pits, hs.snapshots, hs.destroyed⟩, ?_⟩,
        fun e he => ⟨hs, policy, rfl, hstart, by simp [he]⟩,
        fun e he => ⟨⟨hs.pits, hs.snapshots, hs.destroyed⟩, policy, rfl, hstart, by simp [he]⟩⟩
      rintro ⟨_, _, _, hne⟩
      exact hne hnone
    · rename_i hstart
      refine ⟨hs, ?_⟩
      rintro ⟨policy', hp', hnone, -⟩
      obtain rfl := Option.some.inj hp'
      exact hstart hnone

theorem wp_recordLocked {available : List Uuid} (hlock : calls.lock = none) :
    wp (recordLocked cx calls production policy available input captured)
      (fun _ s' => StoresPit calls s ∧ (FailsAfterPit calls s → calls.unlock ≠ none) ∧
        Stored (recordedPit cx calls production policy available input captured s) s s')
      (fun _ s' => RecordFailed calls
        (recordedPit cx calls production policy available input captured s) s s') s := by
  unfold recordLocked
  simp only [wp_bind, wp_readRecord]
  refine ⟨fun hlineage => ?_, fun e he => .inr ⟨fun h => ?_, rfl, rfl⟩⟩
  swap
  · rw [h.2.1] at he
    cases he
  refine wp_savePit (fun e htaken => .inr ⟨fun h => ?_, rfl, rfl⟩) fun hfree => ?_
  · obtain ⟨p, hp, hid⟩ := htaken
    exact h.2.2.1 p hp hid
  have hstores : calls.savePit.happens = true → StoresPit calls s :=
    fun hs => ⟨hlock, hlineage, hfree, hs⟩
  have hstored : Stored (recordedPit cx calls production policy available input captured s) s
      { s with pits := s.pits ++ [recordedPit cx calls production policy available input captured s] } :=
    ⟨rfl, rfl, rfl⟩
  refine wp_save.mpr ⟨fun hpit => ?_, fun e he => .inr ⟨fun h => ?_, rfl, rfl⟩,
    fun e he => .inl ⟨hstores (by rw [he]; rfl), .inl (by simp [he]), hstored⟩⟩
  swap
  · have := h.2.2.2
    rw [he] at this
    cases this
  have hs := hstores (by rw [hpit]; rfl)
  unfold saveLineage
  refine wp_save.mpr ⟨fun hlin => ?_, fun e he => .inl ⟨hs, .inr (.inl (by simp [he])), hstored⟩,
    fun e he => .inl ⟨hs, .inr (.inl (by simp [he])), ⟨rfl, rfl, rfl⟩⟩⟩
  refine ⟨fun hread => ?_, fun e he => .inl
    ⟨hs, .inr (.inr (.inl (by simp [he]))), ⟨rfl, rfl, rfl⟩⟩⟩
  refine wp_mono (wp_startPolicy ⟨rfl, rfl, rfl⟩ rfl) (fun _ s' h => ⟨hs, fun hfails => ?_, h.1⟩)
    fun e s' h => .inl ⟨hs, .inr (.inr (.inr (.inl h.2))), h.1⟩
  rcases hfails with h' | h' | h' | h' | h'
  · exact absurd hpit h'
  · exact absurd hlin h'
  · exact absurd hread h'
  · exact absurd h' h.2
  · exact h'

theorem wp_record {available : List Uuid} :
    wp (record cx calls production policy available input captured)
      (fun _ s' => ¬ FailsAfterPit calls s ∧
        Stored (recordedPit cx calls production policy available input captured s) s s')
      (fun _ s' => RecordFailed calls
        (recordedPit cx calls production policy available input captured s) s s') s := by
  have hlocked : wp (locked calls (recordLocked cx calls production policy available input captured))
      (fun _ s' => ¬ FailsAfterPit calls s ∧
        Stored (recordedPit cx calls production policy available input captured s) s s')
      (fun _ s' => RecordFailed calls
        (recordedPit cx calls production policy available input captured s) s s') s := by
    unfold locked
    cases hlock : calls.lock with
    | some e =>
      refine .inr ⟨fun h => ?_, rfl, rfl⟩
      rw [h.1] at hlock
      cases hlock
    | none =>
      rw [wp_bind]
      refine wp_mono (wp_recordLocked hlock) (fun _ s' h => ?_) (fun _ _ h => h)
      obtain ⟨hs, hfails, hstored⟩ := h
      cases hunlock : calls.unlock with
      | none => exact ⟨fun h => hfails h hunlock, hstored⟩
      | some e => exact .inl ⟨hs, .inr (.inr (.inr (.inr (by simp [hunlock])))), hstored⟩
  unfold record wp
  dsimp only
  cases hrun : locked calls (recordLocked cx calls production policy available input captured) s with
  | ok a s' =>
    have hok := wp_ok hlocked hrun
    exact hok
  | error e s' =>
    have herror := wp_error hlocked hrun
    exact herror

/-! ## What the record names -/

theorem mem_captureVolumes {calls : Calls} {guids : Dict SnapshotGuid}
    {rows : List (Disk × Nat × Nat)} {known : Dict Uuid} {snapshot : String} {guid : SnapshotGuid} :
    (∃ v ∈ (captureVolumes calls guids rows known).1,
        snapshot = s!"{v.dataset}@{calls.name.text}" ∧ guid = v.snapshotGuid) ↔
      ∃ row ∈ rows, snapshot = snapshotName calls.name row.1 ∧
        guid = (guids.get? (snapshotName calls.name row.1)).getD 0 := by
  induction rows generalizing known with
  | nil => simp [captureVolumes]
  | cons row rest ih =>
    obtain ⟨disk, volsize, volblocksize⟩ := row
    unfold captureVolumes
    simp only [List.mem_cons, exists_eq_or_imp, ih]
    rfl

def ReadsBack (cx : Context) (calls : Calls) (production : Production) (policy : Policy)
    (s : State) : Prop :=
  ∀ input captured left, Prepared cx calls production policy s input captured left →
    cx.codec.parse (sealedManifest cx calls production policy input captured
        (lineageOf calls production s)).2 =
      .ok (sealedManifest cx calls production policy input captured
        (lineageOf calls production s)).1

def NewName (cx : Context) (calls : Calls) (s : State) : Prop :=
  ∀ pit ∈ s.pits, ∀ snapshot guid, Names cx.codec pit snapshot guid →
    ∀ disk, snapshot ≠ snapshotName calls.name disk

section Recorded

variable {cx : Context} {calls : Calls} {production : Production} {policy : Policy}
  {available : List Uuid} {input : FinishInput} {captured : Captured} {s : State}

theorem names_recordedPit
    (hread : cx.codec.parse (sealedManifest cx calls production policy input captured
        (lineageOf calls production s)).2 =
      .ok (sealedManifest cx calls production policy input captured
        (lineageOf calls production s)).1)
    (hprops : captured.props.length = input.disks.length) {snapshot : String} {guid : SnapshotGuid} :
    Names cx.codec (recordedPit cx calls production policy available input captured s) snapshot guid ↔
      ∃ disk ∈ input.disks, snapshot = snapshotName calls.name disk ∧
        guid = (captured.guids.get? (snapshotName calls.name disk)).getD 0 := by
  have hzip : (input.disks.zip captured.props).map Prod.fst = input.disks :=
    List.map_fst_zip (by omega)
  have hrows : (∃ row ∈ input.disks.zip captured.props, snapshot = snapshotName calls.name row.1 ∧
        guid = (captured.guids.get? (snapshotName calls.name row.1)).getD 0) ↔
      ∃ disk ∈ input.disks, snapshot = snapshotName calls.name disk ∧
        guid = (captured.guids.get? (snapshotName calls.name disk)).getD 0 := by
    conv_rhs => rw [← hzip]
    simp only [List.mem_map, exists_exists_and_eq_and]
  rw [← hrows, ← @mem_captureVolumes _ _ _ (lineageOf calls production s).volumes]
  constructor
  · rintro ⟨m, hm, v, hv, hname, hguid⟩
    obtain rfl := Except.ok.inj (hread.symm.trans hm)
    exact ⟨v, hv, hname, hguid⟩
  · rintro ⟨v, hv, hname, hguid⟩
    exact ⟨_, hread, v, hv, hname, hguid⟩

end Recorded

theorem cleanup_eq {cx : Context} {calls : Calls} {names : List String} {s : State} :
    (cleanup cx calls names s).pits = s.pits ∧
      (cleanup cx calls names s).destroyed = s.destroyed ++ names.filter calls.destroys := by
  unfold cleanup
  induction names generalizing s with
  | nil => simp
  | cons name rest ih =>
    rw [List.foldl_cons, List.filter_cons]
    split
    · obtain ⟨hp, hd⟩ := @ih (s.destroy cx.thisHost name)
      rw [hp, hd]
      exact ⟨rfl, by simp [State.destroy]⟩
    · exact ih

/-- The attempt's record touches the lineage only. -/
theorem recordAttempt_eq {calls : Calls} {production : Production} {attempt : Attempt} {s : State} :
    (recordAttempt calls production attempt s).pits = s.pits ∧
      (recordAttempt calls production attempt s).snapshots = s.snapshots ∧
      (recordAttempt calls production attempt s).destroyed = s.destroyed := by
  unfold recordAttempt
  dsimp only
  split
  · exact ⟨rfl, rfl, rfl⟩
  · exact ⟨rfl, rfl, rfl⟩

/-! ## The outcome -/

section Outcome

variable {cx : Context} {calls : Calls} {production : Production} {policy : Policy}
  {available : List Uuid} {s : State}

/-- What a failed capture leaves is clean if the catalog is as it was and only new names went. -/
theorem clean_of_keeps {e : Stop} {s' : State} {names : List Disk} (hname : NewName cx calls s)
    (hpits : s'.pits = s.pits)
    (hdestroyed : ∀ n ∈ s'.destroyed, ∃ disk ∈ names, n = snapshotName calls.name disk) :
    Clean cx calls production (.error e s') := by
  intro pit hpit snapshot guid hnames hmem
  rw [hpits] at hpit
  obtain ⟨disk, -, heq⟩ := hdestroyed snapshot hmem
  exact hname pit hpit snapshot guid hnames disk heq

theorem StoresPit.congr (h : Keeps s s') : StoresPit calls s' ↔ StoresPit calls s := by
  unfold StoresPit
  rw [h.pits]

theorem FailsAfterPit.congr (h : Keeps s s') : FailsAfterPit calls s' ↔ FailsAfterPit calls s := by
  unfold FailsAfterPit
  rw [h.policy]

theorem lineageOf_congr (h : Keeps s s') :
    lineageOf calls production s' = lineageOf calls production s := by
  unfold lineageOf
  rw [h.lineage]

theorem Prepared.unique {input' : FinishInput} {captured' : Captured}
    {left left' : State} (h : Prepared cx calls production policy s input captured left)
    (h' : Prepared cx calls production policy s input' captured' left') :
    input' = input ∧ captured' = captured ∧ left' = left := by
  obtain ⟨s1, htaken, hrecheck⟩ := h.prepared
  obtain ⟨s1', htaken', hrecheck'⟩ := h'.prepared
  obtain ⟨rfl, rfl⟩ := EStateM.Result.ok.inj (htaken.symm.trans htaken')
  obtain ⟨rfl, rfl⟩ := EStateM.Result.ok.inj (hrecheck.symm.trans hrecheck')
  exact ⟨rfl, rfl, rfl⟩

theorem clean_recorded_iff {s2 s3 s4 : State} {e : Stop}
    (hstart : s.destroyed = []) (hname : NewName cx calls s)
    (hprep : Prepared cx calls production policy s input captured s2) (hkeeps : Keeps s s2)
    (hrechecked : Rechecked cx calls production input captured s2)
    (hread : cx.codec.parse (sealedManifest cx calls production policy input captured
        (lineageOf calls production s2)).2 =
      .ok (sealedManifest cx calls production policy input captured
        (lineageOf calls production s2)).1)
    (hfailed : RecordFailed calls
      (recordedPit cx calls production policy available input captured s2) s2 s3)
    (hpits : s4.pits = s3.pits) (hdestroyed : s4.destroyed = s3.destroyed ++
      (input.disks.map (snapshotName calls.name)).filter calls.destroys) :
    Clean cx calls production (.error e s4) ↔ ¬ Slips cx calls production policy s := by
  have hgone : ∀ n, n ∈ s4.destroyed ↔
      ∃ disk ∈ input.disks, n = snapshotName calls.name disk ∧ calls.destroys n = true := by
    intro n
    have hlog : s3.destroyed = [] := by
      rcases hfailed with ⟨-, -, h⟩ | ⟨-, -, h⟩
      · rw [h.destroyed, hkeeps.destroyed, hstart]
      · rw [h, hkeeps.destroyed, hstart]
    rw [hdestroyed, hlog, List.nil_append, List.mem_filter, List.mem_map]
    constructor
    · rintro ⟨⟨disk, hdisk, rfl⟩, hd⟩
      exact ⟨disk, hdisk, rfl, hd⟩
    · rintro ⟨disk, hdisk, rfl, hd⟩
      exact ⟨⟨disk, hdisk, rfl⟩, hd⟩
  rcases hfailed with ⟨hstores, hfails, hstored⟩ | ⟨hstores, hsame, -⟩
  · -- the record is there: clean if the cleanup's destroys all fail
    constructor
    · rintro hclean ⟨input', captured', left', hprep', -, -, disk, hdisk, hd⟩
      obtain ⟨rfl, rfl, rfl⟩ := hprep.unique hprep'
      obtain ⟨guid, hguid, -⟩ := hrechecked.guids disk hdisk
      refine hclean (recordedPit cx calls production policy available input' captured' left') ?_
        (snapshotName calls.name disk) guid ?_ ((hgone _).mpr ⟨disk, hdisk, rfl, hd⟩)
      · rw [hpits, hstored.pits]
        simp
      · exact (names_recordedPit hread hrechecked.props).mpr ⟨disk, hdisk, rfl, by rw [hguid]; rfl⟩
    · intro hslips pit hpit snapshot guid hnames hmem
      obtain ⟨disk, hdisk, rfl, hd⟩ := (hgone snapshot).mp hmem
      exact hslips ⟨input, captured, s2, hprep, (StoresPit.congr hkeeps).mp hstores,
        (FailsAfterPit.congr hkeeps).mp hfails, disk, hdisk, hd⟩
  · refine iff_of_true (@clean_of_keeps _ _ _ _ _ _ input.disks hname
      (by rw [hpits, hsame, hkeeps.pits]) fun n hn => ?_) ?_
    · obtain ⟨disk, hdisk, rfl, -⟩ := (hgone n).mp hn
      exact ⟨disk, hdisk, rfl⟩
    · rintro ⟨-, -, -, -, hs, -⟩
      exact hstores ((StoresPit.congr hkeeps).mpr hs)

theorem capture_leased (hlease : calls.lease = .ok ()) :
    capture cx calls production policy available s =
      (match leased cx calls production policy available s with
      | .ok pitUuid s => .ok pitUuid (recordAttempt calls production (.captured calls.nowMs pitUuid) s)
      | .error (.failed message) s =>
        .error (.failed message) (recordAttempt calls production (.failed calls.nowMs message) s)
      | .error .cancelled s => .error .cancelled s) := by
  unfold capture
  rw [hlease]
  exact run_bind_ok rfl

/-- What `leased` leaves decides: the attempt's record changes nothing of it. -/
theorem clean_capture (hlease : calls.lease = .ok ()) :
    Clean cx calls production (capture cx calls production policy available s) ↔
      Clean cx calls production (leased cx calls production policy available s) := by
  rw [capture_leased hlease]
  cases leased cx calls production policy available s with
  | ok pitUuid s' =>
    obtain ⟨hp, hs, -⟩ := @recordAttempt_eq calls production
      (.captured calls.nowMs pitUuid) s'
    simp only [Clean, hp, hs]
  | error e s' =>
    cases e with
    | failed message =>
      obtain ⟨hp, -, hd⟩ := @recordAttempt_eq calls production
        (.failed calls.nowMs message) s'
      simp only [Clean, hp, hd]
    | cancelled => rfl

/-- A capture leaves the catalog and its snapshots in agreement exactly when it doesn't slip: when
no step fails behind the PIT's record, or none of the cleanup's destroys happens then. -/
theorem capture_clean_iff (hstart : s.destroyed = []) (hname : NewName cx calls s)
    (hread : ReadsBack cx calls production policy s) :
    Clean cx calls production (capture cx calls production policy available s) ↔
      ¬ Slips cx calls production policy s := by
  -- a capture that ends before its record leaves the catalog, and can't slip
  have hearly : ∀ {e s'}, Keeps s s' → (∀ input captured left,
      ¬ Prepared cx calls production policy s input captured left) →
      (Clean cx calls production (.error e s') ↔ ¬ Slips cx calls production policy s) := by
    intro e s' hk hnot
    refine iff_of_true (@clean_of_keeps _ _ _ _ _ _ [] hname hk.pits fun n hn => ?_) ?_
    · rw [hk.destroyed, hstart] at hn
      cases hn
    · rintro ⟨input, captured, left, hprep, -⟩
      exact hnot _ _ _ hprep
  cases hlease : calls.lease with
  | error e =>
    have hrun : capture cx calls production policy available s = .error (.failed
        (s!"could not take {production.name}'s orchestration lease " ++
          s!"(another operation may hold it): {e}")) s := by
      unfold capture
      rw [hlease]
      exact run_bind_error rfl
    rw [hrun]
    refine hearly (.refl s) fun _ _ _ hprep => ?_
    have := hprep.lease
    rw [hlease] at this
    cases this
  | ok u =>
    rw [clean_capture hlease]
    cases htaken : takeSnapshots cx calls production policy s with
    | error e s1 =>
      have hrun : leased cx calls production policy available s = .error e s1 :=
        run_bind_error htaken
      have hk1 := wp_error wp_takeSnapshots htaken
      rw [hrun]
      refine hearly hk1 fun _ _ _ hprep => ?_
      obtain ⟨_, htaken', -⟩ := hprep.prepared
      rw [htaken] at htaken'
      cases htaken'
    | ok input s1 =>
      have hk1 := wp_ok wp_takeSnapshots htaken
      have hrun : leased cx calls production policy available s =
          (match finish cx calls production policy available input s1 with
          | .ok pitUuid s => .ok pitUuid s
          | .error e s => .error e (cleanup cx calls (input.disks.map (snapshotName calls.name)) s)) :=
        run_bind_ok htaken
      rw [hrun]
      cases hrecheck : recheck cx calls production input s1 with
      | error e s2 =>
        have hfinish : finish cx calls production policy available input s1 = .error e s2 :=
          run_bind_error hrecheck
        have hk := wp_error wp_recheck hrecheck
        have hk2 := hk1.trans hk
        obtain ⟨hp, hd⟩ := @cleanup_eq cx calls
          (input.disks.map (snapshotName calls.name)) s2
        rw [hfinish]
        refine iff_of_true (@clean_of_keeps _ _ _ _ _ _ input.disks hname (hp.trans hk2.pits)
          fun n hn => ?_) ?_
        · rw [hd, hk2.destroyed, hstart, List.nil_append, List.mem_filter, List.mem_map] at hn
          obtain ⟨⟨disk, hdisk, rfl⟩, -⟩ := hn
          exact ⟨disk, hdisk, rfl⟩
        · rintro ⟨_, _, _, hprep, -⟩
          obtain ⟨_, htaken', hrecheck'⟩ := hprep.prepared
          obtain ⟨rfl, rfl⟩ := EStateM.Result.ok.inj (htaken.symm.trans htaken')
          rw [hrecheck] at hrecheck'
          cases hrecheck'
      | ok captured s2 =>
        obtain ⟨hk2, hrechecked⟩ := wp_ok wp_recheck hrecheck
        have hkeeps := hk1.trans hk2
        have hprep : Prepared cx calls production policy s input captured s2 :=
          ⟨hlease, s1, htaken, hrecheck⟩
        have hreads := hread input captured s2 hprep
        rw [← lineageOf_congr hkeeps] at hreads
        cases hrecord : record cx calls production policy available input captured s2 with
        | error e s3 =>
          have hfailed := wp_error wp_record hrecord
          have hfinish : finish cx calls production policy available input s1 = .error e s3 :=
            (run_bind_ok hrecheck).trans (run_bind_error hrecord)
          obtain ⟨hp, hd⟩ := @cleanup_eq cx calls
            (input.disks.map (snapshotName calls.name)) s3
          rw [hfinish]
          exact clean_recorded_iff hstart hname hprep hkeeps hrechecked hreads hfailed hp hd
        | ok u s3 =>
          obtain ⟨hfine, hstored⟩ := wp_ok wp_record hrecord
          have hfinish : finish cx calls production policy available input s1 =
              .ok calls.pitUuid s3 :=
            (run_bind_ok hrecheck).trans (run_bind_ok hrecord)
          rw [hfinish]
          refine iff_of_true ⟨recordedPit cx calls production policy available input captured s2, ?_,
            rfl, ⟨_, hreads⟩, fun snapshot guid hnames host hhost => ?_⟩ ?_
          · rw [hstored.pits]
            simp
          · obtain ⟨disk, hdisk, rfl, rfl⟩ := (names_recordedPit hreads hrechecked.props).mp hnames
            obtain ⟨guid, hguid, hall⟩ := hrechecked.guids disk hdisk
            rw [hstored.snapshots, hguid]
            exact hall host hhost
          · rintro ⟨_, _, _, _, -, hfails, -⟩
            exact hfine ((FailsAfterPit.congr hkeeps).mpr hfails)

end Outcome

/-! ### A lineage that can't be written -/

def mox1 : HostSlot := ⟨1, HostSlot.range_one⟩

def mox2 : HostSlot := ⟨2, HostSlot.range_two⟩

def fineCalls : Calls where
  lease := .ok ()
  live := .ok (some ⟨mox1, true⟩)
  config := .ok "scsi0: local-zfs:vm-100-disk-0"
  dataset _ := .ok "rpool/data/vm-100-disk-0"
  name := ⟨"bmac-pit-19700101T000140Z-a1b2c3", 100⟩
  armThaw := .ok "bmac-thaw-100"
  freeze := .ok (.number "1")
  thawUnfrozen := .ok ()
  disarmUnfrozen := .ok ()
  taken := [("rpool/data/vm-100-disk-0@bmac-pit-19700101T000140Z-a1b2c3", 7)]
  snapshot := .ok ()
  thaw := .ok ()
  disarm := .ok ()
  configAgain := .ok "scsi0: local-zfs:vm-100-disk-0"
  datasetAgain _ := .ok "rpool/data/vm-100-disk-0"
  unreadOwned := none
  members := .ok [mox1, mox2]
  jobs := .ok [⟨"100-0", mox2⟩]
  round :=
    { cancelled := false
      arrived := fun _ => [("rpool/data/vm-100-disk-0@bmac-pit-19700101T000140Z-a1b2c3", 7)]
      unread := fun _ => none }
  rounds := []
  owner := .ok (some ⟨mox1, true⟩)
  versions := .ok ("9.0", "2.3.4")
  props _ := .ok (1048576, 16384)
  pitUuid := 10
  branchUuid := 11
  volumeUuid _ := 12
  nowS := 160
  lock := none
  unreadLineage := none
  savePit := .none
  saveLineage := .none
  unreadPolicy := none
  savePolicy := .none
  unlock := none
  destroys _ := true
  recordsAttempt := true
  nowMs := 160000

/-- The cluster has no quorum when the lineage is written. -/
def slippedCalls : Calls :=
  { fineCalls with saveLineage := .before (.io "cannot atomically write lineage.json") }

def capturedVm : Production :=
  ⟨3, .production 1, 100, [mox1, mox2], .null⟩

def capturedPolicy : Policy where
  revision := 1
  vmUuid := 3
  vm := "prod1"
  scheduleId := "backups"
  appliances := [5]
  localRetention := ⟨0, 0, 0⟩
  startedS := none
  freeze := .ifAvailable
  acceptMultiPool := false
  enabled := true
  updatedBy := "admin"
  updatedAtMs := 0

def capturedState : State where
  snapshots _ _ := none
  pits := []
  lineage := none
  policy := some capturedPolicy
  guest := []
  destroyed := []

/-- SHA-256 of the two texts that these captures seal: the guest's configuration and the payload of
the manifest. -/
def capturedSha256 (text : String) : String :=
  if text = "scsi0: local-zfs:vm-100-disk-0\n" then
    "813cdffb90bf614595f7b15ff9178d7561aabb81885d9cd9192dc2bfd950eaee"
  else "629203920d6fd2b2dbba78328eab43d5d70d3eecf98abba94dda08a0052ed191"

def capturingHost : Context where
  codec := serdeCodec capturedSha256 String.ofList fun _ => "expected value at line 1 column 1"
  thisHost := mox1
  clusterUuid := "c1"
  bmacVersion := "3.0.0"
  replicationTimeoutS := 900

/-- What the capture knows before its record. -/
def capturedInput : FinishInput where
  disks := [⟨⟨"scsi0", .disk, "local-zfs:vm-100-disk-0", false⟩, "rpool/data/vm-100-disk-0"⟩]
  configText := "scsi0: local-zfs:vm-100-disk-0\n"
  config := [("scsi0", "local-zfs:vm-100-disk-0")]
  consistency := .filesystem
  evidence := .object [("freeze", .number "1")]

def capturedFacts : Captured where
  guids := [("rpool/data/vm-100-disk-0@bmac-pit-19700101T000140Z-a1b2c3", 7)]
  proxmox := "9.0"
  openzfs := "2.3.4"
  props := [(1048576, 16384)]

def capturedManifest : Manifest :=
  newManifest capturingHost fineCalls capturedVm capturedPolicy capturedInput capturedFacts
    (lineageOf fineCalls capturedVm capturedState)
    (volumesOf fineCalls capturedInput capturedFacts (lineageOf fineCalls capturedVm capturedState)).1

theorem typed_capturedManifest : capturedManifest.Typed where
  schemaVersion := by decide
  vmid := by decide
  takenAtS := by decide
  config := List.pairwise_singleton ..
  volumes := by decide
  evidence := kept_object ["freeze"] rfl (List.pairwise_singleton ..) (List.forall_mem_singleton.mpr
    (kept_nat (n := 1) (by decide)))
  registry := ⟨.null, rfl⟩

theorem parse_capturedManifest {codec : Codec} (hcodec : codec = serdeCodec capturedSha256 String.ofList
    fun _ => "expected value at line 1 column 1") :
    codec.parse (capturedManifest.seal_ codec).2 = .ok (capturedManifest.seal_ codec).1 := by
  have hname : PitName.fromStr fineCalls.name.text = some fineCalls.name := by decide +kernel
  have hsnapshot : capturedManifest.snapshot = fineCalls.name := rfl
  have hevidence : (nodeOf capturedManifest.evidence).depth ≤ 126 := by decide
  have hregistry : (nodeOf capturedManifest.registry).depth ≤ 126 := by decide
  subst hcodec
  rw [← hsnapshot] at hname
  exact parse_seal typed_capturedManifest hname hevidence hregistry

theorem sealedManifest_fine :
    sealedManifest capturingHost fineCalls capturedVm capturedPolicy capturedInput capturedFacts
      (lineageOf fineCalls capturedVm capturedState) =
      capturedManifest.seal_ capturingHost.codec := rfl

theorem sealedManifest_slipped :
    sealedManifest capturingHost slippedCalls capturedVm capturedPolicy capturedInput capturedFacts
      (lineageOf slippedCalls capturedVm capturedState) =
      capturedManifest.seal_ capturingHost.codec := rfl

theorem prepared_fine : ∃ left, Prepared capturingHost fineCalls capturedVm capturedPolicy capturedState
    capturedInput capturedFacts left :=
  ⟨_, rfl, _, rfl, rfl⟩

theorem capture_clean_iff_fine :
    Clean capturingHost fineCalls capturedVm
        (capture capturingHost fineCalls capturedVm capturedPolicy [5] capturedState) ↔
      ¬ Slips capturingHost fineCalls capturedVm capturedPolicy capturedState := by
  refine capture_clean_iff rfl (fun pit hpit => by cases hpit) fun input captured left hprep => ?_
  obtain ⟨left', hfine⟩ := prepared_fine
  obtain ⟨rfl, rfl, -⟩ := hfine.unique hprep
  rw [sealedManifest_fine]
  exact @parse_capturedManifest capturingHost.codec rfl

/-- The PIT's record stays although its snapshot is destroyed. -/
theorem not_capture_clean :
    ¬ Clean capturingHost slippedCalls capturedVm
      (capture capturingHost slippedCalls capturedVm capturedPolicy [5] capturedState) := by
  intro hclean
  have hread : capturingHost.codec.parse (sealedManifest capturingHost slippedCalls capturedVm
      capturedPolicy capturedInput capturedFacts (lineageOf slippedCalls capturedVm capturedState)).2 =
      .ok (sealedManifest capturingHost slippedCalls capturedVm capturedPolicy capturedInput capturedFacts
        (lineageOf slippedCalls capturedVm capturedState)).1 := by
    rw [sealedManifest_slipped]
    exact @parse_capturedManifest capturingHost.codec rfl
  refine hclean (recordedPit capturingHost slippedCalls capturedVm capturedPolicy [5] capturedInput
    capturedFacts capturedState) (List.mem_cons_self ..)
    "rpool/data/vm-100-disk-0@bmac-pit-19700101T000140Z-a1b2c3" 7 ?_ (List.mem_cons_self ..)
  exact (names_recordedPit hread rfl).mpr ⟨_, List.mem_cons_self .., rfl, rfl⟩

end Bmac.Bmacd.Capture
