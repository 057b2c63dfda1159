import Bmac.Bmacd.UpkeepWorld

/-!
# Releases and transfers

A pass reads a PIT's offers again before it destroys the PIT's snapshots, but not after it has
bookmarked them on every host. A check-in that reports bytes for a stalled claim, or a claim whose
request read its clock early, makes an offer hold again in between. Otherwise no offer holds a PIT
whose snapshots are destroyed.
-/

namespace Bmac.Bmacd.Upkeep

open Bmac.Base Bmac.Core Bmac.Backup Bmac.Bmacd

variable {e : Event}

section

variable {ι : Type} {settings : BackupSettings} {s s' s'' : World ι} {p : ι}

/-- The step stores an offer of the PIT that wasn't there and that holds. -/
def Renews (settings : BackupSettings) (s s' : World ι) (id : Uuid) : Prop :=
  ∃ old ∈ s.pits, ∃ new ∈ s'.pits, old.pitUuid = id ∧ new.pitUuid = id ∧
    ∃ offer ∈ new.offers.values, offer ∉ old.offers.values ∧ offer.holds s'.clock settings = true

/-- No check-in or claim makes an offer hold of a PIT that a pass is about to release. -/
def QuietEnv (vm : Uuid) (settings : BackupSettings) (s : World ι) (e : Event) (s' : World ι) :
    Prop :=
  Env vm settings s e s' ∧ ∀ p id, s.releasing p = some id → ¬ Renews settings s s' id

theorem holds_later {offer : Offer} {nowS nowS' : Int} (hle : nowS ≤ nowS')
    (h : offer.holds nowS settings = false) : offer.holds nowS' settings = false := by
  cases offer with
  | open_ offeredS =>
    simp only [Offer.holds, decide_eq_false_iff_not] at h ⊢
    omega
  | claimed progressS bytes =>
    simp only [Offer.holds, decide_eq_false_iff_not] at h ⊢
    omega
  | published => rfl
  | failed => rfl

/-! ## What a pass relies on -/

/-- An offer of `new` is one of `old`, or doesn't hold. -/
def NotRenewed (settings : BackupSettings) (clock : Int) (old new : PitRecord) : Prop :=
  ∀ offer ∈ new.offers.values, offer ∈ old.offers.values ∨ offer.holds clock settings = false

/-- What the others leave of the world. -/
structure Rely (settings : BackupSettings) (p : ι) (s s' : World ι) : Prop where
  clock : s.clock ≤ s'.clock
  releasing : s'.releasing p = s.releasing p
  known : ∀ id x, s.known id = some x → s'.known id = some x
  pits : ∀ new ∈ s'.pits, s.known new.pitUuid = none ∨ ∃ old ∈ s.pits, Replaces old new ∧
    (s.releasing p = some new.pitUuid → NotRenewed settings s'.clock old new)

theorem Rely.refl (p : ι) (s : World ι) : Rely settings p s s where
  clock := le_rfl
  releasing := rfl
  known _ _ h := h
  pits new hnew := .inr ⟨new, hnew, .refl new, fun _ _ ho => .inl ho⟩

theorem Rely.trans (h : Rely settings p s s') (h' : Rely settings p s' s'') :
    Rely settings p s s'' where
  clock := h.clock.trans h'.clock
  releasing := h'.releasing.trans h.releasing
  known id x hx := h'.known id x (h.known id x hx)
  pits new hnew := by
    rcases h'.pits new hnew with hk | ⟨mid, hmid, hrep', hquiet'⟩
    · left
      cases hx : s.known new.pitUuid with
      | none => rfl
      | some x => rw [h.known _ x hx] at hk; cases hk
    · rcases h.pits mid hmid with hk | ⟨old, hold, hrep, hquiet⟩
      · left
        rw [hrep'.pitUuid]
        exact hk
      · refine .inr ⟨old, hold, hrep.trans hrep', fun hrel offer ho => ?_⟩
        rcases hquiet' (h.releasing.trans hrel) offer ho with ho' | ho'
        · rw [hrep'.pitUuid] at hrel
          exact (hquiet hrel offer ho').imp_right fun hn => holds_later h'.clock hn
        · exact .inr ho'

/-! ## What a pass knows -/

/-- The stored PITs have different UUIDs, and were captured. -/
structure World.Ok (s : World ι) : Prop where
  unique : s.pits.Pairwise (·.pitUuid ≠ ·.pitUuid)
  known : ∀ pit ∈ s.pits, s.known pit.pitUuid = some (pit.name, pit.manifest)

/-- A record that the store had: an equal revision means equal offers. -/
structure Current (pit : PitRecord) (s : World ι) : Prop where
  known : s.known pit.pitUuid = some (pit.name, pit.manifest)
  stored : ∀ stored ∈ s.pits, stored.pitUuid = pit.pitUuid → pit.revision ≤ stored.revision ∧
    (stored.revision = pit.revision → stored.offers = pit.offers)

variable {pit : PitRecord} {rest : List Offer} {host : HostSlot} {c : Call}

theorem Current.of_mem (hok : s.Ok) (h : pit ∈ s.pits) : Current pit s where
  known := hok.known pit h
  stored stored hs hid := by
    have hsymm : Std.Symm fun p q : PitRecord => p.pitUuid ≠ q.pitUuid := ⟨fun _ _ h => h.symm⟩
    have heq : stored = pit := by
      by_contra hne
      exact hok.unique.forall hs h hne hid
    rw [heq]
    exact ⟨le_rfl, fun _ => rfl⟩

theorem Current.rely (h : Current pit s) (hr : Rely settings p s s') :
    Current pit s' where
  known := hr.known _ _ h.known
  stored new hnew hid := by
    rcases hr.pits new hnew with hk | ⟨old, hold, hrep, -⟩
    · rw [hid, h.known] at hk
      cases hk
    · obtain ⟨hle, heq⟩ := h.stored old hold (hrep.pitUuid.symm.trans hid)
      have hrev := hrep.revision
      refine ⟨by omega, fun hsame => ?_⟩
      rw [hrep.offers (by omega), heq (by omega)]

/-- Only `rest` of the PIT's offers may hold. -/
def Pending (settings : BackupSettings) (id : Uuid) (rest : List Offer) (s : World ι) : Prop :=
  ∀ pit ∈ s.pits, pit.pitUuid = id → ∀ offer ∈ pit.offers.values,
    offer ∈ rest ∨ offer.holds s.clock settings = false

/-- A pass has read the PIT's offers, and found that all but `rest` don't hold. -/
structure Releasing (settings : BackupSettings) (p : ι) (fresh : PitRecord) (rest : List Offer)
    (s : World ι) : Prop where
  releasing : s.releasing p = some fresh.pitUuid
  current : Current fresh s
  pending : Pending settings fresh.pitUuid rest s

theorem Releasing.rely {fresh : PitRecord} {rest : List Offer}
    (h : Releasing settings p fresh rest s) (hr : Rely settings p s s') :
    Releasing settings p fresh rest s' where
  releasing := hr.releasing.trans h.releasing
  current := h.current.rely hr
  pending new hnew hid offer ho := by
    rcases hr.pits new hnew with hk | ⟨old, hold, hrep, hquiet⟩
    · rw [hid, h.current.known] at hk
      cases hk
    · have hold' : old.pitUuid = fresh.pitUuid := hrep.pitUuid.symm.trans hid
      have hrel : s.releasing p = some new.pitUuid := by rw [hid]; exact h.releasing
      rcases hquiet hrel offer ho with ho' | ho'
      · exact (h.pending old hold hold' offer ho').imp_right fun hn => holds_later hr.clock hn
      · exact .inr ho'

/-! ## The rules of a pass -/

variable [DecidableEq ι]

/-- No offer holds a PIT whose snapshot goes, and what a pass saves is a record it read. -/
def Guar (settings : BackupSettings) (s : World ι) : Call → Prop
  | .destroy id _ _ (.snapshot _ _) => Pending settings id [] s
  | .savePit pit => Current pit s
  | _ => True

def passRules (settings : BackupSettings) (p : ι) : Rules (World ι) Call Reply where
  exec := Exec settings p
  rely := Rely settings p
  guar := Guar settings
  inv := World.Ok
  rely_trans := Rely.trans

open Prog

theorem stable_true : Stable (passRules settings p) fun _ => True := fun _ _ _ _ h => h

theorem stable_current : Stable (passRules settings p) (Current pit) :=
  fun _ _ hr _ h => h.rely hr

variable {fresh : PitRecord} {r : Reply c} {pits : List PitRecord}

theorem stable_releasing : Stable (passRules settings p) (Releasing settings p fresh rest) :=
  fun _ _ hr _ h => h.rely hr

/-- A call whose answer leaves the catalog and the pass's own mark alone. -/
def Looks : Call → Prop
  | .byUuid | .liveGuest _ | .leased _ | .readPits | .readSettings | .readInputs _ | .readClock => True
  | .members | .guids _ _ | .bookmark _ _ _ => True
  | _ => False

omit [DecidableEq ι] in
theorem setCopy_releasing {copy : Copy}
    {guid : Option SnapshotGuid} (h : Releasing settings p fresh rest s) :
    Releasing settings p fresh rest (s.setCopy host copy guid) :=
  ⟨h.releasing, ⟨h.current.known, h.current.stored⟩, h.pending⟩

theorem Exec.looks (hc : Looks c) (h : Exec settings p s c r s') :
    s' = s ∨ ∃ host copy guid, s' = s.setCopy host copy guid := by
  cases c with
  | byUuid | readPits | readSettings | readClock | members | guids => exact .inl h.1
  | liveGuest | leased | readInputs => exact .inl h
  | bookmark host snapshot bookmark =>
    rcases h with ⟨-, rfl⟩ | ⟨guid, -, -, rfl⟩
    · exact .inl rfl
    · exact .inr ⟨_, _, _, rfl⟩
  | readPit | holds | destroy | savePit | deletePit | note => cases hc

omit [DecidableEq ι] in
theorem looks_guar (hc : Looks c) : Guar settings s c := by
  cases c with
  | destroy | savePit => cases hc
  | _ => trivial

theorem looks_releasing (hc : Looks c) :
    Meets (passRules settings p) (Releasing settings p fresh rest) c
      fun _ => Releasing settings p fresh rest := by
  intro s _ h
  refine ⟨looks_guar hc, fun r s' he _ => ?_⟩
  rcases Exec.looks hc he with rfl | ⟨host, copy, guid, rfl⟩
  · exact h
  · exact setCopy_releasing h

/-! ## What the calls leave -/

theorem Exec.frame (h : Exec settings p s c r s') :
    s'.clock = s.clock ∧ s'.known = s.known ∧ ∀ q, q ≠ p → s'.releasing q = s.releasing q := by
  have hself : ∀ s : World ι, s.clock = s.clock ∧ s.known = s.known ∧
    ∀ q, q ≠ p → s.releasing q = s.releasing q := fun _ => ⟨rfl, rfl, fun _ _ => rfl⟩
  have hmark : ∀ id, (s.releases p id).clock = s.clock ∧ (s.releases p id).known = s.known ∧
      ∀ q, q ≠ p → (s.releases p id).releasing q = s.releasing q :=
    fun id => ⟨rfl, rfl, fun q hq => Function.update_of_ne hq _ _⟩
  cases c with
  | byUuid | readPits | readSettings | readClock | members | guids => rw [h.1]; exact hself s
  | liveGuest | leased | readInputs => rw [show s' = s from h]; exact hself s
  | readPit id =>
    rcases h with ⟨-, rfl⟩ | ⟨-, rfl⟩
    · exact hmark _
    · exact hmark _
  | holds settings' id offer =>
    rw [h.2]
    split
    · exact hmark _
    · exact hself s
  | bookmark =>
    rcases h with ⟨-, rfl⟩ | ⟨guid, -, -, rfl⟩
    · exact hself _
    · exact hself s
  | destroy =>
    rcases h with ⟨-, rfl⟩ | rfl
    · exact hself _
    · exact hself s
  | savePit =>
    rcases h with ⟨-, rfl⟩ | ⟨stored, -, -, rfl⟩
    · exact hself _
    · exact hself s
  | deletePit =>
    rcases h with ⟨-, rfl⟩ | ⟨-, gone, saved, -, rfl⟩ | ⟨-, rfl⟩ | ⟨gone, -, rfl⟩
    · exact hself _
    · exact hself s
    · exact hself _
    · exact hself s
  | note => rw [show s' = s.releases p none from h]; exact hmark none

/-- Whether the call stores nothing. -/
def KeepsPits : Call → Prop
  | .savePit _ | .deletePit _ => False
  | _ => True

theorem Exec.pits_eq (h : Exec settings p s c r s') (hc : KeepsPits c) : s'.pits = s.pits := by
  cases c with
  | byUuid | readPits | readSettings | readClock | members | guids => rw [h.1]
  | liveGuest | leased | readInputs => rw [show s' = s from h]
  | readPit id =>
    rcases h with ⟨-, rfl⟩ | ⟨-, rfl⟩
    · rfl
    · rfl
  | holds settings' id offer =>
    rw [h.2]
    split
    · rfl
    · rfl
  | bookmark =>
    rcases h with ⟨-, rfl⟩ | ⟨guid, -, -, rfl⟩
    · rfl
    · rfl
  | destroy =>
    rcases h with ⟨-, rfl⟩ | rfl
    · rfl
    · rfl
  | savePit => cases hc
  | deletePit => cases hc
  | note => rw [show s' = s.releases p none from h]; rfl

/-- A record over the stored one, with its offers. -/
def Restores (old new : PitRecord) : Prop := Replaces old new ∧ new.offers = old.offers

theorem Restores.refl (pit : PitRecord) : Restores pit pit := ⟨.refl pit, rfl⟩

theorem restores_reparent {gone : PitRecord} {saved : Uuid → Bool}
    {new : PitRecord} (h : new ∈ reparent gone saved pits) : ∃ old ∈ pits, Restores old new := by
  obtain ⟨old, hold, rfl⟩ := List.mem_map.mp h
  refine ⟨old, hold, ?_⟩
  split
  · exact ⟨⟨rfl, rfl, rfl, by simp, fun _ => rfl⟩, rfl⟩
  · exact .refl old

theorem unique_map {f : PitRecord → PitRecord}
    (hf : ∀ pit ∈ pits, (f pit).pitUuid = pit.pitUuid)
    (h : pits.Pairwise (·.pitUuid ≠ ·.pitUuid)) : (pits.map f).Pairwise (·.pitUuid ≠ ·.pitUuid) := by
  refine List.pairwise_map.mpr (h.imp_of_mem fun {a b} ha hb hne => ?_)
  rw [hf a ha, hf b hb]
  exact hne

theorem unique_reparent {gone : PitRecord} {saved : Uuid → Bool}
    (h : pits.Pairwise (·.pitUuid ≠ ·.pitUuid)) :
    (reparent gone saved pits).Pairwise (·.pitUuid ≠ ·.pitUuid) := by
  refine unique_map (fun pit _ => ?_) h
  split <;> rfl

omit [DecidableEq ι] in
theorem World.Ok.eq_of_pitUuid (hok : s.Ok) {a b : PitRecord} (ha : a ∈ s.pits) (hb : b ∈ s.pits)
    (hid : a.pitUuid = b.pitUuid) : a = b := by
  have hsymm : Std.Symm fun p q : PitRecord => p.pitUuid ≠ q.pitUuid := ⟨fun _ _ h => h.symm⟩
  by_contra hne
  exact hok.unique.forall ha hb hne hid

omit [DecidableEq ι] in
theorem restores_storePit {stored new : PitRecord} (hok : s.Ok) (hcur : Current pit s)
    (hfind : s.pits.find? (·.pitUuid = pit.pitUuid) = some stored)
    (hrev : stored.revision = pit.revision) (h : new ∈ storePit s.pits pit) :
    ∃ old ∈ s.pits, Restores old new := by
  obtain ⟨old, hold, rfl⟩ := List.mem_map.mp h
  refine ⟨old, hold, ?_⟩
  split
  · rename_i hid
    have hstored := List.mem_of_find?_eq_some hfind
    have hsid : stored.pitUuid = pit.pitUuid := by simpa using List.find?_some hfind
    obtain rfl := hok.eq_of_pitUuid hold hstored (hid.trans hsid.symm)
    have hname := (hok.known old hold).symm
    rw [hid, hcur.known, Option.some.injEq, Prod.mk.injEq] at hname
    have hoffers := (hcur.stored old hold hid).2 hrev
    exact ⟨⟨hid.symm, hname.1.symm, hname.2.symm, by simp, fun _ => hoffers.symm⟩, hoffers.symm⟩
  · exact .refl old

theorem Exec.restores (hok : s.Ok) (hg : Guar settings s c)
    (h : Exec settings p s c r s') : ∀ new ∈ s'.pits, ∃ old ∈ s.pits, Restores old new := by
  intro new hnew
  cases c with
  | savePit pit =>
    rcases h with ⟨-, rfl⟩ | ⟨stored, hfind, hrev, rfl⟩
    · exact ⟨new, hnew, .refl new⟩
    · exact restores_storePit hok hg hfind hrev hnew
  | deletePit id =>
    rcases h with ⟨-, rfl⟩ | ⟨-, gone, saved, -, rfl⟩ | ⟨-, rfl⟩ | ⟨gone, -, rfl⟩
    · exact ⟨new, hnew, .refl new⟩
    · exact restores_reparent hnew
    · exact ⟨new, hnew, .refl new⟩
    · exact restores_reparent (List.mem_filter.mp hnew).1
  | _ =>
    rw [Exec.pits_eq h trivial] at hnew
    exact ⟨new, hnew, .refl new⟩

theorem Exec.unique {c : Call} {r : Reply c} (hok : s.Ok) (h : Exec settings p s c r s') :
    s'.pits.Pairwise (·.pitUuid ≠ ·.pitUuid) := by
  cases c with
  | savePit pit =>
    rcases h with ⟨-, rfl⟩ | ⟨stored, -, -, rfl⟩
    · exact hok.unique
    · refine unique_map (fun old _ => ?_) hok.unique
      split
      · rename_i hid
        exact hid.symm
      · rfl
  | deletePit id =>
    rcases h with ⟨-, rfl⟩ | ⟨-, gone, saved, -, rfl⟩ | ⟨-, rfl⟩ | ⟨gone, -, rfl⟩
    · exact hok.unique
    · exact unique_reparent hok.unique
    · exact hok.unique
    · exact (unique_reparent hok.unique).filter _
  | _ =>
    rw [Exec.pits_eq h trivial]
    exact hok.unique

omit [DecidableEq ι] in
theorem World.Ok.of_replaces (hok : s.Ok) (hknown : ∀ id x, s.known id = some x → s'.known id = some x)
    (hunique : s'.pits.Pairwise (·.pitUuid ≠ ·.pitUuid))
    (h : ∀ new ∈ s'.pits, ∃ old ∈ s.pits, Replaces old new) : s'.Ok where
  unique := hunique
  known new hnew := by
    obtain ⟨old, hold, hrep⟩ := h new hnew
    rw [hrep.pitUuid, hrep.name, hrep.manifest]
    exact hknown _ _ (hok.known old hold)

theorem Exec.rely {q : ι} (hok : s.Ok) (hg : Guar settings s c)
    (h : Exec settings p s c r s') (hq : q ≠ p) : Rely settings q s s' := by
  obtain ⟨hclock, hknown, hrel⟩ := Exec.frame h
  refine ⟨le_of_eq hclock.symm, hrel q hq, fun id x hx => by rw [hknown]; exact hx,
    fun new hnew => .inr ?_⟩
  obtain ⟨old, hold, hrep, hoffers⟩ := Exec.restores hok hg h new hnew
  refine ⟨old, hold, hrep, fun _ offer ho => .inl ?_⟩
  rw [hoffers] at ho
  exact ho

theorem Exec.ok {c : Call} {r : Reply c} (hok : s.Ok) (hg : Guar settings s c)
    (h : Exec settings p s c r s') : s'.Ok := by
  refine hok.of_replaces (fun id x hx => ?_) (Exec.unique hok h) fun new hnew => ?_
  · rw [(Exec.frame h).2.1]
    exact hx
  · obtain ⟨old, hold, hrep, -⟩ := Exec.restores hok hg h new hnew
    exact ⟨old, hold, hrep⟩

/-! ## What happens between the calls -/

omit [DecidableEq ι] in
theorem Env.replaces {vm : Uuid} (hok : s.Ok) (h : Env vm settings s e s') :
    s.clock ≤ s'.clock ∧ s'.releasing = s.releasing ∧
      (∀ id x, s.known id = some x → s'.known id = some x) ∧
      (∀ new ∈ s'.pits, s.known new.pitUuid = none ∨ ∃ old ∈ s.pits, Replaces old new) ∧ s'.Ok := by
  have hsame : ∀ new ∈ s.pits, s.known new.pitUuid = none ∨ ∃ old ∈ s.pits, Replaces old new :=
    fun new hnew => .inr ⟨new, hnew, .refl new⟩
  cases h with
  | tick hle => exact ⟨hle, rfl, fun _ _ h => h, hsame, ⟨hok.unique, hok.known⟩⟩
  | @capture pit hfresh hopen =>
    have hne : ∀ old ∈ s.pits, old.pitUuid ≠ pit.pitUuid := by
      intro old hold heq
      have hk := hok.known old hold
      rw [heq, hfresh] at hk
      cases hk
    refine ⟨le_rfl, rfl, fun id x hx => ?_, fun new hnew => ?_, ⟨?_, fun new hnew => ?_⟩⟩
    · have hid : id ≠ pit.pitUuid := by
        rintro rfl
        rw [hfresh] at hx
        cases hx
      exact (Function.update_of_ne hid _ _).trans hx
    · rcases List.mem_append.mp hnew with hold | hnew
      · exact hsame new hold
      · rw [List.mem_singleton.mp hnew]
        exact .inl hfresh
    · refine List.pairwise_append.mpr ⟨hok.unique, List.pairwise_singleton _ _, fun old hold q hq => ?_⟩
      rw [List.mem_singleton.mp hq]
      exact hne old hold
    · rcases List.mem_append.mp hnew with hold | hnew
      · exact (Function.update_of_ne (hne new hold) _ _).trans (hok.known new hold)
      · rw [List.mem_singleton.mp hnew]
        exact Function.update_self ..
  | @checkin appliance request saved readS hle =>
    obtain ⟨f, hf, hre⟩ := @mem_checkedIn vm appliance request saved readS s.pits
    have hrep : ∀ pit, Replaces pit (f pit) := by
      intro pit
      rcases hre pit with h | ⟨offers, h⟩
      · rw [h]
        exact .refl pit
      · rw [h]
        exact ⟨rfl, rfl, rfl, by simp, fun heq => absurd heq (by simp)⟩
    have hall : ∀ new ∈ checkedIn vm appliance request saved readS s.pits,
        ∃ old ∈ s.pits, Replaces old new := by
      intro new hnew
      rw [hf] at hnew
      obtain ⟨old, hold, rfl⟩ := List.mem_map.mp hnew
      exact ⟨old, hold, hrep old⟩
    refine ⟨le_rfl, rfl, fun _ _ h => h, fun new hnew => .inr (hall new hnew),
      hok.of_replaces (fun _ _ h => h) ?_ hall⟩
    show (checkedIn vm appliance request saved readS s.pits).Pairwise _
    rw [hf]
    exact unique_map (fun pit _ => (hrep pit).pitUuid) hok.unique
  | @claim appliance id saved readS pit new hle hfind hclaim =>
    cases saved with
    | false => exact ⟨le_rfl, rfl, fun _ _ h => h, hsame, ⟨hok.unique, hok.known⟩⟩
    | true =>
      have hre : new = { pit with offers := new.offers } := claim_reoffered hclaim
      have hmem := List.mem_of_find?_eq_some hfind
      have hid : new.pitUuid = pit.pitUuid := by rw [hre]
      have hall : ∀ later ∈ storePit s.pits new, ∃ old ∈ s.pits, Replaces old later := by
        intro later hlater
        obtain ⟨old, hold, rfl⟩ := List.mem_map.mp hlater
        refine ⟨old, hold, ?_⟩
        split
        · rename_i heq
          obtain rfl := hok.eq_of_pitUuid hold hmem (heq.trans hid)
          exact ⟨hid, by rw [hre], by rw [hre], by simp, fun heq => absurd heq (by simp)⟩
        · exact .refl old
      refine ⟨le_rfl, rfl, fun _ _ h => h, fun later hlater => .inr (hall later hlater),
        hok.of_replaces (fun _ _ h => h) ?_ hall⟩
      refine unique_map (fun old _ => ?_) hok.unique
      split
      · rename_i heq
        exact heq.symm
      · rfl
  | snapshot => exact ⟨le_rfl, rfl, fun _ _ h => h, hsame, ⟨hok.unique, hok.known⟩⟩
  | replicate => exact ⟨le_rfl, rfl, fun _ _ h => h, hsame, ⟨hok.unique, hok.known⟩⟩
  | place => exact ⟨le_rfl, rfl, fun _ _ h => h, hsame, ⟨hok.unique, hok.known⟩⟩

omit [DecidableEq ι] in
theorem QuietEnv.rely {vm : Uuid} {q : ι} (hok : s.Ok)
    (h : QuietEnv vm settings s e s') : Rely settings q s s' := by
  obtain ⟨hclock, hrel, hknown, hpits, -⟩ := Env.replaces hok h.1
  refine ⟨hclock, congrFun hrel q, hknown, fun new hnew => (hpits new hnew).imp_right ?_⟩
  rintro ⟨old, hold, hrep⟩
  refine ⟨old, hold, hrep, fun hq offer ho => ?_⟩
  by_cases hin : offer ∈ old.offers.values
  · exact .inl hin
  · right
    by_contra hholds
    exact h.2 q _ hq ⟨old, hold, new, hnew, hrep.pitUuid.symm, rfl, offer, ho, hin, by simpa using hholds⟩

/-! ## One pass -/

section

variable {fresh pit : PitRecord}

theorem safe_anyHolds (h : Releasing settings p fresh rest s) :
    Safe (passRules settings p)
      (fun holds t => holds = false → Releasing settings p fresh [] t) (fun _ _ => True)
      (anyHolds settings fresh.pitUuid rest) s := by
  induction rest generalizing s with
  | nil => exact fun _ => h
  | cons offer rest ih =>
    refine safe_bind.mpr (safe_ask_of stable_releasing (fun t _ ht => ⟨trivial, ?_⟩) h)
    rintro r t' ⟨rfl, rfl⟩ -
    cases hholds : offer.holds t.clock settings with
    | true => exact fun hf => nomatch hf
    | false =>
      refine ih ⟨ht.releasing, ht.current, fun stored hs hid o ho => ?_⟩
      rcases ht.pending stored hs hid o ho with hmem | hn
      · rcases List.mem_cons.mp hmem with rfl | hmem
        · exact .inr hholds
        · exact .inl hmem
      · exact .inr hn

variable {volumes : Volumes} {pass : Pass} {name : PitName} {copies : List Copy}

theorem calls_bookmarkEverywhere {placement : List HostSlot} :
    Calls Looks (bookmarkEverywhere placement name volumes) := by
  refine calls_bind (calls_bind (calls_orFail (calls_ask trivial)) fun _ => trivial) fun hosts =>
    calls_forEach fun host => ?_
  refine calls_bind (calls_orFail (calls_ask trivial)) fun present =>
    calls_bind (calls_forEach fun volume => ?_) fun _ =>
      calls_bind (calls_orFail (calls_ask trivial)) fun made => calls_forEach fun volume => ?_
  · unfold bookmarkVolume
    dsimp only
    split
    · trivial
    · split
      · split
        · exact calls_orFail (calls_ask trivial)
        · trivial
      · trivial
  · unfold checkBookmark
    dsimp only
    split <;> trivial

theorem safe_ready (h : Releasing settings p fresh [] s) :
    Safe (passRules settings p) (fun _ => Releasing settings p fresh []) (fun _ _ => True)
      (ready pass fresh volumes) s := by
  unfold ready
  split
  · exact safe_attempt.mpr
      (safe_of_calls stable_releasing (fun c => looks_releasing) calls_bookmarkEverywhere h)
  · exact h

theorem safe_destroyAll {kept : Volumes}
    (hcopies : ∀ copy ∈ copies, ∃ dataset name, copy = .snapshot dataset name)
    {failed : Option String} (h : Releasing settings p fresh [] s) :
    Safe (passRules settings p) (fun _ => Releasing settings p fresh []) (fun _ _ => True)
      (destroyAll fresh.pitUuid kept host copies failed) s := by
  induction copies generalizing failed s with
  | nil => exact h
  | cons copy rest ih =>
    have hrest := fun copy hc => hcopies copy (List.mem_cons_of_mem _ hc)
    obtain ⟨dataset, name, rfl⟩ := hcopies copy (List.mem_cons_self ..)
    refine safe_bind.mpr (safe_ask_of stable_releasing (fun t _ ht => ⟨ht.pending, ?_⟩) h)
    intro r t' he _
    have ht' : Releasing settings p fresh [] t' := by
      rcases he with ⟨-, rfl⟩ | rfl
      · exact ht
      · exact setCopy_releasing ht
    cases r with
    | ok u => exact ih hrest ht'
    | error e => exact ih hrest ht'

omit [DecidableEq ι] in
theorem Current.of_fields {pit' : PitRecord} (h : Current pit s) (hid : pit'.pitUuid = pit.pitUuid)
    (hname : pit'.name = pit.name) (hmanifest : pit'.manifest = pit.manifest)
    (hrev : pit'.revision = pit.revision) (hoffers : pit'.offers = pit.offers) : Current pit' s where
  known := by
    rw [hid, hname, hmanifest]
    exact h.known
  stored := by
    rw [hid, hrev, hoffers]
    exact h.stored

theorem safe_note {n : Note} (h : Current pit s) :
    Safe (passRules settings p) (fun _ => Current pit) (fun _ _ => True) (note n) s := by
  refine safe_ask_of stable_current (fun t _ ht => ⟨trivial, ?_⟩) h
  rintro r t' rfl -
  exact ⟨ht.known, ht.stored⟩

theorem safe_releaseReady {done : Except String Unit} (h : Releasing settings p fresh [] s) :
    Safe (passRules settings p) (fun r t => Current r.1 t) (fun _ _ => True)
      (releaseReady pass fresh volumes (snapshotsOf volumes name) done) s := by
  cases done with
  | error reason =>
    refine safe_bind.mpr (safe_mono (safe_note h.current) (fun _ t ht => ?_) fun _ _ _ => trivial)
    exact ht.of_fields rfl rfl rfl rfl rfl
  | ok =>
    refine safe_bind.mpr (safe_orFail.mpr (safe_ask_of stable_releasing (fun t _ ht => ⟨trivial, ?_⟩) h))
    rintro r t' ⟨rfl, -⟩ -
    refine ⟨fun present _ => ?_, fun _ _ => trivial⟩
    refine safe_bind.mpr (safe_mono (safe_destroyAll (fun copy hc => ?_) ht) (fun failed t' ht' => ?_)
      fun _ _ _ => trivial)
    · obtain ⟨v, -, rfl⟩ := List.mem_map.mp (List.mem_filter.mp hc).1
      exact ⟨_, _, rfl⟩
    · cases failed with
      | some reason =>
        refine safe_bind.mpr (safe_mono (safe_note ht'.current) (fun _ t ht => ?_) fun _ _ _ => trivial)
        exact ht.of_fields rfl rfl rfl rfl rfl
      | none =>
        refine safe_bind.mpr (safe_mono (safe_note ht'.current) (fun _ t ht => ?_) fun _ _ _ => trivial)
        exact ht.of_fields rfl rfl rfl rfl rfl

/-- From the reading of a PIT's offers on, a pass knows that none holds. -/
theorem releasing_of_read (hok : s.Ok) (hfind : s.pits.find? (·.pitUuid = pit.pitUuid) = some fresh) :
    Releasing settings p fresh fresh.offers.values (s.releases p (some fresh.pitUuid)) where
  releasing := Function.update_self ..
  current := by
    have h := Current.of_mem hok (List.mem_of_find?_eq_some hfind)
    exact ⟨h.known, h.stored⟩
  pending stored hs hid offer ho := by
    obtain rfl := hok.eq_of_pitUuid hs (List.mem_of_find?_eq_some hfind) hid
    exact .inl ho

theorem safe_release (hsettings : pass.settings = settings) :
    Safe (passRules settings p) (fun r t => ∀ left, r = some left → Current left.1 t)
      (fun _ _ => True) (release pass pit volumes) s := by
  refine safe_bind.mpr (safe_orFail.mpr (safe_ask_of stable_true (fun t hok _ => ⟨trivial, ?_⟩) trivial))
  intro r t' he hok'
  refine ⟨fun found hr => ?_, fun _ _ => trivial⟩
  subst hr
  rcases he with ⟨⟨e, he⟩, -⟩ | ⟨he, rfl⟩
  · cases he
  obtain rfl := Except.ok.inj he
  refine safe_bind.mpr (safe_ofExcept.mpr ⟨fun fresh hfresh => ?_, fun _ _ => trivial⟩)
  have hfind := ofOption_eq_ok.mp hfresh
  rw [hfind, hsettings]
  refine safe_bind.mpr (safe_mono (safe_anyHolds (releasing_of_read hok hfind))
    (fun holds t' ht' => ?_) fun _ _ _ => trivial)
  cases holds with
  | true => exact fun left hl => nomatch hl
  | false =>
    refine safe_bind.mpr (safe_mono (safe_ready (ht' rfl)) (fun done t ht => ?_) fun _ _ _ => trivial)
    refine safe_bind.mpr (safe_mono (safe_releaseReady ht) (fun left t hl => ?_) fun _ _ _ => trivial)
    rintro _ ⟨⟩
    exact hl

def Removes : Call → Prop
  | .members | .guids _ _ | .note _ => True
  | .destroy _ _ _ (.bookmark _ _) => True
  | _ => False

theorem calls_removeBookmarks {id : Uuid} {all : Bool}
    (hcopies : ∀ copy ∈ copies, ∃ dataset name, copy = .bookmark dataset name) :
    Calls Removes (removeBookmarks id host copies all) := by
  induction copies generalizing all with
  | nil => trivial
  | cons copy rest ih =>
    have hrest := fun copy hc => hcopies copy (List.mem_cons_of_mem _ hc)
    obtain ⟨dataset, name, rfl⟩ := hcopies copy (List.mem_cons_self ..)
    refine calls_bind (calls_ask trivial) fun r => ?_
    cases r with
    | ok u => exact calls_bind (calls_ask trivial) fun _ => ih hrest
    | error e => exact calls_bind (calls_ask trivial) fun _ => ih hrest

theorem calls_removeEverywhere {id : Uuid} {hosts : List HostSlot} {all : Bool}
    (hcopies : ∀ copy ∈ copies, ∃ dataset name, copy = .bookmark dataset name) :
    Calls Removes (removeEverywhere id copies hosts all) := by
  induction hosts generalizing all with
  | nil => trivial
  | cons host rest ih =>
    refine calls_bind (calls_ask trivial) fun r => ?_
    cases r with
    | ok present =>
      refine calls_bind (calls_removeBookmarks fun copy hc => ?_) fun _ => ih
      exact hcopies copy (List.mem_filter.mp hc).1
    | error e => exact calls_bind (calls_ask trivial) fun _ => ih

theorem calls_leaves : Calls Removes (leaves pass pit (bookmarksOf volumes name)) := by
  unfold leaves
  split
  · trivial
  · refine calls_bind (calls_bind (calls_orFail (calls_ask trivial)) fun _ => trivial) fun hosts =>
      calls_bind (calls_removeEverywhere fun copy hc => ?_) fun _ => trivial
    obtain ⟨v, -, rfl⟩ := List.mem_map.mp hc
    exact ⟨_, _, rfl⟩

theorem removes_current {P : Prop} (hc : Removes c) :
    Meets (passRules settings p) (fun t => P → Current pit t) c fun _ t => P → Current pit t := by
  intro t _ ht
  have hpits : KeepsPits c := by
    cases c with
    | savePit | deletePit => cases hc
    | _ => trivial
  refine ⟨?_, fun r t' he _ hP => ?_⟩
  · show Guar settings t c
    cases c with
    | destroy id kept host copy =>
      cases copy with
      | snapshot => cases hc
      | bookmark => trivial
    | savePit => cases hc
    | _ => trivial
  · have h := ht hP
    refine ⟨?_, ?_⟩
    · rw [(Exec.frame he).2.1]
      exact h.known
    · rw [Exec.pits_eq he hpits]
      exact h.stored

theorem safe_upkeepPit {codec : Codec} (hsettings : pass.settings = settings) :
    Safe (passRules settings p) (fun _ _ => True) (fun _ _ => True) (upkeepPit codec pass pit) s := by
  refine safe_bind.mpr (safe_ofExcept.mpr ⟨fun manifest _ => ?_, fun _ _ => trivial⟩)
  have hdue : Safe (passRules settings p)
      (fun r t => ∀ left, r = some left → left.2 = true → Current left.1 t) (fun _ _ => True)
      (releaseIfDue pass pit (manifest.volumes.map fun v => (v.dataset, v.snapshotGuid))) s := by
    unfold releaseIfDue
    split
    · exact safe_mono (safe_release hsettings) (fun r t h left hl _ => h left hl) fun _ _ h => h
    · rintro left ⟨⟩ hc
      cases hc
  refine safe_bind.mpr (safe_mono hdue (fun released t ht => ?_) fun _ _ _ => trivial)
  cases released with
  | none => trivial
  | some left =>
    obtain ⟨pit', changed⟩ := left
    have hstable : Stable (passRules settings p) fun t => changed = true → Current pit' t :=
      fun _ _ hr _ h hc => (h hc).rely hr
    refine safe_bind.mpr (safe_mono
      (safe_of_calls hstable (fun c => removes_current) calls_leaves (ht _ rfl)) (fun gone t ht => ?_)
      fun _ _ _ => trivial)
    split
    · refine safe_bind.mpr (safe_orFail.mpr (safe_ask_of stable_true (fun _ _ _ => ⟨trivial, ?_⟩) trivial))
      intro r t' _ _
      refine ⟨fun _ _ => ?_, fun _ _ => trivial⟩
      exact safe_ask_of stable_true (fun _ _ _ => ⟨trivial, fun _ _ _ _ => trivial⟩) trivial
    · split
      · rename_i hchanged
        refine safe_orFail.mpr (safe_ask_of stable_current (fun t _ h => ⟨h, fun _ _ _ _ => ?_⟩)
          (ht hchanged))
        exact ⟨fun _ _ => trivial, fun _ _ => trivial⟩
      · trivial

theorem safe_upkeepVm {codec : Codec} :
    Safe (passRules settings p) (fun _ _ => True) (fun _ _ => True) (upkeepVm codec host) s := by
  have hask : ∀ {c : Call} {T : Reply c → World ι → Prop} {s : World ι}, Looks c →
      (∀ t r t', Exec settings p t c r t' → T r t') →
      Safe (passRules settings p) T (fun _ _ => True) (Prog.ask c : Program (Reply c)) s :=
    fun hc hT => safe_ask_of stable_true
      (fun t _ _ => ⟨looks_guar hc, fun r t' he _ => hT t r t' he⟩) trivial
  refine safe_bind.mpr (safe_orFail.mpr (hask trivial fun t r t' _ => ⟨fun found _ => ?_, fun _ _ => trivial⟩))
  cases found with
  | none => trivial
  | some production =>
    refine safe_bind.mpr (safe_orFail.mpr (hask trivial fun t r t' _ => ⟨fun live _ => ?_, fun _ _ => trivial⟩))
    split
    · trivial
    refine safe_bind.mpr (safe_orFail.mpr (hask trivial fun t r t' _ => ⟨fun leased _ => ?_, fun _ _ => trivial⟩))
    split
    · trivial
    refine safe_bind.mpr (safe_orFail.mpr (hask trivial fun t r t' _ => ⟨fun pits _ => ?_, fun _ _ => trivial⟩))
    split
    · trivial
    refine safe_bind.mpr (safe_orFail.mpr (hask trivial fun t r t' he => ⟨fun found hr => ?_, fun _ _ => trivial⟩))
    have hsettings : found = settings := he.2 found hr
    refine safe_bind.mpr (safe_orFail.mpr (hask trivial fun t r t' _ => ⟨fun inputs _ => ?_, fun _ _ => trivial⟩))
    refine safe_bind.mpr (hask trivial fun t nowS t' _ => ?_)
    refine safe_forEach (I := fun _ _ => True) (fun pit rest t _ => ?_) trivial
    refine safe_bind.mpr (safe_attempt.mpr (safe_mono (safe_upkeepPit hsettings) (fun r t _ => ?_)
      fun e t _ => ?_))
    · trivial
    · exact safe_ask_of stable_true (fun _ _ _ => ⟨trivial, fun _ _ _ _ => trivial⟩) trivial

end

/-! ## Runs -/

abbrev UpkeepConfig (ι : Type) := Config ι (World ι) Call Reply String

/-- The catalog is in order, and no pass has begun. -/
def Initial (g : UpkeepConfig ι) : Prop := g.state.Ok ∧ ∀ p, g.prog p = .ret ()

abbrev UpkeepStep (codec : Codec) (settings : BackupSettings)
    (env : World ι → Event → World ι → Prop) :
    UpkeepConfig ι → Label ι Call Reply Event → UpkeepConfig ι → Prop :=
  ParStep (Exec settings) env (Starts codec)

section

variable {vm : Uuid} {codec : Codec} {g g' : UpkeepConfig ι}

theorem passes_safe_step {l : Label ι Call Reply Event}
    (h : UpkeepStep codec settings (QuietEnv vm settings) g l g')
    (hg : g.AllSafe (passRules settings)) : g'.AllSafe (passRules settings) := by
  refine allSafe_step (fun _ _ _ _ _ he => he) ?_ ?_ ?_ (fun p s => Rely.refl p s) h hg
  · intro p s c r s' hok hguar he
    exact ⟨fun _ => Exec.ok (hok p) hguar he, fun q hq => Exec.rely (hok p) hguar he hq⟩
  · intro s e s' hok he
    exact ⟨fun q => (Env.replaces (hok q) he.1).2.2.2.2, fun q => he.rely (hok q)⟩
  · rintro p s new s' hok ⟨⟨host, rfl⟩, rfl⟩
    refine ⟨fun q => ⟨(hok q).unique, (hok q).known⟩, fun q hq => ?_, safe_upkeepVm⟩
    exact ⟨le_rfl, Function.update_of_ne hq _ _, fun _ _ h => h,
      fun new hnew => .inr ⟨new, hnew, .refl new, fun _ _ ho => .inl ho⟩⟩

/-- In a run in which no check-in or claim renews an offer of a PIT between a pass's reading of its
offers and the end of its release, no offer holds a PIT whose snapshot is about to be destroyed. -/
theorem released_unheld {ls : List (Label ι Call Reply Event)} (h0 : Initial g)
    (hrun : Run (UpkeepStep codec settings (QuietEnv vm settings)) g ls g') {p : ι} {id : Uuid}
    {kept : Volumes} {host : HostSlot} {dataset name : String}
    {k : Except String Unit → Program Unit}
    (hp : g'.prog p = .call (.destroy id kept host (.snapshot dataset name)) k) :
    ∀ pit ∈ g'.state.pits, pit.pitUuid = id → pit.held g'.state.clock settings = false := by
  have hsafe : g.AllSafe (passRules settings) := by
    refine ⟨fun _ => h0.1, fun p => ?_⟩
    rw [h0.2 p]
    trivial
  have hsafe' := hrun.invariant (fun _ _ _ hg hs => passes_safe_step hs hg) hsafe
  have hpending : Pending settings id [] g'.state := hsafe'.guar (fun p s => Rely.refl p s) hp
  intro pit hpit hid
  refine Bool.eq_false_iff.mpr fun hheld => ?_
  obtain ⟨offer, ho, hholds⟩ := List.any_eq_true.mp hheld
  rcases hpending pit hpit hid offer ho with hmem | hn
  · cases hmem
  · rw [hn] at hholds
    cases hholds

end

end

/-! ### A stalled claim -/

def host1 : HostSlot := ⟨1, HostSlot.range_one⟩

def vmDisk : String := "rpool/data/vm-100-disk-0"

/-- A PIT whose only claim made no progress for hours. -/
def stalledPit : PitRecord := { offeredPit with offers := [(5, .claimed 0 100)] }

def newerPit : PitRecord :=
  { offeredPit with
    pitUuid := 20
    name := ⟨"bmac-pit-19700101T000140Z-d4e5f6", 100⟩
    takenS := 100
    offers := [] }

def stalledWorld : World Unit where
  clock := 10000
  pits := [stalledPit, newerPit]
  disks _ copy := if copy = .snapshot vmDisk stalledPit.name.text then some 17 else none
  production := some ⟨7, .production 1, 100, [host1], .null⟩
  members := [host1]
  known id :=
    if id = 10 then some (stalledPit.name, "")
    else if id = 20 then some (newerPit.name, "") else none
  releasing _ := none

def stalledStart : UpkeepConfig Unit := ⟨stalledWorld, fun _ => .ret ()⟩

theorem stalledStart_initial : Initial stalledStart := by
  refine ⟨⟨by decide, fun pit hpit => ?_⟩, fun _ => rfl⟩
  rcases List.mem_cons.mp hpit with rfl | hpit
  · rfl
  · rw [List.mem_singleton.mp hpit]
    rfl

def stalledSnapshot : Copy := .snapshot vmDisk stalledPit.name.text

/-- One pass alone: a run of it from `g` ends in `P`. -/
def Leads (codec : Codec) (settings : BackupSettings) (env : World Unit → Event → World Unit → Prop)
    (P : UpkeepConfig Unit → Prop) (g : UpkeepConfig Unit) : Prop :=
  ∃ ls g', Run (UpkeepStep codec settings env) g ls g' ∧ P g'

section

variable {codec : Codec} {settings : BackupSettings} {env : World Unit → Event → World Unit → Prop}
  {P : UpkeepConfig Unit → Prop} {s s' : World Unit} {prog : Program Unit}

theorem Leads.done {g : UpkeepConfig Unit} (h : P g) : Leads codec settings env P g :=
  ⟨[], g, .nil g, h⟩

theorem Leads.call {c : Call} {k : Reply c → Program Unit} (r : Reply c)
    (he : Exec settings () s c r s') (h : Leads codec settings env P ⟨s', fun _ => k r⟩) :
    Leads codec settings env P ⟨s, fun _ => .call c k⟩ := by
  obtain ⟨ls, g', hrun, hP⟩ := h
  refine ⟨.call () c r :: ls, g', .cons (.call rfl he) ?_, hP⟩
  rw [Function.update_eq_const_of_subsingleton]
  exact hrun

theorem Leads.start (host : HostSlot)
    (h : Leads codec settings env P ⟨s.releases () none, fun _ => upkeepVm codec host⟩) :
    Leads codec settings env P ⟨s, fun _ => prog⟩ := by
  obtain ⟨ls, g', hrun, hP⟩ := h
  refine ⟨.start () :: ls, g', .cons (.start ⟨⟨host, rfl⟩, rfl⟩) ?_, hP⟩
  rw [Function.update_eq_const_of_subsingleton]
  exact hrun

theorem Leads.event (he : env s e s') (h : Leads codec settings env P ⟨s', fun _ => prog⟩) :
    Leads codec settings env P ⟨s, fun _ => prog⟩ := by
  obtain ⟨ls, g', hrun, hP⟩ := h
  exact ⟨_, g', .cons (.env he) hrun, hP⟩

end

/-- Where a pass has found that nothing holds the stalled PIT, and looks which snapshots there are. -/
def stalledLooks : World Unit := (stalledWorld.releases () none).releases () (some 10)

theorem stalled_looks {env : World Unit → Event → World Unit → Prop}
    {P : UpkeepConfig Unit → Prop}
    (h : ∀ k k', k (.ok (stalledWorld.disks host1)) = .call (.destroy 10 [] host1 stalledSnapshot) k' →
      Leads sentCodec .default env P
        ⟨stalledLooks, fun _ => .call (.guids host1 [stalledSnapshot]) k⟩) :
    Leads sentCodec .default env P stalledStart := by
  refine Leads.start host1 ?_
  refine Leads.call (.ok (some ⟨7, .production 1, 100, [host1], .null⟩)) ⟨rfl, ?_⟩ ?_
  · rintro found ⟨⟩
    rfl
  refine Leads.call (.ok (some ⟨host1, true⟩)) rfl ?_
  refine Leads.call (.ok false) rfl ?_
  refine Leads.call (.ok [stalledPit, newerPit]) ⟨rfl, ?_⟩ ?_
  · rintro pits ⟨⟩
    exact List.Subset.refl _
  refine Leads.call (.ok .default) ⟨rfl, ?_⟩ ?_
  · rintro found ⟨⟩
    rfl
  refine Leads.call (.ok ⟨[], [], [], []⟩) rfl ?_
  refine Leads.call (10000 : Int) ⟨rfl, rfl⟩ ?_
  refine Leads.call (.ok (some stalledPit)) (.inr ⟨rfl, rfl⟩) ?_
  refine Leads.call false ⟨rfl, rfl⟩ ?_
  exact h _ _ rfl

/-- Without a check-in in between, nothing holds the PIT when its snapshot goes. -/
theorem released_unheld_stalled : Leads sentCodec .default (QuietEnv 7 .default)
    (fun g => (∃ k, g.prog () = .call (.destroy 10 [] host1 stalledSnapshot) k) ∧
      ∀ pit ∈ g.state.pits, pit.pitUuid = 10 → pit.held g.state.clock .default = false)
    stalledStart := by
  have hleads : Leads sentCodec .default (QuietEnv 7 .default)
      (fun g => ∃ k, g.prog () = .call (.destroy 10 [] host1 stalledSnapshot) k) stalledStart := by
    refine stalled_looks fun k k' hk => Leads.call (.ok (stalledWorld.disks host1)) ⟨rfl, ?_⟩
      (.done ⟨k', hk⟩)
    rintro found ⟨⟩ copy -
    rfl
  obtain ⟨ls, g', hrun, k, hk⟩ := hleads
  exact ⟨ls, g', hrun, ⟨k, hk⟩, released_unheld stalledStart_initial hrun hk⟩

/-- The appliance reports that it got on. -/
def progressCheckin : CheckinRequest :=
  { headCheckin with heads := [], transfers := [⟨1, 7, 10, 200⟩] }

/-- Between the reading of the offers and the destruction a check-in revives the stalled claim. -/
theorem not_released_unheld :
    ¬ ∀ (ι : Type) [DecidableEq ι] (vm : Uuid) (codec : Codec) (settings : BackupSettings)
      (g g' : UpkeepConfig ι) (ls : List (Label ι Call Reply Event)), Initial g →
      Run (UpkeepStep codec settings (Env vm settings)) g ls g' →
      ∀ (p : ι) (id : Uuid) (kept : Volumes) (host : HostSlot) (dataset name : String)
        (k : Except String Unit → Program Unit),
        g'.prog p = .call (.destroy id kept host (.snapshot dataset name)) k →
        ∀ pit ∈ g'.state.pits, pit.pitUuid = id → pit.held g'.state.clock settings = false := by
  intro h
  have hleads : Leads sentCodec .default (Env 7 .default)
      (fun g => (∃ k, g.prog () = .call (.destroy 10 [] host1 stalledSnapshot) k) ∧
        ∃ pit ∈ g.state.pits, pit.pitUuid = 10 ∧ pit.held g.state.clock .default = true)
      stalledStart := by
    refine stalled_looks fun k k' hk => ?_
    have hcheckin : Env 7 .default stalledLooks (.checkin 5 progressCheckin (fun _ => true) 10000)
        { stalledLooks with
          pits := checkedIn 7 5 progressCheckin (fun _ => true) 10000 stalledLooks.pits } :=
      .checkin (le_refl (10000 : Int))
    refine Leads.event hcheckin ?_
    refine Leads.call (.ok (stalledWorld.disks host1)) ⟨rfl, ?_⟩ (.done ⟨⟨k', hk⟩, ?_⟩)
    · rintro found ⟨⟩ copy -
      rfl
    · refine ⟨{ stalledPit with offers := [(5, .claimed 10000 200)], revision := 2 }, ?_, rfl, ?_⟩
      · exact List.mem_of_getElem? (i := 0) rfl
      · rfl
  obtain ⟨ls, g', hrun, ⟨k, hk⟩, pit, hpit, hid, hheld⟩ := hleads
  rw [h Unit 7 sentCodec .default stalledStart g' ls stalledStart_initial hrun () 10 [] host1 _ _ k hk
    pit hpit hid] at hheld
  cases hheld

end Bmac.Bmacd.Upkeep
