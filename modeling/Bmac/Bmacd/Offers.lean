import Bmac.Base.Run
import Bmac.Backup.Catalog

/-!
# Offers

`bmacd/src/backup/source.rs`, the three ways an offer changes once a capture made it: `claim` by
the appliance, `settle` by what its check-in says, and `superseded` when it has a newer PIT of the
branch. Each runs under the backup lock with the clock's reading of its request.
-/

namespace Bmac.Bmacd

open Bmac.Base Bmac.Core Bmac.Backup

structure HeadReport where
  vmUuid : Uuid
  branchUuid : Uuid
  pitUuid : Uuid
  deriving DecidableEq

/-- A pull in progress: the bytes received so far, over every volume of the PIT. -/
structure TransferReport where
  transferUuid : Uuid
  vmUuid : Uuid
  pitUuid : Uuid
  bytes : Nat
  deriving DecidableEq

/-- An offered PIT the appliance gave up on. -/
structure FailedReport where
  vmUuid : Uuid
  pitUuid : Uuid
  deriving DecidableEq

/-- What a check-in says about the appliance's PITs. -/
structure CheckinRequest where
  applianceUuid : Uuid
  version : String
  locked : Bool
  progress : Backup.Progress
  heads : List HeadReport
  transfers : List TransferReport
  failed : List FailedReport
  indexRevision : Nat
  deriving DecidableEq

def reportedBytes (pit : PitRecord) (request : CheckinRequest) : Option Nat :=
  ((request.transfers.filter fun t => t.vmUuid = pit.vmUuid ∧ t.pitUuid = pit.pitUuid).map
    (·.bytes)).max?

/-- Applies what the check-in says about one PIT's offer to this appliance; whether it changed. -/
def settle (pit : PitRecord) (appliance : Uuid) (request : CheckinRequest)
    (head : Option ReportedHead) (nowS : Int) : PitRecord × Bool :=
  match pit.offers.get? appliance with
  | none => (pit, false)
  | some offer =>
    if !offer.pending then (pit, false)
    else if head.any (·.pitUuid = pit.pitUuid) then (pit.setOffer appliance .published, true)
    else if request.failed.any fun f => f.vmUuid = pit.vmUuid ∧ f.pitUuid = pit.pitUuid then
      (pit.setOffer appliance .failed, true)
    else match reportedBytes pit request with
      | none => (pit, false)
      | some bytes =>
        let next : Offer := match offer with
          | .claimed progressS before =>
            if bytes ≤ before then .claimed progressS before else .claimed nowS bytes
          | _ => .claimed nowS bytes
        (pit.setOffer appliance next, next ≠ offer)

/-- Drops the older open offers to an appliance whose head is newer on the same branch. -/
def superseded (pits : List PitRecord) (appliance : Uuid) (head : ReportedHead) :
    List PitRecord × List Uuid :=
  match pits.find? (·.pitUuid = head.pitUuid) with
  | none => (pits, [])
  | some newest =>
    let drops (pit : PitRecord) : Bool :=
      pit.branchUuid = head.branchUuid && pit.takenS < newest.takenS &&
        (pit.offers.get? appliance).any (·.pending)
    (pits.map fun pit =>
      if drops pit then { pit with offers := pit.offers.erase appliance } else pit,
     (pits.filter drops).map (·.pitUuid))

/-- What a claim does with a PIT of the catalog: nothing, a claim to save, or a refusal. -/
def claim (pit : PitRecord) (appliance : Uuid) (nowS : Int) (settings : BackupSettings) :
    Except ApiError (Option PitRecord) :=
  match pit.offers.get? appliance with
  | some (.claimed _ _) => .ok none
  | some offer =>
    match offer with
    | .open_ _ =>
      if offer.holds nowS settings && pit.presence = .snapshot then
        .ok (some (pit.setOffer appliance (.claimed nowS 0)))
      else .error (.new .conflict "the PIT is no longer offered to this appliance")
    | _ => .error (.new .conflict "the PIT is no longer offered to this appliance")
  | none => .error (.new .conflict "the PIT is no longer offered to this appliance")

/-! ## A VM's catalog -/

/-- The head a check-in reports for one VM; a later report replaces an earlier one. -/
def reportedHead (request : CheckinRequest) (vm : Uuid) : Option ReportedHead :=
  (request.heads.filter (·.vmUuid = vm)).getLast?.map fun h => ⟨h.branchUuid, h.pitUuid⟩

/-- What a check-in makes of a VM's PITs, and which of them it saves. -/
def checkinPits (vm appliance : Uuid) (request : CheckinRequest) (nowS : Int)
    (pits : List PitRecord) : List PitRecord × List Uuid :=
  let head := reportedHead request vm
  let settled := pits.map fun pit => settle pit appliance request head nowS
  let changed := (settled.filter (·.2)).map (·.1.pitUuid)
  match head with
  | none => (settled.map (·.1), changed)
  | some head =>
    let (pits, dropped) := superseded (settled.map (·.1)) appliance head
    (pits, changed ++ dropped)

/-- The clock, and the PITs of one VM as they are stored. -/
structure Catalog where
  nowS : Int
  pits : List PitRecord

/-- A handler's locked section, with the clock it read. `saved` tells which of its writes went
through before one failed. -/
inductive CatalogEvent where
  | capture (pit : PitRecord)
  | checkin (appliance : Uuid) (request : CheckinRequest) (saved : Uuid → Bool) (nowS : Int)
  | claim (appliance pit : Uuid) (saved : Bool) (nowS : Int)

/-- `new` in place of the stored PIT with its UUID. -/
def storePit (pits : List PitRecord) (new : PitRecord) : List PitRecord :=
  pits.map fun pit => if pit.pitUuid = new.pitUuid then { new with revision := pit.revision + 1 } else pit

/-- The PITs a check-in stored. -/
def storeChanged (pits new : List PitRecord) (stores : Uuid → Bool) : List PitRecord :=
  pits.zipWith (fun pit new =>
    if stores pit.pitUuid then { new with revision := pit.revision + 1 } else pit) new

inductive CatalogStep (vm : Uuid) (settings : BackupSettings) :
    Catalog → CatalogEvent → Catalog → Prop where
  | capture {c : Catalog} {pit : PitRecord} :
      (∀ p ∈ c.pits, p.pitUuid ≠ pit.pitUuid) →
      (∀ entry ∈ pit.offers, ∃ offeredS, entry.2 = .open_ offeredS) →
      CatalogStep vm settings c (.capture pit) { c with pits := c.pits ++ [pit] }
  | checkin {c : Catalog} {appliance : Uuid} {request : CheckinRequest} {saved : Uuid → Bool}
      {nowS : Int} : c.nowS ≤ nowS →
      CatalogStep vm settings c (.checkin appliance request saved nowS)
        ⟨nowS, storeChanged c.pits (checkinPits vm appliance request nowS c.pits).1 fun id =>
          saved id && id ∈ (checkinPits vm appliance request nowS c.pits).2⟩
  | claim {c : Catalog} {appliance id : Uuid} {saved : Bool} {nowS : Int} {pit new : PitRecord} :
      c.nowS ≤ nowS → c.pits.find? (·.pitUuid = id) = some pit →
      claim pit appliance nowS settings = .ok (some new) →
      CatalogStep vm settings c (.claim appliance id saved nowS)
        ⟨nowS, if saved then storePit c.pits new else c.pits⟩
  /-- A claim that changes nothing. -/
  | refused {c : Catalog} {appliance id : Uuid} {saved : Bool} {nowS : Int} : c.nowS ≤ nowS →
      (∀ pit new, c.pits.find? (·.pitUuid = id) = some pit →
        claim pit appliance nowS settings ≠ .ok (some new)) →
      CatalogStep vm settings c (.claim appliance id saved nowS) ⟨nowS, c.pits⟩

/-! ## Forward -/

/-- An offer that is over: published, failed or dropped. -/
def Ended : Option Offer → Prop
  | some offer => offer.pending = false
  | none => True

/-- How one appliance's offer of a PIT may stand later on. -/
inductive Forward : Option Offer → Option Offer → Prop where
  | same (o : Option Offer) : Forward o o
  | claimed {offeredS progressS : Int} {bytes : Nat} :
      Forward (some (.open_ offeredS)) (some (.claimed progressS bytes))
  | moved {progressS progressS' : Int} {bytes bytes' : Nat} : progressS ≤ progressS' →
      bytes ≤ bytes' → Forward (some (.claimed progressS bytes)) (some (.claimed progressS' bytes'))
  | ended {offer : Offer} {o : Option Offer} : offer.pending = true → Ended o →
      Forward (some offer) o

theorem Forward.of_ended {o o' : Option Offer} (h : Forward o o') (ho : Ended o) : o' = o := by
  cases h with
  | same => rfl
  | claimed => cases ho
  | moved => cases ho
  | ended hp =>
    rw [Ended, hp] at ho
    cases ho

theorem Forward.trans {o o' o'' : Option Offer} (h : Forward o o') (h' : Forward o' o'') :
    Forward o o'' := by
  cases h with
  | same => exact h'
  | claimed =>
    cases h' with
    | same => exact .claimed
    | moved => exact .claimed
    | ended _ he => exact .ended rfl he
  | moved hp hb =>
    cases h' with
    | same => exact .moved hp hb
    | moved hp' hb' => exact .moved (hp.trans hp') (hb.trans hb')
    | ended _ he => exact .ended rfl he
  | ended hp he =>
    rw [h'.of_ended he]
    exact .ended hp he

/-- No offer of the PIT made progress after `nowS`. -/
def OffersDated (nowS : Int) (pit : PitRecord) : Prop :=
  ∀ appliance progressS bytes,
    pit.offers.get? appliance = some (.claimed progressS bytes) → progressS ≤ nowS

variable {nowS : Int}

theorem OffersDated.mono {nowS' : Int} {pit : PitRecord} (h : OffersDated nowS pit) (hle : nowS ≤ nowS') :
    OffersDated nowS' pit :=
  fun a p b hg => (h a p b hg).trans hle

structure PitAdvances (nowS : Int) (pit pit' : PitRecord) : Prop where
  pitUuid : pit'.pitUuid = pit.pitUuid
  offers : ∀ appliance, Forward (pit.offers.get? appliance) (pit'.offers.get? appliance)
  dated : OffersDated nowS pit'

theorem PitAdvances.refl {pit : PitRecord} (h : OffersDated nowS pit) : PitAdvances nowS pit pit :=
  ⟨rfl, fun _ => .same _, h⟩

theorem PitAdvances.trans {nowS nowS' : Int} {pit pit' pit'' : PitRecord} (h : PitAdvances nowS pit pit')
    (h' : PitAdvances nowS' pit' pit'') : PitAdvances nowS' pit pit'' :=
  ⟨h'.pitUuid.trans h.pitUuid, fun a => (h.offers a).trans (h'.offers a), h'.dated⟩

section

variable {nowS : Int} {pit : PitRecord} {appliance : Uuid} {offer : Offer}

theorem PitAdvances.setOffer (hd : OffersDated nowS pit) (hget : pit.offers.get? appliance = some offer)
    {next : Offer} (hf : Forward (some offer) (some next))
    (hp : ∀ p b, next = .claimed p b → p ≤ nowS) : PitAdvances nowS pit (pit.setOffer appliance next) := by
  refine ⟨rfl, fun a => ?_, fun a p b hg => ?_⟩
  · rw [PitRecord.setOffer, Table.get?_insert]
    split
    · rename_i ha
      rw [ha, hget]
      exact hf
    · exact .same _
  · rw [PitRecord.setOffer, Table.get?_insert] at hg
    split at hg
    · exact hp p b (Option.some.inj hg)
    · exact hd a p b hg

theorem PitAdvances.erase (hd : OffersDated nowS pit) (hget : pit.offers.get? appliance = some offer)
    (hp : offer.pending = true) :
    PitAdvances nowS pit { pit with offers := pit.offers.erase appliance } := by
  refine ⟨rfl, fun a => ?_, fun a p b hg => ?_⟩
  · rw [Table.get?_erase]
    split
    · rename_i ha
      rw [ha, hget]
      exact .ended hp trivial
    · exact .same _
  · rw [Table.get?_erase] at hg
    split at hg
    · cases hg
    · exact hd a p b hg

theorem settle_advances {request : CheckinRequest} {head : Option ReportedHead}
    (hd : OffersDated nowS pit) : PitAdvances nowS pit (settle pit appliance request head nowS).1 := by
  unfold settle
  split
  · exact .refl hd
  · rename_i offer hget
    split
    · exact .refl hd
    · rename_i hpending
      have hp : offer.pending = true := by simpa using hpending
      split
      · exact .setOffer hd hget (.ended hp rfl) (by simp)
      · split
        · exact .setOffer hd hget (.ended hp rfl) (by simp)
        · split
          · exact .refl hd
          · rename_i bytes _
            -- The transfers report bytes: a claim that has more already stays as it is.
            cases offer with
            | open_ offeredS => exact .setOffer hd hget .claimed (by simp)
            | claimed progressS before =>
              have hprog : progressS ≤ nowS := hd _ _ _ hget
              by_cases hle : bytes ≤ before
              · simp only [hle, if_true]
                exact .setOffer hd hget (.same _) (by simp [hprog])
              · simp only [hle, if_false]
                exact .setOffer hd hget (.moved hprog (by omega)) (by simp)
            | published => cases hp
            | failed => cases hp

theorem claim_advances {settings : BackupSettings} {new : PitRecord} (hd : OffersDated nowS pit)
    (h : claim pit appliance nowS settings = .ok (some new)) : PitAdvances nowS pit new := by
  unfold claim at h
  split at h
  · cases h
  · rename_i offer _ hget
    split at h
    · split at h
      · obtain rfl := Option.some.inj (Except.ok.inj h)
        exact .setOffer hd hget .claimed (by simp)
      · cases h
    · cases h
  · cases h

end

theorem checkinPits_eq_map {vm appliance : Uuid} {request : CheckinRequest} {nowS : Int}
    {pits : List PitRecord} : ∃ f : PitRecord → PitRecord,
      (checkinPits vm appliance request nowS pits).1 = pits.map f ∧
        ∀ pit, OffersDated nowS pit → PitAdvances nowS pit (f pit) := by
  unfold checkinPits
  cases hhead : reportedHead request vm with
  | none =>
    refine ⟨fun pit => (settle pit appliance request none nowS).1, ?_, fun pit hd => settle_advances hd⟩
    simp [List.map_map, Function.comp_def]
  | some head =>
    dsimp only
    unfold superseded
    split
    · refine ⟨fun pit => (settle pit appliance request (some head) nowS).1, ?_,
        fun pit hd => settle_advances hd⟩
      simp [List.map_map, Function.comp_def]
    · rename_i newest hnewest
      refine ⟨fun pit =>
        let settled := (settle pit appliance request (some head) nowS).1
        if settled.branchUuid = head.branchUuid && settled.takenS < newest.takenS &&
            (settled.offers.get? appliance).any (·.pending) then
          { settled with offers := settled.offers.erase appliance }
        else settled, ?_, fun pit hd => ?_⟩
      · simp [List.map_map, Function.comp_def]
      · have hset := @settle_advances nowS pit appliance request (some head) hd
        dsimp only
        split
        · rename_i hdrop
          simp only [Bool.and_eq_true] at hdrop
          obtain ⟨offer, hget, hp⟩ := (Option.any_eq_true _ _).mp hdrop.2
          exact hset.trans (.erase hset.dated hget hp)
        · exact hset

theorem find?_map {pits : List PitRecord} {f : PitRecord → PitRecord}
    (hf : ∀ p ∈ pits, (f p).pitUuid = p.pitUuid) (id : Uuid) :
    (pits.map f).find? (·.pitUuid = id) = (pits.find? (·.pitUuid = id)).map f := by
  induction pits with
  | nil => rfl
  | cons p rest ih =>
    have hp := hf p (List.mem_cons_self ..)
    rw [List.map_cons, List.find?_cons, List.find?_cons, hp,
      ih fun q hq => hf q (List.mem_cons_of_mem _ hq)]
    split <;> rfl

/-- The stored PITs have different UUIDs, and their offers' progress is behind the clock. -/
structure Catalog.Ok (c : Catalog) : Prop where
  dated : ∀ pit ∈ c.pits, OffersDated c.nowS pit
  unique : c.pits.Pairwise (·.pitUuid ≠ ·.pitUuid)

theorem Catalog.Ok.eq_of_pitUuid {c : Catalog} (h : c.Ok) {p q : PitRecord} (hp : p ∈ c.pits)
    (hq : q ∈ c.pits) (heq : p.pitUuid = q.pitUuid) : p = q := by
  have hsymm : Std.Symm fun p q : PitRecord => p.pitUuid ≠ q.pitUuid := ⟨fun _ _ h => h.symm⟩
  by_contra hne
  exact h.unique.forall hp hq hne heq

/-- Each PIT of `c` is still in `c'`, as far or farther. -/
def Catalog.Follows (c c' : Catalog) : Prop :=
  ∀ id pit, c.pits.find? (·.pitUuid = id) = some pit →
    ∃ pit', c'.pits.find? (·.pitUuid = id) = some pit' ∧ PitAdvances c'.nowS pit pit'

theorem Catalog.Ok.later {c : Catalog} (h : c.Ok) (hle : c.nowS ≤ nowS) :
    Catalog.Ok ⟨nowS, c.pits⟩ ∧ c.Follows ⟨nowS, c.pits⟩ := by
  have hd : ∀ p ∈ c.pits, OffersDated nowS p := fun p hp => (h.dated p hp).mono hle
  exact ⟨⟨hd, h.unique⟩, fun id p hp => ⟨p, hp, .refl (hd p (List.mem_of_find?_eq_some hp))⟩⟩

theorem Catalog.Ok.map {c : Catalog} {nowS : Int} {f : PitRecord → PitRecord} (h : c.Ok)
    (hf : ∀ p ∈ c.pits, PitAdvances nowS p (f p)) :
    Catalog.Ok ⟨nowS, c.pits.map f⟩ ∧ c.Follows ⟨nowS, c.pits.map f⟩ := by
  refine ⟨⟨fun p hp => ?_, ?_⟩, fun id pit hfind =>
    ⟨f pit, ?_, hf pit (List.mem_of_find?_eq_some hfind)⟩⟩
  · obtain ⟨q, hq, rfl⟩ := List.mem_map.mp hp
    exact (hf q hq).dated
  · refine List.pairwise_map.mpr (h.unique.imp_of_mem fun {p q} hp hq hne => ?_)
    rw [(hf p hp).pitUuid, (hf q hq).pitUuid]
    exact hne
  · show (c.pits.map f).find? (·.pitUuid = id) = some (f pit)
    rw [find?_map fun p hp => (hf p hp).pitUuid, hfind, Option.map_some]

theorem storeChanged_eq_map {pits : List PitRecord} {f : PitRecord → PitRecord}
    {stores : Uuid → Bool} : storeChanged pits (pits.map f) stores =
      pits.map fun pit =>
        if stores pit.pitUuid then { f pit with revision := pit.revision + 1 } else pit := by
  rw [storeChanged, List.zipWith_map_right]
  exact List.zipWith_self

section

variable {vm : Uuid} {settings : BackupSettings} {c c' : Catalog}

theorem CatalogStep.follows {e : CatalogEvent} (h : CatalogStep vm settings c e c') (hok : c.Ok) :
    c'.Ok ∧ c.Follows c' := by
  cases h with
  | @capture pit hnew hopen =>
    refine ⟨⟨fun p hp => ?_, ?_⟩, fun id p hfind =>
      ⟨p, ?_, .refl (hok.dated p (List.mem_of_find?_eq_some hfind))⟩⟩
    · rcases List.mem_append.mp hp with hp | hp
      · exact hok.dated p hp
      · rw [List.mem_singleton.mp hp]
        intro a s b hg
        obtain ⟨offeredS, ho⟩ := hopen _ (Table.mem_of_get? hg)
        cases ho
    · refine List.pairwise_append.mpr ⟨hok.unique, List.pairwise_singleton _ _, fun p hp q hq => ?_⟩
      rw [List.mem_singleton.mp hq]
      exact hnew p hp
    · show (c.pits ++ [pit]).find? (·.pitUuid = id) = some p
      rw [List.find?_append, hfind, Option.some_or]
  | @checkin appliance request saved nowS hle =>
    obtain ⟨f, hmap, hf⟩ := @checkinPits_eq_map vm appliance request nowS c.pits
    rw [hmap, storeChanged_eq_map]
    refine hok.map fun p hp => ?_
    have hd := (hok.dated p hp).mono hle
    split
    · exact ⟨(hf p hd).pitUuid, (hf p hd).offers, (hf p hd).dated⟩
    · exact .refl hd
  | @claim appliance id saved nowS pit new hle hfind hclaim =>
    cases saved with
    | false => exact hok.later hle
    | true =>
      have hmem := List.mem_of_find?_eq_some hfind
      have hadv := claim_advances ((hok.dated pit hmem).mono hle) hclaim
      refine hok.map fun p hp => ?_
      split
      · rename_i heq
        -- Only the claimed PIT has its UUID.
        obtain rfl : p = pit := hok.eq_of_pitUuid hp hmem (heq.trans hadv.pitUuid)
        exact ⟨hadv.pitUuid, hadv.offers, hadv.dated⟩
      · exact .refl ((hok.dated p hp).mono hle)
  | refused hle => exact hok.later hle

theorem Catalog.Follows.refl (hok : c.Ok) : c.Follows c :=
  fun _ p hp => ⟨p, hp, .refl (hok.dated p (List.mem_of_find?_eq_some hp))⟩

theorem Catalog.Follows.trans {c'' : Catalog} (h : c.Follows c') (h' : c'.Follows c'') :
    c.Follows c'' := by
  intro id pit hfind
  obtain ⟨pit', hfind', hadv⟩ := h id pit hfind
  obtain ⟨pit'', hfind'', hadv'⟩ := h' id pit' hfind'
  exact ⟨pit'', hfind'', hadv.trans hadv'⟩

theorem follows_of_run {events : List CatalogEvent}
    (h : Run (CatalogStep vm settings) c events c') (hok : c.Ok) : c'.Ok ∧ c.Follows c' := by
  induction h with
  | nil => exact ⟨hok, .refl hok⟩
  | cons hs _ ih =>
    obtain ⟨hok', hfol⟩ := hs.follows hok
    obtain ⟨hok'', hfol'⟩ := ih hok'
    exact ⟨hok'', hfol.trans hfol'⟩

/-- Between any two moments of a run, each appliance's offer of a PIT moves only forward: from
open to claimed, in a claim to later progress and more bytes, and from either to its end, where it
stays. -/
theorem offers_move_forward {start : Int} {before after : List CatalogEvent}
    (h : Run (CatalogStep vm settings) ⟨start, []⟩ before c)
    (h' : Run (CatalogStep vm settings) c after c') {id : Uuid} {pit : PitRecord}
    (hfind : c.pits.find? (·.pitUuid = id) = some pit) (appliance : Uuid) :
    ∃ pit', c'.pits.find? (·.pitUuid = id) = some pit' ∧
      Forward (pit.offers.get? appliance) (pit'.offers.get? appliance) := by
  have hok : Catalog.Ok ⟨start, []⟩ := ⟨by simp, List.Pairwise.nil⟩
  obtain ⟨pit', hfind', hadv⟩ := (follows_of_run h' (follows_of_run h hok).1).2 id pit hfind
  exact ⟨pit', hfind', hadv.offers appliance⟩

end

/-! ### A pull that is over before its claim -/

def offeredPit : PitRecord where
  revision := 1
  pitUuid := 10
  vmUuid := 7
  branchUuid := 11
  parent := none
  name := ⟨"bmac-pit-19700101T000000Z-a1b2c3", 0⟩
  takenS := 0
  consistency := .crash
  manifest := ""
  presence := .snapshot
  offers := [(5, .open_ 0)]
  releaseBlocked := none

def headCheckin : CheckinRequest where
  applianceUuid := 5
  version := "3.0"
  locked := false
  progress := .normal
  heads := [⟨7, 11, 10⟩]
  transfers := []
  failed := []
  indexRevision := 0

def publishedPit : PitRecord := { offeredPit with revision := 2, offers := [(5, .published)] }

theorem step_offered : CatalogStep 7 .default ⟨0, []⟩ (.capture offeredPit) ⟨0, [offeredPit]⟩ :=
  .capture (by simp) (by simp [offeredPit])

theorem step_published : CatalogStep 7 .default ⟨0, [offeredPit]⟩
    (.checkin 5 headCheckin (fun _ => true) 60) ⟨60, [publishedPit]⟩ :=
  .checkin (by decide)

theorem offers_move_forward_head : ∃ pit', [publishedPit].find? (·.pitUuid = 10) = some pit' ∧
    Forward (offeredPit.offers.get? 5) (pit'.offers.get? 5) :=
  offers_move_forward (.single step_offered) (.single step_published) rfl 5

/-- The moves open to claimed, within a claim, and claimed to an end. -/
inductive Stepwise : Option Offer → Option Offer → Prop where
  | same (o : Option Offer) : Stepwise o o
  | claimed {offeredS progressS : Int} {bytes : Nat} :
      Stepwise (some (.open_ offeredS)) (some (.claimed progressS bytes))
  | moved {progressS progressS' : Int} {bytes bytes' : Nat} : progressS ≤ progressS' →
      bytes ≤ bytes' → Stepwise (some (.claimed progressS bytes)) (some (.claimed progressS' bytes'))
  | ended {progressS : Int} {bytes : Nat} {o : Option Offer} : Ended o →
      Stepwise (some (.claimed progressS bytes)) o

/-- A check-in that names the PIT as the appliance's head ends an offer that was never claimed. -/
theorem not_offers_move_stepwise : ¬ ∀ (vm : Uuid) (settings : BackupSettings) (start : Int)
    (before : List CatalogEvent) (e : CatalogEvent) (c c' : Catalog) (id appliance : Uuid)
    (pit pit' : PitRecord), Run (CatalogStep vm settings) ⟨start, []⟩ before c →
    CatalogStep vm settings c e c' → c.pits.find? (·.pitUuid = id) = some pit →
    c'.pits.find? (·.pitUuid = id) = some pit' →
    Stepwise (pit.offers.get? appliance) (pit'.offers.get? appliance) := by
  intro h
  have hs : Stepwise (some (.open_ 0)) (some .published) :=
    h 7 .default 0 _ _ _ _ 10 5 offeredPit publishedPit (.single step_offered) step_published rfl rfl
  cases hs

end Bmac.Bmacd
