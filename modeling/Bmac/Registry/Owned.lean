import Bmac.Registry.Valid

/-!
# Install records and their guests

`release` removes a guest's file before its orchestration record. Stopped in between, it leaves a
record with which no later guest of that name can start an install or be released; as long as that
doesn't happen, each record is its guest's (`Owned`), and each production guest can do both.
-/

namespace Bmac.Registry

open Bmac.Base Bmac.Core

variable {py : Python} {digests : Digests} {reg : Registry} {policy : Policy}

/-- Each orchestration record is valid, and one of the registered production guest of its name. -/
def Owned (reg : Registry) : Prop :=
  ∀ name record, reg.orchestrationFiles.get? name = some record →
    validateOrchestration record = .ok () ∧
    ∃ r, reg.resourceFiles.get? name = some r ∧ r.kind = .production ∧ r.id = record.resourceId

/-! ## File operations -/

def historyOps (reg : Registry) (r : Resource) (forced : Bool) (clock : Int) (entropy : Uuid) :
    List Op :=
  reg.pruneHistory (maxHistoryRecords - 1) ++
    [.writeHistory (historyName (utcNow clock) r.name.text entropy)
      (.release (utcNow clock) forced r)]

theorem archiveOps_eq (reg : Registry) (r : Resource) (forced : Bool) (clock : Int)
    (entropy : Uuid) : archiveOps reg r forced clock entropy =
      historyOps reg r forced clock entropy ++ [.removeResource r.name] :=
  List.append_cons ..

theorem history_side (reg : Registry) (r : Resource) (forced : Bool) (clock : Int) (entropy : Uuid) :
    ∀ op ∈ historyOps reg r forced clock entropy, op.isSide := by
  intro op hop
  rcases List.mem_append.mp hop with hop | hop
  · exact pruneHistory_side _ op hop
  · obtain rfl := List.mem_singleton.mp hop
    rfl

namespace Owned

variable {op : Op} {ops : List Op} {r : Resource} {name : GuestName}

/-- Operations on neither guests nor installs. -/
theorem other (h : Owned reg) (hresources : (reg.apply op).resourceFiles = reg.resourceFiles)
    (hinstalls : (reg.apply op).orchestrationFiles = reg.orchestrationFiles) :
    Owned (reg.apply op) := by
  unfold Owned
  rw [hresources, hinstalls]
  exact h

theorem write (h : Owned reg) (hguest : ∀ old, reg.resourceFiles.get? r.name = some old →
    r.kind = old.kind ∧ r.id = old.id) : Owned (reg.apply (.writeResource r)) := by
  intro name record hrecord
  obtain ⟨hvalid, old, hold, hkind, hid⟩ := h name record hrecord
  simp only [apply, Table.get?_insert]
  split
  · rename_i hname
    subst hname
    obtain ⟨hsame, hsameId⟩ := hguest old hold
    exact ⟨hvalid, r, rfl, hsame.trans hkind, hsameId.trans hid⟩
  · exact ⟨hvalid, old, hold, hkind, hid⟩

theorem removeResource (h : Owned reg) (hnone : reg.orchestrationFiles.get? name = none) :
    Owned (reg.apply (.removeResource name)) := by
  intro other record hrecord
  have hne : other ≠ name := by
    rintro rfl
    rw [show reg.orchestrationFiles.get? other = some record from hrecord] at hnone
    cases hnone
  simp only [apply, Table.get?_erase, if_neg hne]
  exact h other record hrecord

theorem removeOrchestration (h : Owned reg) (name : GuestName) :
    Owned (reg.apply (.removeOrchestration name)) := by
  intro other record hrecord
  simp only [apply, Table.get?_erase] at hrecord
  split at hrecord
  · cases hrecord
  · exact h other record hrecord

/-- The two removals of a release. -/
theorem removeBoth (h : Owned reg) (name : GuestName) :
    Owned ((reg.apply (.removeResource name)).apply (.removeOrchestration name)) := by
  intro other record hrecord
  simp only [apply, Table.get?_erase] at hrecord ⊢
  split at hrecord
  · cases hrecord
  · rename_i hne
    rw [if_neg hne]
    exact h other record hrecord

theorem writeOrchestration (h : Owned reg) {record : Orchestration}
    (hvalid : validateOrchestration record = .ok ()) (hr : reg.resourceFiles.get? name = some r)
    (hkind : r.kind = .production) (hid : record.resourceId = r.id) :
    Owned (reg.apply (.writeOrchestration name record)) := by
  intro other found hfound
  simp only [apply, Table.get?_insert] at hfound
  split at hfound
  · rename_i hname
    obtain rfl := Option.some.inj hfound
    subst hname
    exact ⟨hvalid, r, hr, hkind, hid.symm⟩
  · exact h other found hfound

theorem side (h : Owned reg) (hop : op.isSide) : Owned (reg.apply op) :=
  h.other (apply_side hop).resources (apply_side hop).installs

theorem through_side (h : Owned reg) (hops : ∀ op ∈ ops, op.isSide) :
    Through apply Owned reg ops :=
  .of_step h fun op hop _ hs => hs.side (hops op hop)

theorem append_side {ops' : List Op} (h : Through apply Owned reg ops)
    (hops : ∀ op ∈ ops', op.isSide) : Through apply Owned reg (ops ++ ops') :=
  h.append (h.finish.through_side hops)

/-- A guest without an install goes. -/
theorem archive (h : Owned reg) (hnone : reg.orchestrationFiles.get? r.name = none) (forced : Bool)
    (clock : Int) (entropy : Uuid) :
    Through apply Owned reg (archiveOps reg r forced clock entropy) := by
  have hside := history_side reg r forced clock entropy
  have hhistory := h.through_side hside
  rw [archiveOps_eq]
  refine hhistory.append (.single hhistory.finish (hhistory.finish.removeResource ?_))
  rw [(foldl_side hside).installs]
  exact hnone

/-- A release, at every point but between its two removals. -/
theorem release (h : Owned reg) {force : Bool} {later : Int} {entropy : Uuid} {removed : List Op}
    (hremoved : ∀ op ∈ removed, op.isSide) {k : Nat}
    (hk : ¬ (k = (reg.pruneHistory (maxHistoryRecords - 1)).length + 2 ∧
      (reg.orchestrationFiles.get? r.name).isSome)) :
    Owned (reg.applyAll ((archiveOps reg r force later entropy ++
      (.removeOrchestration r.name :: removed)).take k)) := by
  cases hget : reg.orchestrationFiles.get? r.name with
  | none =>
    have harchive := h.archive hget force later entropy
    refine (harchive.append (through_cons.mpr ⟨harchive.finish, ?_⟩)) k
    exact (harchive.finish.removeOrchestration _).through_side hremoved
  | some record =>
    have hhistory := h.through_side (history_side reg r force later entropy)
    rw [archiveOps_eq, List.append_assoc]
    refine hhistory.skip ((hhistory.finish.removeBoth r.name).through_side hremoved) ?_
    have hlength : (historyOps reg r force later entropy).length =
        (reg.pruneHistory (maxHistoryRecords - 1)).length + 1 := List.length_append
    rw [hlength]
    exact fun heq => hk ⟨heq, by rw [hget]; rfl⟩

end Owned

/-! ## Runs -/

/-- A release that is stopped between the removals of its guest and of the guest's orchestration
record. -/
def Event.leavesRecord (reg : Registry) (e : Event) : Bool :=
  match e.invocation with
  | .release name _ _ _ =>
    e.done = (reg.pruneHistory (maxHistoryRecords - 1)).length + 2 &&
      (reg.orchestrationFiles.get? name).isSome
  | _ => false

theorem owned_empty : Owned {} := fun _ _ h => by cases h

theorem Owned.writeAll (h : Owned reg) {written : List Resource}
    (hall : ∀ r ∈ written, ∀ old, reg.resourceFiles.get? r.name = some old →
      r.kind = old.kind ∧ r.id = old.id) (hn : (written.map (·.name)).Nodup) :
    Through apply Owned reg (written.map .writeResource) := by
  induction written generalizing reg with
  | nil => exact through_nil.mpr h
  | cons r written ih =>
    obtain ⟨hr, hn⟩ := List.nodup_cons.mp hn
    refine through_cons.mpr ⟨h, ih (h.write (hall r (by simp))) (fun s hs old hold => ?_) hn⟩
    have hne : s.name ≠ r.name := fun heq => hr (List.mem_map.mpr ⟨s, hs, heq⟩)
    simp only [apply, Table.get?_insert, if_neg hne] at hold
    exact hall s (List.mem_cons_of_mem _ hs) old hold

theorem Owned.point (h : Owned reg) (hsound : Sound py policy reg) {i : Invocation}
    {ops : List Op} (heffect : Effect py digests policy reg i ops) {clock : Int} {k : Nat}
    (hk : Event.leavesRecord reg ⟨i, clock, k⟩ = false) : Owned (reg.applyAll (ops.take k)) := by
  have hwrote : ∀ r, .writeResource r ∈ ops → ∀ old, reg.resourceFiles.get? r.name = some old →
      r.kind = old.kind ∧ r.id = old.id := by
    intro r hr old hold
    cases hsound.wrote heffect hr with
    | new absent =>
      rw [absent] at hold
      cases hold
    | next present guest =>
      obtain rfl := Option.some.inj (hold.symm.trans present)
      exact ⟨guest.kind, guest.id⟩
  cases heffect with
  | idle =>
    rw [List.take_nil]
    exact h
  | register => exact Through.single h (h.write (hwrote _ (by simp))) k
  | save => exact Through.single h (h.write (hwrote _ (by simp))) k
  | release hrs hr hfree hprune => exact h.release (pruneCompletedCleanup_side hprune) (by simpa [Event.leavesRecord] using hk)
  | @finalize entropy clock rs r removed hfinal hprune =>
    have hnone : reg.orchestrationFiles.get? r.name = none := by
      cases hget : reg.orchestrationFiles.get? r.name with
      | none => rfl
      | some record =>
        obtain ⟨-, found, hfound, hkind, -⟩ := h _ _ hget
        rw [(hsound.mem_iff hfinal.resources).mp hfinal.mem] at hfound
        obtain rfl := Option.some.inj hfound
        rw [hfinal.kind] at hkind
        cases hkind
    have harchive := h.archive hnone false clock entropy
    exact append_side harchive (pruneCompletedCleanup_side hprune) k
  | prune hrs hprune => exact h.through_side (pruneCompletedCleanup_side hprune) k
  | defer hrs hr hdefers => exact h.through_side hdefers.side k
  | reconcile hrs hcs hn hall hpruned =>
    refine append_side (h.writeAll (fun r hr => hwrote r ?_) hn) (fun op hop => ?_) k
    · exact List.mem_append_left _ (List.mem_map_of_mem hr)
    · rcases List.mem_append.mp hop with hop | hop
      · obtain ⟨c, -, rfl⟩ := List.mem_map.mp hop
        rfl
      · obtain ⟨c, rfl, -⟩ := hpruned op hop
        rfl
  | orchestrate hops =>
    rcases hops with rfl | ⟨rs, r, record, hrs, hr, hkind, hid, hvalid, rfl⟩
    · rw [List.take_nil]
      exact h
    · have hget := (hsound.mem_iff hrs).mp hr
      exact Through.single h (h.writeOrchestration hvalid hget hkind hid) k
  | ingress hop => exact Through.single h (h.side (Op.side_of_isIngress hop)) k
  | members =>
    refine Through.of_step h (fun op hop _ hs => ?_) k
    obtain ⟨slot, -, rfl⟩ := List.mem_map.mp hop
    exact hs.other rfl rfl
  | reserve => exact Through.single h (h.other rfl rfl) k
  | free =>
    refine Through.of_step h (fun op hop _ hs => ?_) k
    rcases List.mem_append.mp hop with hop | hop
    · exact hs.side (pruneHistory_side _ op hop)
    · rcases List.mem_pair.mp hop with rfl | rfl
      · exact hs.other rfl rfl
      · exact hs.other rfl rfl
  | control => exact Through.single h (h.other rfl rfl) k

theorem Owned.bare (h : Owned reg) (hbare : Bare reg) {i : Invocation} {clock : Int}
    {ops : List Op} (hops : i.ops py digests reg clock = .ok ops) :
    Through apply Owned reg ops := by
  rcases hbare.ops hops with rfl | ⟨policy, -, rfl⟩ | ⟨op, hingress, rfl⟩
  · exact through_nil.mpr h
  · exact .single h (h.other rfl rfl)
  · exact .single h (h.side (Op.side_of_isIngress hingress))

theorem Owned.after (h : Owned reg) (hvalid : Valid py reg) {e : Event}
    (he : e.leavesRecord reg = false) : Owned (e.after py digests reg) := by
  unfold Event.after
  cases hops : e.invocation.ops py digests reg e.clock with
  | error message => exact h
  | ok ops =>
    rcases hvalid with hbare | ⟨policy, hsound⟩
    · exact h.bare hbare hops e.done
    · exact h.point hsound (hsound.effect hops) he

/-! ## Installing and releasing a guest -/

/-- Arguments that `orchestration-acquire` takes. -/
structure AcquireArgs.Valid (py : Python) (args : AcquireArgs) : Prop where
  nonce : isHexText 32 args.nonce
  owner : isSafeId args.owner
  ttl : 60 ≤ args.ttlSeconds ∧ args.ttlSeconds ≤ 172800
  startup : ∀ sha, (args.startup py).startupSha256 = some sha → isSha256 sha
  source : isSha256 (args.source py).sourceIsoSha256

def ownRecord (reg : Registry) (r : Resource) : Option Orchestration :=
  (reg.orchestrationFiles.get? r.name).filter (·.resourceId = r.id)

/-- What a guest's record must allow at a time: no unexpired lease of another nonce, the same
contract; and the record isn't of a later time. -/
structure Allows (py : Python) (record : Orchestration) (args : AcquireArgs) (now : Int) : Prop where
  lease : ∀ lease, record.lease = some lease → lease.nonce = args.nonce ∨ lease.expiresAt ≤ now
  startup : ∀ c, record.startup = some c → c = args.startup py
  source : ∀ c, record.source = some c → c = args.source py
  created : record.createdAt ≤ now

/-- A guest can acquire an orchestration lease. -/
def CanAcquire (py : Python) (reg : Registry) (r : Resource) : Prop :=
  ∀ args clock, AcquireArgs.Valid py args →
    (∀ record, ownRecord reg r = some record → Allows py record args (utcNow clock)) →
    ∃ out, orchestrationAcquire py reg r.name args clock = .ok out

/-- A guest can be released once its state, its metadata and its dependents allow it. -/
def CanRelease (py : Python) (reg : Registry) (rs : List Resource) (r : Resource) : Prop :=
  ∀ force now later entropy cs, reg.cleanupRecords = .ok cs → checkReleasable rs cs r = .ok () →
    (force = true ∨ checkClear r = .ok ()) →
    (∀ record lease, ownRecord reg r = some record → record.lease = some lease →
      lease.expiresAt ≤ now) →
    ∃ out, release py reg r.name force now later entropy = .ok out

variable {r : Resource} {rs : List Resource}

theorem Owned.ownRecord_eq (h : Owned reg) (hsound : Sound py policy reg)
    (hrs : reg.resources py = .ok rs) (hr : r ∈ rs) :
    ownRecord reg r = reg.orchestrationFiles.get? r.name ∧
      ∀ record, reg.orchestrationFiles.get? r.name = some record →
        validateOrchestration record = .ok () ∧ record.resourceId = r.id := by
  have hget := (hsound.mem_iff hrs).mp hr
  have hall : ∀ record, reg.orchestrationFiles.get? r.name = some record →
      validateOrchestration record = .ok () ∧ record.resourceId = r.id := by
    intro record hrecord
    obtain ⟨hvalid, found, hfound, -, hid⟩ := h _ _ hrecord
    obtain rfl := Option.some.inj (hget.symm.trans hfound)
    exact ⟨hvalid, hid.symm⟩
  refine ⟨?_, hall⟩
  unfold ownRecord
  cases hf : reg.orchestrationFiles.get? r.name with
  | none => rfl
  | some record => simp [(hall record hf).2]

theorem Owned.canRelease (h : Owned reg) (hsound : Sound py policy reg)
    (hrs : reg.resources py = .ok rs) (hr : r ∈ rs) : CanRelease py reg rs r := by
  intro force now later entropy cs hcs hreleasable hclear hlease
  have hnamed := named_of_mem (consistent_resources hrs).names hr
  obtain ⟨hown, hall⟩ := h.ownRecord_eq hsound hrs hr
  have hcheck : checkReleaseLease reg r now = .ok () := by
    unfold checkReleaseLease
    cases hf : reg.orchestrationFiles.get? r.name with
    | none => rfl
    | some record =>
      obtain ⟨hvalid, hid⟩ := hall record hf
      have hexpired : ¬ record.lease.any (now < ·.expiresAt) := by
        cases hl : record.lease with
        | none => simp
        | some lease => simpa using hlease record lease (hown.trans hf) hl
      simp only [bind_eq_ok, check_eq_ok, last_check_eq_ok, pure_eq_ok, ne_eq, not_not]
      exact ⟨(), hvalid, hid, hexpired, trivial⟩
  have hprune : ∃ removed, reg.pruneCompletedCleanup ((rs.filter (·.id ≠ r.id)).map (·.id)) =
      .ok removed := by
    simp only [pruneCompletedCleanup, hcs, ok_bind]
    exact ⟨_, rfl⟩
  obtain ⟨removed, hprune⟩ := hprune
  refine ⟨⟨archiveOps reg r force later entropy ++ [.removeOrchestration r.name] ++ removed, r.name⟩,
    ?_⟩
  simp only [Registry.release, bind_eq_ok, ofOption_eq_ok]
  refine ⟨policy, hsound.configured, rs, hrs, cs, hcs, r, hnamed, (), hcheck, (), hreleasable, ?_⟩
  cases force with
  | true =>
    simp only [Bool.not_true, Bool.false_eq_true, if_false, bind_eq_ok, pure_eq_ok]
    exact ⟨removed, hprune, rfl⟩
  | false =>
    have hclear := hclear.resolve_left Bool.false_ne_true
    simp only [Bool.not_false, if_true, bind_eq_ok, pure_eq_ok]
    exact ⟨(), hclear, removed, hprune, rfl⟩

theorem acquireRecord_ok {args : AcquireArgs} {record : Orchestration} {now : Int}
    (h : Allows py record args now) : acquireRecord py args r now (some record) =
      .ok { record with
        startup := some (args.startup py), source := some (args.source py)
        revision := record.revision + 1, updatedAt := now } := by
  have hstartup (message : String) :
      keepContract record.startup (args.startup py) message = .ok (some (args.startup py)) := by
    cases hs : record.startup with
    | none => rfl
    | some c => simp [keepContract, h.startup c hs]
  have hsource (message : String) :
      keepContract record.source (args.source py) message = .ok (some (args.source py)) := by
    cases hs : record.source with
    | none => rfl
    | some c => simp [keepContract, h.source c hs]
  cases hl : record.lease with
  | none => simp only [acquireRecord, hl, hstartup, hsource, ok_bind, pure, Except.pure]
  | some lease =>
    have hfree : ¬ (lease.nonce ≠ args.nonce ∧ now < lease.expiresAt) := by
      rintro ⟨hne, hlt⟩
      rcases h.lease lease hl with heq | hle
      · exact hne heq
      · exact absurd hlt (not_lt.mpr hle)
    simp only [acquireRecord, hl, hstartup, hsource, if_neg hfree, ok_bind, pure,
      Except.pure]

theorem validateOrchestration_leased {args : AcquireArgs} {record : Orchestration} {now : Int}
    (hargs : args.Valid py) (hname : isResourceName record.resource)
    (hrevision : 1 ≤ record.revision) (htime : record.createdAt ≤ record.updatedAt)
    (hstartup : record.startup = some (args.startup py))
    (hsource : record.source = some (args.source py)) :
    validateOrchestration { record with
      lease := some ⟨args.nonce, args.owner, now, now + args.ttlSeconds * second⟩ } = .ok () := by
  have hlease : validateLease ⟨args.nonce, args.owner, now, now + args.ttlSeconds * second⟩ =
      .ok () := by
    have hlater : ¬ now + args.ttlSeconds * second ≤ now := by
      have httl := hargs.ttl
      unfold second
      omega
    simp [validateLease, hargs.nonce, validateSafeIdentifier, hargs.owner, hlater]
    rfl
  have hsha : ¬ (args.startup py).startupSha256.any fun sha => !isSha256 sha := by
    cases hs : (args.startup py).startupSha256 with
    | none => simp
    | some sha => simpa using hargs.startup sha hs
  simp only [validateOrchestration, check_eq_ok, hstartup, hsource]
  refine ⟨by simp, by simpa using hname, hsha, by simpa using hargs.source, not_lt.mpr hrevision,
    not_lt.mpr htime, hlease⟩

/-- What `acquireRecord` makes of a guest's record. -/
structure Acquired (py : Python) (args : AcquireArgs) (updated : Orchestration) : Prop where
  name : isResourceName updated.resource
  revision : 1 ≤ updated.revision
  time : updated.createdAt ≤ updated.updatedAt
  startup : updated.startup = some (args.startup py)
  source : updated.source = some (args.source py)

theorem acquireRecord_acquired {args : AcquireArgs} {now : Int}
    {read : Option Orchestration} (hname : isResourceName r.name)
    (hread : ∀ record, read = some record → validateOrchestration record = .ok () ∧
      Allows py record args now) :
    ∃ updated, acquireRecord py args r now read = .ok updated ∧ Acquired py args updated := by
  cases read with
  | none => exact ⟨_, rfl, hname, le_refl _, le_refl _, rfl, rfl⟩
  | some record =>
    obtain ⟨hvalid, hallows⟩ := hread record rfl
    simp only [validateOrchestration, check_eq_ok] at hvalid
    obtain ⟨-, hrecordName, -, -, hrevision, -, -⟩ := hvalid
    refine ⟨_, acquireRecord_ok hallows, ?_, ?_, hallows.created, rfl, rfl⟩
    · simpa using hrecordName
    · show 1 ≤ record.revision + 1
      omega

theorem validateResource_name (h : validateResource py r policy = .ok ()) :
    isResourceName r.name := by
  simp only [validateResource, bind_eq_ok, check_eq_ok] at h
  obtain ⟨_, -, -, -, hname, -⟩ := h
  simpa using hname

theorem Owned.canAcquire (h : Owned reg) (hsound : Sound py policy reg)
    (hrs : reg.resources py = .ok rs) (hr : r ∈ rs) (hkind : r.kind = .production) :
    CanAcquire py reg r := by
  intro args clock hargs hallows
  have hnamed := named_of_mem (consistent_resources hrs).names hr
  obtain ⟨hown, hall⟩ := h.ownRecord_eq hsound hrs hr
  have hresource : orchestrationResource py reg r.name = .ok r := by
    simp only [orchestrationResource, hrs, ok_bind]
    rw [show rs.find? (·.name = r.name) = some r from hnamed]
    simp only [hkind]
    rfl
  have hread : readOrchestration reg r = .ok (reg.orchestrationFiles.get? r.name) := by
    unfold readOrchestration
    cases hf : reg.orchestrationFiles.get? r.name with
    | none => rfl
    | some record =>
      obtain ⟨hvalid, hid⟩ := hall record hf
      simp only [hvalid, ok_bind, hid, ne_eq, not_true_eq_false, if_false]
      rfl
  have hname : isResourceName r.name :=
    validateResource_name (hsound.valid _ (Table.mem_of_get? ((hsound.mem_iff hrs).mp hr))).1
  obtain ⟨updated, hupdated, hacquired⟩ := acquireRecord_acquired hname fun record hrecord =>
    ⟨(hall record hrecord).1, hallows record (hown.trans hrecord)⟩
  have hvalid := @validateOrchestration_leased _ _ _ (utcNow clock) hargs hacquired.name
    hacquired.revision hacquired.time hacquired.startup hacquired.source
  have hsha : ¬ (args.startup py).startupSha256.any fun sha => !isSha256 sha := by
    cases hs : (args.startup py).startupSha256 with
    | none => simp
    | some sha => simpa using hargs.startup sha hs
  have howner : validateSafeIdentifier args.owner "orchestration lease owner" = .ok args.owner := by
    simp only [validateSafeIdentifier, hargs.owner]
    rfl
  simp only [orchestrationAcquire, bind_eq_ok, check_eq_ok, pure_eq_ok]
  refine ⟨_, by simp [hargs.nonce], _, howner, ?_, hsha, by simp [hargs.source], r, hresource, _,
    hread, updated, hupdated, (), hvalid, rfl⟩
  have httl := hargs.ttl
  omega

/-- No orchestration record keeps a production guest from being installed or released. -/
def NotWedged (py : Python) (reg : Registry) : Prop :=
  ∀ rs, reg.resources py = .ok rs → ∀ r ∈ rs, r.kind = .production →
    CanAcquire py reg r ∧ CanRelease py reg rs r

/-- A step, unless it is a release that leaves its guest's orchestration record. -/
def cleanStep (py : Python) (digests : Digests) (reg : Registry) (e : Event) (reg' : Registry) :
    Prop :=
  step py digests reg e reg' ∧ e.leavesRecord reg = false

theorem run_owned {events : List Event} (h : Run (cleanStep py digests) {} events reg) :
    Valid py reg ∧ Owned reg := by
  refine Run.invariant (I := fun reg => Valid py reg ∧ Owned reg) ?_ h
    ⟨.inl bare_empty, owned_empty⟩
  rintro reg e _ ⟨hvalid, howned⟩ ⟨hstep, he⟩
  obtain rfl := hstep
  exact ⟨hvalid.after e, howned.after hvalid he⟩

/-- When no release stops between its removals of a guest and of the guest's orchestration record,
no record of an earlier guest makes an acquisition or a release of a later one fail. -/
theorem releases_leave_names {events : List Event} (h : Run (cleanStep py digests) {} events reg) :
    NotWedged py reg := by
  intro rs hrs r hr hkind
  obtain ⟨hvalid, howned⟩ := run_owned h
  rcases hvalid with hbare | ⟨policy, hsound⟩
  · rw [hbare.resources_error] at hrs
    cases hrs
  · exact ⟨howned.canAcquire hsound hrs hr hkind, howned.canRelease hsound hrs hr⟩

def allClean (py : Python) (digests : Digests) : Registry → List Event → Bool
  | _, [] => true
  | reg, e :: events =>
    !e.leavesRecord reg && allClean py digests (e.after py digests reg) events

theorem run_clean {events : List Event} (h : allClean py digests reg events) :
    Run (cleanStep py digests) reg events (afterAll py digests reg events) := by
  induction events generalizing reg with
  | nil => exact .nil reg
  | cons e events ih =>
    simp only [allClean, Bool.and_eq_true, Bool.not_eq_true'] at h
    exact .cons ⟨rfl, h.1⟩ (ih h.2)

/-- `prod1` gets a lease, gives it back and is released, which stops after `done` file operations;
then a new guest gets its name. -/
def reusedName (done : Nat) : List Event :=
  [completed (.init smallInit 0), completed (.allocateProd smallProd 1),
    completed (.orchestrationAcquire (.production 1) (smallAcquire '0')),
    completed (.orchestrationRelease (.production 1) (smallAcquire '0').nonce),
    ⟨.release (.production 1) false 0 0, 0, done⟩, completed (.allocateProd smallProd 2)]

theorem releases_leave_names_small :
    NotWedged smallPython (afterAll smallPython smallDigests {} (reusedName 100)) :=
  releases_leave_names (run_clean (by decide +kernel))

/-- A guest that has no record and can't get one. -/
theorem not_notWedged {reg : Registry} (h : (reg.resources smallPython).toOption.any fun rs => rs.any fun r =>
    r.kind = .production && (ownRecord reg r).isNone &&
      (orchestrationAcquire smallPython reg r.name (smallAcquire '0') 0).toOption.isNone) :
    ¬ NotWedged smallPython reg := by
  intro hnot
  obtain ⟨rs, hrs, hany⟩ := ok_of_toOption_any h
  simp only [List.any_eq_true, Bool.and_eq_true, decide_eq_true_eq, Option.isNone_iff_eq_none] at hany
  obtain ⟨r, hr, ⟨hkind, hown⟩, hfails⟩ := hany
  have hargs : AcquireArgs.Valid smallPython (smallAcquire '0') :=
    ⟨by decide +kernel, by decide +kernel, by decide +kernel, by decide +kernel, by decide +kernel⟩
  obtain ⟨out, hout⟩ := (hnot rs hrs r hr hkind).1 (smallAcquire '0') 0 hargs fun record hrecord => by
    rw [hown] at hrecord
    cases hrecord
  rw [hout] at hfails
  cases hfails

/-- A release that stops after it removed the guest's file leaves the orchestration record, and the
next guest of that name can't be installed. -/
theorem interrupted_release_wedges : ¬ ∀ events reg,
    Run (step smallPython smallDigests) {} events reg → NotWedged smallPython reg := by
  intro h
  exact @not_notWedged (afterAll smallPython smallDigests {} (reusedName 2)) (by decide +kernel)
    (h _ _ (run_afterAll smallPython smallDigests {} (reusedName 2)))

end Bmac.Registry
