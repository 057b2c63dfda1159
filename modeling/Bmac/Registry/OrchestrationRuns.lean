import Bmac.Base.Run
import Bmac.Registry.Orchestration

/-!
# Runs of install orchestration

One guest's lease and phase over any sequence of its three commands, whoever calls them: a lease is
taken over only when it was given back or had expired, an installed guest isn't installed again, and
its contract stays.
-/

namespace Bmac.Registry

open Bmac.Base Bmac.Core

variable {py : Python} {reg : Registry} {name : GuestName} {resource : Resource}
  {record : Orchestration}

/-! ## What each command does -/

theorem orchestrationResource_name (h : orchestrationResource py reg name = .ok resource) :
    resource.name = name := by
  simp only [orchestrationResource, bind_eq_ok] at h
  obtain ⟨rs, -, h⟩ := h
  cases hf : rs.find? (·.name = name) with
  | none => simp [hf, throw_ne_ok] at h
  | some r =>
    simp only [hf, check_eq_ok, pure_eq_ok] at h
    exact h.2 ▸ by simpa using List.find?_some hf

theorem readOrchestration_eq_ok {read : Option Orchestration}
    (h : readOrchestration reg resource = .ok read) :
    read = reg.orchestrationFiles.get? resource.name := by
  unfold readOrchestration at h
  cases hf : reg.orchestrationFiles.get? resource.name with
  | none => simpa [hf] using h.symm
  | some record =>
    simp only [hf, bind_eq_ok, check_eq_ok, pure_eq_ok] at h
    obtain ⟨_, -, -, rfl⟩ := h
    rfl

theorem requireOrchestration_eq_ok (h : requireOrchestration py reg name = .ok record) :
    reg.orchestrationFiles.get? name = some record := by
  simp only [requireOrchestration, bind_eq_ok, ofOption_eq_ok] at h
  obtain ⟨resource, hres, read, hread, rfl⟩ := h
  rw [← orchestrationResource_name hres, ← readOrchestration_eq_ok hread]

theorem keepContract_eq_ok {α : Type} [DecidableEq α] {recorded kept : Option α} {asked : α}
    {message : String} (h : keepContract recorded asked message = .ok kept) {c : α}
    (hc : recorded = some c) : kept = some c := by
  subst hc
  simp only [keepContract] at h
  split at h
  · cases h
  · simpa using h.symm

/-- What a command keeps of a record. -/
structure Continues (old new : Orchestration) : Prop where
  phase : new.installPhase = old.installPhase
  startup : ∀ c, old.startup = some c → new.startup = some c
  source : ∀ c, old.source = some c → new.source = some c

variable {out : Outcome Orchestration}

theorem orchestrationAcquire_eq_ok {args : AcquireArgs} {clock : Int}
    (h : orchestrationAcquire py reg name args clock = .ok out) :
    ∃ new lease, out.ops = [.writeOrchestration name new] ∧ new.lease = some lease ∧
      lease.nonce = args.nonce ∧
      (∀ old, reg.orchestrationFiles.get? name = some old → Continues old new ∧
        ∀ l, old.lease = some l → l.nonce ≠ args.nonce → l.expiresAt ≤ clock) ∧
      (reg.orchestrationFiles.get? name = none →
        new.installPhase = args.initialInstallPhase.phase) := by
  simp only [orchestrationAcquire, bind_eq_ok, check_eq_ok, pure_eq_ok] at h
  obtain ⟨-, owner, -, -, -, -, resource, hres, read, hread, updated, hup, _, -, rfl⟩ := h
  have hname := orchestrationResource_name hres
  obtain rfl := readOrchestration_eq_ok hread
  rw [hname] at hup
  refine ⟨_, _, rfl, rfl, rfl, ?_, ?_⟩
  · intro old hold
    simp only [hold, acquireRecord] at hup
    cases hl : old.lease with
    | none =>
      simp only [hl, bind_eq_ok, pure_eq_ok] at hup
      obtain ⟨startup, hstartup, source, hsource, rfl⟩ := hup
      refine ⟨⟨rfl, fun c hc => keepContract_eq_ok hstartup hc,
        fun c hc => keepContract_eq_ok hsource hc⟩, fun l hl => by cases hl⟩
    | some lease =>
      simp only [hl, check_eq_ok, bind_eq_ok, pure_eq_ok, not_and, not_lt] at hup
      obtain ⟨hfree, startup, hstartup, source, hsource, rfl⟩ := hup
      refine ⟨⟨rfl, fun c hc => keepContract_eq_ok hstartup hc,
        fun c hc => keepContract_eq_ok hsource hc⟩, fun l hl hne => ?_⟩
      obtain rfl := Option.some.inj hl
      exact (hfree hne).trans (utcNow_le clock)
  · intro hnone
    simp only [hnone, acquireRecord, Except.ok.injEq] at hup
    rw [← hup]

theorem requireActiveOrchestrationLease_eq_ok {nonce : String} {now : Int}
    (h : requireActiveOrchestrationLease record nonce now = .ok ()) :
    ∃ lease, record.lease = some lease ∧ lease.nonce = nonce := by
  unfold requireActiveOrchestrationLease at h
  cases hl : record.lease with
  | none => simp [hl, throw_ne_ok] at h
  | some lease =>
    simp only [hl, check_eq_ok, last_check_eq_ok, not_not] at h
    exact ⟨lease, rfl, h.1⟩

theorem orchestrationSetPhase_eq_ok {nonce : String} {phase : InstallPhase}
    {confirmWipe : Option String} {now later : Int}
    (h : orchestrationSetPhase py reg name nonce phase confirmWipe now later = .ok out) :
    ∃ old lease, reg.orchestrationFiles.get? name = some old ∧ old.lease = some lease ∧
      lease.nonce = nonce ∧ (out.ops = [] ∨
        phase ∈ installPhaseTransitions old.installPhase ∧
        (destructiveRestart old.installPhase phase → confirmWipe = some "WIPE") ∧
        out.ops = [.writeOrchestration name { old with
          installPhase := phase, updatedAt := utcNow later, revision := old.revision + 1 }]) := by
  simp only [orchestrationSetPhase, bind_eq_ok, check_eq_ok] at h
  obtain ⟨-, record, hrec, _, hactive, h⟩ := h
  have hold := requireOrchestration_eq_ok hrec
  obtain ⟨lease, hlease, hnonce⟩ := requireActiveOrchestrationLease_eq_ok hactive
  refine ⟨record, lease, hold, hlease, hnonce, ?_⟩
  by_cases hsame : phase = record.installPhase
  · rw [if_pos hsame, pure_eq_ok] at h
    exact .inl (h ▸ rfl)
  · rw [if_neg hsame] at h
    simp only [check_eq_ok, not_not, not_and] at h
    obtain ⟨hin, hwipe, h⟩ := h
    obtain ⟨_, -, h⟩ := bind_eq_ok.mp h
    exact .inr ⟨hin, hwipe, (pure_eq_ok.mp h) ▸ rfl⟩

theorem orchestrationRelease_eq_ok {nonce : String} {clock : Int}
    (h : orchestrationRelease py reg name nonce clock = .ok out) :
    out.ops = [] ∨ ∃ old lease new, reg.orchestrationFiles.get? name = some old ∧
      old.lease = some lease ∧ lease.nonce = nonce ∧ out.ops = [.writeOrchestration name new] ∧
      new.lease = none ∧ Continues old new := by
  simp only [orchestrationRelease, bind_eq_ok, check_eq_ok] at h
  obtain ⟨-, record, hrec, h⟩ := h
  have hold := requireOrchestration_eq_ok hrec
  cases hl : record.lease with
  | none =>
    simp only [hl, pure_eq_ok] at h
    exact .inl (h ▸ rfl)
  | some lease =>
    simp only [hl, check_eq_ok, bind_eq_ok, pure_eq_ok, not_not] at h
    obtain ⟨hnonce, _, -, rfl⟩ := h
    exact .inr ⟨record, lease, _, hold, hl, hnonce, rfl, rfl, rfl, fun _ h => h, fun _ h => h⟩

/-! ## Runs -/

inductive OrchestrationCall where
  | acquire (args : AcquireArgs)
  | setPhase (nonce : String) (phase : InstallPhase) (confirmWipe : Option String)
  | release (nonce : String)

/-- The operations of a call whose clock readings are `now` and `later`. -/
def OrchestrationCall.ops (py : Python) (reg : Registry) (name : GuestName) (now later : Int) :
    OrchestrationCall → Except String (List Op)
  | acquire args => (orchestrationAcquire py reg name args now).map (·.ops)
  | setPhase nonce phase confirmWipe =>
    (orchestrationSetPhase py reg name nonce phase confirmWipe now later).map (·.ops)
  | release nonce => (orchestrationRelease py reg name nonce now).map (·.ops)

/-- A call on the guest, and whether it succeeded, or a change of other files. -/
inductive OrchestrationEvent where
  | call (c : OrchestrationCall) (now later : Int) (ok : Bool)
  | other

/-- The registry and the last clock reading. -/
structure Timed where
  reg : Registry
  clock : Int

inductive OrchestrationStep (py : Python) (name : GuestName) :
    Timed → OrchestrationEvent → Timed → Prop where
  | ok {s : Timed} {c : OrchestrationCall} {now later : Int} {ops : List Op} :
    s.clock ≤ now → now ≤ later → c.ops py s.reg name now later = .ok ops →
    OrchestrationStep py name s (.call c now later true) ⟨s.reg.applyAll ops, later⟩
  | failed {s : Timed} {c : OrchestrationCall} {now later : Int} {e : String} :
    s.clock ≤ now → now ≤ later → c.ops py s.reg name now later = .error e →
    OrchestrationStep py name s (.call c now later false) ⟨s.reg, later⟩
  | other {s : Timed} {reg : Registry} :
    reg.orchestrationFiles.get? name = s.reg.orchestrationFiles.get? name →
    OrchestrationStep py name s .other ⟨reg, s.clock⟩

def Timed.orchestration (s : Timed) (name : GuestName) : Option Orchestration :=
  s.reg.orchestrationFiles.get? name

def Timed.lease (s : Timed) (name : GuestName) : Option Lease := (s.orchestration name).bind (·.lease)

section

variable {s s' : Timed} {e : OrchestrationEvent} {now later : Int}

theorem OrchestrationStep.acquired {args : AcquireArgs}
    (h : OrchestrationStep py name s (.call (.acquire args) now later true) s') :
    ∃ new lease, s'.orchestration name = some new ∧ new.lease = some lease ∧
      lease.nonce = args.nonce ∧
      (∀ old, s.orchestration name = some old → Continues old new ∧
        ∀ l, old.lease = some l → l.nonce ≠ args.nonce → l.expiresAt ≤ now) ∧
      (s.orchestration name = none → new.installPhase = args.initialInstallPhase.phase) := by
  obtain ⟨-, -, hops⟩ := h
  obtain ⟨out, hout, rfl⟩ := map_eq_ok.mp hops
  obtain ⟨new, lease, hwrite, hrest⟩ := orchestrationAcquire_eq_ok hout
  refine ⟨new, lease, ?_, hrest⟩
  simp [Timed.orchestration, hwrite, apply, Table.get?_insert]

theorem OrchestrationStep.phased {nonce : String} {phase : InstallPhase}
    {confirmWipe : Option String}
    (h : OrchestrationStep py name s (.call (.setPhase nonce phase confirmWipe) now later true) s') :
    ∃ old lease, s.orchestration name = some old ∧ old.lease = some lease ∧ lease.nonce = nonce ∧
      (s'.reg = s.reg ∨ ∃ new, s'.orchestration name = some new ∧ new.lease = old.lease ∧
        new.installPhase = phase ∧ phase ∈ installPhaseTransitions old.installPhase ∧
        (destructiveRestart old.installPhase phase → confirmWipe = some "WIPE") ∧
        new.startup = old.startup ∧ new.source = old.source) := by
  obtain ⟨-, -, hops⟩ := h
  obtain ⟨out, hout, rfl⟩ := map_eq_ok.mp hops
  obtain ⟨old, lease, hold, hlease, hnonce, hwrite⟩ := orchestrationSetPhase_eq_ok hout
  refine ⟨old, lease, hold, hlease, hnonce, ?_⟩
  rcases hwrite with hnil | ⟨hin, hwipe, hwrite⟩
  · exact .inl (by simp [hnil])
  · refine .inr ⟨{ old with
      installPhase := phase, updatedAt := utcNow later, revision := old.revision + 1 }, ?_, rfl, rfl,
      hin, hwipe, rfl, rfl⟩
    simp [Timed.orchestration, hwrite, apply, Table.get?_insert]

theorem OrchestrationStep.released {nonce : String}
    (h : OrchestrationStep py name s (.call (.release nonce) now later true) s') :
    s'.reg = s.reg ∨ ∃ old lease new, s.orchestration name = some old ∧ old.lease = some lease ∧
      lease.nonce = nonce ∧ s'.orchestration name = some new ∧ new.lease = none ∧
      Continues old new := by
  obtain ⟨-, -, hops⟩ := h
  obtain ⟨out, hout, rfl⟩ := map_eq_ok.mp hops
  rcases orchestrationRelease_eq_ok hout with hnil | ⟨old, lease, new, h1, h2, h3, hwrite, hrest⟩
  · exact .inl (by simp [hnil])
  · refine .inr ⟨old, lease, new, h1, h2, h3, ?_, hrest⟩
    simp [Timed.orchestration, hwrite, apply, Table.get?_insert]

theorem Timed.orchestration_congr (h : s'.reg = s.reg) :
    s'.orchestration name = s.orchestration name := by
  rw [Timed.orchestration, h, ← Timed.orchestration]

/-- How far an install is once the guest is installed. -/
def installed : InstallPhase → Nat
  | .installedConfirmed => 1
  | .guestVerified => 2
  | .networkFinalized => 3
  | _ => 0

theorem installed_le {old new : InstallPhase} (h : new ∈ installPhaseTransitions old)
    (hold : 0 < installed old) : installed old ≤ installed new := by
  cases old <;> simp_all [installPhaseTransitions, installed]

/-- What every step keeps of the guest's record. -/
structure Keeps (old new : Orchestration) : Prop where
  phase : 0 < installed old.installPhase → installed old.installPhase ≤ installed new.installPhase
  startup : ∀ c, old.startup = some c → new.startup = some c
  source : ∀ c, old.source = some c → new.source = some c

theorem Keeps.refl (r : Orchestration) : Keeps r r :=
  ⟨fun _ => le_rfl, fun _ h => h, fun _ h => h⟩

theorem Keeps.trans {a b c : Orchestration} (hab : Keeps a b) (hbc : Keeps b c) : Keeps a c where
  phase := fun ha => (hab.phase ha).trans (hbc.phase (ha.trans_le (hab.phase ha)))
  startup := fun c h => hbc.startup c (hab.startup c h)
  source := fun c h => hbc.source c (hab.source c h)

variable {old : Orchestration}

theorem Continues.keeps {new : Orchestration} (h : Continues old new) : Keeps old new :=
  ⟨fun _ => h.phase ▸ le_rfl, h.startup, h.source⟩

theorem OrchestrationStep.keeps (h : OrchestrationStep py name s e s') {old : Orchestration}
    (hold : s.orchestration name = some old) :
    ∃ new, s'.orchestration name = some new ∧ Keeps old new := by
  have hsame (hreg : s'.orchestration name = s.orchestration name) :
      ∃ new, s'.orchestration name = some new ∧ Keeps old new :=
    ⟨old, hreg ▸ hold, .refl old⟩
  cases e with
  | other =>
    cases h with | other hother =>
    exact hsame hother
  | call c now later ok =>
    cases ok with
    | false =>
      obtain ⟨⟩ := h
      exact hsame rfl
    | true =>
      cases c with
      | acquire args =>
        obtain ⟨new, lease, hnew, -, -, hcont, -⟩ := h.acquired
        exact ⟨new, hnew, (hcont old hold).1.keeps⟩
      | setPhase nonce phase confirmWipe =>
        obtain ⟨old', lease, hold', -, -, hreg | ⟨new, hnew, -, rfl, hin, -, hst, hso⟩⟩ := h.phased
        · exact hsame (Timed.orchestration_congr hreg)
        · obtain rfl := Option.some.inj (hold.symm.trans hold')
          exact ⟨new, hnew, installed_le hin, fun c hc => hst ▸ hc, fun c hc => hso ▸ hc⟩
      | release nonce =>
        obtain hreg | ⟨old', lease, new, hold', -, -, hnew, -, hcont⟩ := h.released
        · exact hsame (Timed.orchestration_congr hreg)
        · obtain rfl := Option.some.inj (hold.symm.trans hold')
          exact ⟨new, hnew, hcont.keeps⟩

theorem run_keeps {es : List OrchestrationEvent} (h : Run (OrchestrationStep py name) s es s')
    (hold : s.orchestration name = some old) :
    ∃ new, s'.orchestration name = some new ∧ Keeps old new := by
  refine h.invariant (I := fun s => ∃ new, s.orchestration name = some new ∧ Keeps old new)
    (fun a e b ⟨mid, hmid, hk⟩ hstep => ?_) ⟨old, hold, .refl old⟩
  obtain ⟨new, hnew, hk'⟩ := hstep.keeps hmid
  exact ⟨new, hnew, hk.trans hk'⟩

/-! ## Leases -/

def OrchestrationEvent.SetsPhase (nonce : String) : OrchestrationEvent → Prop
  | .call (.setPhase n _ _) _ _ ok => ok = true ∧ n = nonce
  | _ => False

def OrchestrationEvent.Acquires (nonce : String) : OrchestrationEvent → Prop
  | .call (.acquire args) _ _ ok => ok = true ∧ args.nonce = nonce
  | _ => False

/-- The lease of a nonce is released, or it has expired when another one is acquired. -/
def OrchestrationEvent.Ends (name : GuestName) (nonce : String) (s : Timed) :
    OrchestrationEvent → Prop
  | .call (.release n) _ _ ok => ok = true ∧ n = nonce
  | .call (.acquire args) now _ ok =>
    ok = true ∧ args.nonce ≠ nonce ∧
      ∃ l, s.lease name = some l ∧ l.nonce = nonce ∧ l.expiresAt ≤ now
  | _ => False

def Timed.Holds (s : Timed) (name : GuestName) (nonce : String) : Prop :=
  ∃ l, s.lease name = some l ∧ l.nonce = nonce

theorem Timed.holds_congr (h : s'.orchestration name = s.orchestration name) {nonce : String} :
    s'.Holds name nonce ↔ s.Holds name nonce := by
  simp only [Timed.Holds, Timed.lease, h]

theorem Timed.holds_unique {n m : String} (hn : s.Holds name n) (hm : s.Holds name m) : n = m := by
  obtain ⟨l, hl, rfl⟩ := hn
  obtain ⟨l', hl', rfl⟩ := hm
  rw [Option.some.inj (hl.symm.trans hl')]

theorem OrchestrationStep.holds_of_setsPhase (h : OrchestrationStep py name s e s')
    {nonce : String} (he : e.SetsPhase nonce) : s.Holds name nonce ∧ s'.Holds name nonce := by
  obtain _ | _ := e
  · rename_i c now later ok
    obtain _ | ⟨n, phase, confirmWipe⟩ | _ := c <;> try exact he.elim
    obtain ⟨rfl, rfl⟩ := he
    obtain ⟨old, lease, hold, hlease, hnonce, hreg | ⟨new, hnew, hl, -⟩⟩ := h.phased
    · have hs : s.Holds name n := ⟨lease, by simp [Timed.lease, hold, hlease], hnonce⟩
      exact ⟨hs, (Timed.holds_congr (Timed.orchestration_congr hreg)).mpr hs⟩
    · exact ⟨⟨lease, by simp [Timed.lease, hold, hlease], hnonce⟩,
        ⟨lease, by simp [Timed.lease, hnew, hl, hlease], hnonce⟩⟩
  · exact he.elim

theorem OrchestrationStep.ends (h : OrchestrationStep py name s e s') {nonce : String}
    (hs : s.Holds name nonce) (hs' : ¬ s'.Holds name nonce) : e.Ends name nonce s := by
  have hchange (hsame : s'.orchestration name = s.orchestration name) : False :=
    hs' ((Timed.holds_congr hsame).mpr hs)
  obtain ⟨l, hl, hnonce⟩ := hs
  obtain ⟨old, hold, hlease⟩ := Option.bind_eq_some_iff.mp hl
  cases e with
  | other =>
    cases h with | other hother =>
    exact (hchange hother).elim
  | call c now later ok =>
    cases ok with
    | false =>
      obtain ⟨⟩ := h
      exact (hchange rfl).elim
    | true =>
      cases c with
      | acquire args =>
        obtain ⟨new, lease, hnew, hnl, hnn, hcont, -⟩ := h.acquired
        have hother : args.nonce ≠ nonce := fun hsame =>
          hs' ⟨lease, by simp [Timed.lease, hnew, hnl], hnn.trans hsame⟩
        refine ⟨rfl, hother, l, hl, hnonce, (hcont old hold).2 l hlease ?_⟩
        exact fun hsame => hother (hsame.symm.trans hnonce)
      | setPhase n phase confirmWipe =>
        obtain ⟨old', lease, hold', hlease', hn, hreg | ⟨new, hnew, hnl, -⟩⟩ := h.phased
        · exact (hchange (Timed.orchestration_congr hreg)).elim
        · obtain rfl := Option.some.inj (hold.symm.trans hold')
          exact (hs' ⟨l, by simp [Timed.lease, hnew, hnl, hlease], hnonce⟩).elim
      | release n =>
        obtain hreg | ⟨old', lease, new, hold', hlease', hn, -⟩ := h.released
        · exact (hchange (Timed.orchestration_congr hreg)).elim
        · obtain rfl := Option.some.inj (hold.symm.trans hold')
          obtain rfl := Option.some.inj (hlease.symm.trans hlease')
          exact ⟨rfl, hn.symm.trans hnonce⟩

theorem OrchestrationStep.acquires (h : OrchestrationStep py name s e s') {nonce : String}
    (hs : ¬ s.Holds name nonce) (hs' : s'.Holds name nonce) : e.Acquires nonce := by
  have hchange (hsame : s'.orchestration name = s.orchestration name) : False :=
    hs ((Timed.holds_congr hsame).mp hs')
  obtain ⟨l, hl, hnonce⟩ := hs'
  obtain ⟨new, hnew, hlease⟩ := Option.bind_eq_some_iff.mp hl
  cases e with
  | other =>
    cases h with | other hother =>
    exact (hchange hother).elim
  | call c now later ok =>
    cases ok with
    | false =>
      obtain ⟨⟩ := h
      exact (hchange rfl).elim
    | true =>
      cases c with
      | acquire args =>
        obtain ⟨new', lease, hnew', hnl, hnn, -⟩ := h.acquired
        obtain rfl := Option.some.inj (hnew.symm.trans hnew')
        obtain rfl := Option.some.inj (hlease.symm.trans hnl)
        exact ⟨rfl, hnn.symm.trans hnonce⟩
      | setPhase n phase confirmWipe =>
        obtain ⟨old, lease, hold, hlease', hn, hreg | ⟨new', hnew', hnl, -⟩⟩ := h.phased
        · exact (hchange (Timed.orchestration_congr hreg)).elim
        · obtain rfl := Option.some.inj (hnew.symm.trans hnew')
          exact (hs ⟨l, by simp [Timed.lease, hold, ← hnl, hlease], hnonce⟩).elim
      | release n =>
        obtain hreg | ⟨old, lease, new', -, -, -, hnew', hnone, -⟩ := h.released
        · exact (hchange (Timed.orchestration_congr hreg)).elim
        · obtain rfl := Option.some.inj (hnew.symm.trans hnew')
          rw [hnone] at hlease
          cases hlease

/-- A nonce that follows another one acquired its lease when the other one's was ended, or later. -/
theorem run_takes_over {b c : Timed} {mid : List OrchestrationEvent}
    (h : Run (OrchestrationStep py name) b mid c) {n1 n2 : String} (hb : b.Holds name n1)
    (hc : c.Holds name n2) (hne : n1 ≠ n2) :
    ∃ mid1 e mid2 s s', mid = mid1 ++ e :: mid2 ∧ Run (OrchestrationStep py name) b mid1 s ∧
      OrchestrationStep py name s e s' ∧ Run (OrchestrationStep py name) s' mid2 c ∧
      e.Ends name n1 s ∧ ∃ x ∈ e :: mid2, x.Acquires n2 := by
  obtain ⟨mid1, e, mid2, s, s', rfl, hbs, hstep, hsc, hs, hs'⟩ :=
    h.exists_leave (I := fun s => s.Holds name n1) hb fun hc1 => hne (Timed.holds_unique hc1 hc)
  refine ⟨mid1, e, mid2, s, s', rfl, hbs, hstep, hsc, hstep.ends hs hs', ?_⟩
  have hs2 : ¬ s.Holds name n2 := fun h2 => hne (Timed.holds_unique hs h2)
  by_cases h2 : s'.Holds name n2
  · exact ⟨e, by simp, hstep.acquires hs2 h2⟩
  · obtain ⟨m1, x, m2, t, t', rfl, -, hx, -, ht, ht'⟩ :=
      hsc.exists_leave (I := fun s => ¬ s.Holds name n2) h2 (not_not.mpr hc)
    exact ⟨x, by simp, hx.acquires ht (not_not.mp ht')⟩

/-! ## The guest's installs -/

def OrchestrationCall.nonce? : OrchestrationCall → Option String
  | .acquire _ => none
  | .setPhase nonce _ _ => some nonce
  | .release nonce => some nonce

/-- Without the lease, a change of the phase or a release changes nothing. -/
theorem OrchestrationStep.unowned {c : OrchestrationCall} {ok : Bool} {nonce : String}
    (h : OrchestrationStep py name s (.call c now later ok) s') (hc : c.nonce? = some nonce)
    (hs : ¬ s.Holds name nonce) : s'.reg = s.reg := by
  cases ok with
  | false =>
    obtain ⟨⟩ := h
    rfl
  | true =>
    cases c with
    | acquire args => cases hc
    | setPhase n phase confirmWipe =>
      obtain rfl := Option.some.inj hc
      exact (hs (h.holds_of_setsPhase ⟨rfl, rfl⟩).1).elim
    | release n =>
      obtain rfl := Option.some.inj hc
      obtain hreg | ⟨old, lease, new, hold, hlease, hn, -⟩ := h.released
      · exact hreg
      · exact (hs ⟨lease, by simp [Timed.lease, hold, hlease], hn⟩).elim

/-- An install is started again only with the confirmation. -/
theorem OrchestrationStep.confirmed (h : OrchestrationStep py name s e s') {new : Orchestration}
    (hold : s.orchestration name = some old) (hnew : s'.orchestration name = some new)
    (hre : destructiveRestart old.installPhase new.installPhase) :
    ∃ nonce now later,
      e = .call (.setPhase nonce .mediaAttached (some "WIPE")) now later true := by
  have hne : old.installPhase ≠ new.installPhase := by
    rintro hsame
    obtain ⟨h1 | h1, h2⟩ := hre <;> rw [← hsame, h1] at h2 <;> cases h2
  have hsame (hreg : s'.orchestration name = s.orchestration name) : False := by
    rw [hreg, hold] at hnew
    exact hne (by rw [Option.some.inj hnew])
  have hcontinues (hcont : Continues old new) : False := hne hcont.phase.symm
  cases e with
  | other =>
    cases h with | other hother =>
    exact (hsame hother).elim
  | call c now later ok =>
    cases ok with
    | false =>
      obtain ⟨⟩ := h
      exact (hsame rfl).elim
    | true =>
      cases c with
      | acquire args =>
        obtain ⟨new', lease, hnew', -, -, hcont, -⟩ := h.acquired
        obtain rfl := Option.some.inj (hnew.symm.trans hnew')
        exact (hcontinues (hcont old hold).1).elim
      | setPhase n phase confirmWipe =>
        obtain ⟨old', lease, hold', -, -, hreg | ⟨new', hnew', -, rfl, -, hwipe, -⟩⟩ := h.phased
        · exact (hsame (Timed.orchestration_congr hreg)).elim
        · obtain rfl := Option.some.inj (hold.symm.trans hold')
          obtain rfl := Option.some.inj (hnew.symm.trans hnew')
          refine ⟨n, now, later, ?_⟩
          rw [hwipe hre, hre.2]
      | release n =>
        obtain hreg | ⟨old', lease, new', hold', -, -, hnew', -, hcont⟩ := h.released
        · exact (hsame (Timed.orchestration_congr hreg)).elim
        · obtain rfl := Option.some.inj (hold.symm.trans hold')
          obtain rfl := Option.some.inj (hnew.symm.trans hnew')
          exact (hcontinues hcont).elim

end

/-- One guest's orchestration, over any calls: the phase changes under another nonce only after the
first one's lease was released or had expired when the other one's was acquired; without its lease a
nonce changes nothing; an installed guest's phase never goes back and its contract never changes; and
an install is started again only with the confirmation. -/
theorem orchestration_exclusive (py : Python) (name : GuestName) :
    (∀ (a b c d : Timed) (first second : OrchestrationEvent) (mid : List OrchestrationEvent)
        (n1 n2 : String),
      OrchestrationStep py name a first b → Run (OrchestrationStep py name) b mid c →
      OrchestrationStep py name c second d → first.SetsPhase n1 → second.SetsPhase n2 → n1 ≠ n2 →
      ∃ mid1 e mid2 s s', mid = mid1 ++ e :: mid2 ∧ Run (OrchestrationStep py name) b mid1 s ∧
        OrchestrationStep py name s e s' ∧ Run (OrchestrationStep py name) s' mid2 c ∧
        e.Ends name n1 s ∧ ∃ x ∈ e :: mid2, x.Acquires n2) ∧
    (∀ (s s' : Timed) (c : OrchestrationCall) (now later : Int) (ok : Bool) (nonce : String),
      OrchestrationStep py name s (.call c now later ok) s' → c.nonce? = some nonce →
      ¬ s.Holds name nonce → s'.reg = s.reg) ∧
    (∀ (s s' : Timed) (es : List OrchestrationEvent) (old : Orchestration),
      Run (OrchestrationStep py name) s es s' → s.orchestration name = some old →
      ∃ new, s'.orchestration name = some new ∧ Keeps old new) ∧
    ∀ (s s' : Timed) (e : OrchestrationEvent) (old new : Orchestration),
      OrchestrationStep py name s e s' → s.orchestration name = some old →
      s'.orchestration name = some new → destructiveRestart old.installPhase new.installPhase →
      ∃ nonce now later,
        e = .call (.setPhase nonce .mediaAttached (some "WIPE")) now later true := by
  refine ⟨?_, ?_, ?_, ?_⟩
  · intro a b c d first second mid n1 n2 hfirst hmid hsecond h1 h2 hne
    exact run_takes_over hmid (hfirst.holds_of_setsPhase h1).2 (hsecond.holds_of_setsPhase h2).1 hne
  · intro s s' c now later ok nonce h hc hs
    exact h.unowned hc hs
  · intro s s' es old h hold
    exact run_keeps h hold
  · intro s s' e old new h hold hnew hre
    exact h.confirmed hold hnew hre

/-! ## A lease that expires -/

namespace Takeover

/-- What a call on `prod1` leaves. -/
def after (s : Timed) (c : OrchestrationCall) (now : Int) : Timed :=
  match c.ops asciiPython s.reg (.production 1) now now with
  | .ok ops => ⟨s.reg.applyAll ops, now⟩
  | .error _ => ⟨s.reg, now⟩

def succeeds (s : Timed) (c : OrchestrationCall) (now : Int) : Bool :=
  (c.ops asciiPython s.reg (.production 1) now now).toOption.isSome

theorem step_after {s : Timed} {c : OrchestrationCall} {now : Int} {ok : Bool} (hclock : s.clock ≤ now)
    (h : succeeds s c now = ok) :
    OrchestrationStep asciiPython (.production 1) s (.call c now now ok) (after s c now) := by
  subst h
  unfold succeeds after
  cases hops : c.ops asciiPython s.reg (.production 1) now now with
  | ok ops => exact .ok hclock le_rfl hops
  | error message => exact .failed hclock le_rfl hops

def nonce (digit : Char) : String := (smallAcquire digit).nonce

/-- The first nonce starts the installer; the second one asks for the lease, -/
def leased : Timed := after ⟨smallRegistry, 0⟩ (.acquire (smallAcquire '0')) 0
def attach : OrchestrationCall := .setPhase (nonce '0') .mediaAttached none
def attached : Timed := after leased attach second
def start : OrchestrationCall := .setPhase (nonce '0') .installerStarted none
def started : Timed := after attached start (2 * second)
def waiting : Timed := after started (.acquire (smallAcquire '1')) (30 * second)

/-- gets it when it has expired, and starts the installer again. -/
def taken : Timed := after waiting (.acquire (smallAcquire '1')) (61 * second)
def restart : OrchestrationCall := .setPhase (nonce '1') .mediaAttached (some "WIPE")
def restarted : Timed := after taken restart (62 * second)

/-- The first one's next call fails. -/
def refused : Timed := after restarted start (63 * second)

theorem outcomes : succeeds leased attach second = true ∧ succeeds attached start (2 * second) = true ∧
    succeeds started (.acquire (smallAcquire '1')) (30 * second) = false ∧
    succeeds waiting (.acquire (smallAcquire '1')) (61 * second) = true ∧
    succeeds taken restart (62 * second) = true ∧ succeeds restarted start (63 * second) = false := by
  decide +kernel

theorem after_clock (s : Timed) (c : OrchestrationCall) (now : Int) : (after s c now).clock = now := by
  unfold after
  split <;> rfl

def between : List OrchestrationEvent :=
  [.call start (2 * second) (2 * second) true,
    .call (.acquire (smallAcquire '1')) (30 * second) (30 * second) false,
    .call (.acquire (smallAcquire '1')) (61 * second) (61 * second) true]

def restartEvent : OrchestrationEvent := .call restart (62 * second) (62 * second) true

theorem run_between : Run (OrchestrationStep asciiPython (.production 1)) attached between taken := by
  obtain ⟨-, hstart, hearly, hlate, -⟩ := outcomes
  refine .cons (step_after ?_ hstart) (.cons (step_after ?_ hearly) (.single (step_after ?_ hlate)))
  all_goals exact (after_clock ..).trans_le (by decide)

theorem step_restart : OrchestrationStep asciiPython (.production 1) taken restartEvent restarted :=
  step_after ((after_clock ..).trans_le (by decide)) outcomes.2.2.2.2.1

theorem phases : (attached.orchestration (.production 1)).map (·.installPhase) = some .mediaAttached ∧
    (taken.orchestration (.production 1)).map (·.installPhase) = some .installerStarted ∧
    (restarted.orchestration (.production 1)).map (·.installPhase) = some .mediaAttached ∧
    (restarted.lease (.production 1)).map (·.nonce) = some (nonce '1') := by
  decide +kernel

end Takeover

open Takeover in
/-- The second nonce gets the lease when it has expired, and the first one then changes nothing. -/
theorem orchestration_exclusive_taken :
    (∃ mid1 e mid2 s s', between = mid1 ++ e :: mid2 ∧
      Run (OrchestrationStep asciiPython (.production 1)) attached mid1 s ∧
      OrchestrationStep asciiPython (.production 1) s e s' ∧
      Run (OrchestrationStep asciiPython (.production 1)) s' mid2 taken ∧
      e.Ends (.production 1) (nonce '0') s ∧ ∃ x ∈ e :: mid2, x.Acquires (nonce '1')) ∧
    refused.reg = restarted.reg ∧
    (∃ old new, attached.orchestration (.production 1) = some old ∧
      taken.orchestration (.production 1) = some new ∧ Keeps old new) ∧
    ∃ n now later, restartEvent = .call (.setPhase n .mediaAttached (some "WIPE")) now later true := by
  obtain ⟨hexclusive, hunowned, hkeeps, hwipe⟩ := orchestration_exclusive asciiPython (.production 1)
  obtain ⟨hattach, -, -, -, -, hrefused⟩ := outcomes
  obtain ⟨hattached, hbefore, hafter, hlease⟩ := phases
  refine ⟨?_, ?_, ?_, ?_⟩
  · have hfirst := @step_after leased attach second true ((after_clock ..).trans_le (by decide)) hattach
    exact hexclusive leased attached taken restarted _ restartEvent between (nonce '0') (nonce '1') hfirst
      run_between step_restart ⟨rfl, rfl⟩ ⟨rfl, rfl⟩ (by decide)
  · refine hunowned restarted refused start _ _ false (nonce '0')
      (step_after ((after_clock ..).trans_le (by decide)) hrefused) rfl ?_
    rintro ⟨lease, hheld, hnonce⟩
    rw [hheld, Option.map_some, hnonce] at hlease
    exact absurd hlease (by decide)
  · obtain ⟨old, hold, -⟩ := Option.map_eq_some_iff.mp hattached
    obtain ⟨new, hnew, hkept⟩ := hkeeps attached taken between old run_between hold
    exact ⟨old, new, hold, hnew, hkept⟩
  · obtain ⟨old, hold, hphase⟩ := Option.map_eq_some_iff.mp hbefore
    obtain ⟨new, hnew, hphase'⟩ := Option.map_eq_some_iff.mp hafter
    exact hwipe taken restarted restartEvent old new step_restart hold hnew ⟨.inr hphase, hphase'⟩

end Bmac.Registry
