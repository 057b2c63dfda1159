import Bmac.Bmacd.Tokens

/-!
# A token makes one request

Calls on the token records by any hosts and clients, one after the other. A redeem that is let
through marks its token used before it writes the pending request, and a token that is marked, removed
or expired is refused, so a token makes at most one request, however the writes of a redeem fail.
`single_use` traces each pending request to its token.
-/

namespace Bmac.Bmacd.Tokens

open Bmac.Base Bmac.Core Bmac.Pmxcfs

/-! ## Runs -/

/-- A call, with the reading of the clock and the random bytes it gets. A token is issued for a join
of a host, or for the enrollment of an appliance and no host. -/
inductive Call where
  | issue (host : Option HostSlot) (ttlMs : Int) (by_ : String) (now : Int) (token : Option String)
      (faults : Faults)
  | join (request : JoinRequest) (source : Source) (now : Int) (id : Option String) (faults : Faults)
  | enroll (request : EnrollRequest) (source : Source) (now : Int) (id : Option String)
      (faults : Faults)
  | revoke (hash : String) (faults : Faults)
  | removePending (id : String) (faults : Faults)

/-- The records, and the limiter of each host. -/
structure World where
  records : Records
  limiters : HostSlot → Limiter

def World.start : World := ⟨⟨fun _ => none, fun _ => none⟩, fun _ => ⟨attempts, []⟩⟩

def kindFor : Option HostSlot → TokenKind
  | some _ => .join
  | none => .enroll

def World.redeemed (w : World) (source : Source) (answer : Limiter × Records × Except ApiError String) :
    World × Except ApiError String :=
  (⟨answer.2.1, Function.update w.limiters source.host answer.1⟩, answer.2.2)

def World.call (lib : Lib) (w : World) : Call → World × Except ApiError String
  | .issue host ttlMs by_ now token faults =>
    let (records, answer) := issue lib w.records (kindFor host) host ttlMs by_ now token faults
    ({ w with records }, answer)
  | .join request source now id faults => w.redeemed source
      (redeemJoin lib (w.limiters source.host) w.records request source now id faults)
  | .enroll request source now id faults => w.redeemed source
      (redeemEnroll lib (w.limiters source.host) w.records request source now id faults)
  | .revoke hash faults =>
    let (records, answer) := Tokens.revoke w.records hash faults
    ({ w with records }, answer.map fun _ => "")
  | .removePending id faults =>
    let (records, answer) := Tokens.removePending w.records id faults
    ({ w with records }, answer.map fun _ => "")

def World.run (lib : Lib) (calls : List Call) : World :=
  calls.foldl (fun w c => (w.call lib c).1) World.start

/-! ## What a call asks for -/

/-- A token as it is issued. -/
structure Issue where
  secret : String
  host : Option HostSlot
  expiresAtMs : Int

def Call.issues : Call → Option Issue
  | issue host ttlMs _ now (some token) _ => some ⟨token, host, now + ttlMs⟩
  | _ => none

/-- What a redeem presents: a token, and the host it is to be for. -/
structure Redeem where
  token : String
  host : Option HostSlot
  now : Int

def Call.redeems : Call → Option Redeem
  | join request _ now _ _ => some ⟨request.token, some request.host, now⟩
  | enroll request _ now _ _ => some ⟨request.token, none, now⟩
  | _ => none

section

variable (lib : Lib) (calls : List Call)

def worldAt (n : Nat) : World := World.run lib (calls.take n)

def issuedAt (i : Nat) : Option Issue := calls[i]?.bind Call.issues

/-- A revocation of a hash that was answered well. -/
def RevokedAt (k : Nat) (hash : String) : Prop :=
  ∃ faults, calls[k]? = some (.revoke hash faults) ∧
    ∃ answer, ((worldAt lib calls k).call lib (.revoke hash faults)).2 = .ok answer

/-- The redeem at a position makes a pending request. -/
structure Makes (j : Nat) (r : Redeem) (p : PendingRecord) : Prop where
  call : calls[j]?.bind Call.redeems = some r
  before : (worldAt lib calls j).records.pending p.id = none
  after : (worldAt lib calls (j + 1)).records.pending p.id = some p

/-- The token issued at `i` was good for the request that was made of it at `j` and is there since. -/
structure Origin (i j : Nat) (t : Issue) (r : Redeem) (p : PendingRecord) : Prop where
  issued : issuedAt calls i = some t
  before : i < j
  makes : Makes lib calls j r p
  token : r.token = t.secret
  kind : p.kind = kindFor t.host
  host : p.host = t.host
  unexpired : r.now < t.expiresAtMs
  unrevoked : ∀ k, i < k → k < j → ¬ RevokedAt lib calls k (lib.sha256 t.secret)
  stays : ∀ k, j < k → k ≤ calls.length → (worldAt lib calls k).records.pending p.id = some p

def secrets : List String := calls.filterMap fun c =>
  (c.issues.map (·.secret)).or (c.redeems.map (·.token))

end

/-! ## One call -/

section

variable {lib : Lib} {records : Records} {faults : Faults}

/-- Under the lock the records change as the body changes them; getting or releasing it may fail. -/
theorem locked_cases {α : Type} (f : Records → Records × Except ApiError α) :
    ((locked faults records f).1 = records ∧ ∃ e, (locked faults records f).2 = .error e) ∨
    ((locked faults records f).1 = (f records).1 ∧
      (∀ a, (locked faults records f).2 = .ok a → (f records).2 = .ok a) ∧
      ∀ e, (locked faults records f).2 = .error e → (f records).2 = .error e ∨ ∃ e', e = storage e') := by
  unfold locked
  cases faults.acquire with
  | some e => exact .inl ⟨rfl, _, rfl⟩
  | none =>
    refine .inr ⟨rfl, ?_⟩
    dsimp only
    cases (f records).2 with
    | error e =>
      rw [error_bind]
      refine ⟨fun a ha => ?_, fun e' he' => .inl he'⟩
      cases ha
    | ok value =>
      rw [ok_bind]
      cases faults.release with
      | some e =>
        refine ⟨fun a ha => ?_, fun e' he' => .inr ⟨e, (Except.error.inj he').symm⟩⟩
        cases ha
      | none =>
        refine ⟨fun a ha => ha, fun e' he' => ?_⟩
        cases he'

/-- A body that fails makes the call fail. -/
theorem locked_error {α : Type} {f : Records → Records × Except ApiError α}
    (h : ∃ e, (f records).2 = .error e) : ∃ e, (locked faults records f).2 = .error e := by
  obtain ⟨e, he⟩ := h
  rcases @locked_cases records faults _ f with ⟨-, herr⟩ | ⟨-, hok, -⟩
  · exact herr
  · cases hlocked : (locked faults records f).2 with
    | error e' => exact ⟨e', rfl⟩
    | ok a =>
      rw [hok a hlocked] at he
      cases he

theorem change_cases {R : Type} (files left : Files R) (fault : Pmxcfs.Fault) :
    ((files.change left fault).1 = files ∧ ∃ e, (files.change left fault).2 = .error e) ∨
    (files.change left fault).1 = left := by
  cases fault with
  | none => exact .inr rfl
  | before e => exact .inl ⟨rfl, e, rfl⟩
  | after e => exact .inr rfl

theorem writeFile_cases {R : Type} (revision : R → UInt64) (stamp : UInt64 → R → R) (files : Files R)
    (name : String) (value : R) (expected : Option UInt64) (fault : Pmxcfs.Fault) :
    ((writeFile revision stamp files name value expected fault).1 = files ∧
      ∃ e, (writeFile revision stamp files name value expected fault).2 = .error e) ∨
    (expected = none → files name = none) ∧
      (writeFile revision stamp files name value expected fault).1 =
        Function.update files name (some (stamp (expected.getD 0 + 1) value)) := by
  unfold writeFile
  cases hfound : foundIn revision files name with
  | error e => exact .inl ⟨rfl, e, rfl⟩
  | ok found =>
    dsimp only
    split
    · exact .inl ⟨rfl, _, rfl⟩
    · rename_i hwanted
      refine (change_cases ..).imp_right fun hleft => ⟨?_, hleft⟩
      rintro rfl
      unfold foundIn at hfound
      split at hfound
      · assumption
      · split at hfound
        · cases hfound
        · rename_i r _ hne
          rw [Except.ok.inj hfound] at hne
          exact absurd (not_not.mp hwanted) hne

theorem writeToken_cases (files : Files TokenRecord) (name : String) (value : TokenRecord)
    (expected : Option UInt64) (fault : Pmxcfs.Fault) :
    ((writeToken files name value expected fault).1 = files ∧
      ∃ e, (writeToken files name value expected fault).2 = .error e) ∨
    (expected = none → files name = none) ∧
      (writeToken files name value expected fault).1 =
        Function.update files name (some { value with revision := expected.getD 0 + 1 }) :=
  writeFile_cases _ _ files name value expected fault

theorem writePending_cases (files : Files PendingRecord) (name : String) (value : PendingRecord)
    (expected : Option UInt64) (fault : Pmxcfs.Fault) :
    ((writePending files name value expected fault).1 = files ∧
      ∃ e, (writePending files name value expected fault).2 = .error e) ∨
    (expected = none → files name = none) ∧
      (writePending files name value expected fault).1 =
        Function.update files name (some { value with revision := expected.getD 0 + 1 }) :=
  writeFile_cases _ _ files name value expected fault

/-- What a redeem that is let through does to the records: it marks the token, and then it makes the
request or not. -/
structure Marked (lib : Lib) (records records' : Records) (kind : TokenKind) (r : Redeem) : Prop where
  token : ∃ record used, records.tokens (lib.sha256 r.token) = some record ∧ record.kind = kind ∧
    record.usedAtMs = none ∧ r.now < record.expiresAtMs ∧
    (kind = .join → ∀ h, record.host = some h → r.host = some h) ∧
    records'.tokens = Function.update records.tokens (lib.sha256 r.token) (some used) ∧
    used.kind = record.kind ∧ used.host = record.host ∧ used.expiresAtMs = record.expiresAtMs ∧
    used.usedAtMs = some r.now
  pending : records'.pending = records.pending ∨
    ∃ p, records.pending p.id = none ∧ p.kind = kind ∧ p.host = r.host ∧
      records'.pending = Function.update records.pending p.id (some p)

/-- What a request of a kind fills in: the host it is for, if that is its token's. -/
def Fills (fill : Fill) (kind : TokenKind) (host : Option HostSlot) : Prop :=
  ∀ pending record filled, pending.host = none → fill pending record = .ok filled →
    filled.id = pending.id ∧ filled.kind = pending.kind ∧ filled.host = host ∧
      (kind = .join → ∀ h, record.host = some h → host = some h)

theorem fillJoin_fills (request : JoinRequest) (kind : TokenKind) :
    Fills (fillJoin request) kind (some request.host) := by
  intro pending record filled _ h
  unfold fillJoin at h
  split at h
  · cases h
  · rename_i hany
    obtain rfl := (Except.ok.inj h).symm
    refine ⟨rfl, rfl, rfl, ?_⟩
    intro _ host hhost
    simp only [hhost, Option.any_some, decide_eq_true_eq, not_not] at hany
    rw [hany]

theorem fillEnroll_fills (request : EnrollRequest) : Fills (fillEnroll request) .enroll none := by
  intro pending record filled hnone h
  obtain rfl := (Except.ok.inj h).symm
  refine ⟨rfl, rfl, hnone, ?_⟩
  intro hkind
  cases hkind

/-- A call that leaves the records as they are. -/
def Untouched (records : Records) (answer : Records × Except ApiError String) : Prop :=
  answer.1 = records ∧ ∃ e, answer.2 = .error e

theorem redeemLocked_cases {kind : TokenKind} {source : Source} {id : String} {fill : Fill}
    {r : Redeem} (hfill : Fills fill kind r.host) :
    Untouched records (redeemLocked (lib.sha256 r.token) kind source r.now id fill faults records) ∨
    Marked lib records (redeemLocked (lib.sha256 r.token) kind source r.now id fill faults records).1
        kind r ∧
      ∀ e, (redeemLocked (lib.sha256 r.token) kind source r.now id fill faults records).2 = .error e →
        ∃ e', e = storage e' := by
  unfold redeemLocked
  split
  · exact .inl ⟨rfl, _, rfl⟩
  · exact .inl ⟨rfl, _, rfl⟩
  · rename_i record _ hfound
    dsimp only
    split
    · exact .inl ⟨rfl, _, rfl⟩
    · exact .inl ⟨rfl, _, rfl⟩
    · rename_i pending hwhy hok
      obtain ⟨hid, hkind, hhost, hallowed⟩ := hfill _ _ _ rfl hok
      have hchecks : record.kind = kind ∧ record.usedAtMs = none ∧ r.now < record.expiresAtMs := by
        unfold TokenRecord.why at hwhy
        split at hwhy
        · cases hwhy
        · rename_i hk
          split at hwhy
          · cases hwhy
          · rename_i hused
            split at hwhy
            · cases hwhy
            · rename_i hexp
              exact ⟨not_not.mp hk, Option.not_isSome_iff_eq_none.mp hused, by omega⟩
      have hwrite := writeToken_cases records.tokens (lib.sha256 r.token)
        { record with usedAtMs := some r.now, usedFrom := some source.address }
        (some record.revision) faults.write
      generalize writeToken records.tokens (lib.sha256 r.token)
        { record with usedAtMs := some r.now, usedFrom := some source.address }
        (some record.revision) faults.write = answer at hwrite ⊢
      obtain ⟨tokens, answer⟩ := answer
      dsimp only at hwrite
      rcases hwrite with ⟨rfl, e, rfl⟩ | ⟨-, htokens⟩
      · exact .inl ⟨rfl, _, rfl⟩
      · refine .inr ?_
        have hmarked : ∃ record used, records.tokens (lib.sha256 r.token) = some record ∧
            record.kind = kind ∧ record.usedAtMs = none ∧ r.now < record.expiresAtMs ∧
            (kind = .join → ∀ h, record.host = some h → r.host = some h) ∧
            tokens = Function.update records.tokens (lib.sha256 r.token) (some used) ∧
            used.kind = record.kind ∧ used.host = record.host ∧
            used.expiresAtMs = record.expiresAtMs ∧ used.usedAtMs = some r.now :=
          ⟨record, _, hfound, hchecks.1, hchecks.2.1, hchecks.2.2, hallowed, htokens, rfl, rfl, rfl,
            rfl⟩
        cases answer with
        | error e => exact ⟨⟨hmarked, .inl rfl⟩, fun e' he' => ⟨e, (Except.error.inj he').symm⟩⟩
        | ok _ =>
          have hnext := writePending_cases records.pending id pending none faults.writePending
          generalize writePending records.pending id pending none faults.writePending = requests
            at hnext ⊢
          obtain ⟨requests, answer⟩ := requests
          dsimp only at hnext ⊢
          have hpending : requests = records.pending ∨ ∃ p, records.pending p.id = none ∧
              p.kind = kind ∧ p.host = r.host ∧
              requests = Function.update records.pending p.id (some p) := by
            rcases hnext with ⟨hsame, -⟩ | ⟨hfree, hleft⟩
            · exact .inl hsame
            · dsimp only at hid
              rw [← hid] at hfree hleft
              exact .inr ⟨{ pending with revision := 0 + 1 }, hfree rfl, hkind, hhost, hleft⟩
          cases answer with
          | error e => exact ⟨⟨hmarked, hpending⟩, fun e' he' => ⟨e, (Except.error.inj he').symm⟩⟩
          | ok _ =>
            refine ⟨⟨hmarked, hpending⟩, ?_⟩
            intro e he
            cases he

theorem redeem_cases {limiter : Limiter} {kind : TokenKind} {source : Source} {id : Option String}
    {fill : Fill} {r : Redeem} (hfill : Fills fill kind r.host) :
    Untouched records (redeem lib limiter records r.token kind source r.now id fill faults).2 ∨
    Marked lib records (redeem lib limiter records r.token kind source r.now id fill faults).2.1 kind r ∧
      ∀ e, (redeem lib limiter records r.token kind source r.now id fill faults).2.2 = .error e →
        ∃ e', e = storage e' := by
  unfold redeem
  split
  · exact .inl ⟨rfl, _, rfl⟩
  · dsimp only
    split
    · exact .inl ⟨rfl, _, rfl⟩
    · exact .inl ⟨rfl, _, rfl⟩
    · rename_i hash id hhash
      obtain rfl : lib.sha256 r.token = hash := by
        unfold Lib.tokenHash at hhash
        split at hhash
        · exact Option.some.inj hhash
        · cases hhash
      dsimp only
      rcases @locked_cases records faults _
        (redeemLocked (lib.sha256 r.token) kind source r.now id fill faults) with h | ⟨hsame, -, herr⟩
      · exact .inl h
      · rcases @redeemLocked_cases lib records faults kind source id fill r hfill with ⟨hpure, e, he⟩ | ⟨hmarked, hstorage⟩
        · exact .inl ⟨hsame.trans hpure, locked_error ⟨e, he⟩⟩
        · refine .inr ⟨?_, ?_⟩
          · rw [hsame]
            exact hmarked
          · intro e he
            rcases herr e he with hbody | hrelease
            · exact hstorage e hbody
            · exact hrelease

end

section

variable {lib : Lib} {w : World}

/-- A redeem leaves the records as they are and is refused, or it marks its token and then fails only
where pmxcfs does. -/
theorem call_redeem {c : Call} {r : Redeem} (hc : c.redeems = some r) :
    Untouched w.records ((w.call lib c).1.records, (w.call lib c).2) ∨
    ∃ kind, (kind = .enroll → r.host = none) ∧ Marked lib w.records (w.call lib c).1.records kind r ∧
      ∀ e, (w.call lib c).2 = .error e → ∃ e', e = storage e' := by
  cases c with
  | join request source now id faults =>
    simp only [Call.redeems, Option.some.injEq] at hc
    subst hc
    simp only [World.call, World.redeemed, redeemJoin]
    split
    · exact .inl ⟨rfl, _, rfl⟩
    · split
      · exact .inl ⟨rfl, _, rfl⟩
      · refine (@redeem_cases lib w.records faults (w.limiters source.host) .join source id _
          ⟨request.token, some request.host, now⟩ (fillJoin_fills request .join)).imp_right fun h => ?_
        refine ⟨.join, ?_, h⟩
        intro hkind
        cases hkind
  | enroll request source now id faults =>
    simp only [Call.redeems, Option.some.injEq] at hc
    subst hc
    simp only [World.call, World.redeemed, redeemEnroll]
    split
    · exact .inl ⟨rfl, _, rfl⟩
    · split
      · exact .inl ⟨rfl, _, rfl⟩
      · exact (@redeem_cases lib w.records faults (w.limiters source.host) .enroll source id _
          ⟨request.token, none, now⟩ (fillEnroll_fills request)).imp_right fun h =>
            ⟨.enroll, fun _ => trivial, h⟩
  | issue host ttlMs by_ now token faults => simp [Call.redeems] at hc
  | revoke hash faults => simp [Call.redeems] at hc
  | removePending id faults => simp [Call.redeems] at hc

/-- An issue stores its token's record or nothing. -/
theorem call_issue {host : Option HostSlot} {ttlMs now : Int} {by_ : String} {token : Option String}
    {faults : Faults} :
    (w.call lib (.issue host ttlMs by_ now token faults)).1.records = w.records ∨
    ∃ secret record, token = some secret ∧ record.kind = kindFor host ∧ record.host = host ∧
      record.expiresAtMs = now + ttlMs ∧
      (w.call lib (.issue host ttlMs by_ now token faults)).1.records =
        { w.records with
          tokens := Function.update w.records.tokens (lib.sha256 secret) (some record) } := by
  unfold World.call
  dsimp only
  unfold issue
  cases token with
  | none => exact .inl rfl
  | some secret =>
    dsimp only
    rcases @locked_cases w.records faults _ fun records =>
      (({ records with tokens := (writeToken records.tokens (lib.sha256 secret)
          { kind := kindFor host, host, issuedBy := by_, issuedAtMs := now, expiresAtMs := now + ttlMs }
          none faults.write).1 } : Records),
        (do
          let _ ← (writeToken records.tokens (lib.sha256 secret)
            { kind := kindFor host, host, issuedBy := by_, issuedAtMs := now,
              expiresAtMs := now + ttlMs } none faults.write).2.mapError storage
          return secret : Except ApiError String)) with ⟨hsame, -⟩ | ⟨hsame, -, -⟩
    · exact .inl hsame
    · rcases writeToken_cases w.records.tokens (lib.sha256 secret)
        { kind := kindFor host, host, issuedBy := by_, issuedAtMs := now, expiresAtMs := now + ttlMs }
        none faults.write with ⟨hwrite, -⟩ | ⟨-, hwrite⟩
      · refine .inl (hsame.trans ?_)
        dsimp only
        rw [hwrite]
      · refine .inr ⟨secret, ⟨none.getD 0 + 1, kindFor host, host, by_, now, now + ttlMs, none, none⟩,
          rfl, rfl, rfl, rfl, hsame.trans ?_⟩
        dsimp only
        rw [hwrite]

/-- A revocation removes its token's record or nothing, and the first if it says so. -/
theorem call_revoke {hash : String} {faults : Faults} :
    (w.call lib (.revoke hash faults)).1.records = w.records ∧
      (∃ e, (w.call lib (.revoke hash faults)).2 = .error e) ∨
    (w.call lib (.revoke hash faults)).1.records =
      { w.records with tokens := Function.update w.records.tokens hash none } := by
  simp only [World.call, revoke]
  rcases @locked_cases w.records faults _ fun records =>
    (({ records with tokens := (removeFile records.tokens hash faults.write).1 } : Records),
      (removeFile records.tokens hash faults.write).2.mapError storage) with
    ⟨hsame, e, he⟩ | ⟨hsame, -, -⟩
  · refine .inl ⟨hsame, e, ?_⟩
    rw [he]
    rfl
  · rcases change_cases w.records.tokens (Function.update w.records.tokens hash none) faults.write with
      ⟨hremove, e, he⟩ | hremove
    · refine .inl ⟨hsame.trans (by dsimp only [removeFile]; rw [hremove]), ?_⟩
      obtain ⟨e', he'⟩ := @locked_error w.records faults Unit (fun records =>
        ({ records with tokens := (removeFile records.tokens hash faults.write).1 },
          (removeFile records.tokens hash faults.write).2.mapError storage))
        ⟨storage e, by dsimp only [removeFile]; rw [he]; rfl⟩
      exact ⟨e', by rw [he']; rfl⟩
    · exact .inr (hsame.trans (by dsimp only [removeFile]; rw [hremove]))

theorem call_removePending {id : String} {faults : Faults} :
    (w.call lib (.removePending id faults)).1.records = w.records ∨
    (w.call lib (.removePending id faults)).1.records =
      { w.records with pending := Function.update w.records.pending id none } := by
  simp only [World.call, removePending]
  split
  · exact .inl rfl
  · rcases @locked_cases w.records faults _ fun records =>
      (({ records with pending := (removeFile records.pending id faults.write).1 } : Records),
        (removeFile records.pending id faults.write).2.mapError storage) with
      ⟨hsame, -⟩ | ⟨hsame, -, -⟩
    · exact .inl hsame
    · rcases change_cases w.records.pending (Function.update w.records.pending id none) faults.write
        with ⟨hremove, -⟩ | hremove
      · exact .inl (hsame.trans (by dsimp only [removeFile]; rw [hremove]))
      · exact .inr (hsame.trans (by dsimp only [removeFile]; rw [hremove]))

end

/-! ## One call more -/

variable {t : Issue} {i : Nat}

section

variable {lib : Lib} {calls : List Call} {c : Call}

theorem World.run_snoc : World.run lib (calls ++ [c]) = ((World.run lib calls).call lib c).1 := by
  simp [World.run]

theorem worldAt_snoc {n : Nat} (h : n ≤ calls.length) :
    worldAt lib (calls ++ [c]) n = worldAt lib calls n := by
  unfold worldAt
  rw [List.take_append_of_le_length h]

theorem worldAt_length : worldAt lib calls calls.length = World.run lib calls := by
  unfold worldAt
  rw [List.take_length]

theorem worldAt_last : worldAt lib (calls ++ [c]) (calls.length + 1) = World.run lib (calls ++ [c]) := by
  rw [← worldAt_length, List.length_append, List.length_singleton]

theorem getElem?_snoc_iff {a : Call} :
    (calls ++ [c])[i]? = some a ↔ calls[i]? = some a ∧ i < calls.length ∨ i = calls.length ∧ c = a := by
  rcases Nat.lt_trichotomy i calls.length with hlt | rfl | hgt
  · rw [List.getElem?_append_left hlt]
    constructor
    · exact fun h => .inl ⟨h, hlt⟩
    · rintro (h | ⟨h, -⟩)
      · exact h.1
      · omega
  · simp
  · rw [List.getElem?_eq_none (by simp; omega)]
    constructor
    · intro h
      cases h
    · rintro (h | ⟨h, -⟩) <;> omega

theorem issuedAt_snoc : issuedAt (calls ++ [c]) i = some t ↔
    issuedAt calls i = some t ∧ i < calls.length ∨ i = calls.length ∧ c.issues = some t := by
  unfold issuedAt
  simp only [Option.bind_eq_some_iff, getElem?_snoc_iff]
  constructor
  · rintro ⟨a, ⟨h, hlt⟩ | ⟨rfl, rfl⟩, ha⟩
    · exact .inl ⟨⟨a, h, ha⟩, hlt⟩
    · exact .inr ⟨rfl, ha⟩
  · rintro (⟨⟨a, h, ha⟩, hlt⟩ | ⟨rfl, ha⟩)
    · exact ⟨a, .inl ⟨h, hlt⟩, ha⟩
    · exact ⟨c, .inr ⟨rfl, rfl⟩, ha⟩

variable {p : PendingRecord} {r : Redeem} {j : Nat} {hash : String} {record : TokenRecord}

theorem Makes.lt (h : Makes lib calls j r p) : j < calls.length := by
  obtain ⟨a, ha, -⟩ := Option.bind_eq_some_iff.mp h.call
  exact (List.getElem?_eq_some_iff.mp ha).1

theorem Makes.snoc (h : Makes lib calls j r p) : Makes lib (calls ++ [c]) j r p := by
  have hlt := h.lt
  obtain ⟨a, ha, hr⟩ := Option.bind_eq_some_iff.mp h.call
  refine ⟨Option.bind_eq_some_iff.mpr ⟨a, getElem?_snoc_iff.mpr (.inl ⟨ha, hlt⟩), hr⟩, ?_, ?_⟩
  · rw [worldAt_snoc (by omega)]
    exact h.before
  · rw [worldAt_snoc (by omega)]
    exact h.after

theorem makes_snoc_cases (h : Makes lib (calls ++ [c]) j r p) :
    Makes lib calls j r p ∨ j = calls.length ∧ c.redeems = some r ∧
      (World.run lib calls).records.pending p.id = none ∧
      (World.run lib (calls ++ [c])).records.pending p.id = some p := by
  obtain ⟨a, ha, hr⟩ := Option.bind_eq_some_iff.mp h.call
  have hbefore := h.before
  have hafter := h.after
  rcases getElem?_snoc_iff.mp ha with ⟨ha, hlt⟩ | ⟨rfl, rfl⟩
  · rw [worldAt_snoc (by omega)] at hbefore hafter
    exact .inl ⟨Option.bind_eq_some_iff.mpr ⟨a, ha, hr⟩, hbefore, hafter⟩
  · rw [worldAt_snoc (Nat.le_refl _), worldAt_length] at hbefore
    rw [worldAt_last] at hafter
    exact .inr ⟨rfl, hr, hbefore, hafter⟩

theorem revokedAt_snoc {k : Nat} (h : RevokedAt lib (calls ++ [c]) k hash) :
    RevokedAt lib calls k hash ∨ k = calls.length ∧ ∃ faults, c = .revoke hash faults ∧
      ∃ answer, ((World.run lib calls).call lib c).2 = .ok answer := by
  obtain ⟨faults, hcall, answer, hok⟩ := h
  rcases getElem?_snoc_iff.mp hcall with ⟨hcall, hlt⟩ | ⟨rfl, rfl⟩
  · rw [worldAt_snoc (by omega)] at hok
    exact .inl ⟨faults, hcall, answer, hok⟩
  · rw [worldAt_snoc (Nat.le_refl _), worldAt_length] at hok
    exact .inr ⟨rfl, faults, rfl, answer, hok⟩

theorem Origin.snoc {i j : Nat} {t : Issue} {r : Redeem} {p : PendingRecord}
    (h : Origin lib calls i j t r p)
    (hstill : (World.run lib (calls ++ [c])).records.pending p.id = some p) :
    Origin lib (calls ++ [c]) i j t r p := by
  have hlt := h.makes.lt
  refine ⟨?_, h.before, h.makes.snoc, h.token, h.kind, h.host, h.unexpired, ?_, ?_⟩
  · have hi := h.before
    exact issuedAt_snoc.mpr (.inl ⟨h.issued, by omega⟩)
  · intro k hik hkj hrevoked
    rcases revokedAt_snoc hrevoked with hrevoked | ⟨rfl, -⟩
    · exact h.unrevoked k hik hkj hrevoked
    · omega
  · intro k hjk hk
    rw [List.length_append, List.length_singleton] at hk
    rcases Nat.lt_or_ge calls.length k with hlast | hle
    · obtain rfl : k = calls.length + 1 := by omega
      rw [worldAt_last]
      exact hstill
    · rw [worldAt_snoc hle]
      exact h.stays k hjk hle

/-! ## What every run keeps -/

/-- The record of a token, as it was issued and since. -/
structure Known (lib : Lib) (calls : List Call) (hash : String) (record : TokenRecord) (i : Nat)
    (t : Issue) : Prop where
  issued : issuedAt calls i = some t
  stored : lib.sha256 t.secret = hash
  kind : record.kind = kindFor t.host
  host : record.host = t.host
  expires : record.expiresAtMs = t.expiresAtMs
  unrevoked : ∀ k, i < k → ¬ RevokedAt lib calls k hash
  unused : record.usedAtMs = none → ∀ j r p, Makes lib calls j r p → lib.sha256 r.token ≠ hash

structure Kept (lib : Lib) (calls : List Call) : Prop where
  token : ∀ hash record, (World.run lib calls).records.tokens hash = some record →
    ∃ i t, Known lib calls hash record i t
  pending : ∀ id p, (World.run lib calls).records.pending id = some p →
    p.id = id ∧ ∃ i j t r, Origin lib calls i j t r p
  made : ∀ j r p, Makes lib calls j r p → ∃ i t, i < j ∧ issuedAt calls i = some t ∧ t.secret = r.token
  once : ∀ j r p j' r' p', Makes lib calls j r p → Makes lib calls j' r' p' → r.token = r'.token →
    j = j'

def Distinct (calls : List Call) : Prop :=
  ∀ i i' t t', issuedAt calls i = some t → issuedAt calls i' = some t' → t.secret = t'.secret → i = i'

/-- No two texts of the run have the same hash. -/
def CollisionFree (lib : Lib) (calls : List Call) : Prop :=
  ∀ a ∈ secrets calls, ∀ b ∈ secrets calls, lib.sha256 a = lib.sha256 b → a = b

theorem Known.lt (h : Known lib calls hash record i t) : i < calls.length := by
  obtain ⟨a, ha, -⟩ := Option.bind_eq_some_iff.mp h.issued
  exact (List.getElem?_eq_some_iff.mp ha).1

theorem Known.issued_snoc
    (h : Known lib calls hash record i t) : issuedAt (calls ++ [c]) i = some t :=
  issuedAt_snoc.mpr (.inl ⟨h.issued, h.lt⟩)

theorem Known.snoc (h : Known lib calls hash record i t)
    (hrevoke : ¬ ∃ faults, c = .revoke hash faults ∧
      ∃ answer, ((World.run lib calls).call lib c).2 = .ok answer)
    (hredeem : record.usedAtMs = none → ∀ r p, c.redeems = some r →
      (World.run lib calls).records.pending p.id = none →
      (World.run lib (calls ++ [c])).records.pending p.id = some p → lib.sha256 r.token ≠ hash) :
    Known lib (calls ++ [c]) hash record i t := by
  refine ⟨h.issued_snoc, h.stored, h.kind, h.host, h.expires, ?_, ?_⟩
  · intro k hk hrevoked
    rcases revokedAt_snoc hrevoked with hrevoked | ⟨-, hnow⟩
    · exact h.unrevoked k hk hrevoked
    · exact hrevoke hnow
  · intro hnone j r p hmakes
    rcases makes_snoc_cases hmakes with hold | ⟨-, hr, hbefore, hafter⟩
    · exact h.unused hnone j r p hold
    · exact hredeem hnone r p hr hbefore hafter

theorem redeems_of_issues (h : c.issues = some t) : c.redeems = none := by
  cases c with
  | issue host ttlMs by_ now token faults => rfl
  | join => simp [Call.issues] at h
  | enroll => simp [Call.issues] at h
  | revoke => simp [Call.issues] at h
  | removePending => simp [Call.issues] at h

theorem mem_secrets_of_issues (h : issuedAt calls i = some t) : t.secret ∈ secrets calls := by
  obtain ⟨a, ha, ht⟩ := Option.bind_eq_some_iff.mp h
  refine List.mem_filterMap.mpr ⟨a, List.mem_of_getElem? ha, ?_⟩
  rw [ht]
  rfl

theorem mem_secrets_of_redeems (h : calls[j]?.bind Call.redeems = some r) :
    r.token ∈ secrets calls := by
  obtain ⟨a, ha, hr⟩ := Option.bind_eq_some_iff.mp h
  refine List.mem_filterMap.mpr ⟨a, List.mem_of_getElem? ha, ?_⟩
  cases hissues : a.issues with
  | none =>
    rw [hr]
    rfl
  | some t =>
    rw [redeems_of_issues hissues] at hr
    cases hr

/-- A call that makes no request, and leaves of the records some as they are. -/
theorem Kept.quiet (h : Kept lib calls)
    (htoken : ∀ hash record, (World.run lib (calls ++ [c])).records.tokens hash = some record →
      ∃ i t, Known lib (calls ++ [c]) hash record i t)
    (hpending : ∀ id p, (World.run lib (calls ++ [c])).records.pending id = some p →
      (World.run lib calls).records.pending id = some p) :
    Kept lib (calls ++ [c]) := by
  have hmakes : ∀ j r p, Makes lib (calls ++ [c]) j r p → Makes lib calls j r p := by
    intro j r p hmakes
    rcases makes_snoc_cases hmakes with hold | ⟨-, -, hbefore, hafter⟩
    · exact hold
    · rw [hpending _ _ hafter] at hbefore
      cases hbefore
  refine ⟨htoken, ?_, ?_, ?_⟩
  · intro id p hp
    obtain ⟨rfl, i, j, t, r, horigin⟩ := h.pending id p (hpending id p hp)
    exact ⟨rfl, i, j, t, r, horigin.snoc hp⟩
  · intro j r p hm
    obtain ⟨i, t, hlt, hissued, hsecret⟩ := h.made j r p (hmakes j r p hm)
    have hj := (hmakes j r p hm).lt
    exact ⟨i, t, hlt, issuedAt_snoc.mpr (.inl ⟨hissued, by omega⟩), hsecret⟩
  · intro j r p j' r' p' hm hm'
    exact h.once j r p j' r' p' (hmakes j r p hm) (hmakes j' r' p' hm')

/-- The tokens that a call leaves are known as before, unless it revoked or redeemed them. -/
theorem Kept.known_quiet (h : Kept lib calls)
    (hpending : ∀ id p, (World.run lib (calls ++ [c])).records.pending id = some p →
      (World.run lib calls).records.pending id = some p)

    (hrecord : (World.run lib calls).records.tokens hash = some record)
    (hrevoke : ¬ ∃ faults, c = .revoke hash faults ∧
      ∃ answer, ((World.run lib calls).call lib c).2 = .ok answer) :
    ∃ i t, Known lib (calls ++ [c]) hash record i t := by
  obtain ⟨i, t, hknown⟩ := h.token hash record hrecord
  refine ⟨i, t, hknown.snoc hrevoke ?_⟩
  intro _ r p _ hbefore hafter
  rw [hpending _ _ hafter] at hbefore
  cases hbefore

theorem Kept.untouched (h : Kept lib calls)
    (hsame : ((World.run lib calls).call lib c).1.records = (World.run lib calls).records)
    (hrevoke : ∀ hash faults, c = .revoke hash faults →
      ∃ e, ((World.run lib calls).call lib c).2 = .error e) : Kept lib (calls ++ [c]) := by
  have hrecords : (World.run lib (calls ++ [c])).records = (World.run lib calls).records := by
    rw [World.run_snoc, hsame]
  have hpending : ∀ id p, (World.run lib (calls ++ [c])).records.pending id = some p →
      (World.run lib calls).records.pending id = some p := by
    intro id p hp
    rwa [hrecords] at hp
  refine h.quiet ?_ hpending
  intro hash record hrecord
  rw [hrecords] at hrecord
  refine h.known_quiet hpending hrecord ?_
  rintro ⟨faults, rfl, answer, hok⟩
  obtain ⟨e, he⟩ := hrevoke hash faults rfl
  rw [hok] at he
  cases he

/-- A stored token is new: no request was made of one with its hash. -/
theorem Kept.issue (h : Kept lib calls) (hd : Distinct (calls ++ [c]))
    (hc : CollisionFree lib (calls ++ [c])) (ht : c.issues = some t)
    (hkind : record.kind = kindFor t.host) (hhost : record.host = t.host)
    (hexpires : record.expiresAtMs = t.expiresAtMs)
    (hleft : ((World.run lib calls).call lib c).1.records =
      ⟨Function.update (World.run lib calls).records.tokens (lib.sha256 t.secret) (some record),
        (World.run lib calls).records.pending⟩) : Kept lib (calls ++ [c]) := by
  have hrecords := hleft
  rw [← World.run_snoc] at hrecords
  have hpending : ∀ id p, (World.run lib (calls ++ [c])).records.pending id = some p →
      (World.run lib calls).records.pending id = some p := by
    intro id p hp
    rwa [hrecords] at hp
  have hnow : issuedAt (calls ++ [c]) calls.length = some t := issuedAt_snoc.mpr (.inr ⟨rfl, ht⟩)
  have hrevoke : ∀ hash faults, c ≠ .revoke hash faults := by
    rintro hash faults rfl
    simp [Call.issues] at ht
  refine h.quiet ?_ hpending
  intro hash record' hrecord
  rw [hrecords] at hrecord
  dsimp only at hrecord
  by_cases hhash : hash = lib.sha256 t.secret
  · subst hhash
    rw [Function.update_self, Option.some.injEq] at hrecord
    subst hrecord
    refine ⟨calls.length, t, hnow, rfl, hkind, hhost, hexpires, ?_, ?_⟩
    · intro k hk hrevoked
      rcases revokedAt_snoc hrevoked with ⟨faults, hcall, -⟩ | ⟨rfl, -⟩
      · have hlt := (List.getElem?_eq_some_iff.mp hcall).1
        omega
      · omega
    · intro _ j r p hmakes hsame
      rcases makes_snoc_cases hmakes with hold | ⟨-, hr, -⟩
      · obtain ⟨i, t', hlt, hissued, hsecret⟩ := h.made j r p hold
        have hj := hold.lt
        have hissued' : issuedAt (calls ++ [c]) i = some t' :=
          issuedAt_snoc.mpr (.inl ⟨hissued, by omega⟩)
        have heq := hc r.token (mem_secrets_of_redeems hold.snoc.call) t.secret
          (mem_secrets_of_issues hnow) hsame
        have hpos := hd i calls.length t' t hissued' hnow (hsecret.trans heq)
        omega
      · rw [redeems_of_issues ht] at hr
        cases hr
  · rw [Function.update_of_ne hhash] at hrecord
    refine h.known_quiet hpending hrecord ?_
    rintro ⟨faults, hcall, -⟩
    exact hrevoke hash faults hcall

section

variable {r : Redeem} (hr : c.redeems = some r)
include hr

theorem ne_revoke_of_redeems (hash : String) (faults : Faults) : c ≠ .revoke hash faults := by
  rintro rfl
  simp [Call.redeems] at hr

theorem redeems_last : (calls ++ [c])[calls.length]?.bind Call.redeems = some r :=
  Option.bind_eq_some_iff.mpr ⟨c, getElem?_snoc_iff.mpr (.inr ⟨rfl, rfl⟩), hr⟩

theorem makes_redeem_cases {r' : Redeem}
    (h : Makes lib (calls ++ [c]) j r' p) : Makes lib calls j r' p ∨ j = calls.length ∧ r' = r := by
  rcases makes_snoc_cases h with hold | ⟨hj, hr', -⟩
  · exact .inl hold
  · rw [hr] at hr'
    exact .inr ⟨hj, (Option.some.inj hr').symm⟩

theorem Known.marked {used : TokenRecord}
    (h : Known lib calls hash record i t) (hkind : used.kind = record.kind) (hhost : used.host = record.host)
    (hexpires : used.expiresAtMs = record.expiresAtMs) (hmarked : used.usedAtMs = some r.now) :
    Known lib (calls ++ [c]) hash used i t := by
  refine ⟨h.issued_snoc, h.stored, hkind.trans h.kind, hhost.trans h.host, hexpires.trans h.expires, ?_, ?_⟩
  · intro k hk hrevoked
    rcases revokedAt_snoc hrevoked with hrevoked | ⟨-, faults, hcall, -⟩
    · exact h.unrevoked k hk hrevoked
    · exact ne_revoke_of_redeems hr _ faults hcall
  · intro hnone
    rw [hmarked] at hnone
    cases hnone

theorem Known.origin
    (h : Known lib calls (lib.sha256 r.token) record i t) (hsecret : t.secret = r.token)
    (henroll : record.kind = .enroll → r.host = none) (hlive : r.now < record.expiresAtMs)
    (hjoin : record.kind = .join → ∀ h, record.host = some h → r.host = some h)
    (hfree : (World.run lib calls).records.pending p.id = none) (hkind : p.kind = record.kind)
    (hhost : p.host = r.host) (hp : (World.run lib (calls ++ [c])).records.pending p.id = some p) :
    Origin lib (calls ++ [c]) i calls.length t r p := by
  refine ⟨h.issued_snoc, h.lt, ⟨redeems_last hr, ?_, ?_⟩, hsecret.symm, hkind.trans h.kind, ?_,
    h.expires ▸ hlive, ?_, ?_⟩
  · rw [worldAt_snoc (Nat.le_refl _), worldAt_length]
    exact hfree
  · rw [worldAt_last]
    exact hp
  · rw [hhost]
    cases ht : t.host with
    | none => exact henroll (h.kind.trans (by rw [ht]; rfl))
    | some host => exact hjoin (h.kind.trans (by rw [ht]; rfl)) host (h.host.trans ht)
  · intro k hik hkj hrevoked
    rw [h.stored] at hrevoked
    rcases revokedAt_snoc hrevoked with hrevoked | ⟨rfl, -⟩
    · exact h.unrevoked k hik hrevoked
    · omega
  · intro k hjk hk
    rw [List.length_append, List.length_singleton] at hk
    obtain rfl : k = calls.length + 1 := by omega
    rw [worldAt_last]
    exact hp

/-- A redeem that is let through marks the token it presents, whose request is the only one. -/
theorem Kept.marked (h : Kept lib calls) (hc : CollisionFree lib (calls ++ [c])) {kind : TokenKind}
    (henroll : kind = .enroll → r.host = none)
    (hm : Marked lib (World.run lib calls).records ((World.run lib calls).call lib c).1.records kind r) :
    Kept lib (calls ++ [c]) := by
  rw [← World.run_snoc] at hm
  obtain ⟨record, used, hfound, rfl, hunused, hlive, hjoin, htokens, hkind', hhost', hexpires', hmarked⟩ :=
    hm.token
  obtain ⟨i, t, hknown⟩ := h.token _ record hfound
  have hissued : issuedAt (calls ++ [c]) i = some t := hknown.issued_snoc
  have hsecret : t.secret = r.token := hc t.secret (mem_secrets_of_issues hissued) r.token
    (mem_secrets_of_redeems (redeems_last hr)) hknown.stored
  -- no request was made of the token before
  have hfirst : ∀ j r' p, Makes lib calls j r' p → r'.token ≠ r.token := by
    intro j r' p hmakes heq
    exact hknown.unused hunused j r' p hmakes (by rw [heq])
  refine ⟨?_, ?_, ?_, ?_⟩
  · intro hash record' hrecord
    rw [htokens] at hrecord
    by_cases hhash : hash = lib.sha256 r.token
    · subst hhash
      rw [Function.update_self, Option.some.injEq] at hrecord
      subst hrecord
      exact ⟨i, t, hknown.marked hr hkind' hhost' hexpires' hmarked⟩
    · rw [Function.update_of_ne hhash] at hrecord
      obtain ⟨i', t', hknown'⟩ := h.token hash record' hrecord
      refine ⟨i', t', hknown'.snoc ?_ ?_⟩
      · rintro ⟨faults, hcall, -⟩
        exact ne_revoke_of_redeems hr hash faults hcall
      · intro _ r' p hr' _ _ heq
        rw [hr] at hr'
        rw [← Option.some.inj hr'] at heq
        exact hhash heq.symm
  · intro id p hp
    have hstill (hold : (World.run lib calls).records.pending id = some p) : p.id = id ∧
        ∃ i j t r, Origin lib (calls ++ [c]) i j t r p := by
      obtain ⟨rfl, i', j', t', r', horigin⟩ := h.pending id p hold
      exact ⟨rfl, i', j', t', r', horigin.snoc hp⟩
    rcases hm.pending with hsame | ⟨made, hfree, hmadeKind, hmadeHost, hleft⟩
    · exact hstill (hsame ▸ hp)
    · by_cases hid : id = made.id
      · have hnew := hp
        rw [hleft, hid, Function.update_self, Option.some.injEq] at hnew
        subst hnew
        subst hid
        exact ⟨rfl, i, calls.length, t, r,
          hknown.origin hr hsecret henroll hlive hjoin hfree hmadeKind hmadeHost hp⟩
      · have hold := hp
        rw [hleft, Function.update_of_ne hid] at hold
        exact hstill hold
  · intro j r' p hmakes
    rcases makes_redeem_cases hr hmakes with hold | ⟨rfl, rfl⟩
    · obtain ⟨i', t', hlt, hissued', hsecret'⟩ := h.made j r' p hold
      have hj := hold.lt
      exact ⟨i', t', hlt, issuedAt_snoc.mpr (.inl ⟨hissued', by omega⟩), hsecret'⟩
    · exact ⟨i, t, hknown.lt, hissued, hsecret⟩
  · intro j r' p j' r'' p' hmakes hmakes' heq
    rcases makes_redeem_cases hr hmakes with hold | ⟨rfl, rfl⟩
    · rcases makes_redeem_cases hr hmakes' with hold' | ⟨rfl, rfl⟩
      · exact h.once j r' p j' r'' p' hold hold' heq
      · exact absurd heq (hfirst j r' p hold)
    · rcases makes_redeem_cases hr hmakes' with hold' | ⟨rfl, rfl⟩
      · exact absurd heq.symm (hfirst j' r'' p' hold')
      · rfl

end

theorem Kept.snoc (h : Kept lib calls) (hd : Distinct (calls ++ [c]))
    (hc : CollisionFree lib (calls ++ [c])) : Kept lib (calls ++ [c]) := by
  cases hr : c.redeems with
  | some r =>
    rcases @call_redeem lib (World.run lib calls) c r hr with ⟨hsame, herr⟩ | ⟨kind, henroll, hm, -⟩
    · exact h.untouched hsame fun _ _ _ => herr
    · exact h.marked hr hc henroll hm
  | none =>
    cases c with
    | join => simp [Call.redeems] at hr
    | enroll => simp [Call.redeems] at hr
    | issue host ttlMs by_ now token faults =>
      rcases @call_issue lib (World.run lib calls) host ttlMs now by_ token faults with
        hsame | ⟨secret, record, rfl, hkind, hhost, hexpires, hleft⟩
      · refine h.untouched hsame ?_
        intro hash faults hcall
        cases hcall
      · exact h.issue hd hc (t := ⟨secret, host, now + ttlMs⟩) rfl hkind hhost hexpires hleft
    | revoke hash faults =>
      rcases @call_revoke lib (World.run lib calls) hash faults with ⟨hsame, herr⟩ | hleft
      · exact h.untouched hsame fun _ _ _ => herr
      · rw [← World.run_snoc] at hleft
        have hpending : ∀ id p,
            (World.run lib (calls ++ [.revoke hash faults])).records.pending id = some p →
              (World.run lib calls).records.pending id = some p := by
          intro id p hp
          rwa [hleft] at hp
        refine h.quiet ?_ hpending
        intro hash' record hrecord
        rw [hleft] at hrecord
        dsimp only at hrecord
        by_cases hhash : hash' = hash
        · rw [hhash, Function.update_self] at hrecord
          cases hrecord
        · rw [Function.update_of_ne hhash] at hrecord
          refine h.known_quiet hpending hrecord ?_
          rintro ⟨faults', hcall, -⟩
          exact hhash (Call.revoke.inj hcall).1.symm
    | removePending id faults =>
      rcases @call_removePending lib (World.run lib calls) id faults with hsame | hleft
      · refine h.untouched hsame ?_
        intro hash faults hcall
        cases hcall
      · rw [← World.run_snoc] at hleft
        have hpending : ∀ id' p,
            (World.run lib (calls ++ [.removePending id faults])).records.pending id' = some p →
              (World.run lib calls).records.pending id' = some p := by
          intro id' p hp
          rw [hleft] at hp
          dsimp only at hp
          by_cases hid : id' = id
          · rw [hid, Function.update_self] at hp
            cases hp
          · rwa [Function.update_of_ne hid] at hp
        refine h.quiet ?_ hpending
        intro hash record hrecord
        rw [hleft] at hrecord
        refine h.known_quiet hpending hrecord ?_
        rintro ⟨faults', hcall, -⟩
        cases hcall

theorem Distinct.of_snoc (h : Distinct (calls ++ [c])) : Distinct calls := by
  have hat : ∀ i t, issuedAt calls i = some t → issuedAt (calls ++ [c]) i = some t := by
    intro i t hi
    obtain ⟨a, ha, -⟩ := Option.bind_eq_some_iff.mp hi
    exact issuedAt_snoc.mpr (.inl ⟨hi, (List.getElem?_eq_some_iff.mp ha).1⟩)
  intro i i' t t' hi hi'
  exact h i i' t t' (hat i t hi) (hat i' t' hi')

theorem CollisionFree.of_snoc (h : CollisionFree lib (calls ++ [c])) : CollisionFree lib calls := by
  have hsub : secrets calls ⊆ secrets (calls ++ [c]) := by
    unfold secrets
    rw [List.filterMap_append]
    exact List.subset_append_left _ _
  intro a ha b hb
  exact h a (hsub ha) b (hsub hb)

theorem kept (hd : Distinct calls) (hc : CollisionFree lib calls) : Kept lib calls := by
  induction calls using List.reverseRecOn with
  | nil =>
    have hnone : ∀ j r p, ¬ Makes lib [] j r p := by
      intro j r p hmakes
      have hlt := hmakes.lt
      simp at hlt
    refine ⟨?_, ?_, fun j r p hm => absurd hm (hnone j r p), fun j r p _ _ _ hm => absurd hm (hnone j r p)⟩
    · intro hash record hrecord
      cases hrecord
    · intro id p hp
      cases hp
  | append_singleton calls c ih => exact (ih hd.of_snoc hc.of_snoc).snoc hd hc

theorem Origin.unique {i' j' : Nat} {t' : Issue} {r' : Redeem} (hd : Distinct calls)
    (h : Origin lib calls i j t r p) (h' : Origin lib calls i' j' t' r' p) : i = i' := by
  have hj : j = j' := by
    have hlt := h.makes.lt
    have hlt' := h'.makes.lt
    rcases Nat.lt_trichotomy j j' with hbefore | heq | hafter
    · have hfree := h'.makes.before
      rw [h.stays j' hbefore (by omega)] at hfree
      cases hfree
    · exact heq
    · have hfree := h.makes.before
      rw [h'.stays j hafter (by omega)] at hfree
      cases hfree
  have hr : r = r' := by
    have hcall := h.makes.call
    rw [hj, h'.makes.call, Option.some.injEq] at hcall
    exact hcall.symm
  refine hd i i' t t' h.issued h'.issued ?_
  rw [← h.token, ← h'.token, hr]

end

/-- The answers of a redeem that is refused, rather than failed by pmxcfs. -/
def Refusal (e : ApiError) : Prop :=
  e.code = .unauthenticated ∨ e.code = .invalid ∨ e.code = .rateLimited

theorem storage_not_refusal (e : PmxcfsError) : ¬ Refusal (storage e) := by
  unfold Refusal storage
  split <;> simp [ApiError.new]

/-- Each pending request comes from one issued token, which was good for it; a token makes one request
at most; and a redeem that is refused changes no record. -/
theorem single_use (lib : Lib) (calls : List Call) (hd : Distinct calls)
    (hc : CollisionFree lib calls) :
    (∀ id p, (World.run lib calls).records.pending id = some p →
      p.id = id ∧ ∃! i, ∃ j t r, Origin lib calls i j t r p) ∧
    (∀ j r p j' r' p', Makes lib calls j r p → Makes lib calls j' r' p' → r.token = r'.token → j = j') ∧
    ∀ (w : World) (c : Call) (r : Redeem) (e : ApiError), c.redeems = some r →
      (w.call lib c).2 = .error e → Refusal e → (w.call lib c).1.records = w.records := by
  have hkept := kept hd hc
  refine ⟨?_, hkept.once, ?_⟩
  · intro id p hp
    obtain ⟨hid, i, j, t, r, horigin⟩ := hkept.pending id p hp
    refine ⟨hid, i, ⟨j, t, r, horigin⟩, ?_⟩
    rintro i' ⟨j', t', r', horigin'⟩
    exact horigin'.unique hd horigin
  · intro w c r e hr he hrefusal
    rcases @call_redeem lib w c r hr with ⟨hsame, -⟩ | ⟨kind, -, -, hstorage⟩
    · exact hsame
    · obtain ⟨e', rfl⟩ := hstorage e he
      exact absurd hrefusal (storage_not_refusal e')

/-! ### A token presented twice -/

/-- SHA-256 as it hashes the token of the run. -/
def zerosLib : Lib where
  sha256 text :=
    if text = "0000000000000000000000000000000000000000000000000000000000000000" then
      "60e05bd1b195af2f94112fa7197a5c88289058840ce7c6df9693756bc6250f55"
    else text
  pem _ := false

def zerosJoin (now : Int) (id : String) : Call :=
  .join ⟨"0000000000000000000000000000000000000000000000000000000000000000", ⟨2, HostSlot.range_two⟩,
      "ssh-ed25519 AAAA", Text.join ":" (List.replicate 32 "0A")⟩
    ⟨⟨1, HostSlot.range_one⟩, "100.64.0.9"⟩ now (some id) {}

def zerosCalls : List Call :=
  [.issue (some ⟨2, HostSlot.range_two⟩) 60000 "root@pam" 1000
    (some "0000000000000000000000000000000000000000000000000000000000000000") {},
   zerosJoin 2000 "a0", zerosJoin 3000 "a1"]

theorem zerosCalls_issued (h : issuedAt zerosCalls i = some t) : i = 0 := by
  match i with
  | 0 => rfl
  | 1 => cases h
  | 2 => cases h
  | n + 3 => cases h

theorem zerosCalls_secrets : ∀ a ∈ secrets zerosCalls,
    a = "0000000000000000000000000000000000000000000000000000000000000000" := by
  intro a ha
  obtain ⟨c, hc, hsecret⟩ := List.mem_filterMap.mp ha
  simp only [zerosCalls, List.mem_cons, List.not_mem_nil, or_false] at hc
  rcases hc with rfl | rfl | rfl <;> exact (Option.some.inj hsecret).symm

/-- The request of the token that is presented twice is of its first presentation. -/
theorem single_use_zeros :
    ((World.run zerosLib zerosCalls).records.pending "a0").isSome = true ∧
      ((World.run zerosLib zerosCalls).records.pending "a1").isSome = false ∧
      ∀ id p, (World.run zerosLib zerosCalls).records.pending id = some p →
        p.id = id ∧ ∃! i, ∃ j t r, Origin zerosLib zerosCalls i j t r p :=
  ⟨by decide +kernel, by decide +kernel,
    (single_use zerosLib zerosCalls
      (fun i i' t t' hi hi' _ => (zerosCalls_issued hi).trans (zerosCalls_issued hi').symm)
      (fun a ha b hb _ => (zerosCalls_secrets a ha).trans (zerosCalls_secrets b hb).symm)).1⟩

end Bmac.Bmacd.Tokens
