import Bmac.Base.Run
import Bmac.Bmacd.Limits
import Bmac.Bmacd.Operations

/-!
# Logging in

`login` of `bmacd/src/auth/mod.rs`. Proxmox checks the password and the second factor. An attempt
counts against its address, and a failure against the user name, compared without case; a limited
attempt never reaches Proxmox. A second-factor challenge is good for three wrong codes.

A request runs to where it waits for Proxmox, and again from Proxmox's answer on. `lower` is the lower
case of a name. A time is an integer, and the clock doesn't go back.
-/

namespace Bmac.Bmacd.Logins

open Bmac.Base Bmac.Core

def challengeTtlMs : Int := 2 * 60 * 1000
def maxChallenges : Nat := 1000
/-- Wrong codes allowed per challenge before the password is needed again. -/
def maxSecondFactorTries : Nat := 3
def maxUser : Nat := 128
def maxPassword : Nat := 4096

structure LoginLimits where
  /-- Every attempt from one address. -/
  perAddress : Window := ⟨30, 5 * 60 * 1000⟩
  /-- Failed attempts for one user name, from anywhere. -/
  perUser : Window := ⟨10, 15 * 60 * 1000⟩

inductive SecondFactor where
  | totp | recovery | webauthn
  deriving DecidableEq

def methodName : SecondFactor → String
  | .totp => "totp"
  | .recovery => "recovery"
  | .webauthn => "webauthn"

inductive LoginRequest where
  | password (user password : String)
  | secondFactor (challenge : String) (method : SecondFactor) (response : String)

inductive TicketForm where
  | password (user password : String)
  | secondFactor (user partialTicket response : String)

/-- The second factors that BMAC can use and the account has. -/
structure Challenge where
  totp : Bool
  recovery : Bool

inductive TicketOutcome where
  | granted (user : String)
  | secondFactor (user partialTicket : String) (challenge : Challenge)

inductive ProxmoxError where
  /-- Wrong password or code, or a disabled or unknown account. -/
  | refused
  | unreachable (what : String)
  | protocol (what : String)

structure Pending where
  user : String
  partialTicket : String
  client : String
  createdMs : Int
  methods : List SecondFactor
  tries : Nat

structure Auth where
  address : Limiter
  user : Limiter
  pending : List (String × Pending) := []

/-- A check that Proxmox was asked for, with what its request goes on with. -/
structure Check where
  form : TicketForm
  user : String
  client : String
  nowMs : Int
  challenge : Option String

inductive Reply where
  /-- Proxmox accepted the user. -/
  | finish (user : String)
  | secondFactor (challenge : String) (methods : List SecondFactor)

def rateLimited (limited : Limited) : ApiError :=
  .new .rateLimited
    s!"too many login attempts; wait {limited.retryAfterSeconds} seconds and try again"

def unavailable : ApiError :=
  .new .unavailable
    "this host can't check logins right now; try again shortly or use another host"

def fieldError (message field text : String) : ApiError :=
  { ApiError.new .invalid message with fieldErrors := [(field, text)] }

/-- `name@realm`, as Proxmox spells user IDs. API tokens (`!`) can't log in. -/
def validUser (user : String) : Bool :=
  match user.toList.reverse.span (· ≠ '@') with
  | (_, []) => false
  | (realm, _ :: name) =>
    Text.len user ≤ maxUser && !name.isEmpty &&
      !name.any (fun c => Text.isWhitespace c || Text.isControl c || c = ':' || c = '/' || c = '!') &&
      2 ≤ Text.len (String.ofList realm) &&
      realm.getLast?.any (fun c => Text.isLower c || Text.isUpper c) &&
      realm.all fun c => Text.isAlphanumeric c || c = '.' || c = '-' || c = '_'

def validResponse (method : SecondFactor) (response : String) : Bool :=
  match method with
  | .totp => 6 ≤ Text.len response && Text.len response ≤ 8 && response.toList.all Text.isDigit
  | .recovery =>
    1 ≤ Text.len response && Text.len response ≤ 64 &&
      response.toList.all fun c => Text.isAlphanumeric c || c = '-'
  | .webauthn => false

namespace Auth

def start (limits : LoginLimits) : Auth := ⟨⟨limits.perAddress, []⟩, ⟨limits.perUser, []⟩, []⟩

def challenge? (a : Auth) (id : String) : Option Pending := a.pending.lookup id

def retain (a : Auth) (now : Int) : Auth :=
  { a with pending := a.pending.filter fun entry => now - entry.2.createdMs < challengeTtlMs }

def remove (a : Auth) (id : String) : Auth :=
  { a with pending := a.pending.filter (·.1 ≠ id) }

/-- Counts an attempt from `client` and refuses if the address or the user name is over its limit. -/
def admitLogin (lower : String → String) (a : Auth) (client : String) (user : Option String) (now : Int) :
    Auth × Except ApiError Unit :=
  match a.address.check client now with
  | (address, .error limited) => ({ a with address }, .error (rateLimited limited))
  | (address, .ok ()) =>
    let a := { a with address := address.record client now }
    match user with
    | none => (a, .ok ())
    | some u =>
      match a.user.check (lower u) now with
      | (user, .error limited) => ({ a with user }, .error (rateLimited limited))
      | (user, .ok ()) => ({ a with user }, .ok ())

def failed (lower : String → String) (a : Auth) (user : String) (now : Int) : Auth :=
  { a with user := a.user.record (lower user) now }

/-- `password` up to Proxmox's check. -/
def password (lower : String → String) (a : Auth) (user password client : String) (now : Int) :
    Auth × Except ApiError Check :=
  if !validUser user then
    (a, .error (fieldError "enter the user name with its realm, such as alice@pve" "user"
      "a Proxmox user such as alice@pve"))
  else if password = "" ∨ maxPassword < Text.len password then
    (a, .error (fieldError "enter the password" "password" "required"))
  else
    let (a, admitted) := a.admitLogin lower client (some user) now
    (a, admitted.map fun _ => ⟨.password user password, user, client, now, none⟩)

/-- `second_factor` up to Proxmox's check. -/
def secondFactor (lower : String → String) (a : Auth) (challenge : String) (method : SecondFactor)
    (response client : String) (now : Int) : Auth × Except ApiError Check :=
  match (a.challenge? challenge).filter
      (fun p => p.client = client && now - p.createdMs < challengeTtlMs) with
  | none =>
    let (a, admitted) := (a.retain now).admitLogin lower client none now
    (a, admitted.bind fun _ =>
      .error (.new .unauthenticated "the login took too long; start again with your password"))
  | some p =>
    let response := String.ofList (response.toList.filter (!Text.isWhitespace ·))
    if !p.methods.contains method || !validResponse method response then
      (a, .error (fieldError "enter the code from your authenticator app or a recovery key" "response"
        "not a valid code"))
    else
      let (a, admitted) := a.admitLogin lower client (some p.user) now
      let form := .secondFactor p.user p.partialTicket s!"{methodName method}:{response}"
      (a, admitted.map fun _ => ⟨form, p.user, client, now, some challenge⟩)

def login (lower : String → String) (a : Auth) (request : LoginRequest) (client : String) (now : Int) :
    Auth × Except ApiError Check :=
  match request with
  | .password user password => a.password lower user password client now
  | .secondFactor challenge method response =>
    a.secondFactor lower challenge method response client now

/-- What is left of `password`; `id` is 256 random bits, or none. -/
def passwordAnswer (lower : String → String) (a : Auth) (check : Check) (id : Option String) :
    Except ProxmoxError TicketOutcome → Auth × Except ApiError Reply
  | .ok (.granted user) => (a, .ok (.finish user))
  | .ok (.secondFactor user partialTicket challenge) =>
    let methods := (if challenge.totp then [SecondFactor.totp] else []) ++
      (if challenge.recovery then [.recovery] else [])
    if methods = [] then
      (a, .error (.new .forbidden
        "the account's only second factor is one BMAC can't use yet (WebAuthn, Yubico, or U2F); add TOTP or recovery keys to it in Proxmox"))
    else
      match id with
      | none => (a, .error unavailable)
      | some id =>
        let a := a.retain check.nowMs
        if maxChallenges ≤ a.pending.length then (a, .error (rateLimited ⟨30, false⟩))
        else
          let p : Pending := ⟨user, partialTicket, check.client, check.nowMs, methods, 0⟩
          ({ a with pending := (id, p) :: a.pending }, .ok (.secondFactor id methods))
  | .error .refused =>
    (a.failed lower check.user check.nowMs, .error (.new .unauthenticated
      "the user name or password is wrong, or the account is disabled"))
  | .error _ => (a, .error unavailable)

/-- A wrong code for `challenge`, and whether it was the last. -/
def tried (a : Auth) (challenge : String) : Auth × Bool :=
  match a.challenge? challenge with
  | none => (a, true)
  | some p =>
    if maxSecondFactorTries ≤ p.tries + 1 then (a.remove challenge, true)
    else
      ({ a with
          pending := a.pending.map fun entry =>
            if entry.1 = challenge then (challenge, { p with tries := p.tries + 1 }) else entry },
        false)

/-- What is left of `second_factor`. -/
def secondFactorAnswer (lower : String → String) (a : Auth) (check : Check) (challenge : String) :
    Except ProxmoxError TicketOutcome → Auth × Except ApiError Reply
  | .ok (.granted user) => (a.remove challenge, .ok (.finish user))
  | .ok (.secondFactor _ _ _) => (a.remove challenge, .error unavailable)
  | .error .refused =>
    let (a, exhausted) := (a.failed lower check.user check.nowMs).tried challenge
    (a, .error (.new .unauthenticated
      (if exhausted then "that code is wrong; start again with your password"
      else "that code is wrong; try again")))
  | .error _ => (a, .error unavailable)

def answer (lower : String → String) (a : Auth) (check : Check) (id : Option String)
    (outcome : Except ProxmoxError TicketOutcome) : Auth × Except ApiError Reply :=
  match check.challenge with
  | none => a.passwordAnswer lower check id outcome
  | some challenge => a.secondFactorAnswer lower check challenge outcome

end Auth

/-! ## Runs -/

/-- `waiting` has the checks without an answer, `failed` those that Proxmox found wrong, and `lost`
those whose answer never came. -/
structure World where
  clock : Int
  auth : Auth
  waiting : List Check
  failed : List Check
  lost : List Check
  issued : List String

inductive Label where
  | tick (now : Int)
  | login (request : LoginRequest) (client : String)
  /-- Proxmox's answer to the `n`th check that waits. -/
  | answer (n : Nat) (id : Option String) (outcome : Except ProxmoxError TicketOutcome)
  /-- The request of the `n`th check that waits is dropped. -/
  | drop (n : Nat)

def World.start (limits : LoginLimits) (now : Int) : World := ⟨now, .start limits, [], [], [], []⟩

namespace World

def forward (w : World) : Auth × Except ApiError Check → World
  | (auth, .ok check) => { w with auth, waiting := check :: w.waiting }
  | (auth, .error _) => { w with auth }

/-- The check `check` is no longer waiting; `outcome` says how it went. -/
def settle (w : World) (n : Nat) (check : Check) (auth : Auth) (id : Option String) :
    Except ProxmoxError TicketOutcome → World
  | .ok _ =>
    { w with auth, waiting := w.waiting.eraseIdx n, issued := id.toList ++ w.issued }
  | .error .refused =>
    { w with
      auth, waiting := w.waiting.eraseIdx n, failed := check :: w.failed
      issued := id.toList ++ w.issued }
  | .error _ =>
    { w with
      auth, waiting := w.waiting.eraseIdx n, lost := check :: w.lost
      issued := id.toList ++ w.issued }

end World

/-- Random bits aren't drawn twice. -/
def step (lower : String → String) (w : World) : Label → Option World
  | .tick now => if w.clock ≤ now then some { w with clock := now } else none
  | .login request client => some (w.forward (w.auth.login lower request client w.clock))
  | .answer n id outcome =>
    match w.waiting[n]? with
    | none => none
    | some check =>
      if id.any (w.issued.contains ·) then none
      else some (w.settle n check (w.auth.answer lower check id outcome).1 id outcome)
  | .drop n =>
    match w.waiting[n]? with
    | none => none
    | some check => some { w with waiting := w.waiting.eraseIdx n, lost := check :: w.lost }

variable {lower : String → String} {limits : LoginLimits} {a : Auth} {w w' : World} {l : Label}

/-! ## What one call does -/

/-- What `login` leaves of the state `a`, and asks. -/
structure Asks (lower : String → String) (a : Auth) (now : Int) (asked : Auth × Except ApiError Check) :
    Prop where
  window : asked.1.user.window = a.user.window
  times : ∀ key, asked.1.user.times key = a.user.times key ∨ asked.1.user.times key =
    (a.user.times key).dropWhile (· ≤ now - a.user.window.periodMs)
  pending : ∀ entry ∈ asked.1.pending, entry ∈ a.pending
  check : ∀ check, asked.2 = .ok check → check.nowMs = now ∧
    asked.1.user.times (lower check.user) =
      (a.user.times (lower check.user)).dropWhile (· ≤ now - a.user.window.periodMs) ∧
    ∀ id, check.challenge = some id → ∃ p, (id, p) ∈ a.pending

variable {now : Int}

theorem Asks.refuses (e : ApiError) : Asks lower a now (a, .error e) :=
  ⟨rfl, fun _ => .inl rfl, fun _ h => h, nofun⟩

theorem admitLogin_pending {client : String} {user : Option String} :
    (a.admitLogin lower client user now).1.pending = a.pending := by
  unfold Auth.admitLogin
  split
  · rfl
  · cases user with
    | none => rfl
    | some u =>
      dsimp only
      split <;> rfl

theorem admitLogin_user {client : String} {now : Int} {user : Option String} :
    (a.admitLogin lower client user now).1.user = a.user ∨
      ∃ u, user = some u ∧ (a.admitLogin lower client user now).1.user = (a.user.check (lower u) now).1 := by
  unfold Auth.admitLogin
  split
  · exact .inl rfl
  · cases user with
    | none => exact .inl rfl
    | some u =>
      refine .inr ⟨u, rfl, ?_⟩
      dsimp only
      split <;> next heq => rw [heq]

theorem admitLogin_ok {client u : String}
    (h : (a.admitLogin lower client (some u) now).2 = .ok ()) :
    (a.admitLogin lower client (some u) now).1.user = (a.user.check (lower u) now).1 := by
  unfold Auth.admitLogin at h ⊢
  split at h
  · cases h
  · dsimp only at h ⊢
    split <;> next heq => rw [heq]

/-- A request that is admitted for the user `u` asks the check `check`. -/
theorem Asks.admitLogin {client u : String} {now : Int} {check : Check} (huser : check.user = u)
    (hnow : check.nowMs = now)
    (hid : ∀ id, check.challenge = some id → ∃ p, (id, p) ∈ a.pending) :
    Asks lower a now ((a.admitLogin lower client (some u) now).1,
      (a.admitLogin lower client (some u) now).2.map fun _ => check) := by
  refine ⟨?_, ?_, ?_, ?_⟩
  · show (a.admitLogin lower client (some u) now).1.user.window = _
    rcases @admitLogin_user lower a client now (some u) with
      h | ⟨_, -, h⟩
    · rw [h]
    · rw [h, Limiter.check_window]
  · intro key
    show (a.admitLogin lower client (some u) now).1.user.times key = _ ∨ _
    rcases @admitLogin_user lower a client now (some u) with
      h | ⟨v, -, h⟩
    · exact .inl (by rw [h])
    · rw [h, Limiter.times_check]
      by_cases hkey : key = lower v
      · subst hkey
        exact .inr (if_pos rfl)
      · exact .inl (if_neg hkey)
  · intro entry hentry
    rwa [show ((a.admitLogin lower client (some u) now).1, _).1.pending = a.pending from admitLogin_pending]
      at hentry
  · intro check' hcheck'
    cases hadmits : (a.admitLogin lower client (some u) now).2 with
    | error e =>
      rw [hadmits] at hcheck'
      cases hcheck'
    | ok _ =>
      rw [hadmits] at hcheck'
      obtain rfl : check = check' := Except.ok.inj hcheck'
      refine ⟨hnow, ?_, hid⟩
      show (a.admitLogin lower client (some u) now).1.user.times _ = _
      rw [admitLogin_ok hadmits, Limiter.times_check, huser, if_pos rfl]

theorem login_asks (request : LoginRequest) (client : String) (now : Int) :
    Asks lower a now (a.login lower request client now) := by
  cases request with
  | password user password =>
    show Asks lower a now (a.password lower user password client now)
    unfold Auth.password
    split
    · exact .refuses _
    · split
      · exact .refuses _
      · exact .admitLogin rfl rfl nofun
  | secondFactor challenge method response =>
    show Asks lower a now (a.secondFactor lower challenge method response client now)
    unfold Auth.secondFactor
    split
    · refine ⟨?_, ?_, ?_, ?_⟩
      · show ((a.retain now).admitLogin lower client none now).1.user.window = _
        rcases @admitLogin_user lower (a.retain now) client now none with h | ⟨_, hnone, -⟩
        · rw [h]
          rfl
        · cases hnone
      · intro key
        left
        show ((a.retain now).admitLogin lower client none now).1.user.times key = _
        rcases @admitLogin_user lower (a.retain now) client now none with h | ⟨_, hnone, -⟩
        · rw [h]
          rfl
        · cases hnone
      · intro entry hentry
        have hmem : entry ∈ ((a.retain now).admitLogin lower client none now).1.pending := hentry
        rw [admitLogin_pending] at hmem
        exact List.mem_of_mem_filter hmem
      · intro check hcheck
        change ((a.retain now).admitLogin lower client none now).2.bind _ = .ok check at hcheck
        cases hadmits : ((a.retain now).admitLogin lower client none now).2 with
        | error e =>
          rw [hadmits] at hcheck
          cases hcheck
        | ok _ =>
          rw [hadmits] at hcheck
          cases hcheck
    · next p hp =>
      dsimp only
      split
      · exact .refuses _
      · refine .admitLogin rfl rfl fun id hid => ⟨p, ?_⟩
        obtain rfl : challenge = id := Option.some.inj hid
        obtain ⟨hfound, -⟩ := Option.filter_eq_some_iff.mp hp
        obtain ⟨before, after, hpending, -⟩ := List.lookup_eq_some_iff.mp hfound
        rw [hpending]
        simp

theorem mem_tried {challenge : String} {entry : String × Pending}
    (h : entry ∈ (a.tried challenge).1.pending) : entry ∈ a.pending ∧ entry.1 ≠ challenge ∨
      ∃ p, (challenge, p) ∈ a.pending ∧ entry = (challenge, { p with tries := p.tries + 1 }) := by
  unfold Auth.tried at h
  split at h
  · next hnone =>
    refine .inl ⟨h, fun hid => ?_⟩
    have := List.lookup_eq_none_iff.mp hnone entry h
    simp [hid] at this
  · next p hp =>
    split at h
    · obtain ⟨hmem, hne⟩ := List.mem_filter.mp h
      exact .inl ⟨hmem, by simpa using hne⟩
    · obtain ⟨old, hold, rfl⟩ := List.mem_map.mp h
      by_cases hid : old.1 = challenge
      · rw [if_pos hid]
        obtain ⟨before, after, hpending, -⟩ := List.lookup_eq_some_iff.mp hp
        exact .inr ⟨p, by rw [hpending]; simp, rfl⟩
      · rw [if_neg hid]
        exact .inl ⟨hold, hid⟩

theorem tried_user {challenge : String} : (a.tried challenge).1.user = a.user := by
  unfold Auth.tried
  split
  · rfl
  · split <;> rfl

theorem answer_refused {check : Check} {id : Option String} :
    (a.answer lower check id (.error .refused)).1.user = a.user.record (lower check.user) check.nowMs ∧
    ∀ entry ∈ (a.answer lower check id (.error .refused)).1.pending,
      entry ∈ a.pending ∧ check.challenge ≠ some entry.1 ∨
      ∃ p, (entry.1, p) ∈ a.pending ∧ check.challenge = some entry.1 ∧ entry.2.tries = p.tries + 1 := by
  unfold Auth.answer
  cases hchallenge : check.challenge with
  | none => exact ⟨rfl, fun entry h => .inl ⟨h, nofun⟩⟩
  | some challenge =>
    refine ⟨tried_user, fun entry h => ?_⟩
    rcases mem_tried h with ⟨hmem, hne⟩ | ⟨p, hp, rfl⟩
    · exact .inl ⟨hmem, fun heq => hne (Option.some.inj heq).symm⟩
    · exact .inr ⟨p, hp, rfl, rfl⟩

/-- Another answer records nothing; a new challenge has no tries. -/
theorem answer_other {check : Check} {id : Option String} {outcome : Except ProxmoxError TicketOutcome}
    (h : outcome ≠ .error .refused) :
    (a.answer lower check id outcome).1.user = a.user ∧
    ∀ entry ∈ (a.answer lower check id outcome).1.pending,
      entry ∈ a.pending ∨ (id = some entry.1 ∧ entry.2.tries = 0) := by
  unfold Auth.answer
  cases check.challenge with
  | some challenge =>
    rcases outcome with (_ | _ | _) | (_ | _)
    · exact absurd rfl h
    · exact ⟨rfl, fun _ => .inl⟩
    · exact ⟨rfl, fun _ => .inl⟩
    · exact ⟨rfl, fun _ hmem => .inl (List.mem_of_mem_filter hmem)⟩
    · exact ⟨rfl, fun _ hmem => .inl (List.mem_of_mem_filter hmem)⟩
  | none =>
    rcases outcome with (_ | _ | _) | (_ | ⟨user, ticket, challenge⟩)
    · exact absurd rfl h
    · exact ⟨rfl, fun _ => .inl⟩
    · exact ⟨rfl, fun _ => .inl⟩
    · exact ⟨rfl, fun _ => .inl⟩
    · unfold Auth.passwordAnswer
      dsimp only
      generalize (if challenge.totp = true then [SecondFactor.totp] else []) ++
        (if challenge.recovery = true then [SecondFactor.recovery] else []) = methods
      split
      · exact ⟨rfl, fun _ => .inl⟩
      · cases id with
        | none => exact ⟨rfl, fun _ => .inl⟩
        | some id =>
          dsimp only
          split
          · exact ⟨rfl, fun _ hmem => .inl (List.mem_of_mem_filter hmem)⟩
          · refine ⟨rfl, fun entry hmem => ?_⟩
            rcases List.mem_cons.mp hmem with rfl | hmem
            · exact .inr ⟨rfl, rfl⟩
            · exact .inl (List.mem_of_mem_filter hmem)

/-! ## The bound -/

namespace World

def period (w : World) : Int := w.auth.user.window.periodMs

/-- The checks that Proxmox hasn't found right. -/
def unproven (w : World) : List Check := w.waiting ++ (w.failed ++ w.lost)

/-- The hits of `key` within the window. -/
def unexpired (w : World) (key : String) : List Int :=
  (w.auth.user.times key).dropWhile (· ≤ w.clock - w.period)

end World

/-- Within any window at most the limit's number of checks for one user, and at most three for one
challenge, are found wrong or have no answer to show that they weren't. -/
def Bounded (lower : String → String) (limits : LoginLimits) (w : World) : Prop :=
  (∀ key t, (w.failed ++ w.lost).countP (fun c => lower c.user = key ∧ t ≤ c.nowMs ∧
    c.nowMs < t + limits.perUser.periodMs) ≤ limits.perUser.limit) ∧
  ∀ id, (w.failed ++ w.lost).countP (fun c => c.challenge = some id) ≤ maxSecondFactorTries

/-- A check that goes to Proxmox stays within the limit also when those that wait for their answer, or
never got one, are counted as failures; and a failure that is recorded has room in the table. -/
def Room (lower : String → String) (w : World) : Label → Prop
  | .login request client =>
    ∀ check, (w.auth.login lower request client w.clock).2 = .ok check →
      (w.unexpired (lower check.user)).length +
        w.waiting.countP (fun c => lower c.user = lower check.user) +
        w.lost.countP (fun c => lower c.user = lower check.user ∧ w.clock - w.period < c.nowMs) <
          w.auth.user.window.limit ∧
      ∀ id p, check.challenge = some id → (id, p) ∈ w.auth.pending →
        p.tries + w.waiting.countP (fun c => c.challenge = some id) +
          w.lost.countP (fun c => c.challenge = some id) < maxSecondFactorTries
  | .answer n _ (.error .refused) =>
    ∀ check, w.waiting[n]? = some check →
      (w.auth.user.hits? (lower check.user)).isSome ∨ w.auth.user.keys.length < maxKeys
  | _ => True

/-- What holds in every state of a run with room: `hits` leaves no hit of a user dropped but those that
have expired, which `kept` says, and `within` and `codes` count the checks without a right answer. -/
structure Counted (lower : String → String) (limits : LoginLimits) (w : World) : Prop where
  window : w.auth.user.window = limits.perUser
  past : ∀ c ∈ w.unproven, c.nowMs ≤ w.clock
  hits : ∀ key, (w.auth.user.times key).length + w.waiting.countP (fun c => lower c.user = key) ≤
    limits.perUser.limit
  kept : ∀ key h, w.clock - limits.perUser.periodMs ≤ h →
    w.failed.countP (fun c => lower c.user = key ∧ h < c.nowMs) ≤
      (w.auth.user.times key).countP (h < ·)
  within : ∀ key t, w.unproven.countP (fun c => lower c.user = key ∧ t ≤ c.nowMs ∧
    c.nowMs < t + limits.perUser.periodMs) ≤ limits.perUser.limit
  tries : ∀ entry ∈ w.auth.pending,
    entry.2.tries = w.failed.countP (fun c => c.challenge = some entry.1)
  known : ∀ entry ∈ w.auth.pending, entry.1 ∈ w.issued
  asked : ∀ c ∈ w.unproven, ∀ id, c.challenge = some id → id ∈ w.issued
  codes : ∀ id, w.unproven.countP (fun c => c.challenge = some id) ≤ maxSecondFactorTries

theorem Counted.bounded (h : Counted lower limits w) : Bounded lower limits w := by
  have hsub : (w.failed ++ w.lost).Sublist w.unproven := List.sublist_append_right _ _
  exact ⟨fun key t => (hsub.countP_le).trans (h.within key t),
    fun id => (hsub.countP_le).trans (h.codes id)⟩

theorem Counted.start (now : Int) : Counted lower limits (.start limits now) :=
  ⟨rfl, fun _ h => absurd h List.not_mem_nil, fun _ => Nat.zero_le _, fun _ _ _ => Nat.zero_le _,
    fun _ _ => Nat.zero_le _, fun _ h => absurd h List.not_mem_nil,
    fun _ h => absurd h List.not_mem_nil, fun _ h => absurd h List.not_mem_nil,
    fun _ => Nat.zero_le _⟩

theorem Counted.tick (h : Counted lower limits w) (hle : w.clock ≤ now) :
    Counted lower limits { w with clock := now } where
  window := h.window
  past := fun c hc => (h.past c hc).trans hle
  hits := h.hits
  kept := fun key t ht => h.kept key t (by dsimp only at ht; omega)
  within := h.within
  tries := h.tries
  known := h.known
  asked := h.asked
  codes := h.codes

/-- The hits that have expired don't count. -/
theorem countP_dropWhile {times : List Int} {old h : Int} (hle : old ≤ h) :
    (times.dropWhile (· ≤ old)).countP (h < ·) = times.countP (h < ·) := by
  induction times with
  | nil => rfl
  | cons t rest ih =>
    rw [List.dropWhile_cons]
    by_cases ht : t ≤ old
    · rw [if_pos (by simpa using ht), ih, List.countP_cons_of_neg]
      have : ¬ h < t := by omega
      simpa using this
    · rw [if_neg (by simpa using ht)]

theorem countP_le_of_imp {P Q : Check → Prop} [DecidablePred P] [DecidablePred Q]
    (h : ∀ c, P c → Q c) {checks : List Check} : checks.countP (P ·) ≤ checks.countP (Q ·) :=
  List.countP_mono_left fun c _ hc => decide_eq_true (h c (of_decide_eq_true hc))

theorem countP_unproven {P : Check → Bool} :
    w.unproven.countP P = w.waiting.countP P + (w.failed.countP P + w.lost.countP P) := by
  rw [World.unproven, List.countP_append, List.countP_append]

/-- A request that asks nothing. -/
theorem Counted.refuse (h : Counted lower limits w) {asked : Auth × Except ApiError Check}
    (hasked : Asks lower w.auth w.clock asked) :
    Counted lower limits { w with auth := asked.1 } where
  window := hasked.window.trans h.window
  past := h.past
  hits := by
    intro key
    have hold := h.hits key
    show (asked.1.user.times key).length + w.waiting.countP _ ≤ _
    rcases hasked.times key with heq | heq
    · rw [heq]
      exact hold
    · have hle : (asked.1.user.times key).length ≤ (w.auth.user.times key).length := by
        rw [heq]
        exact (List.dropWhile_sublist _).length_le
      omega
  kept := by
    intro key t ht
    refine (h.kept key t ht).trans ?_
    show _ ≤ (asked.1.user.times key).countP _
    rcases hasked.times key with heq | heq
    · rw [heq]
    · rw [heq, countP_dropWhile]
      rw [h.window]
      exact ht
  within := h.within
  tries := fun entry hentry => h.tries entry (hasked.pending entry hentry)
  known := fun entry hentry => h.known entry (hasked.pending entry hentry)
  asked := h.asked
  codes := h.codes

theorem Counted.forward (h : Counted lower limits w) {asked : Auth × Except ApiError Check}
    (hasked : Asks lower w.auth w.clock asked) {check : Check} (hcheck : asked.2 = .ok check)
    (huser : (w.unexpired (lower check.user)).length +
        w.waiting.countP (fun c => lower c.user = lower check.user) +
        w.lost.countP (fun c => lower c.user = lower check.user ∧ w.clock - w.period < c.nowMs) <
          w.auth.user.window.limit)
    (hcode : ∀ id p, check.challenge = some id → (id, p) ∈ w.auth.pending →
        p.tries + w.waiting.countP (fun c => c.challenge = some id) +
          w.lost.countP (fun c => c.challenge = some id) < maxSecondFactorTries) :
    Counted lower limits { w with auth := asked.1, waiting := check :: w.waiting } := by
  obtain ⟨hnow, htimes, hpending⟩ := hasked.check check hcheck
  have hrefuse := h.refuse hasked
  have hunproven : ∀ P : Check → Bool,
      ({ w with auth := asked.1, waiting := check :: w.waiting } : World).unproven.countP P =
        w.unproven.countP P + if P check then 1 else 0 := fun P => List.countP_cons
  have hmem : ∀ c ∈ ({ w with auth := asked.1, waiting := check :: w.waiting } : World).unproven,
      c = check ∨ c ∈ w.unproven := fun c hc => List.mem_cons.mp hc
  have hwindow : w.period = limits.perUser.periodMs := by rw [World.period, h.window]
  have hlimit : w.auth.user.window.limit = limits.perUser.limit := by rw [h.window]
  refine ⟨hrefuse.window, ?_, ?_, hrefuse.kept, ?_, hrefuse.tries, hrefuse.known, ?_, ?_⟩
  · intro c hc
    rcases hmem c hc with rfl | hc
    · exact le_of_eq hnow
    · exact h.past c hc
  · intro key
    show (asked.1.user.times key).length + (check :: w.waiting).countP _ ≤ _
    rw [List.countP_cons]
    by_cases hkey : lower check.user = key
    · subst hkey
      have hunexpired : asked.1.user.times (lower check.user) = w.unexpired (lower check.user) := htimes
      rw [hunexpired]
      simp only [decide_true, if_true]
      omega
    · have hold := hrefuse.hits key
      change (asked.1.user.times key).length + w.waiting.countP _ ≤ _ at hold
      simp only [hkey, decide_false, Bool.false_eq_true, if_false]
      omega
  · intro key t
    rw [hunproven]
    by_cases hin : lower check.user = key ∧ t ≤ check.nowMs ∧ check.nowMs < t + limits.perUser.periodMs
    · obtain ⟨rfl, hfrom, hto⟩ := hin
      have hlow : ∀ c : Check, (lower c.user = lower check.user ∧ t ≤ c.nowMs ∧
          c.nowMs < t + limits.perUser.periodMs) →
          lower c.user = lower check.user ∧ w.clock - w.period < c.nowMs := by
        rintro c ⟨hc, hle, -⟩
        exact ⟨hc, by omega⟩
      have hwaiting : w.waiting.countP (fun c => lower c.user = lower check.user ∧ t ≤ c.nowMs ∧
          c.nowMs < t + limits.perUser.periodMs) ≤
          w.waiting.countP (fun c => lower c.user = lower check.user) :=
        countP_le_of_imp fun c hc => hc.1
      have hfailed : w.failed.countP (fun c => lower c.user = lower check.user ∧ t ≤ c.nowMs ∧
          c.nowMs < t + limits.perUser.periodMs) ≤
          w.failed.countP (fun c => lower c.user = lower check.user ∧ w.clock - w.period < c.nowMs) :=
        countP_le_of_imp hlow
      have hlost : w.lost.countP (fun c => lower c.user = lower check.user ∧ t ≤ c.nowMs ∧
          c.nowMs < t + limits.perUser.periodMs) ≤
          w.lost.countP (fun c => lower c.user = lower check.user ∧ w.clock - w.period < c.nowMs) :=
        countP_le_of_imp hlow
      have hkept := h.kept (lower check.user) (w.clock - w.period) (by omega)
      have hcount : (w.auth.user.times (lower check.user)).countP (w.clock - w.period < ·) ≤
          (w.unexpired (lower check.user)).length := by
        rw [← countP_dropWhile (le_refl (w.clock - w.period))]
        exact List.countP_le_length
      rw [countP_unproven]
      split <;> omega
    · rw [if_neg (by simpa using hin)]
      exact h.within key t
  · intro c hc id hid
    rcases hmem c hc with rfl | hc
    · obtain ⟨p, hp⟩ := hpending id hid
      exact h.known _ hp
    · exact h.asked c hc id hid
  · intro id
    rw [hunproven]
    by_cases hid : check.challenge = some id
    · obtain ⟨p, hp⟩ := hpending id hid
      have htries := h.tries _ hp
      have hcode := hcode id p hid hp
      rw [countP_unproven]
      dsimp only at htries
      split <;> omega
    · rw [if_neg (by simpa using hid)]
      exact h.codes id

section

variable {n : Nat} {check : Check}

theorem waiting_perm (hn : w.waiting[n]? = some check) : (check :: w.waiting.eraseIdx n).Perm w.waiting := by
  obtain ⟨hlt, rfl⟩ := List.getElem?_eq_some_iff.mp hn
  exact List.getElem_cons_eraseIdx_perm hlt

theorem countP_waiting (hn : w.waiting[n]? = some check) (P : Check → Bool) :
    w.waiting.countP P = (w.waiting.eraseIdx n).countP P + if P check then 1 else 0 := by
  rw [← (waiting_perm hn).countP_eq, List.countP_cons]

theorem Counted.record (h : Counted lower limits w) (hn : w.waiting[n]? = some check) {auth : Auth}
    {issued : List String} (hissued : ∀ id ∈ w.issued, id ∈ issued)
    (huser : auth.user = w.auth.user.record (lower check.user) check.nowMs)
    (hpending : ∀ entry ∈ auth.pending, entry ∈ w.auth.pending ∧ check.challenge ≠ some entry.1 ∨
      ∃ p, (entry.1, p) ∈ w.auth.pending ∧ check.challenge = some entry.1 ∧ entry.2.tries = p.tries + 1)
    (hroom : (w.auth.user.hits? (lower check.user)).isSome ∨ w.auth.user.keys.length < maxKeys) :
    Counted lower limits { w with
      auth, waiting := w.waiting.eraseIdx n, failed := check :: w.failed, issued } := by
  have hperm : List.Perm (World.unproven { w with
      auth, waiting := w.waiting.eraseIdx n, failed := check :: w.failed, issued }) w.unproven :=
    List.perm_middle.trans ((waiting_perm hn).append_right _)
  have hlt : (w.auth.user.times (lower check.user)).length < w.auth.user.window.limit := by
    have hhits := h.hits (lower check.user)
    rw [countP_waiting hn, if_pos (decide_eq_true rfl)] at hhits
    rw [h.window]
    omega
  have htimes : ∀ key, auth.user.times key =
      if key = lower check.user then w.auth.user.times (lower check.user) ++ [check.nowMs]
      else w.auth.user.times key := fun key => by rw [huser, Limiter.times_record hroom hlt]
  refine ⟨?_, ?_, ?_, ?_, ?_, ?_, ?_, ?_, ?_⟩
  · show auth.user.window = _
    rw [huser, Limiter.record_window, h.window]
  · exact fun c hc => h.past c (hperm.mem_iff.mp hc)
  · intro key
    show (auth.user.times key).length + (w.waiting.eraseIdx n).countP _ ≤ _
    have hold := h.hits key
    rw [countP_waiting hn] at hold
    rw [htimes]
    by_cases hkey : key = lower check.user
    · subst hkey
      simp only [decide_true, if_true, List.length_append, List.length_singleton] at hold ⊢
      omega
    · rw [if_neg hkey]
      omega
  · intro key t ht
    show (check :: w.failed).countP _ ≤ (auth.user.times key).countP _
    have hold := h.kept key t ht
    rw [htimes, List.countP_cons]
    by_cases hkey : key = lower check.user
    · subst hkey
      rw [if_pos rfl, List.countP_append, List.countP_singleton]
      simp only [true_and]
      omega
    · rw [if_neg hkey, if_neg (by simp [Ne.symm hkey])]
      exact hold
  · intro key t
    rw [hperm.countP_eq]
    exact h.within key t
  · intro entry hentry
    show entry.2.tries = (check :: w.failed).countP _
    rw [List.countP_cons]
    rcases hpending entry hentry with ⟨hmem, hne⟩ | ⟨p, hmem, heq, htries⟩
    · rw [if_neg (by simpa using hne)]
      exact h.tries entry hmem
    · rw [if_pos (by simpa using heq), htries]
      have hold := h.tries _ hmem
      dsimp only at hold
      omega
  · intro entry hentry
    rcases hpending entry hentry with ⟨hmem, -⟩ | ⟨p, hmem, -⟩
    · exact hissued _ (h.known entry hmem)
    · exact hissued _ (h.known (entry.1, p) hmem)
  · exact fun c hc id hid => hissued id (h.asked c (hperm.mem_iff.mp hc) id hid)
  · intro id
    rw [hperm.countP_eq]
    exact h.codes id

/-- A check that was right, or that no answer comes to; it may start a challenge. -/
theorem Counted.leave (h : Counted lower limits w) (hn : w.waiting[n]? = some check) {auth : Auth}
    {issued : List String} {lost : List Check} {id : Option String} (huser : auth.user = w.auth.user)
    (hissued : ∀ i, i ∈ w.issued ∨ id = some i → i ∈ issued) (hfresh : ∀ i, id = some i → i ∉ w.issued)
    (hpending : ∀ entry ∈ auth.pending,
      entry ∈ w.auth.pending ∨ (id = some entry.1 ∧ entry.2.tries = 0))
    (hlost : lost = w.lost ∨ lost = check :: w.lost) :
    Counted lower limits { w with auth, waiting := w.waiting.eraseIdx n, lost, issued } := by
  have hsub : List.Subperm (World.unproven { w with
      auth, waiting := w.waiting.eraseIdx n, lost, issued }) w.unproven := by
    have hperm := (waiting_perm hn).append_right (w.failed ++ w.lost)
    rcases hlost with rfl | rfl
    · exact (List.sublist_cons_self _ _).subperm.trans hperm.subperm
    · refine (List.Perm.trans ?_ hperm).subperm
      show (w.waiting.eraseIdx n ++ (w.failed ++ check :: w.lost)).Perm _
      rw [← List.append_assoc, List.cons_append, ← List.append_assoc]
      exact List.perm_middle
  refine ⟨?_, ?_, ?_, ?_, ?_, ?_, ?_, ?_, ?_⟩
  · show auth.user.window = _
    rw [huser, h.window]
  · exact fun c hc => h.past c (hsub.subset hc)
  · intro key
    show (auth.user.times key).length + (w.waiting.eraseIdx n).countP _ ≤ _
    have hold := h.hits key
    rw [countP_waiting hn] at hold
    rw [huser]
    omega
  · intro key t ht
    show _ ≤ (auth.user.times key).countP _
    rw [huser]
    exact h.kept key t ht
  · exact fun key t => (hsub.countP_le _).trans (h.within key t)
  · intro entry hentry
    rcases hpending entry hentry with hmem | ⟨hid, htries⟩
    · exact h.tries entry hmem
    · rw [htries, eq_comm]
      refine List.countP_eq_zero.mpr fun c hc hchallenge => hfresh _ hid ?_
      refine h.asked c (List.mem_append_right _ (List.mem_append_left _ hc)) _ ?_
      simpa using hchallenge
  · intro entry hentry
    rcases hpending entry hentry with hmem | ⟨hid, -⟩
    · exact hissued _ (.inl (h.known entry hmem))
    · exact hissued _ (.inr hid)
  · exact fun c hc i hi => hissued i (.inl (h.asked c (hsub.subset hc) i hi))
  · exact fun i => (hsub.countP_le _).trans (h.codes i)

end

theorem Counted.answer (h : Counted lower limits w) {n : Nat} {check : Check} {id : Option String}
    {outcome : Except ProxmoxError TicketOutcome} (hn : w.waiting[n]? = some check)
    (hfresh : ¬ id.any (w.issued.contains ·)) (hroom : Room lower w (.answer n id outcome)) :
    Counted lower limits (w.settle n check (w.auth.answer lower check id outcome).1 id outcome) := by
  have hissued : ∀ i, i ∈ w.issued ∨ id = some i → i ∈ id.toList ++ w.issued := by
    rintro i (hi | rfl)
    · exact List.mem_append_right _ hi
    · exact List.mem_append_left _ (List.mem_singleton.mpr rfl)
  have hnew : ∀ i, id = some i → i ∉ w.issued := by
    rintro i rfl hi
    exact hfresh (by simpa using hi)
  rcases outcome with (_ | what | what) | granted
  · obtain ⟨huser, hpending⟩ := @answer_refused lower w.auth check id
    exact h.record hn (fun i hi => hissued i (.inl hi)) huser hpending (hroom check hn)
  · obtain ⟨huser, hpending⟩ := @answer_other lower w.auth check id
      (.error (.unreachable what)) nofun
    exact h.leave hn huser hissued hnew hpending (.inr rfl)
  · obtain ⟨huser, hpending⟩ := @answer_other lower w.auth check id
      (.error (.protocol what)) nofun
    exact h.leave hn huser hissued hnew hpending (.inr rfl)
  · obtain ⟨huser, hpending⟩ := @answer_other lower w.auth check id (.ok granted) nofun
    exact h.leave hn huser hissued hnew hpending (.inl rfl)

theorem Counted.step (h : Counted lower limits w) (hroom : Room lower w l)
    (hs : step lower w l = some w') : Counted lower limits w' := by
  cases l with
  | tick now =>
    simp only [Logins.step] at hs
    split at hs
    · next hle =>
      obtain rfl := Option.some.inj hs
      exact h.tick hle
    · cases hs
  | login request client =>
    have hasks := @login_asks lower w.auth request client w.clock
    obtain rfl : w.forward (w.auth.login lower request client w.clock) = w' := Option.some.inj hs
    have hroom : ∀ check, (w.auth.login lower request client w.clock).2 = .ok check → _ := hroom
    generalize w.auth.login lower request client w.clock = asked at hasks hroom
    obtain ⟨auth, reply⟩ := asked
    cases reply with
    | error e => exact h.refuse hasks
    | ok check =>
      obtain ⟨huser, hcode⟩ := hroom check rfl
      exact h.forward hasks rfl huser hcode
  | answer n id outcome =>
    simp only [Logins.step] at hs
    split at hs
    · cases hs
    · next check hn =>
      split at hs
      · cases hs
      · next hfresh =>
        obtain rfl := Option.some.inj hs
        exact h.answer hn hfresh hroom
  | drop n =>
    simp only [Logins.step] at hs
    split at hs
    · cases hs
    · next check hn =>
      obtain rfl := Option.some.inj hs
      refine @h.leave _ _ _ _ _ hn _ _ _ none rfl ?_ nofun (fun _ => .inl) (.inr rfl)
      rintro i (hi | hi)
      · exact hi
      · cases hi

/-- Within any window of the limit, at most the limit's number of wrong checks for one user, and at most
three wrong codes for one challenge, go to Proxmox, in every run in which each check that goes there
would also be within the limits if those without an answer were counted, and no key is forgotten. -/
theorem guesses_bounded (lower : String → String) (limits : LoginLimits) (now : Int) (ls : List Label)
    (w : World)
    (h : Run (fun w l w' => Room lower w l ∧ step lower w l = some w') (.start limits now) ls w) :
    Bounded lower limits w :=
  (h.invariant (I := Counted lower limits) (fun _ _ _ hw hs => hw.step hs.1 hs.2) (.start now)).bounded

/-! ### Requests at once -/

def guess : Label := .login (.password "alice@pve" "guess") "192.0.2.1"

def wrong : Label := .answer 0 none (.error .refused)

theorem guess_room {w : World} (h : (w.auth.login Text.toLower (.password "alice@pve" "guess")
    "192.0.2.1" w.clock).2.toOption.all fun check => check.challenge = none ∧
      (w.unexpired (Text.toLower check.user)).length +
        w.waiting.countP (fun c => Text.toLower c.user = Text.toLower check.user) +
        w.lost.countP (fun c => Text.toLower c.user = Text.toLower check.user ∧
          w.clock - w.period < c.nowMs) < w.auth.user.window.limit) : Room Text.toLower w guess := by
  intro check hcheck
  rw [hcheck] at h
  obtain ⟨hnone, hlt⟩ := of_decide_eq_true h
  exact ⟨hlt, fun id p hid => by simp [hnone] at hid⟩

theorem wrong_room {w : World} (h : w.waiting[0]?.all fun check =>
    (w.auth.user.hits? (Text.toLower check.user)).isSome ∨ w.auth.user.keys.length < maxKeys) :
    Room Text.toLower w wrong := by
  intro check hcheck
  rw [hcheck] at h
  exact of_decide_eq_true h

theorem guesses_run : ∃ w, Run (fun w l w' => Room Text.toLower w l ∧
    step Text.toLower w l = some w') (.start {} 0) [guess, wrong, guess] w ∧
    w.failed.length = 1 :=
  ⟨_, .cons ⟨guess_room (by decide +kernel), rfl⟩ (.cons ⟨wrong_room (by decide +kernel), rfl⟩
    (.single ⟨guess_room (by decide +kernel), rfl⟩)), by decide +kernel⟩

theorem guesses_bounded_in_turn : ∃ w, w.failed.length = 1 ∧ Bounded Text.toLower {} w := by
  obtain ⟨w, hrun, hfailed⟩ := guesses_run
  exact ⟨w, hfailed, guesses_bounded Text.toLower {} 0 _ w hrun⟩

/-- Eleven wrong passwords that all go to Proxmox before the first answer. -/
theorem guesses_counted : (((List.replicate 11 guess ++ List.replicate 11 wrong).foldlM
    (step Text.toLower) (World.start {} 0)).map fun w => (w.failed ++ w.lost).countP fun c =>
      Text.toLower c.user = "alice@pve" ∧ 0 ≤ c.nowMs ∧ c.nowMs < 0 + 900000) = some 11 := by
  decide +kernel

theorem not_bounded : ¬ ∀ (ls : List Label) (w : World),
    Run (fun w l w' => step Text.toLower w l = some w') (.start {} 0) ls w →
      Bounded Text.toLower {} w := by
  intro h
  obtain ⟨w, hw, hcount⟩ := Option.map_eq_some_iff.mp guesses_counted
  have hbound := (h _ w (Run.of_foldlM hw)).1 "alice@pve" 0
  have hlimit : (11 : Nat) ≤ 10 := hcount ▸ hbound
  omega

end Bmac.Bmacd.Logins
