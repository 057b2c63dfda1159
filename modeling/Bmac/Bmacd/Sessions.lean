import Bmac.Base.Run
import Bmac.Bmacd.Operations

/-!
# Login sessions

`bmacd/src/auth/sessions.rs`. A session's token is given to the browser once, and its hash is kept in a table in
memory and in the database, so that a restarted engine keeps its sessions.

A call runs to its database write and goes on after it; what it still has to do is a `Task`. Tasks are done in any
order, any of them may fail, and a restart loses them all. `hash` is the hash of a token, and `isAddress` says
whether a text is an IP address. A time is an integer, and the clock doesn't go back.
-/

namespace Bmac.Bmacd.Sessions

open Bmac.Base Bmac.Core

/-- Base64url without padding of 32 bytes. -/
def tokenLength : Nat := 43
/-- `last_used` is written to the database at most this often per session. -/
def touchWriteMs : Int := 60000

structure SessionPolicy where
  /-- Without a request, the session ends after this long. -/
  idleMs : Int := 30 * 60 * 1000
  /-- The session ends this long after login regardless. -/
  absoluteMs : Int := 12 * 60 * 60 * 1000

/-- Why a check ended a session. -/
inductive EndReason where
  | idle | expired
  deriving DecidableEq

structure SessionInfo where
  tokenHash : String
  user : String
  role : Role
  client : String
  createdMs : Int
  lastUsedMs : Int
  deriving DecidableEq

structure Live where
  info : SessionInfo
  writtenLastUsedMs : Int
  deriving DecidableEq

def Live.new (info : SessionInfo) : Live := ⟨info, info.lastUsedMs⟩

/-- The result of checking a token. -/
inductive Lookup where
  | valid (info : SessionInfo)
  /-- It was valid until now; this check ends it. -/
  | ended (reason : EndReason)
  | unknown
  deriving DecidableEq

/-- A write of the database that failed. -/
inductive DbError where
  | failed

/-! ## Tokens -/

/-- Whether `token` has the shape of one of ours, checked before any lookup. -/
def isTokenShaped (token : String) : Bool :=
  Text.len token = tokenLength && token.toList.all fun c => Text.isAlphanumeric c || c = '-' || c = '_'

def alphabet : List Char := "ABCDEFGHIJKLMNOPQRSTUVWXYZabcdefghijklmnopqrstuvwxyz0123456789-_".toList

/-- The six bits of `n` that the `i`th of four characters shows. -/
def digit (n i : Nat) : Char := alphabet.getD ((n >>> (18 - 6 * i)) % 64) 'A'

/-- Three bytes make four characters, and one or two of them one more than they are. -/
def encodeBytes : List UInt8 → List Char
  | a :: b :: c :: rest =>
    let n := a.toNat <<< 16 ||| b.toNat <<< 8 ||| c.toNat
    digit n 0 :: digit n 1 :: digit n 2 :: digit n 3 :: encodeBytes rest
  | [a, b] =>
    let n := a.toNat <<< 16 ||| b.toNat <<< 8
    [digit n 0, digit n 1, digit n 2]
  | [a] => [digit (a.toNat <<< 16) 0, digit (a.toNat <<< 16) 1]
  | [] => []

def base64url (bytes : List UInt8) : String := String.ofList (encodeBytes bytes)

theorem digit_mem (n i : Nat) : digit n i ∈ alphabet := by
  have hlen : (n >>> (18 - 6 * i)) % 64 < alphabet.length :=
    lt_of_lt_of_eq (Nat.mod_lt _ (by decide)) (by decide)
  rw [digit, List.getD_eq_getElem?_getD, List.getElem?_eq_getElem hlen, Option.getD_some]
  exact List.getElem_mem hlen

theorem mem_encodeBytes (bytes : List UInt8) : ∀ c ∈ encodeBytes bytes, c ∈ alphabet := by
  fun_induction encodeBytes bytes with
  | case1 a b c rest n ih => simpa [digit_mem] using ih
  | case2 a b n => simp [digit_mem]
  | case3 a => simp [digit_mem]
  | case4 => simp

theorem length_encodeBytes (bytes : List UInt8) : (encodeBytes bytes).length = (4 * bytes.length + 2) / 3 := by
  fun_induction encodeBytes bytes with
  | case1 a b c rest n ih =>
    simp only [List.length_cons, ih]
    omega
  | case2 a b n => simp
  | case3 a => simp
  | case4 => simp

theorem tokenShaped_base64url {bytes : List UInt8} (h : bytes.length = 32) : isTokenShaped (base64url bytes) = true := by
  have hshape : ∀ c ∈ alphabet, c.utf8Size = 1 ∧ (Text.isAlphanumeric c || c = '-' || c = '_') = true := by decide
  have hall := fun c hc => hshape c (mem_encodeBytes bytes c hc)
  have hlen : Text.len (base64url bytes) = (encodeBytes bytes).length := by
    rw [Text.len, base64url, String.toList_ofList, List.map_congr_left fun c hc => (hall c hc).1]
    simp
  rw [isTokenShaped, hlen, length_encodeBytes, h, base64url, String.toList_ofList, Bool.and_eq_true]
  exact ⟨rfl, List.all_eq_true.mpr fun c hc => (hall c hc).2⟩

/-! ## The database -/

def roleName : Role → String
  | .viewer => "viewer"
  | .operator => "operator"
  | .admin => "admin"

def parseRole : String → Option Role
  | "viewer" => some .viewer
  | "operator" => some .operator
  | "admin" => some .admin
  | _ => none

/-- A row of the table `sessions`. -/
structure Row where
  tokenHash : String
  user : String
  role : String
  client : String
  createdMs : Int
  lastUsedMs : Int
  deriving DecidableEq

def SessionInfo.row (info : SessionInfo) : Row :=
  ⟨info.tokenHash, info.user, roleName info.role, info.client, info.createdMs, info.lastUsedMs⟩

def Row.info (isAddress : String → Bool) (row : Row) : Option SessionInfo :=
  match parseRole row.role with
  | some role =>
    if isAddress row.client then
      some ⟨row.tokenHash, row.user, role, row.client, row.createdMs, row.lastUsedMs⟩
    else none
  | none => none

/-- `UPDATE sessions SET last_used_ms`. -/
def touchRows (rows : List Row) (tokenHash : String) (used : Int) : List Row :=
  rows.map fun row => if row.tokenHash = tokenHash then { row with lastUsedMs := used } else row

/-! ## Checking a token -/

section

variable (hash : String → String) (isAddress : String → Bool) (policy : SessionPolicy)

def expiry (info : SessionInfo) (now : Int) : Option EndReason :=
  if policy.absoluteMs ≤ now - info.createdMs then some .expired
  else if policy.idleMs ≤ now - info.lastUsedMs then some .idle
  else none

def Live.touched (session : Live) (now : Int) : Live × Bool :=
  let used := { session.info with lastUsedMs := now }
  if touchWriteMs ≤ now - session.writtenLastUsedMs then (⟨used, now⟩, true)
  else (⟨used, session.writtenLastUsedMs⟩, false)

def remove (live : List Live) (tokenHash : String) : List Live := live.filter (·.info.tokenHash ≠ tokenHash)

/-- `HashMap::insert`. -/
def put (live : List Live) (session : Live) : List Live := session :: remove live session.info.tokenHash

def find (live : List Live) (tokenHash : String) : Option Live := live.find? (·.info.tokenHash = tokenHash)

/-- Checks a token, up to the write. `activity` marks a user request, which keeps the session from going idle; an
open event stream is not activity. The last part says whether the database is told of the use. -/
def lookup (live : List Live) (token : String) (now : Int) (activity : Bool) : List Live × Lookup × Bool :=
  if !isTokenShaped token then (live, .unknown, false)
  else match find live (hash token) with
    | none => (live, .unknown, false)
    | some session =>
      match expiry policy session.info now with
      | some reason => (live, .ended reason, false)
      | none =>
        if activity && session.info.lastUsedMs < now then
          let (touched, write) := session.touched now
          (put live touched, .valid touched.info, write)
        else (live, .valid session.info, false)

/-- What the caller of a check gets, whose write of a use or of an end is `stored` or fails. -/
def check (live : List Live) (token : String) (now : Int) (activity stored : Bool) : Except DbError Lookup :=
  match lookup hash policy live token now activity with
  | (_, .valid info, write) => if write && !stored then .error .failed else .ok (.valid info)
  | (_, .ended reason, _) => if stored then .ok (.ended reason) else .error .failed
  | (_, .unknown, _) => .ok .unknown

/-- A check that tells the database of a use: the last one that it knows is a minute old. -/
def Tells (live : List Live) (tokenHash : String) (now : Int) (activity : Bool) : Prop :=
  activity = true ∧ ∃ session, find live tokenHash = some session ∧ session.info.lastUsedMs < now ∧
    touchWriteMs ≤ now - session.writtenLastUsedMs

/-! ## The engine -/

/-- What a call still has to do. -/
inductive Task where
  /-- A login's row, and then its session. -/
  | insert (info : SessionInfo)
  | enter (info : SessionInfo)
  | touch (tokenHash : String) (used : Int)
  /-- A session that was found past a limit, and then the row of one that ended. -/
  | finish (tokenHash : String)
  | delete (tokenHash : String)
  deriving DecidableEq

/-- The table in memory, the rows, and what calls still have to do. The rest is what happened: the logins and the
uses of sessions with their times, the sessions that were there for others to find, those that something other
than a limit ended, and those whose end is done. -/
structure World where
  live : List Live := []
  rows : List Row := []
  tasks : List Task := []
  clock : Int := 0
  issued : List (String × Int) := []
  uses : List (String × Int) := []
  entered : List String := []
  closed : List String := []
  ended : List String := []

inductive Label where
  | login (bytes : List UInt8) (user : String) (role : Role) (client : String) (now : Int)
  | look (token : String) (now : Int) (activity : Bool)
  /-- Upkeep finds a session past a limit. -/
  | notice (tokenHash : String) (now : Int)
  /-- A logout, a revocation or a changed account. -/
  | close (tokenHash : String)
  | resume (task : Task)
  | fail (task : Task)
  | restart

namespace World

variable (w : World)

/-- `create`, up to its first write. -/
def login (token : String) (user : String) (role : Role) (client : String) (now : Int) : World :=
  { w with
    clock := now
    tasks := .insert ⟨hash token, user, role, client, now, now⟩ :: w.tasks
    issued := (hash token, now) :: w.issued
    uses := (hash token, now) :: w.uses }

/-- `lookup`, up to its write or to the end of the session. Its caller waits for the task (`check`). -/
def look (token : String) (now : Int) (activity : Bool) : World :=
  match lookup hash policy w.live token now activity with
  | (live, .valid _, write) =>
    { w with
      live
      clock := now
      tasks := if write then .touch (hash token) now :: w.tasks else w.tasks
      uses := if activity then (hash token, now) :: w.uses else w.uses }
  | (live, .ended _, _) => { w with live, clock := now, tasks := .finish (hash token) :: w.tasks }
  | (live, .unknown, _) => { w with live, clock := now }

/-- `end`, up to its write. -/
def «end» (tokenHash : String) : World :=
  { w with live := remove w.live tokenHash, tasks := .delete tokenHash :: w.tasks }

/-- A task is done. -/
def exec : Task → World
  | .insert info => { w with rows := info.row :: w.rows, tasks := .enter info :: w.tasks }
  | .enter info => { w with live := put w.live (.new info), entered := info.tokenHash :: w.entered }
  | .touch tokenHash used => { w with rows := touchRows w.rows tokenHash used }
  | .finish tokenHash => w.end tokenHash
  | .delete tokenHash =>
    { w with rows := w.rows.filter (·.tokenHash ≠ tokenHash), ended := tokenHash :: w.ended }

/-- `load`: the rows that can be read, and no others. -/
def load : World :=
  { w with
    live := (w.rows.filterMap (Row.info isAddress)).map .new
    rows := w.rows.filter fun row => (row.info isAddress).isSome
    tasks := []
    entered := w.rows.map (·.tokenHash) ++ w.entered }

end World

inductive Step : World → Label → World → Prop where
  /-- No two tokens have one hash. -/
  | login {w : World} {bytes : List UInt8} {user : String} {role : Role} {client : String} {now : Int} :
      bytes.length = 32 → w.clock ≤ now → hash (base64url bytes) ∉ w.issued.map (·.1) →
      Step w (.login bytes user role client now) (w.login hash (base64url bytes) user role client now)
  | look {w : World} {token : String} {now : Int} {activity : Bool} : w.clock ≤ now →
      Step w (.look token now activity) (w.look hash policy token now activity)
  | notice {w : World} {session : Live} {now : Int} : w.clock ≤ now → session ∈ w.live →
      (expiry policy session.info now).isSome →
      Step w (.notice session.info.tokenHash now)
        { w with clock := now, tasks := .finish session.info.tokenHash :: w.tasks }
  /-- Who ends a session has found it. -/
  | close {w : World} {tokenHash : String} : tokenHash ∈ w.entered →
      Step w (.close tokenHash) { w.end tokenHash with closed := tokenHash :: w.closed }
  | resume {w : World} {task : Task} : task ∈ w.tasks →
      Step w (.resume task) ({ w with tasks := w.tasks.erase task }.exec task)
  | fail {w : World} {task : Task} : task ∈ w.tasks →
      Step w (.fail task) { w with tasks := w.tasks.erase task }
  | restart {w : World} : Step w .restart (w.load isAddress)

end

section

variable {hash : String → String} {isAddress : String → Bool} {policy : SessionPolicy} {live live' : List Live}
  {token tokenHash : String} {now : Int} {activity write : Bool} {info : SessionInfo} {session s : Live}
  {w w' : World} {task : Task}

/-! ## What a check does -/

theorem expiry_eq_none : expiry policy info now = none ↔
    now - info.createdMs < policy.absoluteMs ∧ now - info.lastUsedMs < policy.idleMs := by
  unfold expiry
  split
  · simp_all [not_lt.mpr]
  · split <;> simp_all

theorem find_eq_some (h : find live tokenHash = some session) :
    session ∈ live ∧ session.info.tokenHash = tokenHash :=
  ⟨List.mem_of_find?_eq_some h, by simpa using List.find?_some h⟩

theorem mem_remove : s ∈ remove live tokenHash ↔ s ∈ live ∧ s.info.tokenHash ≠ tokenHash := by
  simp [remove]

theorem mem_put : s ∈ put live session ↔ s = session ∨ s ∈ live ∧ s.info.tokenHash ≠ session.info.tokenHash := by
  rw [put, List.mem_cons, mem_remove]

theorem touched_info (session : Live) (now : Int) :
    (session.touched now).1.info = { session.info with lastUsedMs := now } := by
  unfold Live.touched
  split <;> rfl

/-- A check that a token passes: the session is within its limits, and a use of it is noted. -/
inductive Passed (hash : String → String) (policy : SessionPolicy) (live : List Live) (token : String) (now : Int)
    (activity : Bool) : List Live → SessionInfo → Bool → Prop where
  | seen {session : Live} : find live (hash token) = some session → expiry policy session.info now = none →
      (activity = true → now ≤ session.info.lastUsedMs) →
      Passed hash policy live token now activity live session.info false
  | used {session : Live} : find live (hash token) = some session → expiry policy session.info now = none →
      activity = true → session.info.lastUsedMs < now →
      Passed hash policy live token now activity (put live (session.touched now).1) (session.touched now).1.info
        (session.touched now).2

theorem lookup_cases (hash : String → String) (policy : SessionPolicy) (live : List Live) (token : String) (now : Int)
    (activity : Bool) :
    (lookup hash policy live token now activity = (live, .unknown, false) ∧
      (isTokenShaped token = true → find live (hash token) = none)) ∨
    (∃ session reason, lookup hash policy live token now activity = (live, .ended reason, false) ∧
      find live (hash token) = some session ∧ expiry policy session.info now = some reason) ∨
    ∃ live' info write, lookup hash policy live token now activity = (live', .valid info, write) ∧
      Passed hash policy live token now activity live' info write := by
  unfold lookup
  split
  · rename_i hshape
    exact .inl ⟨rfl, fun hshaped => by simp [hshaped] at hshape⟩
  · split
    · rename_i hnone
      exact .inl ⟨rfl, fun _ => hnone⟩
    · rename_i session hfind
      split
      · rename_i reason hreason
        exact .inr (.inl ⟨session, reason, rfl, hfind, hreason⟩)
      · rename_i hwithin
        refine .inr (.inr ?_)
        split
        · rename_i hactive
          simp only [Bool.and_eq_true, decide_eq_true_eq] at hactive
          exact ⟨_, _, _, rfl, .used hfind hwithin hactive.1 hactive.2⟩
        · rename_i hidle
          refine ⟨_, _, _, rfl, .seen hfind hwithin fun hactive => ?_⟩
          simpa [hactive] using hidle

/-- Where a check's step leads. -/
theorem look_cases (w : World) (hash : String → String) (policy : SessionPolicy) (token : String) (now : Int)
    (activity : Bool) :
    w.look hash policy token now activity = { w with clock := now } ∨
    (∃ session reason, find w.live (hash token) = some session ∧ expiry policy session.info now = some reason ∧
      w.look hash policy token now activity =
        { w with clock := now, tasks := .finish (hash token) :: w.tasks }) ∨
    ∃ live' info write, Passed hash policy w.live token now activity live' info write ∧
      w.look hash policy token now activity =
        { w with
          live := live'
          clock := now
          tasks := if write then .touch (hash token) now :: w.tasks else w.tasks
          uses := if activity then (hash token, now) :: w.uses else w.uses } := by
  unfold World.look
  rcases lookup_cases hash policy w.live token now activity with
    ⟨heq, -⟩ | ⟨session, reason, heq, hfind, hreason⟩ | ⟨live', info, write, heq, hpassed⟩
  · rw [heq]
    exact .inl rfl
  · rw [heq]
    exact .inr (.inl ⟨session, reason, hfind, hreason, rfl⟩)
  · rw [heq]
    exact .inr (.inr ⟨live', info, write, hpassed, rfl⟩)

namespace Passed

theorem found (h : Passed hash policy live token now activity live' info write) : ∃ session ∈ live,
    session.info.tokenHash = hash token ∧ expiry policy session.info now = none ∧
      info.createdMs = session.info.createdMs := by
  cases h with
  | seen hfind hwithin _ => exact ⟨_, (find_eq_some hfind).1, (find_eq_some hfind).2, hwithin, rfl⟩
  | used hfind hwithin _ _ =>
    refine ⟨_, (find_eq_some hfind).1, (find_eq_some hfind).2, hwithin, ?_⟩
    rw [touched_info]

theorem mem (h : Passed hash policy live token now activity live' info write) (hs : s ∈ live') : s ∈ live ∨
    activity = true ∧ ∃ session ∈ live, session.info.tokenHash = hash token ∧
      s.info = { session.info with lastUsedMs := now } := by
  cases h with
  | seen _ _ _ => exact .inl hs
  | used hfind _ hactive _ =>
    rcases mem_put.mp hs with rfl | ⟨hs, -⟩
    · exact .inr ⟨hactive, _, (find_eq_some hfind).1, (find_eq_some hfind).2, touched_info _ _⟩
    · exact .inl hs

theorem write_active (h : Passed hash policy live token now activity live' info write) (hwrite : write = true) :
    activity = true := by
  cases h with
  | seen _ _ _ => cases hwrite
  | used _ _ hactive _ => exact hactive

theorem write_iff (h : Passed hash policy live token now activity live' info write) :
    write = true ↔ Tells live (hash token) now activity := by
  cases h with
  | seen hfind _ hseen =>
    refine iff_of_false Bool.false_ne_true ?_
    rintro ⟨hactive, other, hother, hlt, -⟩
    obtain rfl := Option.some.inj (hfind.symm.trans hother)
    exact absurd (hseen hactive) (by omega)
  | @used session hfind _ hactive hlt =>
    have hdue : (session.touched now).2 = true ↔ touchWriteMs ≤ now - session.writtenLastUsedMs := by
      unfold Live.touched
      split <;> simp_all
    rw [hdue]
    constructor
    · exact fun hle => ⟨hactive, session, hfind, hlt, hle⟩
    · rintro ⟨-, other, hother, -, hle⟩
      obtain rfl := Option.some.inj (hfind.symm.trans hother)
      exact hle

end Passed

end

end Bmac.Bmacd.Sessions
