import Bmac.Bmacd.Limits
import Bmac.Pmxcfs.Records

/-!
# Join and enrollment tokens

`bmacd/src/mesh/tokens.rs`. A token is 256 random bits given to the operator once; pmxcfs keeps only
its SHA-256, as the record's file name, with its kind, expiry, and whether it was used. Redeeming one
marks it used under a lock and records a pending request. Every failure gets the same answer, and each
source address is rate-limited.

The files under `tokens` and `pending` are maps from their names to the records in them, which all
have the schema version this host writes. A call is one step, for the part of it that writes holds the
lock; how its calls on pmxcfs go is given with it.
-/

namespace Bmac.Bmacd.Tokens

open Bmac.Core Bmac.Pmxcfs

/-- Redemption attempts per source address. -/
def attempts : Window := ⟨10, 10 * 60000⟩
def maxSshKey : Nat := 1024
def maxCertificate : Nat := 16 * 1024

inductive TokenKind where
  | join
  | enroll
  deriving DecidableEq

structure TokenRecord where
  revision : UInt64 := 0
  kind : TokenKind
  /-- For a join, the slot the new host must claim. -/
  host : Option HostSlot
  issuedBy : String
  issuedAtMs : Int
  expiresAtMs : Int
  usedAtMs : Option Int := none
  usedFrom : Option String := none

structure PendingRecord where
  revision : UInt64 := 0
  id : String
  kind : TokenKind
  host : Option HostSlot := none
  name : Option String := none
  sshHostKey : Option String := none
  httpsFingerprint : Option String := none
  certificate : Option String := none
  /-- The address an enrolling appliance suggested for restore jobs. -/
  applianceAddress : Option String := none
  applianceUuid : Option Uuid := none
  /-- Where the request came from. -/
  address : String
  receivedBy : HostSlot
  createdAtMs : Int

structure JoinRequest where
  token : String
  host : HostSlot
  sshHostKey : String
  httpsFingerprint : String

structure EnrollRequest where
  token : String
  name : String
  certificate : String
  address : Option String
  applianceUuid : Uuid

/-- The SHA-256 of a text in hex, and whether a text is one PEM certificate. -/
structure Lib where
  sha256 : String → String
  pem : String → Bool

def refused : ApiError :=
  .new .unauthenticated "the token is not valid; ask an administrator for a new one"

def invalid (message : String) : ApiError := .new .invalid message

def storage : PmxcfsError → ApiError
  | .lockTimeout _ _ => .new .unavailable "the cluster is busy; try again"
  | e => .new .internal s!"enrollment records: {e.text}"

def isHexdigit (c : Char) : Bool :=
  Text.isDigit c || ('a' ≤ c && c ≤ 'f') || ('A' ≤ c && c ≤ 'F')

/-- The SHA-256 a well-formed token is stored under. -/
def Lib.tokenHash (lib : Lib) (token : String) : Option String :=
  if Text.len token = 64 && token.toList.all (fun c => isHexdigit c && !Text.isUpper c) then
    some (lib.sha256 token)
  else none

def isFingerprint (text : String) : Bool :=
  let parts := Text.split ':' text
  parts.length = 32 && parts.all fun p => Text.len p = 2 && p.toList.all isHexdigit

def isApplianceName (name : String) : Bool :=
  name ≠ "" && Text.len name ≤ 63 && name.toList.head?.any Text.isLower &&
    name.toList.all fun c => Text.isLower c || Text.isDigit c || c = '-'

/-! ## Files -/

abbrev Files (R : Type) := String → Option R

/-- The revision of the record in place, 0 for none. -/
def foundIn {R : Type} (revision : R → UInt64) (files : Files R) (name : String) :
    Except PmxcfsError UInt64 :=
  match files name with
  | none => .ok 0
  | some r =>
    if revision r = 0 then .error (.invalid s!"record revision must be positive: {name}")
    else .ok (revision r)

/-- A change of one file; it may fail and yet have happened. -/
def Files.change {R : Type} (files left : Files R) : Pmxcfs.Fault → Files R × Except PmxcfsError Unit
  | .none => (left, .ok ())
  | .before e => (files, .error e)
  | .after e => (left, .error e)

/-- `write_record`. -/
def writeFile {R : Type} (revision : R → UInt64) (stamp : UInt64 → R → R) (files : Files R)
    (name : String) (value : R) (expected : Option UInt64) (fault : Pmxcfs.Fault) :
    Files R × Except PmxcfsError Unit :=
  match foundIn revision files name with
  | .error e => (files, .error e)
  | .ok found =>
    let wanted := expected.getD 0
    if found ≠ wanted then (files, .error (.revisionConflict name wanted found))
    else files.change (Function.update files name (some (stamp (wanted + 1) value))) fault

def writeToken : Files TokenRecord → String → TokenRecord → Option UInt64 → Pmxcfs.Fault →
    Files TokenRecord × Except PmxcfsError Unit :=
  writeFile (·.revision) fun revision r => { r with revision }

def writePending : Files PendingRecord → String → PendingRecord → Option UInt64 → Pmxcfs.Fault →
    Files PendingRecord × Except PmxcfsError Unit :=
  writeFile (·.revision) fun revision r => { r with revision }

/-- `Pmxcfs::remove`; a file that is missing is not an error. -/
def removeFile {R : Type} (files : Files R) (name : String) (fault : Pmxcfs.Fault) :
    Files R × Except PmxcfsError Unit :=
  files.change (Function.update files name none) fault

/-! ## Calls -/

structure Records where
  tokens : Files TokenRecord
  pending : Files PendingRecord

/-- How the calls on pmxcfs of one request go: those up to the lock, the read of the token, the
writes, and the release of the lock. -/
structure Faults where
  acquire : Option PmxcfsError := none
  read : Option ApiError := none
  write : Pmxcfs.Fault := .none
  writePending : Pmxcfs.Fault := .none
  release : Option PmxcfsError := none

def locked {α : Type} (faults : Faults) (records : Records)
    (f : Records → Records × Except ApiError α) : Records × Except ApiError α :=
  match faults.acquire with
  | some e => (records, .error (storage e))
  | none =>
    let (records, result) := f records
    (records, do
      let value ← result
      match faults.release with
      | some e => .error (storage e)
      | none => .ok value)

/-- Issues a token; only its hash is stored. `token` is 32 random bytes in hex. -/
def issue (lib : Lib) (records : Records) (kind : TokenKind) (host : Option HostSlot) (ttlMs : Int)
    (by_ : String) (now : Int) (token : Option String) (faults : Faults) :
    Records × Except ApiError String :=
  match token with
  | none => (records, .error (.new .internal "no randomness"))
  | some token =>
    let record : TokenRecord :=
      { kind, host, issuedBy := by_, issuedAtMs := now, expiresAtMs := now + ttlMs }
    locked faults records fun records =>
      let (tokens, answer) := writeToken records.tokens (lib.sha256 token) record none faults.write
      ({ records with tokens }, do
        let _ ← answer.mapError storage
        return token)

abbrev Fill := PendingRecord → TokenRecord → Except String PendingRecord

/-- Where a request came from: the host that got it, and the client's address. -/
structure Source where
  host : HostSlot
  address : String

def TokenRecord.why (record : TokenRecord) (kind : TokenKind) (now : Int) : Option String :=
  if record.kind ≠ kind then some "it is for another kind of request"
  else if record.usedAtMs.isSome then some "it was already used"
  else if record.expiresAtMs ≤ now then some "it expired"
  else none

/-- The part of `redeem` that holds the lock. -/
def redeemLocked (hash : String) (kind : TokenKind) (source : Source) (now : Int) (id : String)
    (fill : Fill) (faults : Faults) (records : Records) : Records × Except ApiError String :=
  match faults.read, records.tokens hash with
  | some e, some _ => (records, .error e)
  | _, none => (records, .error refused)
  | none, some record =>
    let pending : PendingRecord :=
      { id, kind, address := source.address, receivedBy := source.host, createdAtMs := now }
    match record.why kind now, fill pending record with
    | some _, _ => (records, .error refused)
    | none, .error _ => (records, .error refused)
    | none, .ok pending =>
      let used := { record with usedAtMs := some now, usedFrom := some source.address }
      match writeToken records.tokens hash used (some record.revision) faults.write with
      | (tokens, .error e) => ({ records with tokens }, .error (storage e))
      | (tokens, .ok ()) =>
        match writePending records.pending id pending none faults.writePending with
        | (requests, .error e) => (⟨tokens, requests⟩, .error (storage e))
        | (requests, .ok ()) => (⟨tokens, requests⟩, .ok id)

def rateLimited : ApiError := .new .rateLimited "too many attempts; wait and try again"

/-- `id` is 16 random bytes in hex. -/
def redeem (lib : Lib) (limiter : Limiter) (records : Records) (token : String) (kind : TokenKind)
    (source : Source) (now : Int) (id : Option String) (fill : Fill) (faults : Faults) :
    Limiter × Records × Except ApiError String :=
  match limiter.check source.address now with
  | (limiter, .error _) => (limiter, records, .error rateLimited)
  | (limiter, .ok ()) =>
    let limiter := limiter.record source.address now
    match lib.tokenHash token, id with
    | none, _ => (limiter, records, .error refused)
    | some _, none => (limiter, records, .error (.new .internal "no randomness"))
    | some hash, some id =>
      (limiter, locked faults records (redeemLocked hash kind source now id fill faults))

def fillJoin (request : JoinRequest) : Fill := fun pending token =>
  if token.host.any (· ≠ request.host) then .error "it was issued for another host slot"
  else .ok { pending with
    host := some request.host, sshHostKey := some (Text.trim request.sshHostKey)
    httpsFingerprint := some (request.httpsFingerprint.map Char.toUpper) }

def redeemJoin (lib : Lib) (limiter : Limiter) (records : Records) (request : JoinRequest)
    (source : Source) (now : Int) (id : Option String) (faults : Faults) :
    Limiter × Records × Except ApiError String :=
  let key := Text.trim request.sshHostKey
  if maxSshKey < Text.len key ∨ (Text.stripStart "ssh-ed25519 " key).isNone then
    (limiter, records, .error (invalid "ssh_host_key must be an ssh-ed25519 public key"))
  else if !isFingerprint request.httpsFingerprint then
    (limiter, records, .error (invalid "https_fingerprint must be a SHA-256 fingerprint"))
  else redeem lib limiter records request.token .join source now id (fillJoin request) faults

def fillEnroll (request : EnrollRequest) : Fill := fun pending _ =>
  .ok { pending with
    name := some request.name, certificate := some request.certificate
    applianceAddress := request.address, applianceUuid := some request.applianceUuid }

def redeemEnroll (lib : Lib) (limiter : Limiter) (records : Records) (request : EnrollRequest)
    (source : Source) (now : Int) (id : Option String) (faults : Faults) :
    Limiter × Records × Except ApiError String :=
  if !isApplianceName request.name then
    (limiter, records, .error (invalid "name must be a lowercase DNS label"))
  else if maxCertificate < Text.len request.certificate ∨ !lib.pem request.certificate then
    (limiter, records, .error (invalid "certificate must be one PEM certificate"))
  else redeem lib limiter records request.token .enroll source now id (fillEnroll request) faults

/-- Forgets a token, used or not. -/
def revoke (records : Records) (hash : String) (faults : Faults) : Records × Except ApiError Unit :=
  locked faults records fun records =>
    let (tokens, answer) := removeFile records.tokens hash faults.write
    ({ records with tokens }, answer.mapError storage)

/-- Forgets the pending request `id`. -/
def removePending (records : Records) (id : String) (faults : Faults) :
    Records × Except ApiError Unit :=
  if !id.toList.all isHexdigit ∨ id = "" then (records, .error (invalid "not a request id"))
  else locked faults records fun records =>
    let (pending, answer) := removeFile records.pending id faults.write
    ({ records with pending }, answer.mapError storage)

end Bmac.Bmacd.Tokens
