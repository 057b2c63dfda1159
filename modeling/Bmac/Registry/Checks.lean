import Bmac.Core.Ids
import Bmac.Core.Ipv4

/-!
# The registry's checks

The texts, times and nodes of `cluster_registry.py`. A record's field of a type holds a value of that
type, and a time is the instant that its text writes, in microseconds.
-/

namespace Bmac.Registry

open Bmac.Core

/-- What the registry asks of Python's library about texts. -/
structure Python where
  /-- `str.lower`. -/
  lower : String → String
  /-- The ASCII text that the `idna` codec makes. -/
  idna : String → Option String
  /-- `hashlib.sha256(..).digest()` of a text. -/
  sha256 : String → List UInt8

/-! ## Times -/

def second : Int := 1000000

/-- `utc_now`, and every clock reading with `microsecond=0`: whole seconds. -/
def utcNow (now : Int) : Int := now - now % second

theorem utcNow_le (now : Int) : utcNow now ≤ now := by
  simp only [utcNow, second]
  omega

/-! ## Patterns -/

def isLowerAlnum (c : Char) : Bool := Text.isLower c || Text.isDigit c

def isLetter (c : Char) : Bool := Text.isLower c || Text.isUpper c

def isHex (c : Char) : Bool := Text.isDigit c || ('a' ≤ c && c ≤ 'f')

/-- A character of `first`, and up to `most` of `rest`. -/
def starts (first rest : Char → Bool) (most : Nat) (cs : List Char) : Bool :=
  match cs with
  | [] => false
  | c :: cs => first c && cs.length ≤ most && cs.all rest

/-- `SAFE_ID_RE`. -/
def isSafeId (s : String) : Bool :=
  starts Text.isAlphanumeric
    (fun c => Text.isAlphanumeric c || "_.:/@+-".toList.contains c) 255 s.toList

/-- `STORAGE_ID_RE`. -/
def isStorageId (s : String) : Bool :=
  let cs := s.toList
  2 ≤ cs.length && starts Text.isLower (fun c => isLowerAlnum c || "_.-".toList.contains c) 63 cs &&
    cs.getLast?.any isLowerAlnum

/-- `count` lowercase hex digits. -/
def isHexText (count : Nat) (s : String) : Bool := s.length = count && s.toList.all isHex

/-- `SHA256_RE`. -/
def isSha256 (s : String) : Bool := isHexText 64 s

/-- `SNAPSHOT_RE`. -/
def isSnapshotText (s : String) : Bool :=
  starts isLetter (fun c => Text.isAlphanumeric c || "._-".toList.contains c) 39 s.toList

/-- `GUID_RE`. -/
def isGuid (s : String) : Bool := starts Text.isDigit Text.isDigit 19 s.toList

/-- `MAC_RE`. -/
def isMac (s : String) : Bool :=
  let parts := Text.split ':' s
  parts.length = 6 && parts.all (isHexText 2)

/-- `DOMAIN_LABEL_RE`. -/
def isDomainLabel (s : String) : Bool :=
  let cs := s.toList
  starts isLowerAlnum (fun c => isLowerAlnum c || c = '-') 62 cs && cs.getLast?.any isLowerAlnum

/-- `PURPOSE_RE`. -/
def isPurpose (s : String) : Bool :=
  s.toList.head?.any Text.isLower &&
    (Text.split '-' s).all fun part => part ≠ "" && part.toList.all isLowerAlnum

/-- `repr` of a text without quotes or control characters. -/
def quoted (s : String) : String := s!"'{s}'"

/-- `str.isspace` of a character. -/
def isSpace (c : Char) : Bool := Text.isWhitespace c || (0x1c ≤ c.toNat && c.toNat ≤ 0x1f)

/-- `str.strip`. -/
def strip (s : String) : String :=
  String.ofList ((s.toList.dropWhile isSpace).reverse.dropWhile isSpace).reverse

/-- `str.rstrip` of a character. -/
def rstrip (c : Char) (s : String) : String :=
  String.ofList (s.toList.reverse.dropWhile (· = c)).reverse

variable (py : Python)

def normalizeDomain (value : String) : Except String String := do
  let domain := py.lower (rstrip '.' (strip value))
  if domain = "" ∨ (Text.stripStart "*." domain).isSome then
    throw s!"domain must be an exact hostname, not a wildcard: {quoted value}"
  if domain.toList.contains '/' ∨ domain.toList.contains ':' then
    throw s!"domain is not a bare hostname: {quoted value}"
  match py.idna domain with
  | none => throw s!"domain cannot be converted to IDNA: {quoted value}"
  | some domain =>
    if 253 < domain.length ∨ !domain.toList.contains '.' then
      throw s!"domain must be a fully-qualified hostname: {quoted value}"
    if !(Text.split '.' domain).all isDomainLabel then
      throw s!"domain contains an invalid label: {quoted value}"
    if (Ipv4.parse domain).isSome then
      throw s!"domain may not be an IP address: {quoted value}"
    return domain

def normalizeDomains (values : List String) : Except String (List String) :=
  values.foldlM (fun seen value => do
    let domain ← normalizeDomain py value
    if domain ∈ seen then throw s!"duplicate domain in request: {domain}"
    return seen ++ [domain]) []

def normalizePurpose (value : String) : Except String String := do
  let purpose := py.lower (strip value)
  if 63 < purpose.length ∨ !isPurpose purpose then
    throw ("purpose must be a lowercase slug of at most 63 characters " ++
      "(letters, digits, and internal hyphens)")
  return purpose

def normalizeAllocationId (value : Option String) : Except String (Option String) :=
  value.mapM fun value => do
    let value := strip value
    if value = "" ∨ 128 < value.length ∨ !isSafeId value then
      throw "allocation id contains unsafe characters"
    return value

def flattenNodes (values : List String) : List String :=
  values.flatMap fun value => ((Text.split ',' value).map strip).filter (· ≠ "")

def validateNode (maxHosts : Int) (node : String) : Except String HostSlot := do
  match HostSlot.parse node with
  | none => throw s!"node must be named mox1 through mox32: {quoted node}"
  | some slot =>
    if maxHosts < slot.number then throw s!"{node} exceeds policy max_hosts={maxHosts}"
    return slot

def validateNodes (maxHosts : Int) (values : List String) (allowEmpty exactlyOne : Bool) :
    Except String (List HostSlot) := do
  if values = [] ∧ !allowEmpty then throw "at least one placement node is required"
  if exactlyOne ∧ values.length ≠ 1 then throw "exactly one placement node is required"
  values.foldlM (fun seen node => do
    let slot ← validateNode maxHosts node
    if slot ∈ seen then throw s!"duplicate placement node: {node}"
    return seen ++ [slot]) []

def validateSnapshotName (value : String) : Except String String := do
  if !isSnapshotText value ∨ (Text.stripStart "__replicate_" value).isSome then
    throw "snapshot name is unsafe or uses Proxmox's reserved __replicate_ prefix"
  return value

def validateSafeIdentifier (value description : String) : Except String String := do
  if !isSafeId value then throw s!"{description} contains unsafe characters"
  return value

def validateSha256 (value description : String) : Except String String := do
  if !isSha256 value then throw s!"{description} must be a lowercase SHA-256"
  return value

/-! ## Secret material -/

/-- What `re.IGNORECASE` does not distinguish, for the letters of the two patterns. -/
def foldCase (c : Char) : Char :=
  if c.toNat = 0x17f then 's'
  else if c.toNat = 0x212a then 'k'
  else if c.toNat = 0x130 ∨ c.toNat = 0x131 then 'i'
  else c.toLower

def secretKeys : List String :=
  ["password", "passwd", "secret", "token", "credential", "private_key", "auth_key"]

/-- `SECRET_KEY_RE.search`: one of the words between the ends of the text or underscores. -/
def isSecretKey (key : String) : Bool :=
  let cs := key.toList.map foldCase
  (List.range (cs.length + 1)).any fun i =>
    (i = 0 || cs[i - 1]? == some '_') &&
      secretKeys.any fun word =>
        word.toList.isPrefixOf (cs.drop i) &&
          (i + word.length == cs.length || cs[i + word.length]? == some '_')

/-- Whether `----- BEGIN`'s rest names a private key. -/
def isPrivateKey (cs : List Char) : Bool :=
  let run := cs.takeWhile fun c => Text.isLower c || c = ' '
  "private key".toList.isSuffixOf run && "-----".toList.isPrefixOf (cs.drop run.length)

/-- `SECRET_VALUE_RE.search`. -/
def isSecretValue (value : String) : Bool :=
  let cs := value.toList.map foldCase
  cs.tails.any fun rest =>
    "tskey-auth-".toList.isPrefixOf rest || "tskey-client-".toList.isPrefixOf rest ||
      ("-----begin ".toList.isPrefixOf rest && isPrivateKey (rest.drop 11))

def rejectSecretMaterial (keys texts : List String) (context : String) : Except String Unit := do
  match keys.find? isSecretKey with
  | some key => throw s!"{context} may not contain secret field {quoted key}"
  | none => if texts.any isSecretValue then throw s!"{context} contains secret material"

end Bmac.Registry
