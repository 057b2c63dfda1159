import Bmac.Registry.Invariants

/-!
# HAProxy routes

`haproxy_routes.py`: which lists of routes are rendered, and when one generation of them may be served
while another one is rolled out.
-/

namespace Bmac.Haproxy

open Bmac.Base Bmac.Core Bmac.Registry

/-- A route of a rendered generation. -/
structure ServedRoute where
  domain : String
  resource : String
  ip : String
  httpPort : Int
  httpsPort : Int
  deriving DecidableEq

structure Route extends ServedRoute where
  kind : String
  purpose : String
  deriving DecidableEq

/-! ## Comparing generations -/

def ServedRoute.target (r : ServedRoute) : String × String × Int × Int :=
  (r.resource, r.ip, r.httpPort, r.httpsPort)

/-- A dictionary of the routes: a later route replaces an earlier one. -/
def dict {α : Type} (key : ServedRoute → String) (value : ServedRoute → α)
    (routes : List ServedRoute) : Table String α :=
  Table.ofList (routes.map fun r => (key r, value r))

/-- The keys that two dictionaries give different values. -/
def changed {α : Type} [DecidableEq α] (previous candidate : Table String α) :
    List (String × α × α) :=
  (previous.map (·.1)).filterMap fun key =>
    match previous.get? key, candidate.get? key with
    | some old, some new => if old ≠ new then some (key, old, new) else none
    | _, _ => none

structure Comparison where
  compatible : Bool
  reasons : List String
  addedDomains : List String
  removedDomains : List String
  deriving DecidableEq

def lacking {α : Type} (a b : Table String α) : List String :=
  (a.map (·.1)).filter fun key => (b.get? key).isNone

def compareGenerations (previous candidate : List ServedRoute) : Comparison :=
  let previousDomains := dict (·.domain) (·.target) previous
  let candidateDomains := dict (·.domain) (·.target) candidate
  let reasons :=
    (changed previousDomains candidateDomains).map
        (fun e => s!"route {e.1} changes its backend target") ++
      (changed (dict (·.resource) (·.target) previous)
          (dict (·.resource) (·.target) candidate)).map
        (fun e => s!"resource {e.1} changes its backend target") ++
      (changed (dict (·.ip) (·.resource) previous) (dict (·.ip) (·.resource) candidate)).map
        (fun e => s!"backend IP {e.1} moves from {e.2.1} to {e.2.2}")
  { compatible := reasons = []
    reasons
    addedDomains := lacking candidateDomains previousDomains
    removedDomains := lacking previousDomains candidateDomains }

theorem changed_eq_nil {α : Type} [DecidableEq α] {previous candidate : Table String α} :
    changed previous candidate = [] ↔ ∀ key old new, previous.get? key = some old →
      candidate.get? key = some new → old = new := by
  simp only [changed, List.filterMap_eq_nil_iff]
  constructor
  · intro h key old new hold hnew
    have hkey := h key (List.mem_map.mpr ⟨_, Table.mem_of_get? hold, rfl⟩)
    by_contra hne
    simp [hold, hnew, hne] at hkey
  · intro h key _
    split
    · rename_i old new hold hnew
      simp [h key old new hold hnew]
    · rfl

theorem changed_symm {α : Type} [DecidableEq α] {a b : Table String α}
    (h : changed a b = []) : changed b a = [] :=
  changed_eq_nil.mpr fun key old new hold hnew => (changed_eq_nil.mp h key new old hnew hold).symm

/-- Which of two generations is the earlier one makes no difference. -/
theorem compatible_symm {a b : List ServedRoute} (h : (compareGenerations a b).compatible = true) :
    (compareGenerations b a).compatible = true := by
  simp only [compareGenerations, decide_eq_true_eq, List.append_eq_nil_iff, List.map_eq_nil_iff]
    at h ⊢
  exact ⟨⟨changed_symm h.1.1, changed_symm h.1.2⟩, changed_symm h.2⟩

/-! ## Rendering -/

structure Ranges where
  backendNetwork : String
  productionIpStart : String
  productionIpEnd : String
  stagingIpStart : String
  stagingIpEnd : String

/-- The first octets of addresses that no backend has: `0.0.0.0` itself, loopback and multicast. -/
def isRoutable (ip : Nat) : Bool :=
  ip ≠ 0 && ip / 2 ^ 24 ≠ 127 && !(224 ≤ ip / 2 ^ 24 && ip / 2 ^ 24 ≤ 239)

/-- `_parse_ipv4`. An address has one text. -/
def parseIpv4 (value description : String) : Except String Nat :=
  match Ipv4.parse value with
  | none => .error s!"{description} is invalid: {quoted value}"
  | some ip =>
    if isRoutable ip then .ok ip
    else .error s!"{description} is not a routable backend address: {quoted value}"

def parseNetwork (value : String) : Except String Network :=
  ofOption (ipNetwork value) s!"backend network is invalid: {quoted value}"

def parseRange (startValue endValue : String) (network : Network) (description : String) :
    Except String (Nat × Nat) := do
  let start ← parseIpv4 startValue s!"{description} start"
  let stop ← parseIpv4 endValue s!"{description} end"
  if !network.contains start ∨ !network.contains stop ∨ stop < start then
    throw s!"{description} must be an ordered subset of {network.text}"
  return (start, stop)

/-- `_expect_plain_int`. -/
def expectPort (value : Int) (description : String) : Except String Unit := do
  if value < 1 ∨ 65535 < value then throw s!"{description} must be between 1 and 65535"

variable (py : Python)

def containsText (part s : String) : Bool := s.toList.tails.any (part.toList.isPrefixOf ·)

def validateDomain (value : String) : Except String Unit := do
  if value ≠ strip value ∨ value ≠ py.lower value ∨ value.toList.getLast? = some '.' then
    throw s!"route domain is not normalized: {quoted value}"
  if value = "" ∨ (Text.stripStart "*." value).isSome ∨ containsText "://" value then
    throw s!"route domain must be an exact hostname: {quoted value}"
  if value.toList.contains '/' ∨ value.toList.contains ':' ∨ !value.toList.contains '.' ∨
      253 < value.length then
    throw s!"route domain is not a bare fully-qualified hostname: {quoted value}"
  match py.idna value with
  | none => throw s!"route domain cannot be converted to IDNA: {quoted value}"
  | some ascii =>
    if ascii ≠ value then throw s!"route domain must already be normalized ASCII: {quoted value}"
    if !(Text.split '.' value).all isDomainLabel then
      throw s!"route domain contains an invalid label: {quoted value}"
    if (Ipv4.parse value).isSome then
      throw s!"route domain may not be an IP address: {quoted value}"

/-- `BACKEND_RE`. -/
def isBackend (s : String) : Bool :=
  starts isLetter (fun c => Text.isAlphanumeric c || "_.-".toList.contains c) 127 s.toList

def backendNames (resource : String) : List String :=
  [s!"bmac_http_{resource}", s!"bmac_tls_{resource}", s!"bmac_server_{resource}"]

/-- `RESOURCE_RE`: digits that don't begin with a zero, of any number. -/
def resourceKind (resource : String) : Option String :=
  match Text.stripStart "prod" resource with
  | some digits => if Text.positiveDecimal digits then some "production" else none
  | none => do
    let rest ← Text.stripStart "stage" resource
    let (digits, source) ← Text.splitBefore "prod".toList rest.toList
    let source ← Text.stripStart "prod" (String.ofList source)
    if Text.positiveDecimal (String.ofList digits) && Text.positiveDecimal source then
      some "staging"
    else none

/-- `_validate_route_object`. -/
def validateRoute (network : Network) (productionRange stagingRange : Nat × Nat) (r : Route) :
    Except String Unit := do
  validateDomain py r.domain
  match resourceKind r.resource with
  | none => throw s!"route resource name is invalid: {quoted r.resource}"
  | some resourceKind =>
    match (backendNames r.resource).find? (!isBackend ·) with
    | some name => throw s!"derived HAProxy backend identifier is invalid: {quoted name}"
    | none =>
      if r.kind ≠ "production" ∧ r.kind ≠ "staging" then
        throw s!"route kind is invalid: {quoted r.kind}"
      if r.kind ≠ resourceKind then
        throw s!"route kind {quoted r.kind} does not match resource {quoted r.resource}"
      if 63 < r.purpose.length ∨ !isPurpose r.purpose then
        throw s!"route purpose is invalid: {quoted r.purpose}"
      let address ← parseIpv4 r.ip "route backend IP"
      if !network.contains address then
        throw s!"route backend IP {r.ip} is outside {network.text}"
      let allowed := if r.kind = "production" then productionRange else stagingRange
      if address < allowed.1 ∨ allowed.2 < address then
        throw (s!"{r.kind} backend IP {r.ip} is outside " ++
          s!"{Ipv4.text allowed.1}-{Ipv4.text allowed.2}")
      expectPort r.httpPort "route HTTP port"
      expectPort r.httpsPort "route HTTPS port"

/-- The routes by domain, then by resource. -/
def routeLe (a b : ServedRoute) : Prop :=
  a.domain < b.domain ∨ a.domain = b.domain ∧ a.resource ≤ b.resource

instance : DecidableRel routeLe := fun _ _ => by
  unfold routeLe
  infer_instance

/-- What is known of the routes that come before one. -/
structure Seen where
  domains : List (String × String) := []
  resources : List (String × Route) := []
  addresses : List (String × String) := []

/-- A resource's routes go to one target. -/
def sameTarget (a b : Route) : Bool :=
  a.ip = b.ip && a.httpPort = b.httpPort && a.httpsPort = b.httpsPort && a.kind = b.kind &&
    a.purpose = b.purpose

def Seen.add (s : Seen) (r : Route) : Except String Seen := do
  match s.domains.find? (·.1 = r.domain) with
  | some prior =>
    throw (s!"duplicate route domain {quoted r.domain} for " ++
      s!"{quoted prior.2} and {quoted r.resource}")
  | none =>
    if (s.resources.find? (·.1 = r.resource)).any (!sameTarget ·.2 r) then
      throw s!"resource {quoted r.resource} has inconsistent backend targets"
    match s.addresses.find? (·.1 = r.ip) with
    | some prior =>
      if prior.2 ≠ r.resource then
        throw (s!"backend IP {r.ip} is shared by " ++
          s!"{quoted prior.2} and {quoted r.resource}")
    | none => pure ()
    return ⟨(r.domain, r.resource) :: s.domains, (r.resource, r) :: s.resources,
      (r.ip, r.resource) :: s.addresses⟩

def validateRoutes (value : List Route) (ranges : Ranges) : Except String (List Route) := do
  if maxRoutes < value.length then throw s!"list-routes input exceeds {maxRoutes} routes"
  let network ← parseNetwork ranges.backendNetwork
  let production ← parseRange ranges.productionIpStart ranges.productionIpEnd network
    "production range"
  let staging ← parseRange ranges.stagingIpStart ranges.stagingIpEnd network "staging range"
  if ¬production.2 < staging.1 then
    throw "production and staging backend ranges must not overlap"
  value.forM (validateRoute py network production staging)
  let routes := value.insertionSort fun a b => routeLe a.toServedRoute b.toServedRoute
  let _ ← routes.foldlM Seen.add {}
  return routes

end Bmac.Haproxy
