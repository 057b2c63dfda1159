import Bmac.Base.Json
import Bmac.Base.Lines
import Bmac.Base.Split
import Bmac.Haproxy.Routes

/-!
# Rendered generations

`haproxy_routes.py`, `render_files` and `load_rendered_generation`: the files of a generation, and the
routes that are read back from them. A generation's files are a dictionary by their names.
-/

namespace Bmac.Haproxy

open Bmac.Base Bmac.Core Bmac.Registry

abbrev Files := Table String String

/-! ## Texts -/

def hexdigest (digest : List UInt8) : String := Text.join "" (digest.map fun byte => Text.hex 2 byte.toNat)

def isBackendChar (c : Char) : Bool := Text.isAlphanumeric c || "_.-".toList.contains c

/-- `SAFE_ABSOLUTE_PATH_RE`. -/
def isSafeAbsolutePath (s : String) : Bool :=
  match s.toList with
  | '/' :: cs => cs ≠ [] && cs.all fun c => Text.isAlphanumeric c || "._/-".toList.contains c
  | _ => false

/-- `validate_generation_root`, of a path's text. -/
def validateGenerationRoot (root : String) : Except String Unit := do
  if ".." ∈ Text.split '/' root ∨ !isSafeAbsolutePath root then
    throw s!"HAProxy generation root is unsafe: {quoted root}"

def joinPath (dir name : String) : String :=
  if Text.endsWith '/' dir then s!"{dir}{name}" else s!"{dir}/{name}"

/-- The check of `backend_names`. -/
def checkBackends (resource : String) : Except String Unit :=
  match (backendNames resource).find? (!isBackend ·) with
  | some name => .error s!"derived HAProxy backend identifier is invalid: {quoted name}"
  | none => .ok ()

/-! ## Rendering -/

variable (py : Python)

def routingData (r : ServedRoute) : Json.Printed :=
  Json.printObject Json.compact
    [("domain".toList, Json.printString r.domain.toList),
      ("http_port".toList, Json.printInt r.httpPort),
      ("https_port".toList, Json.printInt r.httpsPort),
      ("ip".toList, Json.printString r.ip.toList),
      ("resource".toList, Json.printString r.resource.toList)]

/-- What `routing_generation` digests. -/
def canonical (routes : List ServedRoute) : Json.Printed :=
  Json.printObject Json.compact
    [("renderer_schema_version".toList, Json.printInt 1),
      ("routes".toList, Json.printArray Json.compact (routes.map routingData))]

def routingGeneration (routes : List ServedRoute) : String :=
  hexdigest (py.sha256 (String.ofList (canonical routes 0)))

/-- `_resource_targets`: the address and ports of each resource, by its name. -/
def resourceTargets (routes : List ServedRoute) : Table String (String × Int × Int) :=
  dict (·.resource) (fun r => (r.ip, r.httpPort, r.httpsPort)) routes

/-- A map file: a line for each domain. -/
def renderMap (start : String) (routes : List ServedRoute) : String :=
  Text.join "" (routes.map fun r => s!"{r.domain} {start}{r.resource}\n")

def headerLines (generation httpMapPath tlsMapPath : String) : List String :=
  ["# Managed by bmac HAProxy route synchronization. Do not edit.",
    s!"# generation: {generation}",
    "global",
    "    log /dev/log local0",
    "    log /dev/log local1 notice",
    "    user haproxy",
    "    group haproxy",
    "    daemon",
    "",
    "defaults",
    "    log global",
    "    timeout connect 5s",
    "    timeout client  60s",
    "    timeout server  60s",
    "",
    "frontend bmac_public_http",
    "    bind :80",
    "    mode http",
    "    option httplog",
    "    http-request set-header X-Forwarded-Proto http",
    "    use_backend " ++
      s!"%[req.hdr(host),lower,field(1,:),map({httpMapPath},bmac_reject_http)]",
    "    default_backend bmac_reject_http",
    "",
    "frontend bmac_public_tls",
    "    bind :443",
    "    mode tcp",
    "    option tcplog",
    "    tcp-request inspect-delay 5s",
    "    tcp-request content accept if \x7b req.ssl_hello_type 1 \x7d",
    "    use_backend " ++
      s!"%[req.ssl_sni,lower,map({tlsMapPath},bmac_reject_tls)]",
    "    default_backend bmac_reject_tls",
    "",
    "backend bmac_reject_http",
    "    mode http",
    "    http-request deny deny_status 404",
    "",
    "backend bmac_reject_tls",
    "    mode tcp",
    "    server bmac_reject 127.0.0.1:1 disabled"]

def backendLines (target : String × String × Int × Int) : List String :=
  let (resource, address, httpPort, httpsPort) := target
  ["",
    s!"backend bmac_http_{resource}",
    "    mode http",
    "    option forwardfor",
    s!"    server bmac_server_{resource} {address}:{httpPort} check",
    "",
    s!"backend bmac_tls_{resource}",
    "    mode tcp",
    s!"    server bmac_server_{resource} {address}:{httpsPort} check"]

def configLines (routes : List ServedRoute) (root : String) : List String :=
  let generation := routingGeneration py routes
  let maps := joinPath (joinPath root generation) "maps"
  headerLines generation (joinPath maps "bmac-http-host.map") (joinPath maps "bmac-tls-sni.map") ++
    (resourceTargets routes).flatMap backendLines

def renderFiles (routes : List ServedRoute) (root : String) : Except String Files := do
  validateGenerationRoot root
  routes.forM fun r => checkBackends r.resource
  return [("haproxy.cfg", Text.join "\n" (configLines py routes root ++ [""])),
    ("maps/bmac-http-host.map", renderMap "bmac_http_" routes),
    ("maps/bmac-tls-sni.map", renderMap "bmac_tls_" routes)]

def manifest (routes : List ServedRoute) (files : Files) : Json.Printed :=
  Json.printObject (Json.indented 2)
    [("files".toList, Json.printObject (Json.indented 2) (files.map fun (name, content) =>
        (name.toList, Json.printString (hexdigest (py.sha256 content)).toList))),
      ("generation".toList, Json.printString (routingGeneration py routes).toList),
      ("resource_count".toList, Json.printInt (routes.map (·.resource)).dedup.length),
      ("route_count".toList, Json.printInt routes.length),
      ("schema_version".toList, Json.printInt 1)]

def manifestText (routes : List ServedRoute) (files : Files) : String :=
  String.ofList (manifest py routes files 0 ++ ['\n'])

/-- The files of `render_files` with their manifest, as `write_generation` writes them. -/
def renderGeneration (routes : List ServedRoute) (root : String) : Except String Files := do
  let files ← renderFiles py routes root
  return files.insert "manifest.json" (manifestText py routes files)

/-! ## Reading -/

/-- `_json_object_without_duplicate_keys`. -/
def withoutDuplicateKeys : Json.Hook := fun members =>
  if (members.map (·.1)).Nodup then some (.object members) else none

def validateResourceName (resource : String) : Except String Unit :=
  match resourceKind resource with
  | some _ => .ok ()
  | none => .error s!"route resource name is invalid: {quoted resource}"

/-- One line of `_parse_map`. -/
def parseMapLine (start description : String) (entries : List (String × String)) (line : String) :
    Except String (List (String × String)) :=
  match Text.split ' ' line with
  | [domain, backend] => do
    validateDomain py domain
    if domain ∈ entries.map (·.1) then throw s!"{description} repeats domain {quoted domain}"
    match Text.stripStart start backend with
    | none => throw s!"{description} names an unexpected backend {quoted backend}"
    | some resource =>
      validateResourceName resource
      return entries ++ [(domain, resource)]
  | _ => .error s!"{description} has a malformed line: {quoted line}"

def lines (text : String) : List String := (Lines.splitlines text.toList).map String.ofList

/-- `_parse_map`: the resource of each domain, in the order of the lines. -/
def parseMap (text start description : String) : Except String (List (String × String)) :=
  (lines text).foldlM (parseMapLine py start description) []

/-- `SERVER_LINE_RE`. -/
def serverLine (line : String) : Option (String × Nat) := do
  let rest ← "    server bmac_server_".toList.isPrefixOf? line.toList
  if rest.takeWhile isBackendChar = [] then none
  let rest ← [' '].isPrefixOf? (rest.dropWhile isBackendChar)
  let isIpChar := fun c => Text.isDigit c || c = '.'
  let ip := rest.takeWhile isIpChar
  if ip = [] then none
  let rest ← [':'].isPrefixOf? (rest.dropWhile isIpChar)
  let port := rest.takeWhile Text.isDigit
  if port = [] ∨ 5 < port.length ∨ rest.dropWhile Text.isDigit ≠ " check".toList then none
  return (String.ofList ip, Text.decimal port)

/-- What is known of the backends that come before a line. -/
structure Backends where
  targets : List (String × String × Int) := []
  backend : Option String := none

/-- One line of `_parse_server_targets`. -/
def Backends.add (s : Backends) (line : String) : Except String Backends :=
  match Text.stripStart "backend " line with
  | some backend => .ok { s with backend := some backend }
  | none =>
    match serverLine line, s.backend with
    | some (ip, port), some backend => do
      if backend ∈ s.targets.map (·.1) then
        throw s!"backend {quoted backend} has more than one server"
      let _ ← parseIpv4 ip "rendered backend IP"
      expectPort port "rendered backend port"
      return { s with targets := s.targets ++ [(backend, ip, (port : Int))] }
    | _, _ => .ok s

/-- `_parse_server_targets`: the address and the port of each backend. -/
def parseServerTargets (config : String) : Except String (List (String × String × Int)) := do
  let s ← (lines config).foldlM Backends.add {}
  return s.targets

/-- `==` of dictionaries. -/
def sameDict (a b : List (String × String)) : Bool :=
  a.length = b.length && a.all fun e => b.lookup e.1 = some e.2

/-- The routes of the domains read so far, and the resource of each address. -/
structure Loaded where
  routes : List ServedRoute := []
  owners : List (String × String) := []

def Loaded.add (targets : List (String × String × Int)) (s : Loaded) (entry : String × String) :
    Except String Loaded := do
  let (domain, resource) := entry
  checkBackends resource
  match targets.lookup s!"bmac_http_{resource}", targets.lookup s!"bmac_tls_{resource}" with
  | some (address, httpPort), some (tlsAddress, httpsPort) =>
    if address ≠ tlsAddress then
      throw s!"resource {quoted resource} has inconsistent backend targets"
    if (s.owners.lookup address).getD resource ≠ resource then
      throw s!"backend IP {address} is shared by two resources"
    return ⟨s.routes ++ [⟨domain, resource, address, httpPort, httpsPort⟩],
      (address, resource) :: s.owners⟩
  | _, _ => throw s!"route {quoted domain} has no rendered backend server"

def generationFiles : List String :=
  ["haproxy.cfg", "manifest.json", "maps/bmac-http-host.map", "maps/bmac-tls-sni.map"]

/-- The `generation` of a manifest. -/
def manifestGeneration (text : String) : Except String String := do
  let manifest ← ofOption (Json.loads withoutDuplicateKeys text.toList)
    "rendered manifest is not valid JSON"
  match manifest with
  | .object members =>
    match members.lookup "generation".toList with
    | some (.string generation) =>
      if !isSha256 (String.ofList generation) then throw "rendered manifest generation is invalid"
      return String.ofList generation
    | _ => throw "rendered manifest has no generation"
  | _ => throw "rendered manifest has no generation"

def loadRenderedGeneration (files : Files) (root : String) :
    Except String (String × List ServedRoute) := do
  if (files.map (·.1)).insertionSort (· ≤ ·) ≠ generationFiles then
    throw "rendered generation does not contain the exact file set"
  let content := fun name => (files.get? name).getD ""
  let generation ← manifestGeneration (content "manifest.json")
  let http ← parseMap py (content "maps/bmac-http-host.map") "bmac_http_" "HTTP Host map"
  let tls ← parseMap py (content "maps/bmac-tls-sni.map") "bmac_tls_" "TLS SNI map"
  if !sameDict http tls then throw "HTTP Host and TLS SNI maps disagree"
  let targets ← parseServerTargets (content "haproxy.cfg")
  let loaded ← http.foldlM (Loaded.add targets) {}
  let routes := loaded.routes.insertionSort routeLe
  let expected ← renderGeneration py routes root
  if generationFiles.any fun name => files.get? name ≠ expected.get? name then
    throw "rendered generation is not byte-identical to this renderer's output"
  if routingGeneration py routes ≠ generation then
    throw "rendered generation hash does not match its routes"
  return (generation, routes)

end Bmac.Haproxy
