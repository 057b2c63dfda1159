import Bmac.Haproxy.Parse

/-!
# Generations round-trip

`haproxy_routes.py`: `load_rendered_generation` reads from a rendered generation the routes it was
rendered from, whatever order they came in, and accepts no files but rendered ones.
-/

namespace Bmac.Haproxy

open Bmac.Base Bmac.Core Bmac.Registry

variable {py : Python} {routes : List ServedRoute} {root : String}

/-! ## The manifest -/

theorem withoutDuplicateKeys_eq {members : List (List Char × Json)}
    (h : (members.map (·.1)).Nodup) : withoutDuplicateKeys members = some (.object members) :=
  if_pos h

theorem isHex_hexDigit (n : Nat) : isHex (Text.hexDigit (n % 16)) = true := by
  have hdigits : ∀ k < 16, isHex (Text.hexDigit k) = true := by decide
  exact hdigits _ (Nat.mod_lt _ (by omega))

theorem isSha256_hexdigest {digest : List UInt8} (h : digest.length = 32) :
    isSha256 (hexdigest digest) = true := by
  have hlen : (hexdigest digest).length = 2 * digest.length := by
    rw [← String.length_toList, hexdigest, toList_join_empty]
    clear h
    induction digest with
    | nil => rfl
    | cons byte digest ih =>
      rw [List.map_cons, List.flatMap_cons, List.length_append, ih, List.length_cons]
      have hbyte : (Text.hex 2 byte.toNat).toList.length = 2 := by simp [Text.hex]
      omega
  simp only [isSha256, isHexText, Bool.and_eq_true, decide_eq_true_eq, List.all_eq_true, hlen, h]
  refine ⟨trivial, fun c hc => ?_⟩
  rw [hexdigest, toList_join_empty, List.mem_flatMap] at hc
  obtain ⟨part, hpart, hc⟩ := hc
  obtain ⟨byte, -, rfl⟩ := List.mem_map.mp hpart
  rw [Text.hex, String.toList_ofList] at hc
  obtain ⟨i, -, rfl⟩ := List.mem_map.mp hc
  exact isHex_hexDigit _

/-- The names of the files that `render_files` returns. -/
theorem renderFiles_eq_ok (h : ∀ r ∈ routes, checkBackends r.resource = .ok ())
    (hroot : validateGenerationRoot root = .ok ()) :
    renderFiles py routes root =
      .ok [("haproxy.cfg", Text.join "\n" (configLines py routes root ++ [""])),
        ("maps/bmac-http-host.map", renderMap "bmac_http_" routes),
        ("maps/bmac-tls-sni.map", renderMap "bmac_tls_" routes)] := by
  rw [renderFiles, hroot, ok_bind, forM_eq_ok_iff.mpr h]
  rfl

theorem manifestGeneration_manifestText (hsha : ∀ s, (py.sha256 s).length = 32) (files : Files)
    (hfiles : (files.map fun e => e.1.toList).Nodup) :
    manifestGeneration (manifestText py routes files) = .ok (routingGeneration py routes) := by
  have hreads : Json.Reads withoutDuplicateKeys 3 (manifest py routes files) (.object
      [("files".toList, .object (files.map fun e =>
          (e.1.toList, .string (hexdigest (py.sha256 e.2)).toList))),
        ("generation".toList, .string (routingGeneration py routes).toList),
        ("resource_count".toList, .number (routes.map (·.resource)).dedup.length.repr.toList),
        ("route_count".toList, .number routes.length.repr.toList),
        ("schema_version".toList, .number (1 : Nat).repr.toList)]) := by
    refine Json.reads_object (.cons ⟨rfl, ?_⟩ (.cons ⟨rfl, ?_⟩ (.cons ⟨rfl, ?_⟩ (.cons ⟨rfl, ?_⟩
      (.cons ⟨rfl, ?_⟩ .nil))))) (withoutDuplicateKeys_eq ?_)
    · have hmembers := Json.readMembers_strings withoutDuplicateKeys
        (files.map fun e => (e.1.toList, (hexdigest (py.sha256 e.2)).toList))
      rw [List.map_map, List.map_map] at hmembers
      refine Json.reads_object hmembers (withoutDuplicateKeys_eq ?_)
      simpa [Function.comp_def] using hfiles
    · exact (Json.reads_string _).mono (by omega)
    · exact (Json.reads_nat _).mono (by omega)
    · exact (Json.reads_nat _).mono (by omega)
    · exact (Json.reads_nat 1).mono (by omega)
    · have hkeys : ["files".toList, "generation".toList, "resource_count".toList,
          "route_count".toList, "schema_version".toList].Nodup := by decide
      exact hkeys
  have hloads := Json.loads_print hreads
    (Nat.succ_le_succ (Json.two_le_length_object _ _ 0))
  rw [manifestGeneration, manifestText, String.toList_ofList, hloads, ofOption_some, ok_bind]
  have hgeneration : isSha256 (routingGeneration py routes) = true := isSha256_hexdigest (hsha _)
  have hlookup (v w x y : Json) : List.lookup "generation".toList
      [("files".toList, v), ("generation".toList, .string (routingGeneration py routes).toList),
        ("resource_count".toList, w), ("route_count".toList, x), ("schema_version".toList, y)] =
      some (.string (routingGeneration py routes).toList) := rfl
  simp only [hlookup, String.ofList_toList, hgeneration]
  rfl

/-! ## The routes -/

theorem lookup_of_mem {α : Type} {entries : List (String × α)} (h : (entries.map (·.1)).Nodup)
    {key : String} {a : α} (hmem : (key, a) ∈ entries) : entries.lookup key = some a := by
  induction entries with
  | nil => cases hmem
  | cons e entries ih =>
    obtain ⟨hnew, hrest⟩ := List.nodup_cons.mp h
    rcases List.mem_cons.mp hmem with rfl | hmem
    · simp
    · have hne : (key == e.1) = false := by
        rw [beq_eq_false_iff_ne]
        rintro rfl
        exact hnew (List.mem_map.mpr ⟨_, hmem, rfl⟩)
      rw [List.lookup_cons, hne]
      exact ih hrest hmem

theorem sameDict_self {entries : List (String × String)} (h : (entries.map (·.1)).Nodup) :
    sameDict entries entries = true := by
  simp only [sameDict, decide_true, Bool.true_and, List.all_eq_true, decide_eq_true_eq]
  exact fun e he => lookup_of_mem h he

/-- The addresses of the routes read so far have their owners. -/
def OwnedBy (routes : List ServedRoute) (owners : List (String × String)) : Prop :=
  ∀ address resource, owners.lookup address = some resource →
    ∃ r ∈ routes, r.ip = address ∧ r.resource = resource

theorem loaded_add (h : Renderables py routes) {r : ServedRoute} (hr : r ∈ routes) {s : Loaded}
    (hs : OwnedBy routes s.owners) :
    s.add ((resourceTargets routes).flatMap backendTargets) (r.domain, r.resource) =
        .ok ⟨s.routes ++ [r], (r.ip, r.resource) :: s.owners⟩ ∧
      OwnedBy routes ((r.ip, r.resource) :: s.owners) := by
  have hkeys := nodup_backendTargets (nodup_resourceTargets routes)
  have htarget : (r.resource, r.ip, r.httpPort, r.httpsPort) ∈ resourceTargets routes :=
    (mem_resourceTargets h).mpr ⟨r, hr, rfl, rfl, rfl, rfl⟩
  have hhttp := lookup_of_mem hkeys (List.mem_flatMap.mpr ⟨_, htarget, List.mem_cons_self⟩)
  have htls := lookup_of_mem hkeys
    (List.mem_flatMap.mpr ⟨_, htarget, List.mem_cons_of_mem _ List.mem_cons_self⟩)
  have howner : (s.owners.lookup r.ip).getD r.resource = r.resource := by
    cases hlookup : s.owners.lookup r.ip with
    | none => rfl
    | some resource =>
      obtain ⟨a, ha, hip, rfl⟩ := hs _ _ hlookup
      exact h.owners a ha r hr hip
  constructor
  · simp only [Loaded.add, (h.each r hr).backends, ok_bind, hhttp, htls, howner, ne_eq,
      not_true_eq_false, if_false]
    rfl
  · intro address resource hlookup
    rw [List.lookup_cons] at hlookup
    split at hlookup
    · rename_i heq
      exact ⟨r, hr, (beq_iff_eq.mp heq).symm, Option.some.inj hlookup⟩
    · exact hs address resource hlookup

theorem foldlM_loaded (h : Renderables py routes) {rest : List ServedRoute}
    (hrest : ∀ r ∈ rest, r ∈ routes) {s : Loaded} (hs : OwnedBy routes s.owners) :
    ∃ owners, (rest.map fun r => (r.domain, r.resource)).foldlM
      (Loaded.add ((resourceTargets routes).flatMap backendTargets)) s =
        .ok ⟨s.routes ++ rest, owners⟩ := by
  induction rest generalizing s with
  | nil => exact ⟨s.owners, by simp [pure_eq_ok]⟩
  | cons r rest ih =>
    obtain ⟨hadd, hs'⟩ := loaded_add h (hrest r List.mem_cons_self) hs
    obtain ⟨owners, hfold⟩ := @ih (fun a ha => hrest a (List.mem_cons_of_mem r ha))
      ⟨s.routes ++ [r], (r.ip, r.resource) :: s.owners⟩ hs'
    refine ⟨owners, ?_⟩
    rw [List.map_cons, List.foldlM_cons, hadd, ok_bind, hfold]
    simp

theorem renderGeneration_eq_ok (h : ∀ r ∈ routes, checkBackends r.resource = .ok ())
    (hroot : validateGenerationRoot root = .ok ()) : ∃ text : String,
    text = manifestText py routes
        [("haproxy.cfg", Text.join "\n" (configLines py routes root ++ [""])),
          ("maps/bmac-http-host.map", renderMap "bmac_http_" routes),
          ("maps/bmac-tls-sni.map", renderMap "bmac_tls_" routes)] ∧
      renderGeneration py routes root =
        .ok [("haproxy.cfg", Text.join "\n" (configLines py routes root ++ [""])),
          ("manifest.json", text),
          ("maps/bmac-http-host.map", renderMap "bmac_http_" routes),
          ("maps/bmac-tls-sni.map", renderMap "bmac_tls_" routes)] := by
  refine ⟨_, rfl, ?_⟩
  have h1 : ¬"manifest.json" < "haproxy.cfg" := by decide
  have h2 : "manifest.json" ≠ "haproxy.cfg" := by decide
  have h3 : "manifest.json" < "maps/bmac-http-host.map" := by decide
  rw [renderGeneration, renderFiles_eq_ok h hroot, ok_bind, Table.insert, if_neg h1, if_neg h2,
    Table.insert, if_pos h3]
  rfl

variable {files : Files}

theorem loadRenderedGeneration_eq_ok {generation : String} :
    loadRenderedGeneration py files root = .ok (generation, routes) ↔
      (files.map (·.1)).insertionSort (· ≤ ·) = generationFiles ∧
      manifestGeneration ((files.get? "manifest.json").getD "") = .ok generation ∧
      ∃ http, parseMap py ((files.get? "maps/bmac-http-host.map").getD "") "bmac_http_"
          "HTTP Host map" = .ok http ∧
      ∃ tls, parseMap py ((files.get? "maps/bmac-tls-sni.map").getD "") "bmac_tls_"
          "TLS SNI map" = .ok tls ∧ sameDict http tls = true ∧
      ∃ targets, parseServerTargets ((files.get? "haproxy.cfg").getD "") = .ok targets ∧
      ∃ loaded, http.foldlM (Loaded.add targets) {} = .ok loaded ∧
        loaded.routes.insertionSort routeLe = routes ∧
      ∃ expected, renderGeneration py routes root = .ok expected ∧
        (∀ name ∈ generationFiles, files.get? name = expected.get? name) ∧
        routingGeneration py routes = generation := by
  simp only [loadRenderedGeneration, check_eq_ok, bind_eq_ok, pure_eq_ok, not_not, Prod.mk.injEq,
    Bool.not_eq_true, Bool.not_eq_false', List.any_eq_true, decide_eq_true_eq, not_exists, not_and]
  constructor
  · rintro ⟨hnames, gen, hgen, http, hhttp, tls, htls, hsame, targets, htargets, loaded, hloaded,
      expected, hexpected, hequal, hrouting, rfl, rfl⟩
    exact ⟨hnames, hgen, http, hhttp, tls, htls, by simpa using hsame, targets, htargets, loaded, hloaded, rfl, expected,
      hexpected, hequal, hrouting⟩
  · rintro ⟨hnames, hgen, http, hhttp, tls, htls, hsame, targets, htargets, loaded, hloaded, rfl,
      expected, hexpected, hequal, hrouting⟩
    exact ⟨hnames, _, hgen, http, hhttp, tls, htls, by simpa using hsame, targets, htargets, loaded, hloaded,
      expected, hexpected, hequal, hrouting, rfl, rfl⟩

theorem get?_generation (config manifest http tls : String) :
    Table.get? [("haproxy.cfg", config), ("manifest.json", manifest),
        ("maps/bmac-http-host.map", http), ("maps/bmac-tls-sni.map", tls)] "haproxy.cfg" =
        some config ∧
      Table.get? [("haproxy.cfg", config), ("manifest.json", manifest),
        ("maps/bmac-http-host.map", http), ("maps/bmac-tls-sni.map", tls)] "manifest.json" =
        some manifest ∧
      Table.get? [("haproxy.cfg", config), ("manifest.json", manifest),
        ("maps/bmac-http-host.map", http), ("maps/bmac-tls-sni.map", tls)]
        "maps/bmac-http-host.map" = some http ∧
      Table.get? [("haproxy.cfg", config), ("manifest.json", manifest),
        ("maps/bmac-http-host.map", http), ("maps/bmac-tls-sni.map", tls)]
        "maps/bmac-tls-sni.map" = some tls :=
  ⟨rfl, rfl, rfl, rfl⟩

theorem load_renderGeneration (hsha : ∀ s, (py.sha256 s).length = 32) (h : Renderables py routes)
    (hroot : validateGenerationRoot root = .ok ()) : ∃ files,
      renderGeneration py routes root = .ok files ∧
      loadRenderedGeneration py files root = .ok (routingGeneration py routes, routes) := by
  obtain ⟨text, htext, hrender⟩ :=
    @renderGeneration_eq_ok py routes root (fun r hr => (h.each r hr).backends) hroot
  have hfiles : ["haproxy.cfg".toList, "maps/bmac-http-host.map".toList,
      "maps/bmac-tls-sni.map".toList].Nodup := by decide
  have hmanifest : manifestGeneration text = .ok (routingGeneration py routes) :=
    htext ▸ manifestGeneration_manifestText hsha _ hfiles
  have hkeys : ((routes.map fun r => (r.domain, r.resource)).map (·.1)).Nodup := by
    rw [List.map_map]
    exact h.domains
  obtain ⟨owners, hfold⟩ := @foldlM_loaded _ _ h routes (fun _ hr => hr) {}
    fun _ _ hnone => by cases hnone
  obtain ⟨hget1, hget2, hget3, hget4⟩ := get?_generation
    (Text.join "\n" (configLines py routes root ++ [""])) text (renderMap "bmac_http_" routes)
    (renderMap "bmac_tls_" routes)
  have hnames : generationFiles.insertionSort (· ≤ ·) = generationFiles := by decide
  refine ⟨_, hrender, loadRenderedGeneration_eq_ok.mpr ⟨hnames, ?_, _, ?_, _, ?_,
    sameDict_self hkeys, _, ?_, _, hfold, ?_, _, hrender, fun _ _ => rfl, rfl⟩⟩
  · rw [hget2, Option.getD_some]
    exact hmanifest
  · rw [hget3, Option.getD_some]
    exact parseMap_renderMap (.inl rfl) h.each h.domains
  · rw [hget4, Option.getD_some]
    exact parseMap_renderMap (.inr rfl) h.each h.domains
  · rw [hget1, Option.getD_some]
    exact parseServerTargets_render h hroot
  · rw [List.nil_append]
    exact List.Pairwise.insertionSort_eq h.sorted

/-! ## The order of the input -/

theorem validateRoutes_perm {value value' routes : List Route} {ranges : Ranges}
    (hperm : value'.Perm value) (h : validateRoutes py value ranges = .ok routes) :
    validateRoutes py value' ranges = .ok routes := by
  have hagree : routes.Pairwise Agree := @Accepted.agree py _ ⟨value, ranges, routes, h, .inr rfl⟩
  simp only [validateRoutes, check_eq_ok, bind_eq_ok, pure_eq_ok] at h ⊢
  obtain ⟨hlength, network, hnetwork, production, hproduction, staging, hstaging, hdistinct, _, heach,
    seen, hseen, hroutes⟩ := h
  have hsort : (value'.insertionSort fun a b => routeLe a.toServedRoute b.toServedRoute) = routes := by
    have hsorted (l : List Route) : (l.insertionSort fun a b =>
        routeLe a.toServedRoute b.toServedRoute).Pairwise
          fun a b => routeLe a.toServedRoute b.toServedRoute := by
      rw [← List.pairwise_map (f := Route.toServedRoute), ← served, served_insertionSort]
      exact List.pairwise_insertionSort _ _
    have hsame : (value'.insertionSort fun a b =>
        routeLe a.toServedRoute b.toServedRoute).Perm routes := by
      rw [← hroutes]
      exact (List.perm_insertionSort _ _).trans (hperm.trans (List.perm_insertionSort _ _).symm)
    refine hsame.eq_of_pairwise (fun a b ha hb hab hba => ?_) (hsorted _) (hroutes ▸ hsorted _)
    -- Routes of one domain are one route.
    by_contra hne
    have hsymm : Std.Symm Agree := ⟨fun _ _ => Agree.symm⟩
    have hdomain := (hagree.forall (hsame.mem_iff.mp ha) hb hne).domain
    rcases hab with hab | ⟨hab, -⟩
    · rcases hba with hba | ⟨hba, -⟩
      · exact lt_asymm hab hba
      · exact hdomain hba.symm
    · exact hdomain hab
  refine ⟨hperm.length_eq ▸ hlength, network, hnetwork, production, hproduction, staging, hstaging,
    hdistinct, _, forM_eq_ok_iff.mpr fun r hr => forM_eq_ok_iff.mp heach r (hperm.mem_iff.mp hr),
    seen, ?_, hsort⟩
  rw [hsort, ← hroutes]
  exact hseen

def renderRoutes (py : Python) (value : List Route) (ranges : Ranges) (root : String) :
    Except String Files := do
  let routes ← validateRoutes py value ranges
  renderGeneration py (served routes) root

/-! ## What is accepted -/

theorem renderGeneration_names (h : renderGeneration py routes root = .ok files) :
    files.map (·.1) = generationFiles := by
  have hchecks := h
  simp only [renderGeneration, renderFiles, bind_eq_ok] at hchecks
  obtain ⟨_, ⟨_, hroot, _, heach, -⟩, -⟩ := hchecks
  obtain ⟨text, -, hrender⟩ :=
    @renderGeneration_eq_ok py routes root (forM_eq_ok_iff.mp heach) hroot
  obtain rfl := Except.ok.inj (h.symm.trans hrender)
  rfl

theorem get?_of_names {expected : Files}
    (hnames : (files.map (·.1)).insertionSort (· ≤ ·) = generationFiles)
    (hexpected : expected.map (·.1) = generationFiles)
    (h : ∀ name ∈ generationFiles, files.get? name = expected.get? name) (name : String) :
    files.get? name = expected.get? name := by
  have habsent {t : Files} (ht : ∀ n, n ∈ t.map (·.1) ↔ n ∈ generationFiles)
      (hname : name ∉ generationFiles) : t.get? name = none := by
    cases hget : t.get? name with
    | none => rfl
    | some content =>
      exact absurd ((ht name).mp (List.mem_map.mpr ⟨_, Table.mem_of_get? hget, rfl⟩)) hname
  by_cases hname : name ∈ generationFiles
  · exact h name hname
  · rw [habsent (fun n => by rw [← hnames, List.mem_insertionSort]) hname,
      habsent (fun n => by rw [hexpected]) hname]

/-- What is accepted is rendered and read back, in whatever order the routes came; and only what is
rendered is accepted. -/
theorem generations_round_trip (hsha : ∀ s, (py.sha256 s).length = 32) :
    (∀ value ranges root routes, validateRoutes py value ranges = .ok routes →
      validateGenerationRoot root = .ok () → ∃ files, renderRoutes py value ranges root = .ok files ∧
        loadRenderedGeneration py files root =
          .ok (routingGeneration py (served routes), served routes) ∧
        ∀ value', value'.Perm value → renderRoutes py value' ranges root = .ok files) ∧
    ∀ files root generation routes,
      loadRenderedGeneration py files root = .ok (generation, routes) →
      ∃ expected, renderGeneration py routes root = .ok expected ∧
        generation = routingGeneration py routes ∧
        (files.map (·.1)).Perm (expected.map (·.1)) ∧
        ∀ name, files.get? name = expected.get? name := by
  constructor
  · intro value ranges root routes hroutes hroot
    obtain ⟨files, hrender, hload⟩ :=
      load_renderGeneration hsha (validateRoutes_renderables hroutes) hroot
    refine ⟨files, ?_, hload, fun value' hperm => ?_⟩
    · rw [renderRoutes, hroutes, ok_bind, hrender]
    · rw [renderRoutes, validateRoutes_perm hperm hroutes, ok_bind, hrender]
  · intro files root generation routes hload
    obtain ⟨hnames, -, _, -, _, -, -, _, -, _, -, -, expected, hexpected, hequal, hgeneration⟩ :=
      loadRenderedGeneration_eq_ok.mp hload
    have hexpectedNames := renderGeneration_names hexpected
    refine ⟨expected, hexpected, hgeneration.symm, ?_, get?_of_names hnames hexpectedNames hequal⟩
    rw [hexpectedNames, ← hnames]
    exact (List.perm_insertionSort _ _).symm

/-! ### A guest and its copy -/

def copyRoute : Route where
  domain := "copy.a.test"
  resource := "stage1prod1"
  ip := "10.0.0.10"
  httpPort := 80
  httpsPort := 443
  kind := "staging"
  purpose := "web"

def copyRoutes : List Route := [prodRoute "www.a.test", copyRoute, prodRoute "a.test"]

def copyServed : List ServedRoute := served [prodRoute "a.test", copyRoute, prodRoute "www.a.test"]

def copyRoot : String := "/etc/haproxy/bmac-generations"

/-- SHA-256 of the routes' canonical JSON. -/
def copyGeneration : List UInt8 := digestBytes 0x43758f261ea53d26f8845f74732e750d1a18ae81ec404e7e0056f0346819ea35

/-- The texts that are hashed for the routes, with their SHA-256. -/
def copyDigests : List (String × List UInt8) :=
  let generation := String.ofList (canonical copyServed 0)
  let named : Python := { lowerPython with sha256 := fun _ => copyGeneration }
  [(generation, copyGeneration),
    (Text.join "\n" (configLines named copyServed copyRoot ++ [""]),
      digestBytes 0xa435757570d53a4a862e3c5e9a7bcc69101c223c20fa871928a4d48daa16bda7),
    (renderMap "bmac_http_" copyServed,
      digestBytes 0x66eb8d8e0597da42f49744cac96a5d98dd92002c488d4b745bc317625c39d1c9),
    (renderMap "bmac_tls_" copyServed,
      digestBytes 0xc7ae0ea0b75a6286187d9cbd98e51e5f5330b21c708e4791d0948187f97564b1)]

def digestPython : Python :=
  { lowerPython with
    sha256 := fun text => ((copyDigests.find? (·.1 = text)).map (·.2)).getD (digestBytes 0) }

theorem length_digestPython (text : String) : (digestPython.sha256 text).length = 32 := by
  have hall : ∀ e ∈ copyDigests, e.2.length = 32 := by
    unfold copyDigests copyGeneration
    simp [length_digestBytes]
  unfold digestPython
  dsimp only
  cases hfound : copyDigests.find? (·.1 = text) with
  | none => exact length_digestBytes 0
  | some e => exact hall e (List.mem_of_find?_eq_some hfound)

/-- The routes are rendered alike in any order, and both directions hold of what is rendered. -/
theorem generations_round_trip_copy : ∃ files,
    renderRoutes digestPython copyRoutes smallRanges copyRoot = .ok files ∧
    renderRoutes digestPython copyRoutes.reverse smallRanges copyRoot = .ok files ∧
    loadRenderedGeneration digestPython files copyRoot = .ok (routingGeneration digestPython copyServed, copyServed) ∧
    ∃ expected, renderGeneration digestPython copyServed copyRoot = .ok expected ∧
      (files.map (·.1)).Perm (expected.map (·.1)) ∧ ∀ name, files.get? name = expected.get? name := by
  obtain ⟨hrendered, hloaded⟩ := @generations_round_trip digestPython length_digestPython
  obtain ⟨files, hrender, hload, hperm⟩ := hrendered copyRoutes smallRanges copyRoot
    [prodRoute "a.test", copyRoute, prodRoute "www.a.test"] (by decide +kernel) (by decide +kernel)
  obtain ⟨expected, hexpected, -, hnames, hfiles⟩ := hloaded files copyRoot _ copyServed hload
  exact ⟨files, hrender, hperm _ copyRoutes.reverse_perm, hload, expected, hexpected, hnames, hfiles⟩

end Bmac.Haproxy
