import Bmac.Haproxy.Compatible
import Bmac.Haproxy.Render
import Bmac.Registry.Files

/-!
# What is read from rendered files

The parsers of `haproxy_routes.py` on the files of `render_files`: the map parser reads each route's
domain and resource, and the configuration parser each resource's targets, whatever names and ports
the routes have that `validate_routes` accepts.
-/

namespace Bmac.Haproxy

open Bmac.Base Bmac.Core Bmac.Registry

variable {py : Python}

/-! ## Words and lines -/

/-- A name, domain or address: no blanks, colons or line ends. -/
def Word (s : String) : Prop := ∀ c ∈ s.toList, isBackendChar c = true

/-- A text of one line. -/
def OneLine (s : String) : Prop := ∀ c ∈ s.toList, Lines.isBreak c = false

instance (s : String) : Decidable (OneLine s) := by
  unfold OneLine
  infer_instance

variable {c : Char} {s resource ip : String} {port : Int}

theorem isBackendChar_ne {d : Char} (h : isBackendChar c = true) (hd : isBackendChar d = false) :
    c ≠ d := by
  rintro rfl
  rw [h] at hd
  cases hd

theorem isBackendChar_isBreak (h : isBackendChar c = true) : Lines.isBreak c = false := by
  rw [Lines.isBreak, List.contains_eq_mem, decide_eq_false_iff_not]
  intro hc
  have hbreaks : ∀ d ∈ ['\n', '\r', '\x0b', '\x0c', '\x1c', '\x1d', '\x1e', '\u0085', '\u2028',
      '\u2029'], isBackendChar d = false := by decide
  exact isBackendChar_ne h (hbreaks c hc) rfl

theorem Word.oneLine (h : Word s) : OneLine s := fun c hc => isBackendChar_isBreak (h c hc)

theorem OneLine.append {t : String} (hs : OneLine s) (ht : OneLine t) : OneLine (s ++ t) := by
  intro c hc
  rw [String.toList_append, List.mem_append] at hc
  exact hc.elim (hs c) (ht c)

theorem isBackendChar_of_isDigit (h : Text.isDigit c = true) : isBackendChar c = true := by
  simp [isBackendChar, Text.isAlphanumeric, h]

theorem word_label (h : isDomainLabel s = true) : Word s := by
  have hchar {c : Char} (hc : isLowerAlnum c = true) : isBackendChar c = true := by
    simp only [isLowerAlnum, Bool.or_eq_true] at hc
    rcases hc with hc | hc <;> simp [isBackendChar, Text.isAlphanumeric, hc]
  intro c hc
  simp only [isDomainLabel, Bool.and_eq_true] at h
  obtain ⟨hstarts, -⟩ := h
  cases hs : s.toList with
  | nil => simp [hs] at hc
  | cons d ds =>
    simp only [hs, starts, Bool.and_eq_true, List.all_eq_true, Bool.or_eq_true,
      decide_eq_true_eq] at hstarts
    rw [hs] at hc
    rcases List.mem_cons.mp hc with rfl | hc
    · exact hchar hstarts.1.1
    · rcases hstarts.2 c hc with hc | rfl
      · exact hchar hc
      · decide

theorem validateDomain_word {domain : String} (h : validateDomain py domain = .ok ()) :
    Word domain := by
  have hlabels : (Text.split '.' domain).all isDomainLabel = true := by
    simp only [validateDomain, check_eq_ok] at h
    obtain ⟨-, -, -, h⟩ := h
    split at h
    · exact absurd h throw_ne_ok
    · simp only [check_eq_ok, last_check_eq_ok] at h
      simpa using h.2.1
  intro c hc
  have hjoin : ['.'].intercalate (domain.toList.splitOn '.') = domain.toList :=
    List.intercalate_splitOn '.'
  rw [← hjoin] at hc
  rcases mem_intercalate hc with hdot | ⟨label, hlabel, hc⟩
  · obtain rfl := List.mem_singleton.mp hdot
    decide
  · have hword := word_label
      (List.all_eq_true.mp hlabels _ (List.mem_map_of_mem hlabel) : isDomainLabel _ = true)
    exact hword c (by rwa [String.toList_ofList])

theorem isBackend_word (h : isBackend s = true) : Word s := by
  intro c hc
  unfold isBackend at h
  cases hs : s.toList with
  | nil => simp [hs] at hc
  | cons d ds =>
    simp only [hs, starts, Bool.and_eq_true, List.all_eq_true] at h
    rw [hs] at hc
    rcases List.mem_cons.mp hc with rfl | hc
    · have hletter := h.1.1
      simp only [isLetter, Bool.or_eq_true] at hletter
      rcases hletter with hl | hl <;> simp [isBackendChar, Text.isAlphanumeric, hl]
    · exact h.2 c hc

theorem checkBackends_eq_ok :
    checkBackends resource = .ok () ↔ ∀ name ∈ backendNames resource, isBackend name = true := by
  unfold checkBackends
  cases hfind : (backendNames resource).find? (!isBackend ·) with
  | some name =>
    refine iff_of_false (fun h => by cases h) fun h => ?_
    have hname := List.find?_some hfind
    rw [h name (List.mem_of_find?_eq_some hfind)] at hname
    cases hname
  | none =>
    refine iff_of_true rfl fun name hname => ?_
    simpa using List.find?_eq_none.mp hfind name hname

theorem checkBackends_word (h : checkBackends resource = .ok ()) : Word resource := by
  have hname := isBackend_word (checkBackends_eq_ok.mp h _ List.mem_cons_self)
  intro c hc
  refine hname c ?_
  rw [String.toList_append]
  exact List.mem_append_right _ hc

/-! ## Rendered routes -/

/-- An address and a port that a server line has. -/
structure Served (ip : String) (port : Int) : Prop where
  ip : ∃ n, Ipv4.parse ip = some n ∧ isRoutable n = true
  port : 1 ≤ port ∧ port ≤ 65535

/-- What `validate_routes` has checked of a route, as far as a generation tells. -/
structure Renderable (py : Python) (r : ServedRoute) : Prop where
  domain : validateDomain py r.domain = .ok ()
  resource : validateResourceName r.resource = .ok ()
  backends : checkBackends r.resource = .ok ()
  http : Served r.ip r.httpPort
  https : Served r.ip r.httpsPort

variable {n : Nat} {description start : String}

theorem parseIpv4_eq_ok {value : String} :
    parseIpv4 value description = .ok n ↔ Ipv4.parse value = some n ∧ isRoutable n = true := by
  unfold parseIpv4
  cases hparse : Ipv4.parse value with
  | none => simp
  | some m =>
    by_cases hm : isRoutable m = true
    · simp only [hm, if_true, Except.ok.injEq, Option.some.injEq]
      constructor
      · rintro rfl
        exact ⟨rfl, hm⟩
      · exact And.left
    · simp only [hm, Option.some.injEq]
      refine iff_of_false (fun h => by cases h) ?_
      rintro ⟨rfl, h⟩
      exact hm h

theorem expectPort_eq_ok : expectPort port description = .ok () ↔ 1 ≤ port ∧ port ≤ 65535 := by
  simp only [expectPort, last_check_eq_ok, pure_eq_ok, not_or, not_lt, and_true]

/-- A list of routes that is rendered: those of a key agree, and they are in order. -/
structure Renderables (py : Python) (routes : List ServedRoute) : Prop where
  each : ∀ r ∈ routes, Renderable py r
  domains : (routes.map (·.domain)).Nodup
  targets : ∀ a ∈ routes, ∀ b ∈ routes, a.resource = b.resource →
    a.ip = b.ip ∧ a.httpPort = b.httpPort ∧ a.httpsPort = b.httpsPort
  owners : ∀ a ∈ routes, ∀ b ∈ routes, a.ip = b.ip → a.resource = b.resource
  sorted : routes.Pairwise routeLe

theorem validateRoute_eq_ok {network : Network} {production staging : Nat × Nat} {r : Route}
    (h : validateRoute py network production staging r = .ok ()) :
    Renderable py r.toServedRoute := by
  simp only [validateRoute, bind_eq_ok] at h
  obtain ⟨_, hdomain, h⟩ := h
  cases hkind : resourceKind r.resource with
  | none =>
    rw [hkind] at h
    exact absurd h throw_ne_ok
  | some kind =>
    rw [hkind] at h
    dsimp only at h
    cases hfind : (backendNames r.resource).find? (!isBackend ·) with
    | some name =>
      rw [hfind] at h
      exact absurd h throw_ne_ok
    | none =>
      rw [hfind] at h
      simp only [check_eq_ok, bind_eq_ok, parseIpv4_eq_ok] at h
      obtain ⟨-, -, -, n, hip, -, -, _, hhttp, hhttps⟩ := h
      refine ⟨hdomain, ?_, ?_, ⟨⟨n, hip⟩, expectPort_eq_ok.mp hhttp⟩,
        ⟨⟨n, hip⟩, expectPort_eq_ok.mp hhttps⟩⟩
      · rw [validateResourceName, hkind]
      · rw [checkBackends, hfind]

instance : Std.Total routeLe where
  total a b := by
    rcases lt_trichotomy a.domain b.domain with h | h | h
    · exact .inl (.inl h)
    · exact (le_total a.resource b.resource).imp (fun hr => .inr ⟨h, hr⟩) fun hr => .inr ⟨h.symm, hr⟩
    · exact .inr (.inl h)

instance : IsTrans ServedRoute routeLe where
  trans a b c := by
    rintro (hab | ⟨hab, hab'⟩) (hbc | ⟨hbc, hbc'⟩)
    · exact .inl (hab.trans hbc)
    · exact .inl (hbc ▸ hab)
    · exact .inl (hab ▸ hbc)
    · exact .inr ⟨hab.trans hbc, hab'.trans hbc'⟩

/-- `routes.sort(...)` before the other fields of a route are left out. -/
theorem served_insertionSort (value : List Route) :
    served (value.insertionSort fun a b => routeLe a.toServedRoute b.toServedRoute) =
      (served value).insertionSort routeLe :=
  List.map_insertionSort _ _ _ _ fun _ _ _ _ => Iff.rfl

theorem validateRoutes_renderables {value routes : List Route} {ranges : Ranges}
    (h : validateRoutes py value ranges = .ok routes) : Renderables py (served routes) := by
  have haccepted : Accepted py routes := ⟨value, ranges, routes, h, .inr rfl⟩
  unfold validateRoutes at h
  obtain ⟨-, h⟩ := check_eq_ok.mp h
  obtain ⟨network, -, h⟩ := bind_eq_ok.mp h
  obtain ⟨production, -, h⟩ := bind_eq_ok.mp h
  obtain ⟨staging, -, h⟩ := bind_eq_ok.mp h
  obtain ⟨-, h⟩ := check_eq_ok.mp h
  obtain ⟨_, heach, h⟩ := bind_eq_ok.mp h
  obtain ⟨_, -, h⟩ := bind_eq_ok.mp h
  have hroutes := pure_eq_ok.mp h
  constructor
  case each =>
    intro r hr
    obtain ⟨route, hroute, rfl⟩ := List.mem_map.mp hr
    rw [← hroutes, List.mem_insertionSort] at hroute
    exact validateRoute_eq_ok (forM_eq_ok_iff.mp heach route hroute)
  case domains =>
    rw [served, List.map_map, List.Nodup, List.pairwise_map]
    exact haccepted.agree.imp Agree.domain
  case targets =>
    intro a ha b hb heq
    exact (target_eq_iff.mp ((haccepted.same ha hb).2.1 heq)).2
  case owners =>
    intro a ha b hb heq
    exact (haccepted.same ha hb).2.2 heq
  case sorted =>
    rw [← hroutes, served_insertionSort]
    exact List.pairwise_insertionSort _ _

/-! ## Maps -/

theorem toList_join_empty (parts : List String) :
    (Text.join "" parts).toList = parts.flatMap String.toList := by
  rw [Text.join, String.toList_intercalate, String.toList_empty]
  induction parts with
  | nil => rfl
  | cons part parts ih =>
    rw [List.map_cons, List.flatMap_cons, ← ih]
    cases parts with
    | nil => simp
    | cons next parts => simp [List.intercalate]

def mapLine (start : String) (r : ServedRoute) : String := s!"{r.domain} {start}{r.resource}"

theorem toList_mapLine (start : String) (r : ServedRoute) :
    (mapLine start r).toList = r.domain.toList ++ ' ' :: (start ++ r.resource).toList := by
  simp [mapLine, toString]

theorem lines_unlines {ls : List String} (h : ∀ l ∈ ls, OneLine l) {text : String}
    (htext : text.toList = Lines.unlines (ls.map String.toList)) : lines text = ls := by
  rw [lines, htext, Lines.splitlines_unlines, List.map_map]
  · simp [Function.comp_def]
  · intro l hl
    obtain ⟨s, hs, rfl⟩ := List.mem_map.mp hl
    exact h s hs

theorem lines_renderMap {routes : List ServedRoute} (h : ∀ r ∈ routes, OneLine (mapLine start r)) :
    lines (renderMap start routes) = routes.map (mapLine start) := by
  refine lines_unlines (fun l hl => ?_) ?_
  · obtain ⟨r, hr, rfl⟩ := List.mem_map.mp hl
    exact h r hr
  · rw [renderMap, toList_join_empty, Lines.unlines, List.flatMap_map, List.map_map,
      List.flatMap_map]
    refine List.flatMap_congr fun r _ => ?_
    simp [mapLine, toString]

theorem split_pair {sep : Char} {a b : String} (hs : s.toList = a.toList ++ sep :: b.toList)
    (ha : sep ∉ a.toList) (hb : sep ∉ b.toList) : Text.split sep s = [a, b] := by
  have hjoin : s.toList = [sep].intercalate [a.toList, b.toList] := by simp [hs, List.intercalate]
  rw [Text.split, hjoin, List.splitOn_intercalate sep]
  · simp
  · intro l hl
    simp only [List.mem_cons, List.not_mem_nil, or_false] at hl
    rcases hl with rfl | rfl
    · exact ha
    · exact hb
  · simp

theorem stripStart_append (start s : String) : Text.stripStart start (start ++ s) = some s := by
  rw [Text.stripStart, String.toList_append, isPrefixOf?_eq_some.mpr rfl, Option.map_some,
    String.ofList_toList]

/-- A map's prefix, of which every resource's backend begins. -/
def MapPrefix (start : String) : Prop := start = "bmac_http_" ∨ start = "bmac_tls_"

theorem MapPrefix.word (h : MapPrefix start)
    (hbackends : checkBackends resource = .ok ()) : Word (start ++ resource) := by
  refine isBackend_word (checkBackends_eq_ok.mp hbackends _ ?_)
  rcases h with rfl | rfl <;> simp [backendNames, toString]

theorem parseMap_renderMap {routes : List ServedRoute} (hstart : MapPrefix start)
    (heach : ∀ r ∈ routes, Renderable py r) (hdomains : (routes.map (·.domain)).Nodup) :
    parseMap py (renderMap start routes) start description =
      .ok (routes.map fun r => (r.domain, r.resource)) := by
  have hline : ∀ r ∈ routes, ∀ entries : List (String × String), r.domain ∉ entries.map (·.1) →
      parseMapLine py start description entries (mapLine start r) =
        .ok (entries ++ [(r.domain, r.resource)]) := by
    intro r hr entries hnew
    have hr := heach r hr
    have hdomain := validateDomain_word hr.domain
    have hbackend := hstart.word hr.backends
    have hsplit : Text.split ' ' (mapLine start r) = [r.domain, start ++ r.resource] :=
      split_pair (toList_mapLine start r)
        (fun hc => isBackendChar_ne (hdomain ' ' hc) (by decide) rfl)
        (fun hc => isBackendChar_ne (hbackend ' ' hc) (by decide) rfl)
    simp only [parseMapLine, hsplit, hr.domain, ok_bind, if_neg hnew, stripStart_append, hr.resource]
    rfl
  have hfold : ∀ (rest : List ServedRoute) (entries : List (String × String)),
      (∀ r ∈ rest, r ∈ routes) → (entries.map (·.1) ++ rest.map (·.domain)).Nodup →
      (rest.map (mapLine start)).foldlM (parseMapLine py start description) entries =
        .ok (entries ++ rest.map fun r => (r.domain, r.resource)) := by
    intro rest
    induction rest with
    | nil => exact fun entries _ _ => by simp [pure_eq_ok]
    | cons r rest ih =>
      intro entries hmem hnodup
      have hnew : r.domain ∉ entries.map (·.1) := fun h =>
        (List.nodup_append.mp hnodup).2.2 _ h _ (by simp) rfl
      rw [List.map_cons, List.foldlM_cons, hline r (hmem r List.mem_cons_self) entries hnew, ok_bind,
        ih _ (fun a ha => hmem a (List.mem_cons_of_mem r ha))]
      · simp
      · simpa using hnodup
  rw [parseMap, lines_renderMap, hfold routes [] (fun _ h => h) (by simpa using hdomains)]
  · rfl
  · intro r hr c hc
    rw [toList_mapLine, List.mem_append, List.mem_cons] at hc
    rcases hc with hc | rfl | hc
    · exact isBackendChar_isBreak (validateDomain_word (heach r hr).domain c hc)
    · rfl
    · exact isBackendChar_isBreak (hstart.word (heach r hr).backends c hc)

/-! ## Server lines -/

theorem takeWhile_append_cons {p : Char → Bool} {l rest : List Char}
    (hl : ∀ d ∈ l, p d = true) (hc : p c = false) : (l ++ c :: rest).takeWhile p = l := by
  rw [List.takeWhile_append_of_pos hl, List.takeWhile_cons_of_neg (by simp [hc]), List.append_nil]

theorem dropWhile_append_cons {p : Char → Bool} {l rest : List Char}
    (hl : ∀ d ∈ l, p d = true) (hc : p c = false) : (l ++ c :: rest).dropWhile p = c :: rest := by
  rw [List.dropWhile_append_of_pos hl, List.dropWhile_cons_of_neg (by simp [hc])]

theorem validateResourceName_ne_nil (h : validateResourceName resource = .ok ()) :
    resource.toList ≠ [] := by
  intro hnil
  obtain rfl : resource = "" := String.toList_injective hnil
  cases h

/-- The characters of an address. -/
theorem mem_ip (h : Ipv4.parse ip = some n) (hc : c ∈ ip.toList) :
    Text.isDigit c = true ∨ c = '.' := by
  rw [← (Ipv4.text_of_parse h).1, Ipv4.text, String.toList_ofList] at hc
  rcases mem_intercalate hc with hdot | ⟨octet, hoctet, hc⟩
  · exact .inr (List.mem_singleton.mp hdot)
  · obtain ⟨o, -, rfl⟩ := List.mem_map.mp hoctet
    exact .inl (Text.isDigit_of_mem_repr hc)

theorem ip_ne_nil (h : Ipv4.parse ip = some n) : ip.toList ≠ [] := by
  intro hnil
  obtain rfl : ip = "" := String.toList_injective hnil
  cases h

theorem length_port (h : n ≤ 65535) : n.repr.toList.length ≤ 5 := by
  rw [Nat.toList_repr, Nat.length_toDigits_le_iff (by omega) (by omega)]
  omega

theorem toList_serverLine (resource ip : String) (port : Int) :
    (s!"    server bmac_server_{resource} {ip}:{port} check").toList =
      "    server bmac_server_".toList ++ (resource.toList ++ ' ' :: (ip.toList ++ ':' ::
        ((toString port).toList ++ ' ' :: "check".toList))) := by
  simp only [String.toList_append, toString, List.append_assoc]
  rfl

theorem serverLine_rendered (hresource : Word resource)
    (hne : resource.toList ≠ []) (h : Served ip port) :
    serverLine s!"    server bmac_server_{resource} {ip}:{port} check" = some (ip, port.toNat) := by
  obtain ⟨⟨n, hip, -⟩, hlow, hhigh⟩ := h
  obtain ⟨p, rfl⟩ := Int.eq_ofNat_of_zero_le (show 0 ≤ port by omega)
  have hipchar : ∀ c ∈ ip.toList, (Text.isDigit c || decide (c = '.')) = true := by
    intro c hc
    rcases mem_ip hip hc with hd | rfl
    · simp [hd]
    · simp
  have hport : (toString (p : Int)).toList = p.repr.toList := rfl
  have hdigits : ∀ c ∈ p.repr.toList, Text.isDigit c = true := fun _ => Text.isDigit_of_mem_repr
  have hone (c : Char) (t : List Char) : [c].isPrefixOf? (c :: t) = some t :=
    isPrefixOf?_eq_some.mpr rfl
  have hspace : isBackendChar ' ' = false := by decide
  have hcolon : (Text.isDigit ':' || decide (':' = '.')) = false := by decide
  have hcheck : Text.isDigit ' ' = false := by decide
  have hlen := length_port (show p ≤ 65535 by omega)
  simp only [serverLine, toList_serverLine, hport, isPrefixOf?_eq_some.mpr rfl, Option.bind_eq_bind, Option.bind_some,
    takeWhile_append_cons hresource hspace, dropWhile_append_cons hresource hspace, hone,
    takeWhile_append_cons hipchar hcolon, dropWhile_append_cons hipchar hcolon,
    takeWhile_append_cons hdigits hcheck, dropWhile_append_cons hdigits hcheck]
  rw [if_neg hne, if_neg (ip_ne_nil hip), if_neg]
  · rw [String.ofList_toList, Text.decimal_repr]
    rfl
  · rintro (hnil | hlong | hend)
    · exact Text.repr_ne_nil p hnil
    · omega
    · exact hend rfl

/-! ## Configurations -/

/-- A text doesn't begin with one that differs from it at a place. -/
theorem isPrefixOf?_eq_none {part l m line : List Char} (pre : List Char) {a b : Char} (hne : a ≠ b)
    (hline : line = pre ++ a :: l) (hpart : part = pre ++ b :: m) : part.isPrefixOf? line = none := by
  rw [Option.eq_none_iff_forall_ne_some]
  intro rest hrest
  rw [isPrefixOf?_eq_some, hline, hpart, List.append_assoc, List.append_cancel_left_eq] at hrest
  exact hne (List.cons.inj hrest).1

/-- A line that isn't of a server. -/
def Quiet (line : String) : Prop :=
  "    server bmac_server_".toList.isPrefixOf? line.toList = none

instance (line : String) : Decidable (Quiet line) := by
  unfold Quiet
  infer_instance

theorem Quiet.serverLine {line : String} (h : Quiet line) : serverLine line = none := by
  rw [Haproxy.serverLine, h]
  rfl

theorem backends_add_quiet {s : Backends} {line : String} (h : Quiet line)
    (hbackend : Text.stripStart "backend " line = none) : s.add line = .ok s := by
  rw [Backends.add, hbackend, h.serverLine]

theorem backends_add_backend (s : Backends) {line name : String}
    (h : line.toList = "backend ".toList ++ name.toList) :
    s.add line = .ok { s with backend := some name } := by
  have hstrip : Text.stripStart "backend " line = some name := by
    rw [Text.stripStart, isPrefixOf?_eq_some.mpr h, Option.map_some, String.ofList_toList]
  rw [Backends.add, hstrip]

theorem backends_add_server {targets : List (String × String × Int)} {backend : String}
    (hnew : backend ∉ targets.map (·.1)) (hresource : Word resource)
    (hne : resource.toList ≠ []) (h : Served ip port) :
    Backends.add ⟨targets, some backend⟩ s!"    server bmac_server_{resource} {ip}:{port} check" =
      .ok ⟨targets ++ [(backend, ip, port)], some backend⟩ := by
  have hstrip : Text.stripStart "backend " s!"    server bmac_server_{resource} {ip}:{port} check" =
      none := by
    rw [Text.stripStart, toList_serverLine]
    rfl
  obtain ⟨n, hip⟩ := h.ip
  have hport : (port.toNat : Int) = port := Int.toNat_of_nonneg (by linarith [h.port.1])
  rw [Backends.add, hstrip, serverLine_rendered hresource hne h]
  simp only [if_neg hnew, parseIpv4_eq_ok.mpr hip, hport, expectPort_eq_ok.mpr h.port, ok_bind]
  rfl

/-- A line that adds no target. -/
def Idle (line : String) : Prop := Text.stripStart "backend " line = none → Quiet line

instance (line : String) : Decidable (Idle line) := by
  unfold Idle
  infer_instance

theorem foldlM_idle {ls : List String} (h : ∀ line ∈ ls, Idle line) (s : Backends) :
    ∃ backend, ls.foldlM Backends.add s = .ok ⟨s.targets, backend⟩ := by
  induction ls generalizing s with
  | nil => exact ⟨s.backend, rfl⟩
  | cons line ls ih =>
    have hrest := fun l hl => h l (List.mem_cons_of_mem line hl)
    rw [List.foldlM_cons]
    cases hstrip : Text.stripStart "backend " line with
    | some name =>
      have hadd : s.add line = .ok { s with backend := some name } := by rw [Backends.add, hstrip]
      rw [hadd, ok_bind]
      exact ih hrest { s with backend := some name }
    | none =>
      rw [backends_add_quiet (h line List.mem_cons_self hstrip) hstrip, ok_bind]
      exact ih hrest s

theorem headerLines_idle (generation httpMapPath tlsMapPath : String) :
    ∀ line ∈ headerLines generation httpMapPath tlsMapPath, Idle line := by
  have hcomment : Idle s!"# generation: {generation}" := fun _ =>
    isPrefixOf?_eq_none [] (show '#' ≠ ' ' by decide)
      (by
        rw [String.toList_append]
        rfl) rfl
  have huse (t : String) : Idle ("    use_backend " ++ t) := fun _ =>
    isPrefixOf?_eq_none "    ".toList (show 'u' ≠ 's' by decide)
      (by
        rw [String.toList_append]
        rfl) rfl
  simp only [headerLines, List.forall_mem_cons]
  refine ⟨?_, hcomment, ?_, ?_, ?_, ?_, ?_, ?_, ?_, ?_, ?_, ?_, ?_, ?_, ?_, ?_, ?_, ?_, ?_, ?_,
    huse _, ?_, ?_, ?_, ?_, ?_, ?_, ?_, ?_, huse _, ?_, ?_, ?_, ?_, ?_, ?_, ?_, ?_, ?_,
    List.forall_mem_nil _⟩ <;> decide +kernel

def backendTargets (target : String × String × Int × Int) : List (String × String × Int) :=
  let (resource, address, httpPort, httpsPort) := target
  [(s!"bmac_http_{resource}", address, httpPort), (s!"bmac_tls_{resource}", address, httpsPort)]

theorem foldlM_backendLines {address : String} {httpPort httpsPort : Int}
    {s : Backends} (hresource : Word resource) (hne : resource.toList ≠ [])
    (hhttp : Served address httpPort) (hhttps : Served address httpsPort)
    (hnew : (s.targets.map (·.1) ++
      (backendTargets (resource, address, httpPort, httpsPort)).map (·.1)).Nodup) :
    ∃ backend, (backendLines (resource, address, httpPort, httpsPort)).foldlM Backends.add s =
      .ok ⟨s.targets ++ backendTargets (resource, address, httpPort, httpsPort), backend⟩ := by
  have hquiet (t : Backends) {line : String} (h : Quiet line)
      (hbackend : Text.stripStart "backend " line = none) : t.add line = .ok t :=
    backends_add_quiet h hbackend
  obtain ⟨-, hpair, hdisjoint⟩ := List.nodup_append.mp hnew
  have hhttpNew : s!"bmac_http_{resource}" ∉ s.targets.map (·.1) := fun h =>
    hdisjoint _ h _ List.mem_cons_self rfl
  have htlsNew : s!"bmac_tls_{resource}" ∉
      (s.targets ++ [(s!"bmac_http_{resource}", address, httpPort)]).map (·.1) := by
    rw [List.map_append, List.mem_append]
    rintro (h | h)
    · exact hdisjoint _ h _ (List.mem_cons_of_mem _ List.mem_cons_self) rfl
    · exact (List.nodup_cons.mp hpair).1 (List.mem_singleton.mp h ▸ List.mem_cons_self)
  have hhttpLine (t : Backends) := @backends_add_backend t s!"backend bmac_http_{resource}"
    s!"bmac_http_{resource}" (by
      rw [String.toList_append, String.toList_append]
      rfl)
  have htlsLine (t : Backends) := @backends_add_backend t s!"backend bmac_tls_{resource}"
    s!"bmac_tls_{resource}" (by
      rw [String.toList_append, String.toList_append]
      rfl)
  refine ⟨some s!"bmac_tls_{resource}", ?_⟩
  simp only [backendLines, List.foldlM_cons, List.foldlM_nil]
  rw [hquiet _ (by decide) (by decide), ok_bind, hhttpLine, ok_bind,
    hquiet _ (by decide) (by decide), ok_bind, hquiet _ (by decide) (by decide), ok_bind,
    backends_add_server hhttpNew hresource hne hhttp, ok_bind, hquiet _ (by decide) (by decide),
    ok_bind, htlsLine, ok_bind, hquiet _ (by decide) (by decide), ok_bind,
    backends_add_server htlsNew hresource hne hhttps, ok_bind, List.append_assoc]
  rfl

/-- A target of `_resource_targets` that is rendered. -/
structure TargetRenders (target : String × String × Int × Int) : Prop where
  resource : validateResourceName target.1 = .ok ()
  backends : checkBackends target.1 = .ok ()
  http : Served target.2.1 target.2.2.1
  https : Served target.2.1 target.2.2.2

theorem foldlM_targets {table : List (String × String × Int × Int)}
    (heach : ∀ target ∈ table, TargetRenders target) {s : Backends}
    (hnew : (s.targets.map (·.1) ++ (table.flatMap backendTargets).map (·.1)).Nodup) :
    ∃ backend, (table.flatMap backendLines).foldlM Backends.add s =
      .ok ⟨s.targets ++ table.flatMap backendTargets, backend⟩ := by
  induction table generalizing s with
  | nil => exact ⟨s.backend, by simp [pure_eq_ok]⟩
  | cons target table ih =>
    have htarget := heach target List.mem_cons_self
    rw [List.flatMap_cons, List.map_append, ← List.append_assoc] at hnew
    obtain ⟨backend, hadd⟩ := foldlM_backendLines (checkBackends_word htarget.backends)
      (validateResourceName_ne_nil htarget.resource) htarget.http htarget.https
      (List.nodup_append.mp hnew).1
    rw [← List.map_append] at hnew
    obtain ⟨last, hrest⟩ := @ih (fun t ht => heach t (List.mem_cons_of_mem target ht))
      ⟨s.targets ++ backendTargets target, backend⟩ hnew
    refine ⟨last, ?_⟩
    rw [List.flatMap_cons, List.foldlM_append, hadd, ok_bind, hrest, List.flatMap_cons,
      List.append_assoc]

theorem nodup_backendTargets {table : List (String × String × Int × Int)}
    (h : (table.map (·.1)).Nodup) : ((table.flatMap backendTargets).map (·.1)).Nodup := by
  have hsame (start : String) {a b : String} (heq : start ++ a = start ++ b) : a = b := by
    refine String.toList_injective ?_
    have hl := congrArg String.toList heq
    rw [String.toList_append, String.toList_append] at hl
    exact List.append_cancel_left hl
  have hother (a b : String) : "bmac_http_" ++ a ≠ "bmac_tls_" ++ b := by
    intro heq
    have hl := congrArg String.toList heq
    rw [String.toList_append, String.toList_append] at hl
    cases hl
  have hkeys (target : String × String × Int × Int) : (backendTargets target).map (·.1) =
      ["bmac_http_" ++ target.1, "bmac_tls_" ++ target.1] := rfl
  rw [List.map_flatMap]
  simp only [hkeys]
  refine List.nodup_flatMap.mpr ⟨fun target _ => by simp [hother], ?_⟩
  refine (List.pairwise_map.mp h).imp fun {a b} hne => ?_
  intro key ha hb
  simp only [List.mem_cons, List.not_mem_nil, or_false] at ha hb
  rcases ha with rfl | rfl <;> rcases hb with hb | hb
  · exact hne (hsame _ hb)
  · exact hother _ _ hb
  · exact hother _ _ hb.symm
  · exact hne (hsame _ hb)

theorem sorted_ofList {α : Type} (entries : List (String × α)) :
    Table.Sorted (Table.ofList entries) := by
  induction entries using List.reverseRecOn with
  | nil => exact Table.sorted_nil
  | append_singleton entries e ih =>
    rw [Table.ofList, List.foldl_append]
    exact ih.insert e.1 e.2

section

variable {routes : List ServedRoute}

theorem mem_resourceTargets (h : Renderables py routes)
    {httpPort httpsPort : Int} : (resource, ip, httpPort, httpsPort) ∈ resourceTargets routes ↔
      ∃ r ∈ routes, r.resource = resource ∧ r.ip = ip ∧ r.httpPort = httpPort ∧
        r.httpsPort = httpsPort := by
  have hsorted : Table.Sorted (resourceTargets routes) := sorted_ofList _
  rw [← Table.get?_eq_some_iff hsorted, resourceTargets, dict_eq_some]
  · simp only [Prod.mk.injEq]
  · intro a ha b hb heq
    obtain ⟨hip, hhttp, hhttps⟩ := h.targets a ha b hb heq
    rw [hip, hhttp, hhttps]

theorem resourceTargets_renders (h : Renderables py routes) :
    ∀ target ∈ resourceTargets routes, TargetRenders target := by
  rintro ⟨resource, ip, httpPort, httpsPort⟩ htarget
  obtain ⟨r, hr, rfl, rfl, rfl, rfl⟩ := (mem_resourceTargets h).mp htarget
  have hr := h.each r hr
  exact ⟨hr.resource, hr.backends, hr.http, hr.https⟩

theorem nodup_resourceTargets (routes : List ServedRoute) :
    ((resourceTargets routes).map (·.1)).Nodup := by
  have hsorted : Table.Sorted (resourceTargets routes) := sorted_ofList _
  exact List.Pairwise.imp (fun h => h.ne) hsorted

/-! ### The lines of a configuration -/

theorem isBackendChar_hexDigit (n : Nat) : isBackendChar (Text.hexDigit (n % 16)) = true := by
  have hdigits : ∀ k < 16, isBackendChar (Text.hexDigit k) = true := by decide
  exact hdigits _ (Nat.mod_lt _ (by omega))

theorem word_hexdigest (digest : List UInt8) : Word (hexdigest digest) := by
  intro c hc
  rw [hexdigest, toList_join_empty, List.mem_flatMap] at hc
  obtain ⟨part, hpart, hc⟩ := hc
  obtain ⟨byte, -, rfl⟩ := List.mem_map.mp hpart
  rw [Text.hex, String.toList_ofList] at hc
  obtain ⟨i, -, rfl⟩ := List.mem_map.mp hc
  exact isBackendChar_hexDigit _

variable {root : String}

theorem validateGenerationRoot_oneLine (h : validateGenerationRoot root = .ok ()) :
    OneLine root := by
  have hsafe : isSafeAbsolutePath root = true := by
    simp only [validateGenerationRoot, last_check_eq_ok, not_or] at h
    simpa using h.1.2
  intro c hc
  unfold isSafeAbsolutePath at hsafe
  split at hsafe
  · rename_i cs hcs
    simp only [Bool.and_eq_true, List.all_eq_true, Bool.or_eq_true] at hsafe
    rw [hcs] at hc
    rcases List.mem_cons.mp hc with rfl | hc
    · rfl
    · rcases hsafe.2 c hc with hal | hother
      · exact isBackendChar_isBreak (by simp [isBackendChar, hal])
      · have hothers : ∀ d ∈ "._/-".toList, Lines.isBreak d = false := by decide
        exact hothers c (by simpa using hother)
  · cases hsafe

theorem oneLine_joinPath {dir name : String} (hdir : OneLine dir) (hname : OneLine name) :
    OneLine (joinPath dir name) := by
  have hslash : OneLine "/" := by decide
  unfold joinPath
  split
  · exact hdir.append hname
  · exact (hdir.append hslash).append hname

theorem headerLines_oneLine {generation httpMapPath tlsMapPath : String}
    (hgeneration : OneLine generation) (hhttp : OneLine httpMapPath) (htls : OneLine tlsMapPath) :
    ∀ line ∈ headerLines generation httpMapPath tlsMapPath, OneLine line := by
  have hline {start ending t : String} (hs : OneLine start) (ht : OneLine t) (he : OneLine ending) :
      OneLine (start ++ t ++ ending) := (hs.append ht).append he
  have hcomment : OneLine s!"# generation: {generation}" :=
    OneLine.append (s := "# generation: ") (by decide) hgeneration
  have hhttpLine : OneLine ("    use_backend " ++
      s!"%[req.hdr(host),lower,field(1,:),map({httpMapPath},bmac_reject_http)]") :=
    OneLine.append (by decide) (hline (by decide) hhttp (by decide))
  have htlsLine : OneLine ("    use_backend " ++
      s!"%[req.ssl_sni,lower,map({tlsMapPath},bmac_reject_tls)]") :=
    OneLine.append (by decide) (hline (by decide) htls (by decide))
  simp only [headerLines, List.forall_mem_cons]
  refine ⟨?_, hcomment, ?_, ?_, ?_, ?_, ?_, ?_, ?_, ?_, ?_, ?_, ?_, ?_, ?_, ?_, ?_, ?_, ?_, ?_,
    hhttpLine, ?_, ?_, ?_, ?_, ?_, ?_, ?_, ?_, htlsLine, ?_, ?_, ?_, ?_, ?_, ?_, ?_, ?_, ?_,
    List.forall_mem_nil _⟩ <;> decide +kernel

theorem oneLine_port (h : Served ip port) : OneLine (toString port) := by
  obtain ⟨n, rfl⟩ := Int.eq_ofNat_of_zero_le (show 0 ≤ port by linarith [h.port.1])
  intro c hc
  exact isBackendChar_isBreak (isBackendChar_of_isDigit (Text.isDigit_of_mem_repr hc))

theorem oneLine_ip (h : Served ip port) : OneLine ip := by
  obtain ⟨n, hip, -⟩ := h.ip
  intro c hc
  rcases mem_ip hip hc with hd | rfl
  · exact isBackendChar_isBreak (isBackendChar_of_isDigit hd)
  · rfl

theorem oneLine_server (hresource : OneLine resource)
    (h : Served ip port) : OneLine s!"    server bmac_server_{resource} {ip}:{port} check" := by
  have hfirst : OneLine ("    server bmac_server_" ++ resource) := OneLine.append (by decide) hresource
  have hip : OneLine ("    server bmac_server_" ++ resource ++ " " ++ ip) :=
    (hfirst.append (by decide)).append (oneLine_ip h)
  exact ((hip.append (by decide)).append (oneLine_port h)).append (by decide)

theorem backendLines_oneLine {target : String × String × Int × Int} (h : TargetRenders target) :
    ∀ line ∈ backendLines target, OneLine line := by
  obtain ⟨resource, address, httpPort, httpsPort⟩ := target
  have hresource : OneLine resource := (checkBackends_word h.backends).oneLine
  have hname {start : String} (hstart : OneLine start) : OneLine (start ++ resource) :=
    hstart.append hresource
  simp only [backendLines, List.forall_mem_cons]
  exact ⟨by decide, hname (by decide), by decide, by decide, oneLine_server hresource h.http,
    by decide, hname (by decide), by decide, oneLine_server hresource h.https,
    List.forall_mem_nil _⟩

theorem toList_join_lines (ls : List String) :
    (Text.join "\n" (ls ++ [""])).toList = Lines.unlines (ls.map String.toList) := by
  rw [Text.join, String.toList_intercalate]
  induction ls with
  | nil => rfl
  | cons l ls ih =>
    rw [List.cons_append, List.map_cons, List.map_cons, Lines.unlines_cons, ← ih,
      List.intercalate_cons_of_ne_nil (by simp), List.append_assoc]
    rfl

theorem configLines_oneLine (h : Renderables py routes)
    (hroot : validateGenerationRoot root = .ok ()) :
    ∀ line ∈ configLines py routes root, OneLine line := by
  have hgeneration : OneLine (routingGeneration py routes) := (word_hexdigest _).oneLine
  have hmaps := oneLine_joinPath (oneLine_joinPath (validateGenerationRoot_oneLine hroot) hgeneration)
    (show OneLine "maps" by decide)
  intro line hline
  rcases List.mem_append.mp hline with hheader | htarget
  · exact headerLines_oneLine hgeneration (oneLine_joinPath hmaps (by decide))
      (oneLine_joinPath hmaps (by decide)) line hheader
  · obtain ⟨target, hmem, hline⟩ := List.mem_flatMap.mp htarget
    exact backendLines_oneLine (resourceTargets_renders h target hmem) line hline

theorem parseServerTargets_render (h : Renderables py routes)
    (hroot : validateGenerationRoot root = .ok ()) :
    parseServerTargets (Text.join "\n" (configLines py routes root ++ [""])) =
      .ok ((resourceTargets routes).flatMap backendTargets) := by
  have hlines := lines_unlines (configLines_oneLine h hroot) (toList_join_lines _)
  have hheader := headerLines_idle (routingGeneration py routes)
    (joinPath (joinPath (joinPath root (routingGeneration py routes)) "maps") "bmac-http-host.map")
    (joinPath (joinPath (joinPath root (routingGeneration py routes)) "maps") "bmac-tls-sni.map")
  obtain ⟨backend, hfirst⟩ := foldlM_idle hheader {}
  obtain ⟨last, hrest⟩ := @foldlM_targets _ (resourceTargets_renders h) ⟨[], backend⟩
    (by simpa using nodup_backendTargets (nodup_resourceTargets routes))
  rw [parseServerTargets, hlines, configLines, List.foldlM_append, hfirst, ok_bind, hrest]
  rfl

end

end Bmac.Haproxy
