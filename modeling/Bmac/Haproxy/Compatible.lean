import Bmac.Haproxy.Routes

/-!
# What a compatible verdict means

`haproxy_routes.py`, `compare_generations` on lists that `validate_routes` accepts: each key's routes
agree, so the dictionaries that keep the last route of a key say what all of them say, and the verdict
is the rule its docstring gives.
-/

namespace Bmac.Haproxy

open Bmac.Base Bmac.Core Bmac.Registry

/-! ## Routes that agree -/

/-- Two routes of one list: other domains, one target for a resource, one resource for an IP. -/
structure Agree (a b : Route) : Prop where
  domain : a.domain ≠ b.domain
  target : a.resource = b.resource → sameTarget a b = true
  owner : a.ip = b.ip → a.resource = b.resource

/-- What `seen` holds after the routes `done`: an entry for each key, of one of its routes. -/
structure SeenBy (done : List Route) (seen : Seen) : Prop where
  domains : ∀ a ∈ done, seen.domains.find? (·.1 = a.domain) ≠ none
  resources : ∀ a ∈ done, ∃ b ∈ done, b.resource = a.resource ∧
    seen.resources.find? (·.1 = a.resource) = some (a.resource, b)
  addresses : ∀ a ∈ done, ∃ b ∈ done, b.ip = a.ip ∧
    seen.addresses.find? (·.1 = a.ip) = some (a.ip, b.resource)
  agree : done.Pairwise Agree

theorem sameTarget_iff {a b : Route} :
    sameTarget a b = true ↔ a.ip = b.ip ∧ a.httpPort = b.httpPort ∧ a.httpsPort = b.httpsPort ∧
      a.kind = b.kind ∧ a.purpose = b.purpose := by
  simp [sameTarget, and_assoc]

theorem Agree.symm {a b : Route} (h : Agree a b) : Agree b a where
  domain := h.domain.symm
  target heq := by
    obtain ⟨h1, h2, h3, h4, h5⟩ := sameTarget_iff.mp (h.target heq.symm)
    exact sameTarget_iff.mpr ⟨h1.symm, h2.symm, h3.symm, h4.symm, h5.symm⟩
  owner heq := (h.owner heq.symm).symm

theorem seenBy_nil : SeenBy [] {} := ⟨by simp, by simp, by simp, .nil⟩

theorem Seen.add_eq_ok {s s' : Seen} {r : Route} (h : s.add r = .ok s') :
    s.domains.find? (·.1 = r.domain) = none ∧
      (∀ e, s.resources.find? (·.1 = r.resource) = some e → sameTarget e.2 r = true) ∧
      (∀ e, s.addresses.find? (·.1 = r.ip) = some e → e.2 = r.resource) ∧
      s' = ⟨(r.domain, r.resource) :: s.domains, (r.resource, r) :: s.resources,
        (r.ip, r.resource) :: s.addresses⟩ := by
  unfold Seen.add at h
  cases hdomain : s.domains.find? (·.1 = r.domain) with
  | some prior =>
    rw [hdomain] at h
    cases h
  | none =>
    rw [hdomain] at h
    dsimp only at h
    obtain ⟨hresource, h⟩ := check_eq_ok.mp h
    have htarget : ∀ e, s.resources.find? (·.1 = r.resource) = some e → sameTarget e.2 r = true := by
      intro e he
      rw [he] at hresource
      simpa using hresource
    cases haddress : s.addresses.find? (·.1 = r.ip) with
    | none =>
      rw [haddress] at h
      cases h
      exact ⟨rfl, htarget, (fun e he => nomatch he), rfl⟩
    | some prior =>
      rw [haddress] at h
      dsimp only at h
      obtain ⟨howner, h⟩ := check_eq_ok.mp h
      cases h
      refine ⟨rfl, htarget, fun e he => ?_, rfl⟩
      cases he
      exact not_not.mp howner

theorem find?_entry {α : Type} (entries : List (String × α)) (k k' : String) (v : α) :
    ((k, v) :: entries).find? (·.1 = k') = if k = k' then some (k, v) else entries.find? (·.1 = k') := by
  rw [List.find?_cons]
  by_cases h : k = k'
  · rw [if_pos h]
    simp [h]
  · rw [if_neg h]
    simp [h]

theorem SeenBy.step {done : List Route} {s s' : Seen} {r : Route} (h : SeenBy done s)
    (hadd : s.add r = .ok s') : SeenBy (done ++ [r]) s' := by
  obtain ⟨hdomain, hresource, haddress, rfl⟩ := Seen.add_eq_ok hadd
  have hsymm : Std.Symm Agree := ⟨fun _ _ => Agree.symm⟩
  have hcases : ∀ a ∈ done ++ [r], a ∈ done ∨ a = r := fun a ha =>
    (List.mem_append.mp ha).imp_right List.mem_singleton.mp
  have hself : r ∈ done ++ [r] := List.mem_concat_self
  constructor
  case domains =>
    intro a ha
    rw [find?_entry]
    split
    · exact Option.some_ne_none _
    · rename_i hne
      rcases hcases a ha with ha | rfl
      · exact h.domains a ha
      · exact absurd rfl hne
  case resources =>
    intro a ha
    rw [find?_entry]
    split
    · rename_i heq
      exact ⟨r, hself, heq, by rw [heq]⟩
    · rename_i hne
      rcases hcases a ha with ha | rfl
      · obtain ⟨b, hb, hkey, hfind⟩ := h.resources a ha
        exact ⟨b, List.mem_append_left _ hb, hkey, hfind⟩
      · exact absurd rfl hne
  case addresses =>
    intro a ha
    rw [find?_entry]
    split
    · rename_i heq
      exact ⟨r, hself, heq, by rw [heq]⟩
    · rename_i hne
      rcases hcases a ha with ha | rfl
      · obtain ⟨b, hb, hkey, hfind⟩ := h.addresses a ha
        exact ⟨b, List.mem_append_left _ hb, hkey, hfind⟩
      · exact absurd rfl hne
  case agree =>
    refine List.pairwise_append.mpr ⟨h.agree, List.pairwise_singleton .., fun a ha b hb => ?_⟩
    obtain rfl := List.mem_singleton.mp hb
    refine ⟨fun heq => h.domains a ha (heq ▸ hdomain), fun heq => ?_, fun heq => ?_⟩
    · obtain ⟨c, hc, hkey, hfind⟩ := h.resources a ha
      have hcb : sameTarget c b = true := hresource _ (heq ▸ hfind)
      by_cases hac : a = c
      · rw [hac]
        exact hcb
      · obtain ⟨h1, h2, h3, h4, h5⟩ := sameTarget_iff.mp ((h.agree.forall ha hc hac).target hkey.symm)
        obtain ⟨k1, k2, k3, k4, k5⟩ := sameTarget_iff.mp hcb
        exact sameTarget_iff.mpr
          ⟨h1.trans k1, h2.trans k2, h3.trans k3, h4.trans k4, h5.trans k5⟩
    · obtain ⟨c, hc, hkey, hfind⟩ := h.addresses a ha
      have hcb : c.resource = b.resource := haddress _ (heq ▸ hfind)
      by_cases hac : a = c
      · rw [hac]
        exact hcb
      · exact ((h.agree.forall ha hc hac).owner hkey.symm).trans hcb

theorem agree_of_foldlM {routes : List Route} {s : Seen} (h : routes.foldlM Seen.add {} = .ok s) :
    routes.Pairwise Agree := by
  have hseen : ∀ (done rest : List Route) (s s' : Seen), SeenBy done s →
      rest.foldlM Seen.add s = .ok s' → SeenBy (done ++ rest) s' := by
    intro done rest
    induction rest generalizing done with
    | nil =>
      intro s s' hs hrest
      cases hrest
      rwa [List.append_nil]
    | cons r rest ih =>
      intro s s' hs hrest
      obtain ⟨t, hadd, hrest⟩ := foldlM_cons_eq_ok.mp hrest
      have hall := ih (done ++ [r]) t s' (hs.step hadd) hrest
      rwa [List.append_assoc] at hall
  exact (hseen [] routes {} s seenBy_nil h).agree

variable {py : Python}

/-- The lists of routes that `validate_routes` takes, and those it returns. -/
def Accepted (py : Python) (routes : List Route) : Prop :=
  ∃ value ranges sorted, validateRoutes py value ranges = .ok sorted ∧
    (routes = value ∨ routes = sorted)

theorem Accepted.agree {routes : List Route} (h : Accepted py routes) : routes.Pairwise Agree := by
  obtain ⟨value, ranges, sorted, hok, hroutes⟩ := h
  unfold validateRoutes at hok
  obtain ⟨-, hok⟩ := check_eq_ok.mp hok
  obtain ⟨network, -, hok⟩ := bind_eq_ok.mp hok
  obtain ⟨production, -, hok⟩ := bind_eq_ok.mp hok
  obtain ⟨staging, -, hok⟩ := bind_eq_ok.mp hok
  obtain ⟨-, hok⟩ := check_eq_ok.mp hok
  obtain ⟨-, -, hok⟩ := bind_eq_ok.mp hok
  obtain ⟨seen, hseen, hok⟩ := bind_eq_ok.mp hok
  obtain rfl := pure_eq_ok.mp hok
  have hagree := agree_of_foldlM hseen
  rcases hroutes with rfl | rfl
  · exact (List.Perm.pairwise_iff Agree.symm (List.perm_insertionSort _ _)).mp hagree
  · exact hagree

/-! ## The verdict -/

def served (routes : List Route) : List ServedRoute := routes.map Route.toServedRoute

theorem dict_eq_some {α : Type} {key : ServedRoute → String} {value : ServedRoute → α}
    {routes : List ServedRoute}
    (hsame : ∀ a ∈ routes, ∀ b ∈ routes, key a = key b → value a = value b) {k : String} {v : α} :
    (dict key value routes).get? k = some v ↔ ∃ r ∈ routes, key r = k ∧ value r = v := by
  induction routes using List.reverseRecOn with
  | nil => simp [dict, Table.ofList, Table.get?]
  | append_singleton routes r ih =>
    have hinsert : dict key value (routes ++ [r]) = (dict key value routes).insert (key r) (value r) := by
      unfold dict Table.ofList
      rw [List.map_append, List.foldl_append]
      rfl
    rw [hinsert, Table.get?_insert]
    split
    · rename_i hk
      constructor
      · intro hv
        exact ⟨r, List.mem_concat_self, hk.symm, Option.some.inj hv⟩
      · rintro ⟨a, ha, hak, rfl⟩
        rw [hsame r List.mem_concat_self a ha (hk.symm.trans hak.symm)]
    · rename_i hk
      rw [ih fun a ha b hb => hsame a (List.mem_append_left _ ha) b (List.mem_append_left _ hb)]
      constructor
      · rintro ⟨a, ha, h⟩
        exact ⟨a, List.mem_append_left _ ha, h⟩
      · rintro ⟨a, ha, hak, hv⟩
        rcases List.mem_append.mp ha with ha | ha
        · exact ⟨a, ha, hak, hv⟩
        · obtain rfl := List.mem_singleton.mp ha
          exact absurd hak.symm hk

theorem changed_dict {α : Type} [DecidableEq α] (key : ServedRoute → String)
    (value : ServedRoute → α) {previous candidate : List ServedRoute}
    (hp : ∀ a ∈ previous, ∀ b ∈ previous, key a = key b → value a = value b)
    (hc : ∀ a ∈ candidate, ∀ b ∈ candidate, key a = key b → value a = value b) :
    changed (dict key value previous) (dict key value candidate) = [] ↔
      ∀ a ∈ previous, ∀ b ∈ candidate, key a = key b → value a = value b := by
  rw [changed_eq_nil]
  constructor
  · intro h a ha b hb hkey
    exact h (key a) _ _ ((dict_eq_some hp).mpr ⟨a, ha, rfl, rfl⟩)
      ((dict_eq_some hc).mpr ⟨b, hb, hkey.symm, rfl⟩)
  · intro h k old new hold hnew
    obtain ⟨a, ha, rfl, rfl⟩ := (dict_eq_some hp).mp hold
    obtain ⟨b, hb, hkey, rfl⟩ := (dict_eq_some hc).mp hnew
    exact h a ha b hb hkey.symm

/-- No domain, resource or backend IP resolves to a different target in the two generations. -/
structure SameTargets (previous candidate : List Route) : Prop where
  domains : ∀ a ∈ previous, ∀ b ∈ candidate, a.domain = b.domain →
    a.resource = b.resource ∧ a.ip = b.ip ∧ a.httpPort = b.httpPort ∧ a.httpsPort = b.httpsPort
  resources : ∀ a ∈ previous, ∀ b ∈ candidate, a.resource = b.resource →
    a.ip = b.ip ∧ a.httpPort = b.httpPort ∧ a.httpsPort = b.httpsPort
  owners : ∀ a ∈ previous, ∀ b ∈ candidate, a.ip = b.ip → a.resource = b.resource

section

variable {previous candidate : List Route}

theorem target_eq_iff {a b : ServedRoute} :
    a.target = b.target ↔
      a.resource = b.resource ∧ a.ip = b.ip ∧ a.httpPort = b.httpPort ∧ a.httpsPort = b.httpsPort := by
  simp [ServedRoute.target]

theorem Accepted.same (h : Accepted py previous) {a b : ServedRoute} (ha : a ∈ served previous)
    (hb : b ∈ served previous) :
    (a.domain = b.domain → a.target = b.target) ∧ (a.resource = b.resource → a.target = b.target) ∧
      (a.ip = b.ip → a.resource = b.resource) := by
  obtain ⟨a, ha', rfl⟩ := List.mem_map.mp ha
  obtain ⟨b, hb', rfl⟩ := List.mem_map.mp hb
  by_cases hab : a = b
  · subst hab
    exact ⟨fun _ => rfl, fun _ => rfl, fun _ => rfl⟩
  · have hsymm : Std.Symm Agree := ⟨fun _ _ => Agree.symm⟩
    have hagree : Agree a b := h.agree.forall ha' hb' hab
    refine ⟨fun heq => absurd heq hagree.domain, fun heq => ?_, hagree.owner⟩
    obtain ⟨hip, hhttp, hhttps, -, -⟩ := sameTarget_iff.mp (hagree.target heq)
    exact target_eq_iff.mpr ⟨heq, hip, hhttp, hhttps⟩

theorem forall_served {P : ServedRoute → ServedRoute → Prop} :
    (∀ a ∈ served previous, ∀ b ∈ served candidate, P a b) ↔
      ∀ a ∈ previous, ∀ b ∈ candidate, P a.toServedRoute b.toServedRoute := by
  simp [served]

theorem compatible_iff (hp : Accepted py previous) (hc : Accepted py candidate) :
    (compareGenerations (served previous) (served candidate)).compatible = true ↔
      SameTargets previous candidate := by
  have hdomains := changed_dict (·.domain) (·.target)
    (fun a ha b hb => (hp.same ha hb).1) (fun a ha b hb => (hc.same ha hb).1)
  have hresources := changed_dict (·.resource) (·.target)
    (fun a ha b hb => (hp.same ha hb).2.1) (fun a ha b hb => (hc.same ha hb).2.1)
  have howners := changed_dict (·.ip) (·.resource)
    (fun a ha b hb => (hp.same ha hb).2.2) (fun a ha b hb => (hc.same ha hb).2.2)
  simp only [compareGenerations, decide_eq_true_eq, List.append_eq_nil_iff, List.map_eq_nil_iff,
    hdomains, hresources, howners, forall_served, target_eq_iff]
  constructor
  · rintro ⟨⟨hdomains, hresources⟩, howners⟩
    exact ⟨hdomains, fun a ha b hb heq => (hresources a ha b hb heq).2, howners⟩
  · intro h
    exact ⟨⟨h.domains, fun a ha b hb heq => ⟨heq, h.resources a ha b hb heq⟩⟩, h.owners⟩

/-- A domain that `previous` serves reaches the backend that `candidate` gives it, or, when
`candidate` lacks it, an IP that `candidate` gives to no other resource. -/
def ServesSafely (previous candidate : List Route) : Prop :=
  ∀ a ∈ previous,
    (∃ b ∈ candidate, b.domain = a.domain ∧ b.toServedRoute.target = a.toServedRoute.target) ∨
      (∀ b ∈ candidate, b.domain ≠ a.domain) ∧ ∀ b ∈ candidate, b.ip = a.ip → b.resource = a.resource

theorem SameTargets.servesSafely (h : SameTargets previous candidate) :
    ServesSafely previous candidate := by
  intro a ha
  by_cases hdomain : ∃ b ∈ candidate, b.domain = a.domain
  · obtain ⟨b, hb, heq⟩ := hdomain
    exact .inl ⟨b, hb, heq, (target_eq_iff.mpr (h.domains a ha b hb heq.symm)).symm⟩
  · exact .inr ⟨fun b hb heq => hdomain ⟨b, hb, heq⟩,
      fun b hb heq => (h.owners a ha b hb heq.symm).symm⟩

theorem compatible_comm (a b : List ServedRoute) :
    (compareGenerations a b).compatible = (compareGenerations b a).compatible :=
  Bool.eq_iff_iff.mpr ⟨compatible_symm, compatible_symm⟩

end

/-- On accepted lists the verdict is the rule, is safe to act on, and has no direction. -/
theorem verdict_sound {py : Python} {previous candidate : List Route} (hp : Accepted py previous)
    (hc : Accepted py candidate) :
    ((compareGenerations (served previous) (served candidate)).compatible = true ↔
      SameTargets previous candidate) ∧
    ((compareGenerations (served previous) (served candidate)).compatible = true →
      ServesSafely previous candidate) ∧
    (compareGenerations (served previous) (served candidate)).compatible =
      (compareGenerations (served candidate) (served previous)).compatible := by
  have hiff := compatible_iff hp hc
  exact ⟨hiff, fun h => (hiff.mp h).servesSafely, compatible_comm _ _⟩

/-! ### Two generations of a registry with one guest -/

def lowerPython : Python := ⟨id, some, fun _ => []⟩

def smallRanges : Ranges := ⟨"10.0.0.0/8", "10.0.0.1", "10.0.0.9", "10.0.0.10", "10.0.0.19"⟩

def prodRoute (domain : String) : Route where
  domain := domain
  resource := "prod1"
  ip := "10.0.0.1"
  httpPort := 80
  httpsPort := 443
  kind := "production"
  purpose := "web"

theorem prodRoute_accepted :
    validateRoutes lowerPython [prodRoute "a.test"] smallRanges = .ok [prodRoute "a.test"] ∧
      validateRoutes lowerPython [prodRoute "b.test"] smallRanges = .ok [prodRoute "b.test"] := by
  decide +kernel

theorem prodRoute_servesSafely : ServesSafely [prodRoute "a.test"] [prodRoute "b.test"] :=
  (verdict_sound ⟨_, _, _, prodRoute_accepted.1, .inl rfl⟩ ⟨_, _, _, prodRoute_accepted.2, .inl rfl⟩).2.1
    (by decide +kernel)

end Bmac.Haproxy
