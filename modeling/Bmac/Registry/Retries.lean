import Bmac.Registry.Requests

/-!
# Retried allocations

`find_idempotent_allocation` of `cluster_registry.py` makes a retried allocation give the guest that
the first one made. `allocate-prod` asks it before anything else of the registry, `allocate-staging`
after checks of the source, which other commands may have changed since.
-/

namespace Bmac.Registry

open Bmac.Base Bmac.Core

variable {py : Python} {digests : Digests} {reg : Registry} {policy : Policy}

/-- `allocate-prod` or `allocate-staging`, with its arguments. -/
inductive AllocateCall where
  | prod (args : AllocateProdArgs)
  | staging (args : AllocateStagingArgs)

namespace AllocateCall

def kind : AllocateCall → Kind
  | .prod _ => .production
  | .staging _ => .staging

def allocationId : AllocateCall → Except String (Option String)
  | .prod args => normalizeAllocationId args.allocationId
  | .staging args => normalizeAllocationId args.allocationId

def invocation (id : Uuid) : AllocateCall → Invocation
  | .prod args => .allocateProd args id
  | .staging args => .allocateStaging args id

def run (py : Python) (digests : Digests) (reg : Registry) (id : Uuid) (clock : Int) :
    AllocateCall → Except String (Outcome Allocation)
  | .prod args => allocateProd py digests reg args id clock
  | .staging args => allocateStaging py digests reg args id clock

def source (py : Python) (reg : Registry) (args : AllocateStagingArgs) : Except String Resource := do
  let resources ← reg.resources py
  ofOption ((named resources args.source).filter (·.kind = .production))
    s!"staging source is not a registered production guest: {args.source}"

def request (py : Python) (reg : Registry) : AllocateCall → Except String Request
  | .prod args => do prodRequest py (← reg.policy) args
  | .staging args => do stagingRequest py (← reg.policy) (← source py reg args) args

/-- A copy's node is of its source's placement still, and isn't its owner. -/
def Allowed (policy : Policy) (reg : Registry) : AllocateCall → Prop
  | .prod _ => True
  | .staging args =>
    ∀ source, reg.resourceFiles.get? args.source = some source → Clonable policy args source

section

variable {call : AllocateCall} {id : Uuid} {clock : Int} {out : Outcome Allocation}
  {rs : List Resource} {r : Resource} {req : Request} {allocationId : String}

theorem named_iff (hsound : Sound py policy reg) (hrs : reg.resources py = .ok rs)
    {name : GuestName} : named rs name = some r ↔ reg.resourceFiles.get? name = some r := by
  constructor
  · intro h
    obtain ⟨hmem, rfl⟩ := named_mem h
    exact (hsound.mem_iff hrs).mp hmem
  · intro h
    have hname : name = r.name := (hsound.valid _ (Table.mem_of_get? h)).2
    subst hname
    exact named_of_mem (consistent_resources hrs).names ((hsound.mem_iff hrs).mpr h)

variable {args : AllocateStagingArgs} {fingerprint : String}

theorem source_eq_ok (hsound : Sound py policy reg) {s : Resource} :
    source py reg args = .ok s ↔
      reg.resourceFiles.get? args.source = some s ∧ s.kind = .production := by
  simp only [source, bind_eq_ok, ofOption_eq_ok, Option.filter_eq_some_iff, decide_eq_true_eq]
  constructor
  · rintro ⟨rs, hrs, hnamed, hkind⟩
    exact ⟨(named_iff hsound hrs).mp hnamed, hkind⟩
  · rintro ⟨hget, hkind⟩
    exact ⟨_, hsound.resources, (named_iff hsound hsound.resources).mpr hget, hkind⟩

theorem run_allots (hsound : Sound py policy reg)
    (h : call.run py digests reg id clock = .ok out) : ∃ allocationId req rs,
      call.allocationId = .ok allocationId ∧ call.request py reg = .ok req ∧
      reg.resources py = .ok rs ∧ call.Allowed policy reg ∧
      Allots py policy rs call.kind allocationId (digests.request req) out := by
  cases call with
  | prod args =>
    obtain ⟨policy', allocationId, req, rs, hpolicy, hid, hreq, hrs, hallots⟩ := allocateProd_allots h
    obtain rfl := hsound.policy_unique hpolicy
    refine ⟨allocationId, req, rs, hid, ?_, hrs, trivial, hallots⟩
    simp only [request, bind_eq_ok]
    exact ⟨policy', hpolicy, hreq⟩
  | staging args =>
    obtain ⟨policy', allocationId, source, req, rs, hpolicy, hid, hrs, hnamed, hkind, hclonable, hreq,
      hallots, -⟩ := allocateStaging_allots h
    obtain rfl := hsound.policy_unique hpolicy
    have hget := (named_iff hsound hrs).mp hnamed
    refine ⟨allocationId, req, rs, hid, ?_, hrs, fun source' hsource' => ?_, hallots⟩
    · simp only [request, bind_eq_ok]
      exact ⟨policy', hpolicy, source, (source_eq_ok hsound).mpr ⟨hget, hkind⟩, hreq⟩
    · obtain rfl := Option.some.inj (hget.symm.trans hsource')
      exact hclonable

theorem run_existing (hsound : Sound py policy reg) {allocationId : Option String}
    (hid : call.allocationId = .ok allocationId) (hreq : call.request py reg = .ok req)
    (hrs : reg.resources py = .ok rs) (hallowed : call.Allowed policy reg)
    (hfound : findIdempotentAllocation rs allocationId (digests.request req) call.kind =
      .ok (some r)) : call.run py digests reg id clock = .ok ⟨[], false, r⟩ := by
  cases call with
  | prod args =>
    simp only [request, bind_eq_ok] at hreq
    obtain ⟨policy', hpolicy, hreq⟩ := hreq
    exact allocateProd_existing hpolicy hid hreq hrs hfound
  | staging args =>
    simp only [request, bind_eq_ok] at hreq
    obtain ⟨policy', hpolicy, source, hsource, hreq⟩ := hreq
    obtain rfl := hsound.policy_unique hpolicy
    obtain ⟨hget, hkind⟩ := (source_eq_ok hsound).mp hsource
    exact allocateStaging_existing hpolicy hid hrs ((named_iff hsound hrs).mpr hget) hkind
      (hallowed source hget) hreq hfound

/-! ## The guest of an allocation id -/

theorem findIdempotentAllocation_some {allocationId : Option String}
    {kind : Kind} (h : findIdempotentAllocation rs allocationId fingerprint kind = .ok (some r)) :
    r ∈ rs ∧ r.allocationId = allocationId ∧ r.kind = kind ∧ r.requestFingerprint = fingerprint := by
  cases allocationId with
  | none => cases h
  | some allocationId =>
    simp only [findIdempotentAllocation] at h
    cases hfind : rs.find? (·.allocationId = some allocationId) with
    | none => simp [hfind] at h
    | some found =>
      simp only [hfind] at h
      split at h
      · cases h
      · rename_i hsame
        rw [not_or, not_not, not_not] at hsame
        cases h
        exact ⟨List.mem_of_find?_eq_some hfind, by simpa using List.find?_some hfind, hsame⟩

theorem find_allocationId (h : Consistent rs) (hr : r ∈ rs)
    (hid : r.allocationId = some allocationId) :
    rs.find? (·.allocationId = some allocationId) = some r := by
  cases hfind : rs.find? (·.allocationId = some allocationId) with
  | none =>
    have hnone := List.find?_eq_none.mp hfind r hr
    rw [decide_eq_true_eq] at hnone
    exact absurd hid hnone
  | some found =>
    have hmem := List.mem_of_find?_eq_some hfind
    have hfound : found.allocationId = some allocationId := by simpa using List.find?_some hfind
    by_contra hne
    have : Std.Symm (Function.onFun List.Disjoint fun r : Resource => r.allocationId.toList) :=
      ⟨fun _ _ hab => hab.symm⟩
    have hdisjoint := (List.nodup_flatMap.mp h.allocationIds).2.forall hmem hr
      fun heq => hne (congrArg some heq)
    exact hdisjoint (a := allocationId) (by simp [hfound]) (by simp [hid])

/-- A retry finds the guest, and another request doesn't pass. -/
theorem findIdempotentAllocation_of_mem (h : Consistent rs) (hr : r ∈ rs)
    (hid : r.allocationId = some allocationId) {kind : Kind} {found : Option Resource} :
    findIdempotentAllocation rs (some allocationId) fingerprint kind = .ok found ↔
      r.kind = kind ∧ r.requestFingerprint = fingerprint ∧ found = some r := by
  unfold findIdempotentAllocation
  simp only [find_allocationId h hr hid]
  split
  · rename_i hother
    refine iff_of_false (fun h => by cases h) fun ⟨hkind, hfingerprint, _⟩ => ?_
    exact hother.elim (· hkind) (· hfingerprint)
  · rename_i hsame
    rw [not_or, not_not, not_not] at hsame
    rw [Except.ok.injEq]
    exact ⟨fun h => ⟨hsame.1, hsame.2, h.symm⟩, fun h => h.2.2.symm⟩

/-! ## After a first success -/

theorem run_bare (hbare : Bare reg) : call.run py digests reg id clock ≠ .ok out := by
  cases call <;>
    simp [run, allocateProd, allocateStaging, hbare.policy_error, error_bind]

/-- What a success leaves registered. -/
structure Granted (py : Python) (digests : Digests) (reg : Registry) (call : AllocateCall)
    (allocationId : String) (req : Request) (r : Resource) : Prop where
  registered : reg.resourceFiles.get? r.name = some r
  allocationId : r.allocationId = some allocationId
  kind : r.kind = call.kind
  requestFingerprint : r.requestFingerprint = digests.request req
  source : ∀ args, call = .staging args → r.source = some args.source
  request : call.request py reg = .ok req

theorem stagingRequest_asked {source source' : Resource} (h : Asked source source') :
    stagingRequest py policy source' args = stagingRequest py policy source args := by
  simp only [stagingRequest, h.name, h.storage]

theorem request_asked {reg' : Registry} (hsound : Sound py policy reg)
    (hsound' : Sound py policy reg')
    (hsource : ∀ args source, call = .staging args →
      reg.resourceFiles.get? args.source = some source →
      ∃ source', reg'.resourceFiles.get? args.source = some source' ∧ Asked source source')
    (h : call.request py reg = .ok req) : call.request py reg' = .ok req := by
  cases call with
  | prod args =>
    simp only [request, bind_eq_ok] at h ⊢
    obtain ⟨policy', hpolicy, h⟩ := h
    obtain rfl := hsound.policy_unique hpolicy
    exact ⟨_, hsound'.configured, h⟩
  | staging args =>
    simp only [request, bind_eq_ok] at h ⊢
    obtain ⟨policy', hpolicy, s, hs, h⟩ := h
    obtain rfl := hsound.policy_unique hpolicy
    obtain ⟨hget, hkind⟩ := (source_eq_ok hsound).mp hs
    obtain ⟨s', hget', hasked⟩ := hsource args s rfl hget
    refine ⟨_, hsound'.configured, s', (source_eq_ok hsound').mpr ⟨hget', ?_⟩, ?_⟩
    · rw [hasked.kind]
      exact hkind
    · rw [stagingRequest_asked hasked]
      exact h

/-- The guest of a success, whether it is new or not. -/
theorem allots_guest (hsound : Sound py policy reg) {kind : Kind} (hrs : reg.resources py = .ok rs)
    (h : Allots py policy rs kind (some allocationId) fingerprint out) :
    (reg.applyAll out.ops).resourceFiles.get? out.result.resource.name = some out.result.resource ∧
      out.result.resource.allocationId = some allocationId ∧ out.result.resource.kind = kind ∧
      out.result.resource.requestFingerprint = fingerprint := by
  cases h with
  | existing hfound =>
    obtain ⟨hmem, hid, hkind, hfingerprint⟩ := findIdempotentAllocation_some hfound
    exact ⟨(hsound.mem_iff hrs).mp hmem, hid, hkind, hfingerprint⟩
  | created hfound hnew =>
    refine ⟨?_, hnew.allocationId, hnew.kind, hnew.requestFingerprint⟩
    simp [Registry.applyAll, Registry.apply, Table.get?_insert]

theorem run_source (hsound : Sound py policy reg) (hprinted : Fingerprinted digests reg)
    (hid : (staging args).allocationId = .ok (some allocationId))
    (hreq : (staging args).request py reg = .ok req)
    (hunique : ∀ req', digests.request req' = digests.request req → req' = req)
    (h : (staging args).run py digests reg id clock = .ok out) :
    out.result.resource.source = some args.source := by
  obtain ⟨policy', allocationId', source', req', rs, hpolicy, hid', hrs, hnamed, hkind, -, hreq',
    hallots, hsource⟩ := allocateStaging_allots h
  obtain rfl := hsound.policy_unique hpolicy
  obtain rfl : some allocationId = allocationId' := Except.ok.inj (hid.symm.trans hid')
  obtain rfl : req = req' := by
    have hget := (named_iff hsound hrs).mp hnamed
    have hsame : (staging args).request py reg = .ok req' := by
      simp only [request, bind_eq_ok]
      exact ⟨_, hpolicy, source', (source_eq_ok hsound).mpr ⟨hget, hkind⟩, hreq'⟩
    exact Except.ok.inj (hreq.symm.trans hsame)
  cases hallots with
  | created => exact hsource _ (List.mem_singleton.mpr rfl)
  | @existing r hfound =>
    obtain ⟨hmem, -, hstaging, hfingerprint⟩ := findIdempotentAllocation_some hfound
    obtain ⟨origin, vmid, domain, placement, spec, horigin, hdigest⟩ :=
      hprinted _ r ((hsound.mem_iff hrs).mp hmem) hstaging
    obtain ⟨vmid', domain', placement', spec', rfl⟩ := stagingRequest_eq hreq'
    obtain ⟨rfl, -⟩ := Request.staging.inj (hunique _ (hdigest.symm.trans hfingerprint))
    rw [horigin, (named_mem hnamed).2]

theorem run_granted (hsound : Sound py policy reg) (hprinted : Fingerprinted digests reg)
    (hid : call.allocationId = .ok (some allocationId)) (hreq : call.request py reg = .ok req)
    (hunique : ∀ req', digests.request req' = digests.request req → req' = req)
    (h : call.run py digests reg id clock = .ok out) :
    Sound py policy (reg.applyAll out.ops) ∧
      Granted py digests (reg.applyAll out.ops) call allocationId req out.result.resource := by
  obtain ⟨allocationId', req', rs, hid', hreq', hrs, -, hallots⟩ := run_allots hsound h
  obtain rfl : some allocationId = allocationId' := Except.ok.inj (hid.symm.trans hid')
  obtain rfl : req = req' := Except.ok.inj (hreq.symm.trans hreq')
  obtain ⟨hget, hr, hkind, hfingerprint⟩ := allots_guest hsound hrs hallots
  -- The call is an event that isn't stopped.
  have hevent : reg.applyAll out.ops =
      (Event.mk (call.invocation id) clock out.ops.length).after py digests reg := by
    have hops : (call.invocation id).ops py digests reg clock = .ok out.ops := by
      cases call <;> exact map_eq_ok.mpr ⟨out, h, rfl⟩
    simp only [Event.after, hops, List.take_length]
  have hsource : ∀ args, call = staging args →
      out.result.resource.source = some args.source := by
    rintro args rfl
    exact run_source hsound hprinted hid hreq hunique h
  rw [hevent] at hget ⊢
  have hsound' := @Sound.after _ digests _ _ hsound
    (Event.mk (call.invocation id) clock out.ops.length)
  refine ⟨hsound', hget, hr, hkind, hfingerprint, hsource,
    request_asked hsound hsound' (fun args s hcall hs => ?_) hreq⟩
  subst hcall
  obtain ⟨s', hname, -, hs'⟩ := hsound'.source hget hkind
  rw [← Option.some.inj ((hsource args rfl).symm.trans hname)] at hs'
  exact ⟨s', hs', hsound.asked _ hs hs'⟩

theorem Granted.run {later : List Event} {reg' : Registry}
    (h : Granted py digests reg call allocationId req r) (hsound : Sound py policy reg)
    (hlater : Run (stepWith py digests r.name r.id) reg later reg') :
    Sound py policy reg' ∧ ∃ current, current.name = r.name ∧ current.id = r.id ∧
      Granted py digests reg' call allocationId req current := by
  obtain ⟨hsound', current, hget, hid, hasked, hsource⟩ := run_asked hlater hsound h.registered rfl
  refine ⟨hsound', current, hasked.name, hid, hasked.name.symm ▸ hget,
    hasked.allocationId.trans h.allocationId, hasked.kind.trans h.kind,
    hasked.requestFingerprint.trans h.requestFingerprint,
    fun args hcall => hasked.source.trans (h.source args hcall),
    request_asked hsound hsound' (fun args s hcall hs => ?_) h.request⟩
  have hstaging : r.kind = .staging := by
    rw [h.kind, hcall]
    rfl
  exact hsource hstaging _ s (h.source args hcall) hs

/-- While a guest is granted, its call gives it or fails, and no other request gets its id. -/
theorem Granted.retry (h : Granted py digests reg call allocationId req r)
    (hsound : Sound py policy reg) (hid : call.allocationId = .ok (some allocationId)) :
    call.run py digests reg id clock = .ok ⟨[], false, r⟩ ↔ call.Allowed policy reg := by
  have hmem := (hsound.mem_iff hsound.resources).mpr h.registered
  constructor
  · intro hout
    obtain ⟨_, _, _, -, -, -, hallowed, -⟩ := run_allots hsound hout
    exact hallowed
  · intro hallowed
    refine run_existing hsound hid h.request hsound.resources hallowed ?_
    exact (findIdempotentAllocation_of_mem (consistent_resources hsound.resources) hmem
      h.allocationId).mpr ⟨h.kind, h.requestFingerprint, rfl⟩

theorem Granted.refuses
    (h : Granted py digests reg call allocationId req r) (hsound : Sound py policy reg)
    (hunique : ∀ req', digests.request req' = digests.request req → req' = req)
    {other : AllocateCall} (hid : other.allocationId = .ok (some allocationId))
    (hother : other.request py reg ≠ .ok req) :
    ∃ message, other.run py digests reg id clock = .error message := by
  cases hrun : other.run py digests reg id clock with
  | error message => exact ⟨message, rfl⟩
  | ok out =>
    exfalso
    obtain ⟨allocationId', req', rs, hid', hreq', hrs, -, hallots⟩ := run_allots hsound hrun
    obtain rfl : some allocationId = allocationId' := Except.ok.inj (hid.symm.trans hid')
    have hmem := (hsound.mem_iff hrs).mpr h.registered
    -- Whatever the lookup gave, it is of a guest for this request.
    obtain ⟨found, hfound⟩ : ∃ found, findIdempotentAllocation rs (some allocationId)
        (digests.request req') other.kind = .ok found := by
      cases hallots with
      | existing hfound => exact ⟨_, hfound⟩
      | created hfound => exact ⟨_, hfound⟩
    obtain ⟨-, hfingerprint, -⟩ := (findIdempotentAllocation_of_mem (consistent_resources hrs) hmem
      h.allocationId).mp hfound
    obtain rfl := hunique _ (hfingerprint.symm.trans h.requestFingerprint)
    exact hother hreq'

end

end AllocateCall

/-- A call that succeeded with an allocation id gives its guest again, and writes nothing, after any
commands that leave the guest registered, exactly if it is an `allocate-prod` or its copy's node is
of the source's placement still and isn't the source's owner; another request with that id is
refused. -/
theorem allocation_retries {events later : List Event} {reg' : Registry} {call : AllocateCall}
    {allocationId : String} {req : Request} {id : Uuid} {clock : Int} {out : Outcome Allocation}
    (hrun : Run (step py digests) {} events reg)
    (hid : call.allocationId = .ok (some allocationId)) (hreq : call.request py reg = .ok req)
    (hunique : ∀ req', digests.request req' = digests.request req → req' = req)
    (hout : call.run py digests reg id clock = .ok out)
    (hlater : Run (stepWith py digests out.result.resource.name out.result.resource.id)
      (reg.applyAll out.ops) later reg') :
    ∃ policy current, reg'.policy = .ok policy ∧
      reg'.resourceFiles.get? out.result.resource.name = some current ∧
      current.id = out.result.resource.id ∧
      (∀ id' clock', call.run py digests reg' id' clock' = .ok ⟨[], false, current⟩ ↔
        call.Allowed policy reg') ∧
      ∀ (other : AllocateCall) id' clock', other.allocationId = .ok (some allocationId) →
        other.request py reg' ≠ .ok req →
        ∃ message, other.run py digests reg' id' clock' = .error message := by
  obtain ⟨hbare | ⟨policy, hsound⟩, hprinted⟩ := run_fingerprinted hrun
  · exact absurd hout (AllocateCall.run_bare hbare)
  · obtain ⟨hsound1, hgranted⟩ := AllocateCall.run_granted hsound hprinted hid hreq hunique hout
    obtain ⟨hsound', current, hname, hcurrent, hgranted'⟩ := hgranted.run hsound1 hlater
    exact ⟨policy, current, hsound'.configured, hname ▸ hgranted'.registered, hcurrent,
      fun _ _ => hgranted'.retry hsound' hid,
      fun _ _ _ hid' hother => hgranted'.refuses hsound' hunique hid' hother⟩

/-! ## A copy whose source is moved to its node -/

def copyCall : AllocateCall := .staging { smallStaging with allocationId := some "copy-1" }

theorem smallCopyRequest_unique (req : Request)
    (h : smallDigests.request req = smallDigests.request smallCopyRequest) : req = smallCopyRequest := by
  have hcopy : smallDigests.request smallCopyRequest ≠ noDigest := by decide
  have hprod : smallDigests.request smallCopyRequest ≠ smallDigests.request smallProdRequest := by decide
  by_contra hne
  by_cases hreq : req = smallProdRequest
  · exact hprod (hreq ▸ h).symm
  · exact hcopy (h.symm.trans (show smallDigests.request req = noDigest by
      simp only [smallDigests, if_neg hreq, if_neg hne]))

def beforeCopy : Registry :=
  afterAll smallPython smallDigests {}
    [completed (.init smallInit 0), completed (.allocateProd smallProd 1)]

/-- An owner node for the source, once the copy is allocated. -/
def ownSource (node : String) : Event :=
  completed (.update (.production 1) { ownerNode := some (some node) })

/-- A registry after the copy is allocated and its source has got an owner node. -/
def afterCopy (out : Outcome Allocation) (node : String) : Registry :=
  (ownSource node).after smallPython smallDigests (beforeCopy.applyAll out.ops)

/-- The copy is allocated, and it is registered when its source has got an owner node; when the node is
the copy's, its call fails. -/
theorem copyCall_outcome : ∃ out, copyCall.run smallPython smallDigests beforeCopy 2 0 = .ok out ∧
    out.result.resource.name = .staging 1 1 ∧
    isGuest (afterCopy out "mox1") out.result.resource.name out.result.resource.id ∧
    isGuest (afterCopy out "mox2") out.result.resource.name out.result.resource.id ∧
    (copyCall.run smallPython smallDigests (afterCopy out "mox2") 3 1).toOption = none := by
  have hall : (copyCall.run smallPython smallDigests beforeCopy 2 0).toOption.any fun out =>
      out.result.resource.name = .staging 1 1 &&
        isGuest (afterCopy out "mox1") out.result.resource.name out.result.resource.id &&
        isGuest (afterCopy out "mox2") out.result.resource.name out.result.resource.id &&
        (copyCall.run smallPython smallDigests (afterCopy out "mox2") 3 1).toOption.isNone := by
    decide +kernel
  obtain ⟨out, hout, hthen⟩ := ok_of_toOption_any hall
  simp only [Bool.and_eq_true, decide_eq_true_eq, Option.isNone_iff_eq_none] at hthen
  obtain ⟨⟨⟨hname, hone⟩, htwo⟩, hfails⟩ := hthen
  exact ⟨out, hout, hname, hone, htwo, hfails⟩

theorem copy_registered {out : Outcome Allocation} {node : String}
    (h : isGuest (afterCopy out node) out.result.resource.name out.result.resource.id) :
    Run (stepWith smallPython smallDigests out.result.resource.name out.result.resource.id)
      (beforeCopy.applyAll out.ops) [ownSource node] (afterCopy out node) :=
  .cons ⟨rfl, h⟩ (.nil _)

theorem copyCall_request : copyCall.request smallPython beforeCopy = .ok smallCopyRequest := by
  have h : (copyCall.request smallPython beforeCopy).toOption = some smallCopyRequest := by decide +kernel
  exact toOption_eq_some.mp h

theorem allocation_retries_small : ∃ reg' policy current,
    reg'.resourceFiles.get? (.staging 1 1) = some current ∧
    (copyCall.run smallPython smallDigests reg' 3 1 = .ok ⟨[], false, current⟩ ↔
      copyCall.Allowed policy reg') := by
  obtain ⟨out, hout, hname, hguest, -, -⟩ := copyCall_outcome
  obtain ⟨policy, current, -, hcurrent, -, hretry, -⟩ := allocation_retries
    (run_afterAll smallPython smallDigests {} _) rfl copyCall_request smallCopyRequest_unique hout
    (copy_registered hguest)
  rw [hname] at hcurrent
  exact ⟨_, policy, current, hcurrent, hretry 3 1⟩

/-- A copy's call fails when its source has been moved to the copy's node. -/
theorem moved_source_refuses : ¬ ∀ events later reg reg' (call : AllocateCall) allocationId req id
    clock out id' clock', Run (step smallPython smallDigests) {} events reg →
    call.allocationId = .ok (some allocationId) → call.request smallPython reg = .ok req →
    (∀ req', smallDigests.request req' = smallDigests.request req → req' = req) →
    call.run smallPython smallDigests reg id clock = .ok out →
    Run (stepWith smallPython smallDigests out.result.resource.name out.result.resource.id)
      (reg.applyAll out.ops) later reg' →
    ∃ current, reg'.resourceFiles.get? out.result.resource.name = some current ∧
      call.run smallPython smallDigests reg' id' clock' = .ok ⟨[], false, current⟩ := by
  intro h
  obtain ⟨out, hout, -, -, hguest, hfails⟩ := copyCall_outcome
  obtain ⟨current, -, hretry⟩ := h _ _ _ _ copyCall "copy-1" smallCopyRequest 2 0 out 3 1
    (run_afterAll smallPython smallDigests {} _) rfl copyCall_request smallCopyRequest_unique hout
    (copy_registered hguest)
  rw [hretry] at hfails
  cases hfails

end Bmac.Registry
