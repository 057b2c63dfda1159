import Bmac.Base.Checks
import Bmac.Bmacd.Operations

/-!
# The registry's checks

`Registry::new` of `bmacd/src/operations.rs`: what a declared operation must be like before the
registry takes it. Labels of choices, categories and notes are left out.
-/

namespace Bmac.Bmacd

open Bmac.Core

def lockClasses : List String :=
  ["capacity", "cluster-membership", "host", "production", "staging", "qdevice", "storage", "backups",
    "restore", "update"]

def dryRunFlag : String := "--dry-run"

def reservedFlags : List String := ["--json", dryRunFlag]

/-! ## Declarations -/

/-- As `Debug` writes it. -/
def ParamType.debug : ParamType → String
  | flag => "Flag"
  | flagChoice => "FlagChoice"
  | choice => "Choice"
  | host => "Host"
  | production => "Production"
  | staging => "Staging"
  | guest => "Guest"
  | integer => "Integer"
  | hostname => "Hostname"

def ParamType.namesAResource : ParamType → Bool
  | host | production | staging | guest => true
  | _ => false

inductive ParamSuggest where
  | freeHostSlots

structure ParamDecl extends Param where
  default : Option Value
  suggest : Option ParamSuggest

inductive CancelRule where
  | script
  | phases (notDuring : List String)

def CancelRule.isScript : CancelRule → Bool
  | script => true
  | phases _ => false

/-- An operation as it is declared. -/
structure OperationDecl where
  id : OperationId
  title : String
  summary : String
  description : String
  kind : OperationKind
  script : Option String
  minRole : Role
  mutating : Bool
  destructive : Bool
  supportsDryRun : Bool
  params : List ParamDecl
  locks : List String
  target : TargetRule
  cancel : CancelRule
  resume : ResumeRule

def OperationDecl.operation (decl : OperationDecl) : Operation where
  id := decl.id
  title := decl.title
  kind := decl.kind
  minRole := decl.minRole
  supportsDryRun := decl.supportsDryRun
  params := decl.params.map (·.toParam)
  locks := decl.locks
  target := decl.target
  resume := decl.resume

/-! ## Parameters -/

def isIdentifier (text : String) : Bool :=
  !text.isEmpty && Text.len text ≤ 64 && text.toList.head?.any Text.isLower &&
    text.toList.all fun c => Text.isLower c || Text.isDigit c || c = '_'

def addFlag (script : Bool) (flags : List String) (flag : Option String) :
    Except String (List String) :=
  match flag with
  | none => .ok flags
  | some flag => do
    if !script then throw s!"native operations have no flags ({flag})"
    let name := (Text.stripStart "--" flag).getD ""
    if name.isEmpty || !name.toList.all fun c => Text.isLower c || Text.isDigit c || c = '-' then
      throw s!"bad flag {flag.quote}"
    if flag ∈ reservedFlags then throw s!"{flag} is reserved"
    if flag ∈ flags then throw s!"flag {flag} used twice"
    return flags ++ [flag]

def checkChoiceDecl (script : Bool) (param : ParamDecl) (seen : List String × List String)
    (choice : ParamChoice) : Except String (List String × List String) := do
  let (values, flags) := seen
  if choice.value ∈ values then throw s!"{param.id}: choice {choice.value} listed twice"
  if param.kind = .flagChoice then
    if script ∧ choice.flag.isNone then throw s!"{param.id}: choice {choice.value} has no flag"
    return (values ++ [choice.value], ← addFlag script flags choice.flag)
  else if choice.flag.isSome then throw s!"{param.id}: only flag_choice choices have flags"
  else return (values ++ [choice.value], flags)

def checkParam (script : Bool) (seen : List String × List String) (param : ParamDecl) :
    Except String (List String × List String) := do
  let (ids, flags) := seen
  let id := param.id
  if !isIdentifier id then throw s!"bad parameter id {id.quote}"
  if id ∈ ids then throw s!"parameter {id} declared twice"
  if (Text.trim param.label).isEmpty then throw s!"{id}: empty label"
  let flags ← addFlag script flags param.flag
  let hasChoices := param.kind = .choice ∨ param.kind = .flagChoice
  if hasChoices ↔ param.choices.isEmpty then
    throw s!"{id}: choices go with choice parameters, and only them"
  let (_, flags) ← param.choices.foldlM (checkChoiceDecl script param) ([], flags)
  if param.kind = .flagChoice ∧ param.flag.isSome then
    throw s!"{id}: a flag_choice's flags are on its choices"
  if param.kind = .flag ∧ script ∧ param.flag.isNone then
    throw s!"{id}: a script flag needs a flag"
  if param.suggest.isSome ∧ param.kind ≠ .host then
    throw s!"{id}: only host parameters take suggestions"
  match param.default with
  | none => return (ids ++ [id], flags)
  | some default =>
    if param.required then throw s!"{id}: a required parameter has no default"
    let _ ← (paramArguments param.toParam default).mapError fun why => s!"{id}: default: {why}"
    return (ids ++ [id], flags)

def checkParams (decl : OperationDecl) (script : Bool) : Except String Unit := do
  let _ ← decl.params.foldlM (checkParam script) ([], [])

/-! ## Locks -/

/-- `lock_parts`, with why a template is none. -/
def checkLockParts (template : String) : Except String (List LockPart) :=
  (Text.split ':' template).mapM fun part =>
    match lockPart part with
    | some parsed => .ok parsed
    | none =>
      if ((Text.stripStart "\x7b" part).bind (Text.stripEnd "\x7d")).isSome then
        .error s!"lock {template.quote}: bad parameter {part.quote}"
      else .error s!"lock {template.quote}: bad part {part.quote}"

def checkLockPart (decl : OperationDecl) (template : String) : LockPart → Except String Unit
  | .literal _ => .ok ()
  | .param id optional =>
    match decl.params.find? (·.id = id) with
    | none => .error s!"lock {template.quote}: no parameter {id}"
    | some param =>
      if !param.kind.namesAResource then
        .error s!"lock {template.quote}: {id} doesn't name a resource"
      else if !optional && !param.required then
        .error (s!"lock {template.quote}: {id} is optional, so write " ++ "\x7b" ++ id ++ "?\x7d")
      else .ok ()

def checkLock (decl : OperationDecl) (seen : List String) (template : String) :
    Except String (List String) := do
  let parts ← checkLockParts template
  match parts.head? with
  | some (.literal cls) => if cls ∉ lockClasses then throw s!"lock {template.quote}: unknown class"
  | _ => throw s!"lock {template.quote}: unknown class"
  parts.forM (checkLockPart decl template)
  if template ∈ seen then throw s!"lock {template.quote} listed twice"
  return seen ++ [template]

def checkLocks (decl : OperationDecl) : Except String Unit := do
  let _ ← decl.locks.foldlM (checkLock decl) []

/-! ## The rest -/

def checkTarget (decl : OperationDecl) : Except String Unit :=
  let check (id : String) (kinds : List ParamType) : Except String Unit :=
    match decl.params.find? (·.id = id) with
    | none => .error s!"target: no parameter {id}"
    | some param =>
      if param.kind ∉ kinds ∨ !param.required then
        let names := "[" ++ Text.join ", " (kinds.map (·.debug)) ++ "]"
        .error s!"target: {id} must be a required {names} parameter"
      else .ok ()
  match decl.target with
  | .any | .duty | .placement => .ok ()
  | .host param | .anyExcept param => check param [.host]
  | .owner param => check param [.production, .staging, .guest]
  | .standby param => check param [.production]

def isSafeRelativeScript (path : String) : Bool :=
  (Text.stripEnd ".sh" path).isSome &&
    (Text.split '/' path).all fun part =>
      !part.isEmpty && part ≠ "." && part ≠ ".." &&
        part.toList.all fun c => Text.isAlphanumeric c || c = '_' || c = '-' || c = '.'

/-- The checks of `check_operation` before those of its parameters, locks and target. -/
def checkRules (decl : OperationDecl) : Except String Unit := do
  for (name, text) in [("title", decl.title), ("summary", decl.summary),
      ("description", decl.description)] do
    if (Text.trim text).isEmpty then throw s!"empty {name}"
  let script : Bool := decl.kind = .script
  match decl.script, script with
  | some path, true =>
    if !isSafeRelativeScript path then throw s!"unsafe script path {path.quote}"
  | none, true => throw "a script operation needs a script"
  | some _, false => throw "a native operation has no script"
  | none, false => pure ()
  if decl.destructive && !decl.mutating then throw "destructive but not mutating"
  if decl.destructive ∧ decl.minRole ≠ .admin then
    throw "destructive operations are for administrators"
  if decl.mutating ∧ decl.minRole = .viewer then throw "viewers can't start a mutating operation"
  if !decl.mutating && (!decl.locks.isEmpty || decl.supportsDryRun) then
    throw "a read-only operation takes no locks and has no dry run"
  if decl.mutating && decl.locks.isEmpty then throw "a mutating operation needs at least one lock"
  if script ∧ decl.resume ≠ .never then throw "script operations are never resumed"
  if script ≠ decl.cancel.isScript then
    throw "script operations, and only they, take the script's cancel rule"

def checkOperation (decl : OperationDecl) : Except String Unit := do
  checkRules decl
  checkParams decl (decl.kind = .script)
  checkLocks decl
  checkTarget decl

def addOperation (ids : List String) (decl : OperationDecl) : Except String (List String) := do
  if decl.id ∈ ids then throw s!"{decl.id}: duplicate operation"
  (checkOperation decl).mapError fun why => s!"{decl.id}: {why}"
  return ids ++ [decl.id]

def Registry.new (decls : List OperationDecl) : Except String Registry := do
  let _ ← decls.foldlM addOperation []
  return ⟨decls.map (·.operation)⟩

/-! ## What the registry takes -/

section

variable {script : Bool} {decl : OperationDecl}

/-- None of the flags is reserved. -/
def Unreserved (flag : Option String) : Prop := ∀ f ∈ flag, f ∉ reservedFlags

theorem unreserved_of_addFlag {flags flags' : List String} {flag : Option String}
    (h : addFlag script flags flag = .ok flags') : Unreserved flag := by
  unfold addFlag at h
  cases flag with
  | none => exact fun _ hnone => nomatch hnone
  | some flag =>
    dsimp only at h
    rw [Base.check_eq_ok, Base.check_eq_ok, Base.check_eq_ok] at h
    obtain ⟨-, -, hreserved, -⟩ := h
    intro f hf
    cases hf
    exact hreserved

variable {seen seen' : List String × List String}

theorem unreserved_of_checkChoiceDecl {param : ParamDecl} {choice : ParamChoice}
    (h : checkChoiceDecl script param seen choice = .ok seen') : Unreserved choice.flag := by
  unfold checkChoiceDecl at h
  dsimp only at h
  rw [Base.check_eq_ok] at h
  obtain ⟨-, h⟩ := h
  split at h
  · rw [Base.check_eq_ok, Base.bind_eq_ok] at h
    obtain ⟨-, flags, hadd, -⟩ := h
    exact unreserved_of_addFlag hadd
  · rw [Base.last_check_eq_ok, Option.isSome_iff_ne_none, not_not] at h
    rw [h.1]
    exact fun _ hnone => nomatch hnone

/-- A loop of checks whose passes go well passes each element. -/
theorem forall_of_foldlM {σ α : Type} {f : σ → α → Except String σ} {P : α → Prop}
    (hstep : ∀ s a s', f s a = .ok s' → P a) {s t : σ} {xs : List α} (h : xs.foldlM f s = .ok t) :
    ∀ x ∈ xs, P x := by
  induction xs generalizing s with
  | nil => exact fun x hx => nomatch hx
  | cons a xs ih =>
    obtain ⟨u, hu, hrest⟩ := Base.foldlM_cons_eq_ok.mp h
    intro x hx
    rcases List.mem_cons.mp hx with rfl | hx
    · exact hstep _ _ _ hu
    · exact ih hrest x hx

/-- A parameter has a new id, and its flags and those of its choices aren't reserved. -/
theorem checkParam_eq_ok {param : ParamDecl} (h : checkParam script seen param = .ok seen') :
    param.id ∉ seen.1 ∧ seen'.1 = seen.1 ++ [param.id] ∧ Unreserved param.flag ∧
      ∀ choice ∈ param.choices, Unreserved choice.flag := by
  unfold checkParam at h
  obtain ⟨ids, flags⟩ := seen
  dsimp only at h
  rw [Base.check_eq_ok, Base.check_eq_ok, Base.check_eq_ok, Base.bind_eq_ok] at h
  obtain ⟨-, hnew, -, flags', hflag, h⟩ := h
  rw [Base.check_eq_ok, Base.bind_eq_ok] at h
  obtain ⟨-, chosen, hchosen, h⟩ := h
  rw [Base.check_eq_ok, Base.check_eq_ok, Base.check_eq_ok] at h
  obtain ⟨-, -, -, h⟩ := h
  have hchoices : ∀ choice ∈ param.choices, Unreserved choice.flag := by
    refine forall_of_foldlM (P := fun choice : ParamChoice => Unreserved choice.flag) ?_ hchosen
    exact fun _ _ _ => unreserved_of_checkChoiceDecl
  refine ⟨hnew, ?_, unreserved_of_addFlag hflag, hchoices⟩
  split at h
  · cases Base.pure_eq_ok.mp h
    rfl
  · rw [Base.check_eq_ok, Base.bind_eq_ok] at h
    obtain ⟨-, -, -, h⟩ := h
    cases Base.pure_eq_ok.mp h
    rfl

theorem checkParams_loop {params : List ParamDecl}
    (h : params.foldlM (checkParam script) seen = .ok seen') (hseen : seen.1.Nodup) :
    (seen.1 ++ params.map (·.id)).Nodup := by
  induction params generalizing seen with
  | nil => rwa [List.map_nil, List.append_nil]
  | cons param rest ih =>
    obtain ⟨seen'', hparam, hrest⟩ := Base.foldlM_cons_eq_ok.mp h
    obtain ⟨hnew, hids, -⟩ := checkParam_eq_ok hparam
    have hnodup := ih hrest (by
      rw [hids]
      exact List.nodup_append.mpr ⟨hseen, List.nodup_singleton _,
        fun a ha b hb hab => hnew (List.mem_singleton.mp hb ▸ hab ▸ ha)⟩)
    rwa [hids, List.append_assoc, List.singleton_append] at hnodup

theorem checkParams_eq_ok (h : checkParams decl script = .ok ()) :
    (decl.params.map (·.id)).Nodup ∧ ∀ param ∈ decl.params, Unreserved param.flag ∧
      ∀ choice ∈ param.choices, Unreserved choice.flag := by
  unfold checkParams at h
  rw [Base.bind_eq_ok] at h
  obtain ⟨seen, hloop, -⟩ := h
  refine ⟨checkParams_loop hloop List.nodup_nil, ?_⟩
  refine forall_of_foldlM (P := fun param : ParamDecl => Unreserved param.flag ∧
    ∀ choice ∈ param.choices, Unreserved choice.flag) ?_ hloop
  exact fun _ _ _ hparam => (checkParam_eq_ok hparam).2.2

theorem checkLockParts_eq_ok {template : String} {parts : List LockPart}
    (h : checkLockParts template = .ok parts) : lockParts template = some parts := by
  unfold checkLockParts at h
  unfold lockParts
  rw [Base.mapM_eq_ok_iff] at h
  generalize Text.split ':' template = texts at h
  induction h with
  | nil => rfl
  | @cons text part texts parts hpart _ ih =>
    rw [List.mapM_cons, ih]
    cases hlock : lockPart text with
    | none =>
      rw [hlock] at hpart
      dsimp only at hpart
      split at hpart <;> cases hpart
    | some parsed =>
      rw [hlock] at hpart
      cases hpart
      rfl

theorem checkLock_eq_ok {template : String} {seen seen' : List String}
    (h : checkLock decl seen template = .ok seen') :
    ∃ cls rest, lockParts template = some (.literal cls :: rest) := by
  unfold checkLock at h
  rw [Base.bind_eq_ok] at h
  obtain ⟨parts, hparts, h⟩ := h
  cases parts with
  | nil =>
    rw [List.head?_nil] at h
    cases h
  | cons first rest =>
    cases first with
    | literal cls => exact ⟨cls, rest, checkLockParts_eq_ok hparts⟩
    | param id optional =>
      rw [List.head?_cons] at h
      cases h

/-- What the registry's checks leave of a declaration. -/
structure OperationDecl.Checked (decl : OperationDecl) : Prop where
  ids : (decl.params.map (·.id)).Nodup
  flags : ∀ param ∈ decl.params, Unreserved param.flag ∧
    ∀ choice ∈ param.choices, Unreserved choice.flag
  locks : ∀ template ∈ decl.locks, ∃ cls rest, lockParts template = some (.literal cls :: rest)

theorem checkOperation_eq_ok (h : checkOperation decl = .ok ()) : decl.Checked := by
  unfold checkOperation at h
  rw [Base.bind_eq_ok] at h
  obtain ⟨-, -, h⟩ := h
  rw [Base.bind_eq_ok] at h
  obtain ⟨⟨⟩, hparams, h⟩ := h
  rw [Base.bind_eq_ok] at h
  obtain ⟨⟨⟩, hlocks, -⟩ := h
  obtain ⟨hids, hflags⟩ := checkParams_eq_ok hparams
  refine ⟨hids, hflags, ?_⟩
  unfold checkLocks at hlocks
  rw [Base.bind_eq_ok] at hlocks
  obtain ⟨seen, hloop, -⟩ := hlocks
  refine forall_of_foldlM (P := fun template : String => ∃ cls rest,
    lockParts template = some (.literal cls :: rest)) ?_ hloop
  exact fun _ _ _ => checkLock_eq_ok

theorem checked_of_new {decls : List OperationDecl} {registry : Registry}
    (h : Registry.new decls = .ok registry) (hmem : decl ∈ decls) : decl.Checked := by
  unfold Registry.new at h
  rw [Base.bind_eq_ok] at h
  obtain ⟨ids, hloop, -⟩ := h
  refine forall_of_foldlM (P := OperationDecl.Checked) (fun ids decl ids' hadd => ?_) hloop decl hmem
  unfold addOperation at hadd
  rw [Base.check_eq_ok, Base.bind_eq_ok] at hadd
  obtain ⟨-, ⟨⟩, hchecked, -⟩ := hadd
  exact checkOperation_eq_ok (Base.mapError_eq_ok.mp hchecked)

end

end Bmac.Bmacd
