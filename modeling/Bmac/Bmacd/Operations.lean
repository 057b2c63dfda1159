import Bmac.Core.Dict
import Bmac.Core.Ids

/-!
# Operations

`bmacd/src/operations.rs` over the types of `bmac-proto/src/operations.rs` and `api.rs`: what a
launch's parameters become, and when two resource locks overlap. The registry was checked when it
loaded, so every lock template it holds parses.
-/

namespace Bmac.Bmacd

open Bmac.Core

inductive Role where
  | viewer | operator | admin
  deriving DecidableEq

namespace Role

def rank : Role → Nat
  | viewer => 0
  | operator => 1
  | admin => 2

/-- As `Debug` writes it. -/
def debug : Role → String
  | viewer => "Viewer"
  | operator => "Operator"
  | admin => "Admin"

end Role

inductive ErrorCode where
  | unauthenticated | forbidden | notFound | invalid | conflict | rateLimited | noQuorum
  | unavailable | internal
  deriving DecidableEq

structure ApiError where
  code : ErrorCode
  message : String
  fieldErrors : Dict String
  deriving DecidableEq

def ApiError.new (code : ErrorCode) (message : String) : ApiError := ⟨code, message, []⟩

/-- A JSON value; a number is its text. -/
inductive Value where
  | null
  | bool (b : Bool)
  | number (text : String)
  | string (text : String)
  | array (items : List Value)
  | object (fields : List (String × Value))

/-! ## The registry -/

inductive OperationKind where
  | script | native
  deriving DecidableEq

inductive ParamType where
  | flag | flagChoice | choice | host | production | staging | guest | integer | hostname
  deriving DecidableEq

structure ParamChoice where
  value : String
  flag : Option String

structure Param where
  id : String
  label : String
  kind : ParamType
  flag : Option String
  required : Bool
  choices : List ParamChoice

/-- Which host runs the job. -/
inductive TargetRule where
  | any
  | duty
  | host (param : String)
  | anyExcept (param : String)
  | owner (param : String)
  | standby (param : String)
  | placement

/-- What happens when a job is interrupted because its host stopped. -/
inductive ResumeRule where
  | never | checkpoint
  deriving DecidableEq

structure Operation where
  id : OperationId
  title : String
  kind : OperationKind
  minRole : Role
  supportsDryRun : Bool
  params : List Param
  locks : List String
  target : TargetRule
  resume : ResumeRule

structure Registry where
  operations : List Operation

def Registry.get (registry : Registry) (id : OperationId) : Option Operation :=
  registry.operations.find? (·.id = id)

/-! ## Parameters -/

/-- A launch's parameters, checked against its operation. -/
structure Prepared where
  args : List String
  summary : Dict String
  locks : List String
  dryRun : Bool

def findParam (operation : Operation) (id : String) : Option Param :=
  operation.params.find? (·.id = id)

/-- Whether a parameter's value goes after the options rather than after a flag. -/
def isPositional (param : Param) : Bool :=
  param.flag.isNone && param.kind != .flag && param.kind != .flagChoice

def isBlank : Value → Bool
  | .null => true
  | .string s => (Text.trim s).isEmpty
  | _ => false

def scalarText : Value → Option String
  | .string s => some (Text.trim s)
  | .number n => some n
  | _ => none

def isHostname (text : String) : Bool :=
  !text.isEmpty && Text.len text ≤ 253 &&
  (Text.split '.' text).all fun label =>
    !label.isEmpty && Text.len label ≤ 63 && !Text.startsWith '-' label &&
    !Text.endsWith '-' label && label.toList.all fun c => Text.isAlphanumeric c || c = '-'

def isInteger (text : String) : Bool :=
  !text.isEmpty && Text.len text ≤ 9 && text.toList.all Text.isDigit && !Text.startsWith '0' text

def canonicalValue (param : Param) (text : String) : Except String String :=
  let found (text : Option String) (why : String) : Except String String :=
    match text with
    | some text => .ok text
    | none => .error why
  match param.kind with
  | .choice =>
    found ((param.choices.find? (·.value = text)).map (·.value)) "not one of the allowed choices"
  | .host => found ((HostSlot.parse text).map (·.text)) "expected mox1 to mox32"
  | .production =>
    found (((GuestName.parse text).filter (·.isProduction)).map (·.text)) "expected prodN"
  | .staging =>
    found (((GuestName.parse text).filter (!·.isProduction)).map (·.text)) "expected stageMprodN"
  | .guest => found ((GuestName.parse text).map (·.text)) "expected prodN or stageMprodN"
  | .integer =>
    found (if isInteger text then some text else none) "expected a positive whole number"
  | .hostname =>
    found (if isHostname text then some (Text.toLower text) else none) "expected a host name"
  | .flag | .flagChoice => .error "expected a single value"

/-- A parameter's text for the summary (`none` when a flag is off) and its arguments. -/
def paramArguments (param : Param) (value : Value) :
    Except String (Option String × List String) :=
  match param.kind with
  | .flag =>
    match value with
    | .bool on =>
      let args := match param.flag, on with
        | some flag, true => [flag]
        | _, _ => []
      .ok (if on then some "yes" else none, args)
    | _ => .error "expected true or false"
  | .flagChoice =>
    match value with
    | .string text =>
      match param.choices.find? (·.value = text) with
      | some choice => .ok (some choice.value, choice.flag.toList)
      | none => .error "not one of the allowed choices"
    | _ => .error "expected a choice"
  | _ =>
    match scalarText value with
    | none => .error "expected a single value"
    | some text => do
      let text ← canonicalValue param text
      match param.flag with
      | some flag => return (some text, [flag, text])
      | none => return (some text, [text])

/-- One part of a lock template. -/
inductive LockPart where
  | literal (text : String)
  | param (id : String) (optional : Bool)

def lockPart (part : String) : Option LockPart :=
  match (Text.stripStart "\x7b" part).bind (Text.stripEnd "\x7d") with
  | some inner =>
    let (id, optional) := match Text.stripEnd "?" inner with
      | some id => (id, true)
      | none => (inner, false)
    if id.isEmpty || !id.toList.all fun c => Text.isLower c || c = '_' then none
    else some (.param id optional)
  | none =>
    if !part.isEmpty && part.toList.all fun c => Text.isLower c || Text.isDigit c || c = '-' then
      some (.literal part)
    else none

def lockParts (template : String) : Option (List LockPart) :=
  (Text.split ':' template).mapM lockPart

/-- The parts of a lock's name; an absent optional parameter ends the name there, so the lock
covers the whole class. -/
def lockName (summary : Dict String) : List LockPart → List String
  | [] => []
  | .literal text :: rest => text :: lockName summary rest
  | .param id _ :: rest =>
    match summary.get? id with
    | some value => value :: lockName summary rest
    | none => []

def resolveLock (template : String) (summary : Dict String) : String :=
  Text.join ":" (lockName summary ((lockParts template).getD []))

/-- What `prepare` has gathered while it goes through the parameters. -/
structure Gathered where
  fieldErrors : Dict String
  options : List String
  positional : List String
  summary : Dict String

def gather (values : Dict Value) (g : Gathered) (param : Param) : Gathered :=
  match (values.get? param.id).filter (!isBlank ·) with
  | none =>
    if param.required then { g with fieldErrors := g.fieldErrors.insert param.id "required" } else g
  | some value =>
    match paramArguments param value with
    | .error why => { g with fieldErrors := g.fieldErrors.insert param.id why }
    | .ok (none, _) => g
    | .ok (some text, args) =>
      -- The scripts don't all accept `--`, so a value that looks like an option is refused.
      if isPositional param && Text.startsWith '-' text then
        { g with fieldErrors := g.fieldErrors.insert param.id "may not start with '-'" }
      else if isPositional param then
        { g with positional := g.positional ++ args, summary := g.summary.insert param.id text }
      else { g with options := g.options ++ args, summary := g.summary.insert param.id text }

def invalidLaunch (operation : Operation) (fieldErrors : Dict String) : ApiError :=
  let message := match fieldErrors with
    | [(id, why)] =>
      let label := ((findParam operation id).map (·.label)).getD id
      s!"{label}: {why}"
    | _ => "some parameters need attention"
  ⟨.invalid, message, fieldErrors⟩

/-- Checks `values` against `operation` and builds its arguments and locks. -/
def prepare (operation : Operation) (values : Dict Value) (dryRun : Bool) :
    Except ApiError Prepared :=
  let unknown : Dict String := values.foldl (fun errors (key, _) =>
    if (findParam operation key).isNone then
      errors.insert key "not a parameter of this operation"
    else errors) []
  if dryRun && !operation.supportsDryRun then
    .error ⟨.invalid, s!"{operation.title} has no dry run", unknown⟩
  else
    let g := operation.params.foldl (gather values) ⟨unknown, [], [], []⟩
    if !g.fieldErrors.isEmpty then .error (invalidLaunch operation g.fieldErrors)
    else
      let dry := if dryRun && operation.kind = .script then ["--dry-run"] else []
      .ok {
        args := g.options ++ dry ++ g.positional
        summary := g.summary
        locks := operation.locks.map (resolveLock · g.summary)
        dryRun := dryRun }

/-! ## Locks -/

/-- Whether two locks cover a common resource: they are equal, or one is a parent of the other. -/
def locksConflict (a b : String) : Bool :=
  let (short, long) := if Text.len a ≤ Text.len b then (a, b) else (b, a)
  long == short || (Text.stripStart short long).any (Text.startsWith ':')

end Bmac.Bmacd
