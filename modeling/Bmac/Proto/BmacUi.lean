import Bmac.Bmacd.Jobs

/-!
# The `bmac-ui` protocol

`bmac-proto/src/bmac_ui.rs` over the types of `bmac-core/src/job.rs`: the events a script writes, the
job events they become, and the check of an answer against its request. A line has been parsed and
validated. The four request events are one constructor with the form they carry. Floating-point
numbers are their text, so the check of one value is a parameter.
-/

namespace Bmac.Proto

open Bmac.Core Bmac.Bmacd

def protocolName : String := "bmac-ui"
def protocolVersion : Nat := 2
def redacted : String := "[redacted]"
def maxText : Nat := 64 * 1024

/-- Cuts text to `maxText` bytes on a character boundary and marks it. -/
def truncate (text : String) : String :=
  if Text.len text ≤ maxText then text
  else String.ofList (Text.fit maxText text.toList) ++ " ...(truncated)"

/-! ## Types -/

inductive FieldType where
  | string | multiline | integer | number | boolean | password | select | multiselect | hostname
  | ipAddress | cidr | macAddress | path | file | directory | sshPublicKey | duration | bytes
  deriving DecidableEq

/-- As JSON has it. -/
def FieldType.word : FieldType → String
  | string => "string"
  | multiline => "multiline"
  | integer => "integer"
  | number => "number"
  | boolean => "boolean"
  | password => "password"
  | select => "select"
  | multiselect => "multiselect"
  | hostname => "hostname"
  | ipAddress => "ip_address"
  | cidr => "cidr"
  | macAddress => "mac_address"
  | path => "path"
  | file => "file"
  | directory => "directory"
  | sshPublicKey => "ssh_public_key"
  | duration => "duration"
  | bytes => "bytes"

structure FieldOption where
  value : String
  label : String
  help : Option String

structure FileFilter where
  name : String
  extensions : List String

structure Field where
  id : String
  kind : FieldType
  label : String
  help : Option String
  required : Bool
  default : Option Value
  placeholder : Option String
  suffix : Option String
  min : Option String
  max : Option String
  minSelected : Option Nat
  maxSelected : Option Nat
  pattern : Option String
  sensitive : Bool
  disabled : Bool
  options : List FieldOption
  filters : List FileFilter

def Field.isSensitive (field : Field) : Bool := field.sensitive || field.kind = .password

inductive Severity where
  | normal | warning | destructive | critical
  deriving DecidableEq

def Severity.word : Severity → String
  | normal => "normal"
  | warning => "warning"
  | destructive => "destructive"
  | critical => "critical"

inductive PhaseStatus where
  | pending | running | complete | failed | skipped
  deriving DecidableEq

def PhaseStatus.word : PhaseStatus → String
  | pending => "pending"
  | running => "running"
  | complete => "complete"
  | failed => "failed"
  | skipped => "skipped"

inductive LogLevel where
  | debug | info | warning | error
  deriving DecidableEq

def LogLevel.word : LogLevel → String
  | debug => "debug"
  | info => "info"
  | warning => "warning"
  | error => "error"

inductive PlanKind where
  | create | update | remove | keep | check
  deriving DecidableEq

def PlanKind.word : PlanKind → String
  | create => "create"
  | update => "update"
  | remove => "remove"
  | keep => "keep"
  | check => "check"

structure PlanItem where
  kind : PlanKind
  target : String
  description : String

inductive Instruction where
  | text (text : String)
  | withCopy (text copy : String) (runOn : Option String)

/-- What a request asks of the operator. -/
inductive RequestForm where
  | input (title description context : Option String) (field : Field)
  | inputGroup (title : String) (description context layout : Option String) (fields : List Field)
  | confirm (title message : String) (severity : Severity)
      (confirmLabel cancelLabel confirmationText context : Option String) (details : List String)
  | manualAction (title : String) (instructions : List Instruction)
      (acknowledgeLabel context : Option String)

inductive Answer where
  | values (values : Dict Value)
  | confirm (confirmed : Bool)
  | acknowledge
  | cancel

def Answer.isCancel : Answer → Bool
  | cancel => true
  | _ => false

inductive CompletedStatus where
  | success | failed | cancelled
  deriving DecidableEq

def CompletedStatus.word : CompletedStatus → String
  | success => "success"
  | failed => "failed"
  | cancelled => "cancelled"

inductive WorkflowEvent where
  | protocol (protocol : String) (version : Nat) (bmacVersion : Option String)
  | workflowStarted (workflow runId : String) (script : Option String) (argv : List String)
      (pid : Option Nat) (startedAt : Option String)
  | workflowMetadata (workflow title description category : Option String)
      (destructive supportsDryRun supportsCancel : Option Bool)
  | request (requestId : String) (form : RequestForm)
  | progress (message : String) (current total unit in_ : Option String)
  | phase (id label : String) (status : PhaseStatus) (cancelAllowed : Option Bool)
  | plan (title : String) (description : Option String) (items : List PlanItem) (dryRun : Bool)
  | info (message : String)
  | warning (message : String)
  | error (code : Option String) (message : String) (details : Option String) (recoverable : Bool)
  | validationError (requestId : String) (fieldErrors : Dict String) (message : Option String)
  | log (stream : Option String) (level : LogLevel) (text : String) (source : Option String)
  | result (data : Value)
  | nextStep (text : String) (command workflow : Option String) (args : Option (Dict String))
  | completed (status : CompletedStatus) (message : Option String) (exitCode : Option Int)
      (finishedAt : Option String)

/-- The body of a job event. -/
inductive EventBody where
  | started (operation : OperationId) (host : HostSlot) (user : String) (dryRun : Bool)
  | phase (id label : String) (status : PhaseStatus) (cancelAllowed : Option Bool)
  | plan (title : String) (description : Option String) (items : List PlanItem) (dryRun : Bool)
  | request (requestId : String) (form : RequestForm)
  | answered (requestId by_ : String) (values : Option (Dict Value))
  | validationError (requestId : String) (fieldErrors : Dict String) (message : Option String)
  | progress (message : String) (current total unit in_ : Option String)
  | output (stream : Option String) (level : LogLevel) (text : String) (source : Option String)
  | warning (message : String)
  | result (data : Value)
  | nextStep (text : String) (operation : Option OperationId) (args : Dict String)
  | completed (message : Option String)
  | failed (code : Option String) (message : String) (details : Option String)
  | cancelled (by_ message : Option String)
  | interrupted (message : String)

def EventBody.state : EventBody → Option JobState
  | started _ _ _ _ => some .running
  | completed _ => some .completed
  | failed _ _ _ => some .failed
  | cancelled _ _ => some .cancelled
  | interrupted _ => some .interrupted
  | _ => none

structure JobEvent where
  job : JobId
  seq : Nat
  /-- On the host that recorded it. -/
  atMs : Int
  body : EventBody

/-- Whether the event ends a job: completed, failed or cancelled. -/
def JobEvent.terminal (event : JobEvent) : Bool := event.body.state.any (·.isTerminal)

/-! ## The texts of an event

Its JSON's strings: those that are free text, and the words of its tag and its enumerations. Numbers
are no strings.
-/

mutual

def mapTexts (f : String → String) : Value → Value
  | .string s => .string (f s)
  | .array items => .array (mapItems f items)
  | .object fields => .object (mapFields f fields)
  | .null => .null
  | .bool b => .bool b
  | .number n => .number n

def mapItems (f : String → String) : List Value → List Value
  | [] => []
  | item :: rest => mapTexts f item :: mapItems f rest

def mapFields (f : String → String) : List (String × Value) → List (String × Value)
  | [] => []
  | (key, value) :: rest => (key, mapTexts f value) :: mapFields f rest

end

section

variable (f : String → String)

@[simp] theorem mapTexts_string (s : String) : mapTexts f (.string s) = .string (f s) := rfl

@[simp] theorem mapTexts_array (items : List Value) : mapTexts f (.array items) = .array (mapItems f items) := rfl

@[simp] theorem mapTexts_object (fields : List (String × Value)) :
    mapTexts f (.object fields) = .object (mapFields f fields) := rfl

@[simp] theorem mapTexts_null : mapTexts f .null = .null := rfl

@[simp] theorem mapTexts_bool (b : Bool) : mapTexts f (.bool b) = .bool b := rfl

@[simp] theorem mapTexts_number (n : String) : mapTexts f (.number n) = .number n := rfl

theorem mapItems_cons (item : Value) (rest : List Value) :
    mapItems f (item :: rest) = mapTexts f item :: mapItems f rest := rfl

@[simp] theorem mapFields_nil : mapFields f [] = [] := rfl

@[simp] theorem mapFields_cons (key : String) (value : Value) (rest : List (String × Value)) :
    mapFields f ((key, value) :: rest) = (key, mapTexts f value) :: mapFields f rest := rfl

end

def Field.mapTexts (f : String → String) (field : Field) : Field :=
  { field with
    id := f field.id
    label := f field.label
    help := field.help.map f
    default := field.default.map (Proto.mapTexts f)
    placeholder := field.placeholder.map f
    suffix := field.suffix.map f
    pattern := field.pattern.map f
    options := field.options.map fun o => ⟨f o.value, f o.label, o.help.map f⟩
    filters := field.filters.map fun x => ⟨f x.name, x.extensions.map f⟩ }

def Instruction.mapTexts (f : String → String) : Instruction → Instruction
  | text t => text (f t)
  | withCopy t copy runOn => withCopy (f t) (f copy) (runOn.map f)

def RequestForm.mapTexts (f : String → String) : RequestForm → RequestForm
  | input title description context field =>
    input (title.map f) (description.map f) (context.map f) (field.mapTexts f)
  | inputGroup title description context layout fields =>
    inputGroup (f title) (description.map f) (context.map f) (layout.map f)
      (fields.map (·.mapTexts f))
  | confirm title message severity confirmLabel cancelLabel confirmationText context details =>
    confirm (f title) (f message) severity (confirmLabel.map f) (cancelLabel.map f)
      (confirmationText.map f) (context.map f) (details.map f)
  | manualAction title instructions acknowledgeLabel context =>
    manualAction (f title) (instructions.map (·.mapTexts f)) (acknowledgeLabel.map f) (context.map f)

def RequestForm.words : RequestForm → List String
  | input _ _ _ field => ["input", field.kind.word]
  | inputGroup _ _ _ _ fields => "input_group" :: fields.map (·.kind.word)
  | confirm _ _ severity _ _ _ _ _ => ["confirm", severity.word]
  | manualAction _ _ _ _ => ["manual_action"]

namespace WorkflowEvent

def mapTexts (f : String → String) : WorkflowEvent → WorkflowEvent
  | protocol name version bmacVersion => protocol (f name) version (bmacVersion.map f)
  | workflowStarted workflow runId script argv pid startedAt =>
    workflowStarted (f workflow) (f runId) (script.map f) (argv.map f) pid (startedAt.map f)
  | workflowMetadata workflow title description category destructive supportsDryRun supportsCancel =>
    workflowMetadata (workflow.map f) (title.map f) (description.map f) (category.map f) destructive
      supportsDryRun supportsCancel
  | request id form => request (f id) (form.mapTexts f)
  | progress message current total unit in_ =>
    progress (f message) current total (unit.map f) (in_.map f)
  | phase id label status cancelAllowed => phase (f id) (f label) status cancelAllowed
  | plan title description items dryRun =>
    plan (f title) (description.map f) (items.map fun i => ⟨i.kind, f i.target, f i.description⟩)
      dryRun
  | info message => info (f message)
  | warning message => warning (f message)
  | error code message details recoverable =>
    error (code.map f) (f message) (details.map f) recoverable
  | validationError id fieldErrors message =>
    validationError (f id) (fieldErrors.map fun (key, why) => (key, f why)) (message.map f)
  | log stream level text source => log (stream.map f) level (f text) (source.map f)
  | result data => result (Proto.mapTexts f data)
  | nextStep text command workflow args =>
    nextStep (f text) (command.map f) (workflow.map f)
      (args.map fun args => args.map fun (key, value) => (key, f value))
  | completed status message exitCode finishedAt =>
    completed status (message.map f) exitCode (finishedAt.map f)

def words : WorkflowEvent → List String
  | protocol _ _ _ => ["protocol"]
  | workflowStarted _ _ _ _ _ _ => ["workflow_started"]
  | workflowMetadata _ _ _ _ _ _ _ => ["workflow_metadata"]
  | request _ form => form.words
  | progress _ _ _ _ _ => ["progress"]
  | phase _ _ status _ => ["phase", status.word]
  | plan _ _ items _ => "plan" :: items.map (·.kind.word)
  | info _ => ["info"]
  | warning _ => ["warning"]
  | error _ _ _ _ => ["error"]
  | validationError _ _ _ => ["validation_error"]
  | log _ level _ _ => ["log", level.word]
  | result _ => ["result"]
  | nextStep _ _ _ _ => ["next_step"]
  | completed status _ _ _ => ["completed", status.word]

end WorkflowEvent

/-! ## Events -/

/-- `OperationId::from_str`. -/
def parseOperation (text : String) : Option OperationId :=
  let word (w : String) : Bool :=
    match w.toList with
    | [] => false
    | c :: cs => Text.isLower c && cs.all fun c => Text.isLower c || Text.isDigit c || c = '_'
  if text.isEmpty || 64 < Text.len text || !(Text.split '.' text).all word then none else some text

namespace WorkflowEvent

def requestId : WorkflowEvent → Option String
  | request id _ => some id
  | _ => none

def isRequest (event : WorkflowEvent) : Bool := event.requestId.isSome

def logOf (stream : String) (level : LogLevel) (text : String) (source : Option String) :
    WorkflowEvent :=
  log (some stream) level (truncate text) source

/-- The job event this becomes; the header, start and metadata events become none. -/
def intoJobEvent : WorkflowEvent → Option EventBody
  | request id form => some (.request id form)
  | protocol _ _ _ => none
  | workflowStarted _ _ _ _ _ _ => none
  | workflowMetadata _ _ _ _ _ _ _ => none
  | progress message current total unit in_ => some (.progress message current total unit in_)
  | phase id label status cancelAllowed => some (.phase id label status cancelAllowed)
  | plan title description items dryRun => some (.plan title description items dryRun)
  | info message => some (.output none .info message none)
  | warning message => some (.warning message)
  | error _ message details _ =>
    let text := match details with
      | some details => truncate s!"{message}\n{details}"
      | none => message
    some (.output none .error text none)
  | validationError id fieldErrors message => some (.validationError id fieldErrors message)
  | log stream level text source => some (.output stream level text source)
  | result data => some (.result data)
  | nextStep text _ workflow args => some (.nextStep text (workflow.bind parseOperation) (args.getD []))
  | completed status message _ _ =>
    match status with
    | .success => some (.completed message)
    | .failed => some (.failed none (message.getD "failed") none)
    | .cancelled => some (.cancelled none message)

end WorkflowEvent

/-! ## Answers -/

/-- `check_values`: the checked values, and a copy with secrets redacted. -/
def checkValues (checkFieldValue : Field → Value → Except String Value) (fields : List Field)
    (values : Dict Value) : Except String (Dict Value × Dict Value) := do
  for (key, _) in values do
    if !fields.any (·.id = key) then throw s!"unknown field {key.quote}"
  let mut clean : Dict Value := []
  let mut safe : Dict Value := []
  for field in fields do
    let value ← (checkFieldValue field ((values.get? field.id).getD .null)).mapError
      fun why => s!"{field.label}: {why}"
    let shown := match value with
      | .null => .null
      | value => if field.isSensitive then .string redacted else value
    safe := safe.insert field.id shown
    clean := clean.insert field.id value
  return (clean, safe)

/-- The message for the script, and for values a copy with secrets redacted. -/
def buildResponse (checkFieldValue : Field → Value → Except String Value) (request : WorkflowEvent)
    (answer : Answer) : Except String (Value × Option (Dict Value)) :=
  match request with
  | .request id form =>
    let message (field : String) (value : Value) : Value :=
      .object [("type", .string "response"), ("request_id", .string id), (field, value)]
    match form, answer with
    | _, .cancel => .ok (message "cancelled" (.bool true), none)
    | .input _ _ _ field, .values values => do
      let (clean, safe) ← checkValues checkFieldValue [field] values
      return (message "values" (.object clean), some safe)
    | .inputGroup _ _ _ _ fields, .values values => do
      let (clean, safe) ← checkValues checkFieldValue fields values
      return (message "values" (.object clean), some safe)
    | .confirm _ _ _ _ _ _ _ _, .confirm confirmed => .ok (message "confirmed" (.bool confirmed), none)
    | .manualAction _ _ _ _, .acknowledge => .ok (message "acknowledged" (.bool true), none)
    | _, _ => .error "the response does not match the kind of request"
  | _ => .error "not a request"

end Bmac.Proto
