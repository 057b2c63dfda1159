import Bmac.Proto.BmacUi

/-!
# The supervisor

`bmacd/src/supervisor.rs`: one run of a script, from its start to `finalize`. Each operation on it
takes the lock, with the clock's reading of its moment. What goes to the script, the signals to its
process and the news of a changed view are left out; `stdout` is a line of the script with what
`parse_line` makes of it.
-/

namespace Bmac.Bmacd.Supervisor

open Bmac.Core Bmac.Bmacd Bmac.Proto

def maxResultBytes : Nat := 8 * 1024 * 1024
def maxNextSteps : Nat := 50
def flushEvents : Nat := 256
def minSecret : Nat := 3

/-- What a run takes from outside. -/
structure Config where
  job : JobId
  knownOperation : String → Bool
  /-- The size of a value's JSON. -/
  jsonLen : Value → Nat
  checkFieldValue : Field → Value → Except String Value

/-- How a run ended. -/
structure Outcome where
  state : JobState
  message : Option String
  exitCode : Option Int
  signal : Option Int
  lastSeq : Nat

structure PhaseState where
  id : String
  status : PhaseStatus
  cancelAllowed : Bool
  label : String

structure ActiveRun where
  seq : Nat
  pending : List JobEvent
  awaiting : Option WorkflowEvent
  pendingRequest : Option WorkflowEvent
  secrets : List String
  protocolOk : Bool
  protocolFailure : Option String
  supportsCancel : Bool
  completed : Option (CompletedStatus × Option String)
  unparsedWarned : Bool
  phases : List PhaseState
  activity : Option String
  /-- A cancel, and whether it is forced. -/
  cancel : Option Bool
  nextSteps : List (String × Option String)

namespace ActiveRun

/-- A run whose first event has the number `firstSeq`. -/
def start (firstSeq : Nat) : ActiveRun where
  seq := firstSeq - 1
  pending := []
  awaiting := none
  pendingRequest := none
  secrets := []
  protocolOk := false
  protocolFailure := none
  supportsCancel := true
  completed := none
  unparsedWarned := false
  phases := []
  activity := some "Starting"
  cancel := none
  nextSteps := []

/-- `RunView::cancel_allowed`. -/
def cancelAllowed (run : ActiveRun) : Bool :=
  run.supportsCancel && !run.phases.any fun p => p.status = .running && !p.cancelAllowed

end ActiveRun

/-! ## Events -/

/-- One text without the secrets. -/
def redact (secrets : List String) (text : String) : String :=
  secrets.foldl (fun text secret => Text.replace secret redacted text) text

/-- The event without the secrets; one whose tag or enumerations have a secret doesn't decode any
more and stays as it is. -/
def scrub (secrets : List String) (event : WorkflowEvent) : WorkflowEvent :=
  if secrets.isEmpty then event
  else if event.words.all fun word => redact secrets word = word then event.mapTexts (redact secrets)
  else event

abbrev Delivered := ActiveRun × List (List JobEvent)

def push (config : Config) (nowMs : Int) (run : ActiveRun) (body : EventBody) (urgent : Bool) :
    Delivered :=
  let pending := run.pending ++ [⟨config.job, run.seq + 1, nowMs, body⟩]
  if urgent || flushEvents ≤ pending.length then
    ({ run with seq := run.seq + 1, pending := [] }, [pending])
  else ({ run with seq := run.seq + 1, pending := pending }, [])

def isStderr : WorkflowEvent → Bool
  | .log (some stream) _ _ _ => stream = "stderr"
  | _ => false

/-- Checks the first event that the script's protocol must begin with; none if the run goes on with
the event. -/
def header (run : ActiveRun) (event : WorkflowEvent) : Option ActiveRun :=
  if !run.protocolOk && run.protocolFailure.isNone && !isStderr event then
    match event with
    | .protocol name version _ =>
      if name = protocolName && version = protocolVersion then
        some { run with protocolOk := true, activity := some "Running" }
      else
        let why := s!"The script speaks {name} version {version}; BMAC supports {protocolName} " ++
          s!"version {protocolVersion}."
        some { run with protocolFailure := some why }
    | _ =>
      let why := "The script did not begin with a bmac-ui protocol event, so its output cannot be " ++
        "trusted."
      some { run with protocolFailure := some why }
  else none

def setPhase (phases : List PhaseState) (phase : PhaseState) : List PhaseState :=
  match phases with
  | [] => [phase]
  | p :: rest => if p.id = phase.id then phase :: rest else p :: setPhase rest phase

/-- `apply`: updates the run for one event; whether it becomes a job event, and the event. -/
def apply (config : Config) (run : ActiveRun) (event : WorkflowEvent) :
    ActiveRun × WorkflowEvent × Bool :=
  match header run event with
  | some run => (run, event, false)
  | none =>
    match event with
    | .protocol _ _ _ => (run, event, false)
    | .workflowStarted _ _ _ _ _ _ => (run, event, false)
    | .workflowMetadata _ _ _ _ _ _ supportsCancel =>
      ({ run with supportsCancel := run.supportsCancel && supportsCancel ≠ some false }, event, false)
    | .request _ _ => ({ run with pendingRequest := some event, awaiting := none }, event, true)
    | .validationError id _ _ =>
      if run.awaiting.bind (·.requestId) = some id then
        ({ run with pendingRequest := run.awaiting, awaiting := none }, event, true)
      else (run, event, true)
    | .phase id label status cancelAllowed =>
      let phases := setPhase run.phases ⟨id, status, cancelAllowed.getD true, label⟩
      ({ run with
          phases := phases
          activity := if status = .running then some label else run.activity }, event, true)
    | .progress message _ _ _ _ => ({ run with activity := some message }, event, true)
    | .result data => (run, event, config.jsonLen data ≤ maxResultBytes)
    | .nextStep text command workflow args =>
      let known := workflow.any config.knownOperation
      let workflow := if known then workflow else none
      let args := if known then args else none
      let event := .nextStep text command workflow args
      if (text, workflow) ∈ run.nextSteps || maxNextSteps ≤ run.nextSteps.length then
        (run, event, false)
      else ({ run with nextSteps := run.nextSteps ++ [(text, workflow)] }, event, true)
    | .completed status message _ _ =>
      ({ run with completed := some (status, message) }, event, false)
    | .info _ => (run, event, true)
    | .plan _ _ _ _ => (run, event, true)
    | .warning _ => (run, event, true)
    | .error _ _ _ _ => (run, event, true)
    | .log _ _ _ _ => (run, event, true)

def urgent : EventBody → Bool
  | .output _ _ _ _ => false
  | .progress _ _ _ _ _ => false
  | _ => true

/-- A protocol failure cancels the run by force, unless it is being cancelled. -/
def stopFailed (run : ActiveRun) : ActiveRun :=
  match run.protocolFailure, run.cancel with
  | some reason, none => { run with cancel := some true, activity := some reason }
  | _, _ => run

def ingest (config : Config) (nowMs : Int) (run : ActiveRun) (event : WorkflowEvent) : Delivered :=
  let (run, event, keep) := apply config run (scrub run.secrets event)
  let autoCancel := event.isRequest && run.cancel.isSome
  let (run, sent) :=
    match (if keep then event.intoJobEvent else none) with
    | some body => push config nowMs run body (urgent body)
    | none => (run, [])
  let run := if autoCancel then { run with pendingRequest := none } else run
  (stopFailed run, sent)

/-- A line that isn't a `bmac-ui` event; the first one comes with a warning. -/
def unparsed (config : Config) (nowMs : Int) (run : ActiveRun) (line why : String) : Delivered :=
  let first := !run.unparsedWarned
  let run := { run with unparsedWarned := true }
  let (run, warned) :=
    if first then
      ingest config nowMs run
        (.warning s!"The script wrote output outside the bmac-ui protocol ({why}).")
    else (run, [])
  let (run, logged) := ingest config nowMs run (.logOf "stdout" .warning line (some "unparsed"))
  (run, warned ++ logged)

def violation (run : ActiveRun) (reason : String) : ActiveRun :=
  let run := { run with protocolFailure := run.protocolFailure.or (some reason) }
  if run.cancel.isNone then { run with cancel := some true, activity := some reason } else run

def flush (run : ActiveRun) : Delivered :=
  if run.pending.isEmpty then (run, []) else ({ run with pending := [] }, [run.pending])

/-! ## Answers and cancels -/

def typedSecrets (request : WorkflowEvent) (answer : Answer) (secrets : List String) :
    List String :=
  let fields := match request with
    | .request _ (.input _ _ _ field) => [field]
    | .request _ (.inputGroup _ _ _ _ fields) => fields
    | _ => []
  match answer with
  | .values values =>
    (fields.filter (·.isSensitive)).foldl (fun secrets field =>
      match values.get? field.id with
      | some (.string secret) =>
        if minSecret ≤ Text.len secret ∧ secret ∉ secrets then secrets ++ [secret] else secrets
      | _ => secrets) secrets
  | _ => secrets

/-- Passes an answer to the script after checking it against the pending request; `isOpen` is whether
the script's input still is. -/
def answer (config : Config) (nowMs : Int) (run : ActiveRun) (requestId : String) (answer : Answer)
    (by_ : String) (isOpen : Bool) : Except ApiError Delivered :=
  match run.pendingRequest.filter (·.requestId = some requestId) with
  | none => .error (.new .conflict "that request is no longer waiting for an answer")
  | some request =>
    match buildResponse config.checkFieldValue request answer with
    | .error why => .error (.new .invalid why)
    | .ok (_, values) =>
      if !isOpen then .error (.new .conflict "the script's input is closed")
      else
        let run := { run with
          secrets := typedSecrets request answer run.secrets
          pendingRequest := none
          awaiting := some request
          cancel := if answer.isCancel then some (run.cancel.getD false) else run.cancel }
        .ok (push config nowMs run (.answered requestId by_ values) true)

def cancel (run : ActiveRun) (force : Bool) : Except ApiError ActiveRun :=
  if !force && !run.cancelAllowed && run.pendingRequest.isNone then
    let phase := run.activity.getD "this phase"
    .error (.new .conflict
      s!"the script marked {phase.quote} as unsafe to interrupt; wait for it to finish")
  else
    .ok { run with
      cancel := some (force || run.cancel = some true)
      pendingRequest := if force then run.pendingRequest else none }

/-! ## The end -/

/-- How the script's process ended. -/
structure ExitStatus where
  exitCode : Option Int
  signal : Option Int

def ExitStatus.how (status : ExitStatus) : String :=
  match status.exitCode, status.signal with
  | some code, _ => s!"status {code}"
  | none, some signal => s!"signal {signal}"
  | none, none => "an unknown status"

def ended (run : ActiveRun) (status : ExitStatus) : JobState × Option String :=
  match run.protocolFailure with
  | some reason => (.failed, some reason)
  | none =>
    match run.completed with
    | some (.success, _) =>
      if status.exitCode = some 0 then (.completed, none)
      else (.failed, some s!"The script reported success but exited with {status.how}.")
    | some (.failed, message) => (.failed, message.or (some s!"The script failed with {status.how}."))
    | some (.cancelled, message) => (.cancelled, message)
    | none =>
      match run.cancel with
      | some forced =>
        let why := if forced then "Forcibly stopped." else "Cancelled."
        (.cancelled, some s!"{why} The script stopped with {status.how}.")
      | none =>
        let why := s!"The script exited with {status.how} without reporting how it finished. " ++
          "Treat this as a failure."
        (.failed, some why)

def phaseEnd : JobState → PhaseStatus
  | .completed => .complete
  | .cancelled => .skipped
  | _ => .failed

/-- The phases that still run end with the job. -/
def endPhases (config : Config) (nowMs : Int) (status : PhaseStatus) :
    List PhaseState → ActiveRun → Delivered
  | [], run => (run, [])
  | phase :: rest, run =>
    let (run, sent) := push config nowMs run (.phase phase.id phase.label status none) false
    let (run, later) := endPhases config nowMs status rest run
    (run, sent ++ later)

def terminal (state : JobState) (message : Option String) : EventBody :=
  match state with
  | .completed => .completed message
  | .cancelled => .cancelled none message
  | _ => .failed none (message.getD "failed") none

/-- The daemon stops, and the script didn't say how it ended and wasn't told to. -/
def left (stopping : Bool) (run : ActiveRun) : Bool :=
  stopping && run.completed.isNone && run.cancel.isNone && run.protocolFailure.isNone

/-! ## A run -/

/-- One job's run, and what the sink was given. -/
structure Supervised where
  run : Option ActiveRun
  stopping : Bool
  sent : List (List JobEvent)
  outcome : Option Outcome

/-- What happens to a run, each with the clock's reading. -/
inductive Op where
  /-- a line of the script's output, and what it is parsed to -/
  | stdout (line : String) (parsed : Except String WorkflowEvent)
  | stderr (line : String)
  | violation (reason : String)
  | flush
  | answer (requestId : String) (answer : Answer) (by_ : String) (isOpen : Bool)
  | cancel (force : Bool)
  | stop

def stderrEvent (line : String) : WorkflowEvent :=
  let isError := (Text.stripStart "ERROR" line).isSome ||
    (Text.splitBefore ": line ".toList line.toList).isSome
  .logOf "stderr" (if isError then .error else .info) line (some "process")

/-- What an operation does to the run; a refused one does nothing. -/
def Op.act (config : Config) (nowMs : Int) (run : ActiveRun) : Op → Delivered
  | stdout line parsed =>
    match parsed with
    | .ok event => ingest config nowMs run event
    | .error why => unparsed config nowMs run line why
  | stderr line => ingest config nowMs run (stderrEvent line)
  | violation reason => (Supervisor.violation run reason, [])
  | flush => Supervisor.flush run
  | answer requestId given by_ isOpen =>
    match Supervisor.answer config nowMs run requestId given by_ isOpen with
    | .ok delivered => delivered
    | .error _ => (run, [])
  | cancel force =>
    match Supervisor.cancel run force with
    | .ok run => (run, [])
    | .error _ => (run, [])
  | stop => (run, [])

def Op.step (config : Config) (s : Supervised) (op : Op × Int) : Supervised :=
  match s.run with
  | none => { s with stopping := s.stopping || op.1 matches .stop }
  | some run =>
    let (run, sent) := op.1.act config op.2 run
    { s with
      run := some run
      sent := s.sent ++ sent
      stopping := s.stopping || op.1 matches .stop }

def finalize (config : Config) (nowMs : Int) (s : Supervised) (status : ExitStatus) : Supervised :=
  match s.run with
  | none => s
  | some run =>
    if left s.stopping run then { s with run := none, sent := s.sent ++ (flush run).2 }
    else
      let (state, message) := ended run status
      let running := run.phases.filter (·.status = .running)
      let (run, phases) := endPhases config nowMs (phaseEnd state) running run
      let (run, last) := push config nowMs run (terminal state message) true
      { s with
        run := none
        sent := s.sent ++ phases ++ last
        outcome := some ⟨state, message, status.exitCode, status.signal, run.seq⟩ }

/-- A run that was started with `firstSeq`. -/
def started (firstSeq : Nat) (stopping : Bool) : Supervised := ⟨some (.start firstSeq), stopping, [], none⟩

def runOps (config : Config) (s : Supervised) (ops : List (Op × Int)) : Supervised :=
  ops.foldl (Op.step config) s

end Bmac.Bmacd.Supervisor
