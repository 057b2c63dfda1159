import Bmac.Bmacd.Supervisor

/-!
# What a run's script is sent

The response lines of a run (`ingest`, `answer` and `cancel` of `supervisor.rs`) beside the events its
script emitted, in their order. A line for a request comes only once the script asked for it, and
again only once it asked again.
-/

namespace Bmac.Bmacd.Supervisor

open Bmac.Core Bmac.Bmacd Bmac.Proto

/-! ## The wire -/

/-- What passes between a run and its script. -/
inductive Passage where
  /-- an event of the script, and the secrets recorded by then -/
  | emitted (secrets : List String) (event : WorkflowEvent)
  /-- a response line, and whether `answer` sent it -/
  | line (message : Value) (answered : Bool)

/-- A run, what passed between it and its script, and the deliveries to the sink. -/
structure Wire where
  run : ActiveRun
  passed : List Passage
  sent : List (List JobEvent)

def lineFor : Value → Option String
  | .object fields =>
    match Dict.get? fields "request_id" with
    | some (.string id) => some id
    | _ => none
  | _ => none

def cancelLine (config : Config) (isOpen : Bool) (request : WorkflowEvent) : List Passage :=
  match buildResponse config.checkFieldValue request .cancel with
  | .ok (message, _) => if isOpen then [.line message false] else []
  | .error _ => []

namespace Wire

/-- `ingest` with its line: a request that comes after a cancel is cancelled. -/
def ingest (config : Config) (nowMs : Int) (isOpen : Bool) (event : WorkflowEvent) (w : Wire) :
    Wire :=
  let (run, seen, _) := apply config w.run (scrub w.run.secrets event)
  let autoCancel := seen.isRequest && run.cancel.isSome
  let taken := if autoCancel then run.pendingRequest.toList else []
  let (ingested, sent) := Supervisor.ingest config nowMs w.run event
  { run := ingested
    passed := w.passed ++ .emitted w.run.secrets event :: taken.flatMap (cancelLine config isOpen)
    sent := w.sent ++ sent }

def unparsed (config : Config) (nowMs : Int) (isOpen : Bool) (line why : String) (w : Wire) : Wire :=
  let first := !w.run.unparsedWarned
  let w := { w with run := { w.run with unparsedWarned := true } }
  let w :=
    if first then
      w.ingest config nowMs isOpen
        (.warning s!"The script wrote output outside the bmac-ui protocol ({why}).")
    else w
  w.ingest config nowMs isOpen (.logOf "stdout" .warning line (some "unparsed"))

def setRun (f : ActiveRun → ActiveRun) (w : Wire) : Wire := { w with run := f w.run }

/-- `answer`, in the order of its steps. -/
def answer (config : Config) (nowMs : Int) (requestId : String) (given : Answer) (by_ : String)
    (isOpen : Bool) : ExceptT ApiError (StateM Wire) Unit := do
  match (← get).run.pendingRequest.filter (·.requestId = some requestId) with
  | none => throw (.new .conflict "that request is no longer waiting for an answer")
  | some request =>
    match buildResponse config.checkFieldValue request given with
    | .error why => throw (.new .invalid why)
    | .ok (message, values) =>
      if !isOpen then
        throw (.new .conflict "the script's input is closed")
      modify fun w => { w with passed := w.passed ++ [.line message true] }
      modify (setRun fun run => { run with secrets := typedSecrets request given run.secrets })
      modify (setRun fun run => { run with pendingRequest := none, awaiting := some request })
      if given.isCancel then
        modify (setRun fun run => { run with cancel := some (run.cancel.getD false) })
      modify fun w =>
        let (run, sent) := push config nowMs w.run (.answered requestId by_ values) true
        { w with run := run, sent := w.sent ++ sent }

/-- `cancel` with its line: a soft cancel answers the pending request. -/
def cancel (config : Config) (force isOpen : Bool) (w : Wire) : Except ApiError Wire :=
  match Supervisor.cancel w.run force with
  | .error why => .error why
  | .ok run =>
    let taken := if force then [] else w.run.pendingRequest.toList
    .ok { w with run := run, passed := w.passed ++ taken.flatMap (cancelLine config isOpen) }

/-- An operation; `isOpen` is whether the script's input is. -/
def act (config : Config) (nowMs : Int) (isOpen : Bool) (w : Wire) : Op → Wire
  | .stdout line parsed =>
    match parsed with
    | .ok event => w.ingest config nowMs isOpen event
    | .error why => w.unparsed config nowMs isOpen line why
  | .stderr line => w.ingest config nowMs isOpen (stderrEvent line)
  | .violation reason => w.setRun (violation · reason)
  | .flush =>
    let (run, sent) := flush w.run
    { w with run := run, sent := w.sent ++ sent }
  | .answer requestId given by_ isOpen =>
    ((answer config nowMs requestId given by_ isOpen).run.run w).2
  | .cancel force =>
    match w.cancel config force isOpen with
    | .ok w => w
    | .error _ => w
  | .stop => w

/-- A run that was started with `firstSeq`. -/
def start (firstSeq : Nat) : Wire := ⟨.start firstSeq, [], []⟩

/-- One operation: its clock's reading, whether the script's input is open, and what it does. -/
structure Turn where
  nowMs : Int
  isOpen : Bool
  op : Op

def acts (config : Config) (turns : List Turn) (w : Wire) : Wire :=
  turns.foldl (fun w turn => w.act config turn.nowMs turn.isOpen turn.op) w

end Wire

/-! ## Questions asked again -/

/-- The lines, and whether `answer` sent each. -/
def sentLines (passed : List Passage) : List (Value × Bool) :=
  passed.filterMap fun
    | .line message answered => some (message, answered)
    | .emitted _ _ => none

/-- An event that asks for an answer to `id`: a request, or an error in the answer that was the last
line sent. -/
def Asks (id : String) (before : List Passage) : WorkflowEvent → Prop
  | .request requestId _ => requestId = id
  | .validationError requestId _ _ =>
    requestId = id ∧ ∃ message, (sentLines before).getLast? = some (message, true) ∧
      lineFor message = some id
  | _ => False

/-- Between two lines for one request the script asked for it again; `image` is how an event is read. -/
def AskedBetween (image : List String → WorkflowEvent → WorkflowEvent) (passed : List Passage) : Prop :=
  ∀ id before message answered mid message' answered' after,
    passed = before ++ .line message answered :: (mid ++ .line message' answered' :: after) →
    lineFor message = some id → lineFor message' = some id →
    ∃ mid₁ secrets event mid₂, mid = mid₁ ++ .emitted secrets event :: mid₂ ∧
      Asks id (before ++ .line message answered :: mid₁) (image secrets event)

/-! ## The steps -/

section

variable {config : Config} {nowMs : Int} {isOpen : Bool} {w : Wire} {id : String} {given : Answer}

theorem lineFor_buildResponse {request : WorkflowEvent} {message : Value}
    {values : Option (Dict Value)}
    (h : buildResponse config.checkFieldValue request given = .ok (message, values)) :
    lineFor message = request.requestId := by
  unfold buildResponse at h
  split at h
  case h_2 => cases h
  case h_1 requestId form =>
    have hline (field : String) (value : Value) :
        lineFor (.object [("type", .string "response"), ("request_id", .string requestId),
          (field, value)]) = some requestId := rfl
    split at h
    · cases h
      exact hline _ _
    · obtain ⟨pair, -, h⟩ := Base.bind_eq_ok.mp h
      cases h
      exact hline _ _
    · obtain ⟨pair, -, h⟩ := Base.bind_eq_ok.mp h
      cases h
      exact hline _ _
    · cases h
      exact hline _ _
    · cases h
      exact hline _ _
    · cases h

theorem run_get {α : Type} (f : Wire → ExceptT ApiError (StateM Wire) α) :
    (get >>= f).run.run w = (f w).run.run w := rfl

theorem answer_error {requestId : String} {by_ : String} {why : ApiError}
    (h : Supervisor.answer config nowMs w.run requestId given by_ isOpen = .error why) :
    (Wire.answer config nowMs requestId given by_ isOpen).run.run w = (.error why, w) := by
  unfold Supervisor.answer at h
  unfold Wire.answer
  rw [run_get]
  cases hrequest : w.run.pendingRequest.filter (·.requestId = some requestId) with
  | none =>
    rw [hrequest] at h
    cases h
    rfl
  | some request =>
    rw [hrequest] at h
    dsimp only at h
    cases hbuild : buildResponse config.checkFieldValue request given with
    | error why =>
      rw [hbuild] at h
      cases h
      dsimp only
      rw [hbuild]
      rfl
    | ok response =>
      rw [hbuild] at h
      dsimp only at h
      split at h
      · rename_i hopen
        cases h
        dsimp only
        rw [hbuild]
        dsimp only
        rw [if_pos hopen]
        rfl
      · cases h

theorem answer_ok {requestId : String} {by_ : String} {d : Delivered}
    (h : Supervisor.answer config nowMs w.run requestId given by_ isOpen = .ok d) :
    ∃ request message, w.run.pendingRequest = some request ∧
      lineFor message = some requestId ∧ request.requestId = some requestId ∧
      (Wire.answer config nowMs requestId given by_ isOpen).run.run w =
        (.ok (), ⟨d.1, w.passed ++ [.line message true], w.sent ++ d.2⟩) ∧
      d.1.pendingRequest = none ∧ d.1.awaiting = some request := by
  unfold Supervisor.answer at h
  unfold Wire.answer
  rw [run_get]
  cases hrequest : w.run.pendingRequest.filter (·.requestId = some requestId) with
  | none =>
    rw [hrequest] at h
    cases h
  | some request =>
    obtain ⟨hpending, hid⟩ := Option.filter_eq_some_iff.mp hrequest
    rw [decide_eq_true_eq] at hid
    rw [hrequest] at h
    dsimp only at h
    cases hbuild : buildResponse config.checkFieldValue request given with
    | error why =>
      rw [hbuild] at h
      cases h
    | ok response =>
      have hline := lineFor_buildResponse hbuild
      rw [hbuild] at h
      dsimp only at h
      split at h
      · cases h
      · rename_i hopen
        cases h
        refine ⟨request, response.1, hpending, hline.trans hid, hid, ?_, ?_, ?_⟩
        · dsimp only
          rw [hbuild]
          dsimp only
          rw [if_neg hopen]
          cases given.isCancel <;> rfl
        · rfl
        · rfl

end

/-! ## The two slots -/

section

variable {config : Config} {nowMs : Int} {run : ActiveRun}

/-- The request that waits for an answer, and the one whose answer the script may still refuse. -/
def ActiveRun.slots (run : ActiveRun) : Option WorkflowEvent × Option WorkflowEvent :=
  (run.pendingRequest, run.awaiting)

theorem slots_header {event : WorkflowEvent} {run' : ActiveRun}
    (h : header run event = some run') : run'.slots = run.slots := by
  unfold header at h
  split at h
  · split at h
    · split at h
      · obtain rfl := Option.some.inj h
        rfl
      · obtain rfl := Option.some.inj h
        rfl
    · obtain rfl := Option.some.inj h
      rfl
  · cases h

/-- A request takes the first slot, an error in the awaited answer moves that request back to it, and
the other events leave both. -/
theorem slots_apply (event : WorkflowEvent) :
    (apply config run event).1.slots = run.slots ∨
      (∃ id form, event = .request id form ∧
        (apply config run event).1.slots = (some event, none)) ∨
      ∃ id errors message request, event = .validationError id errors message ∧
        run.awaiting = some request ∧ request.requestId = some id ∧
        (apply config run event).1.slots = (some request, none) := by
  unfold apply
  cases hheader : header run event with
  | some run' => exact .inl (slots_header hheader)
  | none =>
    cases event with
    | request id form => exact .inr (.inl ⟨id, form, rfl, rfl⟩)
    | validationError id errors message =>
      dsimp only
      split
      · rename_i hawaits
        obtain ⟨request, hawaiting, hid⟩ := Option.bind_eq_some_iff.mp hawaits
        refine .inr (.inr ⟨id, errors, message, request, rfl, hawaiting, hid, ?_⟩)
        rw [← hawaiting]
        rfl
      · exact .inl rfl
    | nextStep text command workflow args =>
      dsimp only
      generalize (if workflow.any config.knownOperation = true then workflow else none) = known
      split <;> exact .inl rfl
    | protocol | workflowStarted | workflowMetadata | phase | progress | plan | info | warning
    | error | log | result | completed => exact .inl rfl

theorem slots_push (body : EventBody) (urgent : Bool) :
    (push config nowMs run body urgent).1.slots = run.slots := by
  unfold push
  dsimp only
  split <;> rfl

theorem slots_stopFailed (run : ActiveRun) : (stopFailed run).slots = run.slots := by
  unfold stopFailed
  split <;> rfl

theorem slots_violation (reason : String) : (violation run reason).slots = run.slots := by
  unfold violation
  dsimp only
  split <;> rfl

theorem slots_flush : (flush run).1.slots = run.slots := by
  unfold flush
  split <;> rfl

theorem slots_ingest (event : WorkflowEvent) :
    (ingest config nowMs run event).1.slots =
      let applied := apply config run (scrub run.secrets event)
      (if applied.2.1.isRequest && applied.1.cancel.isSome then none else applied.1.pendingRequest,
        applied.1.awaiting) := by
  unfold ingest
  rcases happly : apply config run (scrub run.secrets event) with ⟨run', event', keep⟩
  dsimp only
  have hpushed : ∀ body, (push config nowMs run' body (urgent body)).1.slots = run'.slots :=
    fun body => slots_push body _
  rw [slots_stopFailed]
  cases hkeep : (if keep = true then event'.intoJobEvent else none) with
  | none =>
    dsimp only
    split <;> rfl
  | some body =>
    have hslots := Prod.ext_iff.mp (hpushed body)
    split
    · exact Prod.ext rfl hslots.2
    · exact hpushed body

end

/-! ## What passed -/

section

variable {id : String} {passed : List Passage}

/-- The script asked for `id` since the last line for it. -/
def Open (id : String) (passed : List Passage) : Prop :=
  ∃ before secrets event after, passed = before ++ .emitted secrets event :: after ∧
    Asks id before (scrub secrets event) ∧
    ∀ message answered, .line message answered ∈ after → lineFor message ≠ some id

theorem Asks.open {secrets : List String} {event : WorkflowEvent}
    (h : Asks id passed (scrub secrets event)) : Open id (passed ++ [.emitted secrets event]) :=
  ⟨passed, secrets, event, [], rfl, h, fun _ _ hmem => nomatch hmem⟩

theorem Open.emitted (h : Open id passed) (secrets : List String) (event : WorkflowEvent) :
    Open id (passed ++ [.emitted secrets event]) := by
  obtain ⟨before, secrets', event', after, rfl, hasks, hlines⟩ := h
  refine ⟨before, secrets', event', after ++ [.emitted secrets event], by simp, hasks, ?_⟩
  intro message answered hmem
  rcases List.mem_append.mp hmem with hmem | hmem
  · exact hlines message answered hmem
  · cases List.mem_singleton.mp hmem

/-- Every line came while its request was open. -/
def Answers (passed : List Passage) : Prop :=
  ∀ id before message answered after, passed = before ++ .line message answered :: after →
    lineFor message = some id → Open id before

theorem snoc_eq_append_cons {α : Type} {xs before after : List α} {x y : α}
    (h : xs ++ [x] = before ++ y :: after) :
    (xs = before ∧ x = y) ∨ ∃ after', xs = before ++ y :: after' := by
  rcases List.eq_nil_or_concat after with rfl | ⟨after', z, rfl⟩
  · obtain ⟨rfl, hxy⟩ := List.append_inj' h rfl
    exact .inl ⟨rfl, (List.cons.inj hxy).1⟩
  · rw [List.concat_eq_append, ← List.cons_append, ← List.append_assoc] at h
    exact .inr ⟨after', (List.append_inj' h rfl).1⟩

theorem Answers.emitted (h : Answers passed) (secrets : List String) (event : WorkflowEvent) :
    Answers (passed ++ [.emitted secrets event]) := by
  intro id before message answered after heq hid
  rcases snoc_eq_append_cons heq with ⟨-, hline⟩ | ⟨after', heq⟩
  · cases hline
  · exact h id before message answered after' heq hid

theorem Answers.line {message : Value} (h : Answers passed)
    (hopen : ∀ id, lineFor message = some id → Open id passed) (answered : Bool) :
    Answers (passed ++ [.line message answered]) := by
  intro id before message' answered' after heq hid
  rcases snoc_eq_append_cons heq with ⟨rfl, hline⟩ | ⟨after', heq⟩
  · cases hline
    exact hopen id hid
  · exact h id before message' answered' after' heq hid

theorem Answers.askedBetween (h : Answers passed) : AskedBetween scrub passed := by
  intro id before message answered mid message' answered' after heq hid hid'
  have hopen : Open id (before ++ .line message answered :: mid) :=
    h id _ message' answered' after (by rw [heq, List.append_assoc, List.cons_append]) hid'
  obtain ⟨asked, secrets, event, later, hsplit, hasks, hlines⟩ := hopen
  rcases List.append_eq_append_iff.mp hsplit with ⟨t, hasked, hrest⟩ | ⟨t, hbefore, hrest⟩
  · cases t with
    | nil => cases hrest
    | cons x mid₁ =>
      obtain ⟨rfl, hmid⟩ := List.cons.inj hrest
      exact ⟨mid₁, secrets, event, later, hmid, hasked ▸ hasks⟩
  · cases t with
    | nil => cases hrest
    | cons x t =>
      -- The line came after the asking, so the request isn't open.
      obtain ⟨-, hlater⟩ := List.cons.inj hrest
      exact absurd hid (hlines message answered (by rw [hlater]; simp))

theorem sentLines_emitted (secrets : List String) (event : WorkflowEvent) :
    sentLines (passed ++ [.emitted secrets event]) = sentLines passed := by
  simp [sentLines]

theorem getLast?_sentLines (message : Value) (answered : Bool) :
    (sentLines (passed ++ [.line message answered])).getLast? = some (message, answered) := by
  simp [sentLines]

end

/-! ## The invariant -/

/-- A pending request is open, the awaited one has the last line, and there is at most one of them. -/
structure Kept (slots : Option WorkflowEvent × Option WorkflowEvent) (passed : List Passage) :
    Prop where
  pending : ∀ request, slots.1 = some request →
    slots.2 = none ∧ ∀ id, request.requestId = some id → Open id passed
  awaiting : ∀ request, slots.2 = some request → ∃ message,
    (sentLines passed).getLast? = some (message, true) ∧ lineFor message = request.requestId
  answers : Answers passed

section

variable {config : Config} {nowMs : Int} {isOpen : Bool} {passed : List Passage}
  {slots : Option WorkflowEvent × Option WorkflowEvent}

theorem Kept.emitted {run : ActiveRun} (h : Kept run.slots passed) (secrets : List String)
    (event : WorkflowEvent) :
    Kept (apply config run (scrub secrets event)).1.slots (passed ++ [.emitted secrets event]) := by
  have hanswers := h.answers.emitted secrets event
  rcases @slots_apply config run (scrub secrets event) with
    hslots | ⟨id, form, hevent, hslots⟩ | ⟨id, errors, message, request, hevent, hawaits, hid, hslots⟩
  · rw [hslots]
    refine ⟨fun request hrequest => ?_, fun request hrequest => ?_, hanswers⟩
    · obtain ⟨hnone, hopen⟩ := h.pending request hrequest
      exact ⟨hnone, fun id hid => (hopen id hid).emitted secrets event⟩
    · rw [sentLines_emitted]
      exact h.awaiting request hrequest
  · rw [hslots]
    refine ⟨fun request hrequest => ⟨rfl, fun id' hid' => ?_⟩, fun request hrequest => ?_, hanswers⟩
    · cases hrequest
      rw [hevent] at hid'
      refine Asks.open ?_
      rw [hevent]
      exact Option.some.inj hid'
    · cases hrequest
  · rw [hslots]
    refine ⟨fun request' hrequest => ⟨rfl, fun id' hid' => ?_⟩, fun request hrequest => ?_, hanswers⟩
    · cases hrequest
      obtain ⟨line, hlast, hline⟩ := h.awaiting request hawaits
      obtain rfl := Option.some.inj (hid.symm.trans hid')
      refine Asks.open ?_
      rw [hevent]
      exact ⟨rfl, line, hlast, hline.trans hid⟩
    · cases hrequest

theorem Kept.line {request : WorkflowEvent} {message : Value} (h : Kept slots passed)
    (hpending : slots.1 = some request) (hline : lineFor message = request.requestId)
    (answered : Bool) : Answers (passed ++ [.line message answered]) :=
  h.answers.line (fun id hid => (h.pending request hpending).2 id (hline.symm.trans hid)) answered

theorem Kept.cancelled (h : Kept slots passed) :
    Kept (none, slots.2) (passed ++ slots.1.toList.flatMap (cancelLine config isOpen)) := by
  have hkept : Kept (none, slots.2) passed := ⟨fun _ hnone => (nomatch hnone), h.awaiting, h.answers⟩
  cases hpending : slots.1 with
  | none => simpa using hkept
  | some request =>
    rw [Option.toList_some, List.flatMap_singleton]
    unfold cancelLine
    cases hbuild : buildResponse config.checkFieldValue request .cancel with
    | error why => simpa using hkept
    | ok response =>
      dsimp only
      cases isOpen with
      | false => simpa using hkept
      | true =>
        have hawaits := (h.pending request hpending).1
        refine ⟨fun _ hnone => (nomatch hnone), fun request' hrequest => ?_, ?_⟩
        · cases hawaits.symm.trans hrequest
        · exact h.line hpending (lineFor_buildResponse hbuild) false

end

namespace Wire

variable {config : Config} {nowMs : Int} {isOpen : Bool} {w : Wire}

def Ok (w : Wire) : Prop := Kept w.run.slots w.passed

theorem Ok.of_slots {w' : Wire} (h : w.Ok) (hslots : w'.run.slots = w.run.slots)
    (hpassed : w'.passed = w.passed) : w'.Ok := by
  unfold Ok
  rw [hslots, hpassed]
  exact h

theorem Ok.ingest (h : w.Ok) (event : WorkflowEvent) : (w.ingest config nowMs isOpen event).Ok := by
  have hkept := @Kept.emitted config w.passed w.run h w.run.secrets event
  have hslots := @slots_ingest config nowMs w.run event
  unfold Ok Wire.ingest
  rcases happly : apply config w.run (scrub w.run.secrets event) with ⟨run', seen, keep⟩
  rw [happly] at hkept hslots
  dsimp only at hkept hslots ⊢
  rw [hslots, ← List.singleton_append, ← List.append_assoc]
  split
  · exact hkept.cancelled
  · rw [List.flatMap_nil, List.append_nil]
    exact hkept

theorem Ok.unparsed (h : w.Ok) (line why : String) : (w.unparsed config nowMs isOpen line why).Ok := by
  unfold Wire.unparsed
  dsimp only
  have hmarked : Ok { w with run := { w.run with unparsedWarned := true } } := h.of_slots rfl rfl
  split
  · exact (hmarked.ingest _).ingest _
  · exact hmarked.ingest _

theorem Ok.answer (h : w.Ok) (requestId : String) (given : Answer) (by_ : String) :
    Ok ((Wire.answer config nowMs requestId given by_ isOpen).run.run w).2 := by
  cases hanswer : Supervisor.answer config nowMs w.run requestId given by_ isOpen with
  | error why =>
    rw [answer_error hanswer]
    exact h
  | ok d =>
    obtain ⟨request, message, hpending, hline, hid, hrun, hnone, hawaits⟩ := answer_ok hanswer
    rw [hrun]
    have hanswers := Kept.line h hpending (hline.trans hid.symm) true
    refine ⟨fun request' hrequest => ?_, fun request' hrequest => ?_, hanswers⟩
    · cases hnone.symm.trans hrequest
    · cases hawaits.symm.trans hrequest
      exact ⟨message, getLast?_sentLines message true, hline.trans hid.symm⟩

theorem Ok.cancel {w' : Wire} {force : Bool} (h : w.Ok) (hcancel : w.cancel config force isOpen = .ok w') :
    w'.Ok := by
  unfold Wire.cancel Supervisor.cancel at hcancel
  dsimp only at hcancel
  split at hcancel
  · cases hcancel
  · rename_i hrun
    split at hrun
    · cases hrun
    · cases hrun
      cases hcancel
      cases force with
      | true => exact h.of_slots rfl (List.append_nil _)
      | false => exact Kept.cancelled h

theorem Ok.act (h : w.Ok) (op : Op) : (w.act config nowMs isOpen op).Ok := by
  cases op with
  | stdout line parsed =>
    cases parsed with
    | ok event => exact h.ingest event
    | error why => exact h.unparsed line why
  | stderr line => exact h.ingest _
  | violation reason => exact h.of_slots (slots_violation reason) rfl
  | flush => exact h.of_slots slots_flush rfl
  | answer requestId given by_ isOpen => exact h.answer requestId given by_
  | cancel force =>
    unfold Wire.act
    dsimp only
    split
    · rename_i hcancel
      exact h.cancel hcancel
    · exact h
  | stop => exact h

theorem ok_start (firstSeq : Nat) : (start firstSeq).Ok :=
  ⟨fun _ hnone => (nomatch hnone), fun _ hnone => (nomatch hnone),
    fun id before message answered after hnil _ => by simp [start] at hnil⟩

theorem Ok.acts (h : w.Ok) (turns : List Turn) : (w.acts config turns).Ok := by
  induction turns generalizing w with
  | nil => exact h
  | cons turn turns ih => exact ih (h.act turn.op)

theorem run_act (op : Op) :
    ((w.act config nowMs isOpen op).run, (w.act config nowMs isOpen op).sent) =
      ((op.act config nowMs w.run).1, w.sent ++ (op.act config nowMs w.run).2) := by
  cases op with
  | stdout line parsed =>
    cases parsed with
    | ok event => rfl
    | error why =>
      unfold Wire.act Op.act Wire.unparsed Supervisor.unparsed
      dsimp only
      split
      · exact Prod.ext rfl (List.append_assoc ..)
      · rfl
  | stderr line => rfl
  | violation reason => exact Prod.ext rfl (List.append_nil _).symm
  | flush => rfl
  | answer requestId given by_ isOpen =>
    unfold Wire.act Op.act
    dsimp only
    cases hanswer : Supervisor.answer config nowMs w.run requestId given by_ isOpen with
    | error why =>
      rw [answer_error hanswer]
      exact Prod.ext rfl (List.append_nil _).symm
    | ok d =>
      obtain ⟨request, message, -, -, -, hrun, -⟩ := answer_ok hanswer
      rw [hrun]
  | cancel force =>
    unfold Wire.act Op.act Wire.cancel
    dsimp only
    cases hcancel : Supervisor.cancel w.run force with
    | error why => exact Prod.ext rfl (List.append_nil _).symm
    | ok run => exact Prod.ext rfl (List.append_nil _).symm
  | stop => exact Prod.ext rfl (List.append_nil _).symm

end Wire

/-! ## At most one answer -/

/-- Between two lines for one request the script asked for it again, its events read without the
secrets that were recorded by then; and a refused answer leaves the run and sends nothing. -/
theorem answered_once (config : Config) (firstSeq : Nat) (turns : List Wire.Turn) :
    AskedBetween scrub ((Wire.start firstSeq).acts config turns).passed ∧
      ∀ w nowMs requestId given by_ isOpen why,
        ((Wire.answer config nowMs requestId given by_ isOpen).run.run w).1 = .error why →
        ((Wire.answer config nowMs requestId given by_ isOpen).run.run w).2 = w := by
  refine ⟨((Wire.ok_start firstSeq).acts turns).answers.askedBetween, ?_⟩
  intro w nowMs requestId given by_ isOpen why hwhy
  cases hanswer : answer config nowMs w.run requestId given by_ isOpen with
  | error why' => rw [answer_error hanswer]
  | ok d =>
    obtain ⟨request, message, -, -, -, hrun, -⟩ := answer_ok hanswer
    rw [hrun] at hwhy
    cases hwhy

/-! The script asks for two passwords and gets `abc` and `abd`. It then asks the question `abc`, and its
error in the answer to `abd` reads as one in the answer to `abc`: both are `[redacted]`. -/

def trustingConfig : Config := ⟨1, fun _ => false, fun _ => 0, fun _ value => .ok value⟩

def passwordField (id : String) : Field where
  id := id
  kind := .password
  label := "Password"
  help := none
  required := true
  default := none
  placeholder := none
  suffix := none
  min := none
  max := none
  minSelected := none
  maxSelected := none
  pattern := none
  sensitive := true
  disabled := false
  options := []
  filters := []

def openingEvent : WorkflowEvent := .protocol protocolName protocolVersion none

def loginEvent : WorkflowEvent :=
  .request "login" (.inputGroup "Log in" none none none [passwordField "old", passwordField "new"])

def loginValues : Dict Value := [("new", .string "abd"), ("old", .string "abc")]

def eraseEvent : WorkflowEvent :=
  .request "abc" (.confirm "Erase" "Erase the disk?" .destructive none none none none [])

def deniedEvent : WorkflowEvent := .validationError "abd" [] none

def askedTurns : List Wire.Turn :=
  [⟨0, true, .stdout "" (.ok openingEvent)⟩, ⟨1, true, .stdout "" (.ok loginEvent)⟩,
    ⟨2, true, .answer "login" (.values loginValues) "admin" true⟩,
    ⟨3, true, .stdout "" (.ok eraseEvent)⟩,
    ⟨4, true, .answer "[redacted]" (.confirm true) "admin" true⟩,
    ⟨5, true, .stdout "" (.ok deniedEvent)⟩,
    ⟨6, true, .answer "[redacted]" (.confirm true) "admin" true⟩]

def response (id field : String) (value : Value) : Value :=
  .object [("type", .string "response"), ("request_id", .string id), (field, value)]

/-- What passes up to the first answer to `eraseEvent`. -/
def askedFirst : List Passage :=
  [.emitted [] openingEvent, .emitted [] loginEvent,
    .line (response "login" "values" (.object loginValues)) true,
    .emitted ["abc", "abd"] eraseEvent]

theorem passed_askedTurns : ((Wire.start 1).acts trustingConfig askedTurns).passed =
    askedFirst ++ .line (response "[redacted]" "confirmed" (.bool true)) true ::
      ([.emitted ["abc", "abd"] deniedEvent] ++
        .line (response "[redacted]" "confirmed" (.bool true)) true :: []) := by
  rfl

theorem not_answered_once : ¬ ∀ (config : Config) (firstSeq : Nat) (turns : List Wire.Turn),
    AskedBetween (fun _ event => event) ((Wire.start firstSeq).acts config turns).passed := by
  intro h
  obtain ⟨mid₁, secrets, event, mid₂, hmid, hasks⟩ :=
    h trustingConfig 1 askedTurns "[redacted]" askedFirst (response "[redacted]" "confirmed" (.bool true))
      true [.emitted ["abc", "abd"] deniedEvent] _ true [] passed_askedTurns rfl rfl
  have hmem : Passage.emitted secrets event ∈ [Passage.emitted ["abc", "abd"] deniedEvent] := by
    rw [hmid]
    simp
  cases List.mem_singleton.mp hmem
  exact absurd hasks.1 (by decide)

end Bmac.Bmacd.Supervisor
