import Bmac.Bmacd.SupervisorLog
import Mathlib.Data.List.TakeWhile

/-!
# How a supervised run ends

The header, the protocol's breaches and the last `completed` event decide how a run ends, and follow
from the lines of the script's output (`Tells`). The log of a run is complete, up to one thing: an
event on stdout that says it is of the stream `stderr` is taken for one, so it may come before the
header.
-/

namespace Bmac.Bmacd.Supervisor

open Bmac.Core Bmac.Bmacd Bmac.Proto

/-! ## Flags -/

def isHeader : WorkflowEvent → Bool
  | .protocol name version _ => name = protocolName && version = protocolVersion
  | _ => false

def completedStatus : WorkflowEvent → Option CompletedStatus
  | .completed status _ _ _ => some status
  | _ => none

/-- What decides how a run ends: whether the header came, whether the protocol was broken, and the
last `completed` event. -/
structure Flags where
  ok : Bool
  failed : Bool
  completed : Option CompletedStatus

def flags (run : ActiveRun) : Flags :=
  ⟨run.protocolOk, run.protocolFailure.isSome, run.completed.map (·.1)⟩

namespace Flags

def see (f : Flags) (event : WorkflowEvent) : Flags :=
  if !f.ok && !f.failed && !isStderr event then
    if isHeader event then { f with ok := true } else { f with failed := true }
  else { f with completed := (completedStatus event).or f.completed }

def seeOp (f : Flags) : Op → Flags
  | .stdout _ (.ok event) => f.see event
  | .stdout _ (.error _) => f.see (.warning "")
  | .violation _ => { f with failed := true }
  | _ => f

end Flags

section

variable {config : Config} {run : ActiveRun} {nowMs : Int}

theorem completedStatus_scrub (secrets : List String) (event : WorkflowEvent) :
    completedStatus (scrub secrets event) = completedStatus event := by
  unfold scrub
  split
  · rfl
  · split
    · cases event <;> rfl
    · rfl

/-- Until the header came or the protocol was broken, no answer was asked for. -/
def Unasked (run : ActiveRun) : Prop :=
  run.protocolOk = false → run.protocolFailure = none →
    run.secrets = [] ∧ run.pendingRequest = none

variable {event : WorkflowEvent}

theorem flags_header {run' : ActiveRun} (h : header run event = some run') :
    flags run' = (flags run).see event ∧ Unasked run' := by
  unfold header at h
  split at h
  · rename_i hcond
    have hsee : (!(flags run).ok && !(flags run).failed && !isStderr event) = true := by
      simpa [flags] using hcond
    have hok : run.protocolOk = false := by
      simp only [Bool.and_eq_true, Bool.not_eq_true'] at hcond
      exact hcond.1.1
    have hfail : run.protocolFailure = none := by
      simp only [Bool.and_eq_true, Option.isNone_iff_eq_none] at hcond
      exact hcond.1.2
    rw [Flags.see, if_pos hsee]
    split at h
    · rename_i name version bmacVersion
      split at h
      · rename_i hname
        obtain rfl := Option.some.inj h
        rw [if_pos (show isHeader (.protocol name version bmacVersion) = true from hname)]
        refine ⟨rfl, ?_⟩
        intro hfalse
        cases hfalse
      · rename_i hname
        obtain rfl := Option.some.inj h
        rw [if_neg (show ¬ isHeader (.protocol name version bmacVersion) = true from hname)]
        refine ⟨rfl, ?_⟩
        intro _ hnone
        cases hnone
    · rename_i hnot
      obtain rfl := Option.some.inj h
      have hheader : ¬ isHeader event = true := by
        cases event with
        | protocol name version bmacVersion => exact absurd rfl (hnot name version bmacVersion)
        | _ => simp [isHeader]
      rw [if_neg hheader]
      refine ⟨rfl, ?_⟩
      intro _ hnone
      cases hnone
  · cases h

theorem see_of_header_none (h : header run event = none) :
    (flags run).see event =
      { flags run with completed := (completedStatus event).or (flags run).completed } := by
  unfold header at h
  split at h
  · split at h
    · split at h <;> cases h
    · cases h
  · rename_i hcond
    rw [Flags.see, if_neg]
    simpa [flags] using hcond

theorem isStderr_of_header_none (h : header run event = none)
    (hok : run.protocolOk = false) (hfail : run.protocolFailure = none) : isStderr event = true := by
  unfold header at h
  rw [hok, hfail] at h
  cases hs : isStderr event with
  | true => rfl
  | false =>
    rw [hs] at h
    simp only [Bool.not_false, Option.isNone_none, Bool.and_self, if_true] at h
    split at h
    · split at h <;> cases h
    · cases h

theorem flags_apply (event : WorkflowEvent) (hun : Unasked run) :
    flags (apply config run event).1 = (flags run).see event ∧
      Unasked (apply config run event).1 := by
  unfold apply
  cases hheader : header run event with
  | some run' => exact flags_header hheader
  | none =>
    rw [see_of_header_none hheader]
    have hlabel : ∀ ok : run.protocolOk = false, ∀ fail : run.protocolFailure = none,
        isStderr event = true := isStderr_of_header_none hheader
    cases event with
    | nextStep text command workflow args =>
      dsimp only
      generalize (if workflow.any config.knownOperation = true then workflow else none) = known
      split
      · exact ⟨rfl, hun⟩
      · exact ⟨rfl, hun⟩
    | validationError =>
      dsimp only
      split
      · exact ⟨rfl, fun ok fail => absurd (hlabel ok fail) (by simp [isStderr])⟩
      · exact ⟨rfl, hun⟩
    | request => exact ⟨rfl, fun ok fail => absurd (hlabel ok fail) (by simp [isStderr])⟩
    | completed => exact ⟨rfl, hun⟩
    | protocol | workflowStarted | workflowMetadata | phase | progress | result | info | plan |
      warning | error | log => exact ⟨rfl, hun⟩

theorem see_scrub (event : WorkflowEvent) (hun : Unasked run) :
    (flags run).see (scrub run.secrets event) = (flags run).see event := by
  unfold Flags.see
  cases hok : run.protocolOk with
  | true => simp [flags, hok, completedStatus_scrub]
  | false =>
    cases hfail : run.protocolFailure with
    | some reason => simp [flags, hfail, completedStatus_scrub]
    | none => rw [(hun hok hfail).1, show scrub [] event = event from rfl]

theorem flags_stopFailed (run : ActiveRun) :
    flags (stopFailed run) = flags run ∧ (Unasked run → Unasked (stopFailed run)) := by
  unfold stopFailed
  split
  · exact ⟨rfl, fun h => h⟩
  · exact ⟨rfl, fun h => h⟩

theorem flags_push (body : EventBody) (isUrgent : Bool) :
    flags (push config nowMs run body isUrgent).1 = flags run ∧
      (Unasked run → Unasked (push config nowMs run body isUrgent).1) := by
  unfold push
  dsimp only
  split
  · exact ⟨rfl, fun h => h⟩
  · exact ⟨rfl, fun h => h⟩

theorem flags_ingest (event : WorkflowEvent) (hun : Unasked run) :
    flags (ingest config nowMs run event).1 = (flags run).see event ∧
      Unasked (ingest config nowMs run event).1 := by
  have happly := @flags_apply config run (scrub run.secrets event) hun
  rw [see_scrub event hun] at happly
  unfold ingest
  rcases heq : apply config run (scrub run.secrets event) with ⟨run', event', keep⟩
  rw [heq] at happly
  dsimp only at happly ⊢
  obtain ⟨hflags, hun'⟩ := happly
  have hlast : ∀ (auto : Bool) (r : ActiveRun), flags r = flags run' → Unasked r →
      flags (stopFailed (if auto then { r with pendingRequest := none } else r)) = flags run' ∧
        Unasked (stopFailed (if auto then { r with pendingRequest := none } else r)) := by
    intro auto r hr hu
    obtain ⟨h1, h2⟩ := flags_stopFailed (if auto then { r with pendingRequest := none } else r)
    cases auto with
    | true => exact ⟨h1.trans hr, h2 fun ok fail => ⟨(hu ok fail).1, rfl⟩⟩
    | false => exact ⟨h1.trans hr, h2 hu⟩
  rw [← hflags]
  cases (if keep = true then event'.intoJobEvent else none) with
  | none => exact hlast _ run' rfl hun'
  | some body =>
    obtain ⟨hpush, hpush'⟩ := @flags_push config run' nowMs body (urgent body)
    exact hlast _ _ hpush (hpush' hun')

theorem see_plain {f : Flags} (hs : isStderr event = false) (hh : isHeader event = false)
    (hc : completedStatus event = none) : f.see event = f.see (.warning "") := by
  unfold Flags.see
  rw [hs, hh, hc]
  rfl

theorem see_warning_twice (f : Flags) : (f.see (.warning "")).see (.warning "") = f.see (.warning "") := by
  obtain ⟨ok, failed, completed⟩ := f
  cases ok <;> cases failed <;> rfl

theorem flags_unparsed (line why : String) (hun : Unasked run) :
    flags (unparsed config nowMs run line why).1 = (flags run).see (.warning "") ∧
      Unasked (unparsed config nowMs run line why).1 := by
  unfold unparsed
  dsimp only
  have hmark : Unasked { run with unparsedWarned := true } := hun
  have hlog : ∀ f : Flags, f.see (.logOf "stdout" .warning line (some "unparsed")) =
      f.see (.warning "") := fun f => see_plain (by rfl) rfl rfl
  split
  · obtain ⟨h1, hu1⟩ := @flags_ingest config _ nowMs
      (.warning s!"The script wrote output outside the bmac-ui protocol ({why}).") hmark
    obtain ⟨h2, hu2⟩ := @flags_ingest config _ nowMs
      (.logOf "stdout" .warning line (some "unparsed")) hu1
    refine ⟨?_, hu2⟩
    rw [h2, h1.trans (see_plain rfl rfl rfl), hlog, see_warning_twice]
    rfl
  · obtain ⟨h2, hu2⟩ := @flags_ingest config _ nowMs
      (.logOf "stdout" .warning line (some "unparsed")) hmark
    refine ⟨?_, hu2⟩
    rw [h2, hlog]
    rfl

theorem see_stderr {f : Flags} (hs : isStderr event = true) : f.see event = f := by
  cases event with
  | log => simp [Flags.see, hs, completedStatus]
  | _ => cases hs

theorem flags_answer {requestId by_ : String} {given : Answer} {isOpen : Bool} {d : Delivered}
    (hun : Unasked run) (h : answer config nowMs run requestId given by_ isOpen = .ok d) :
    flags d.1 = flags run ∧ Unasked d.1 := by
  unfold answer at h
  split at h
  · cases h
  · rename_i request hrequest
    split at h
    · cases h
    · split at h
      · cases h
      · obtain rfl := Except.ok.inj h
        refine ⟨rfl, fun ok fail => ?_⟩
        -- A pending request means that the header came, or that the protocol was broken.
        have hnone := (hun ok fail).2
        rw [hnone] at hrequest
        cases hrequest

theorem flags_act (op : Op) (hun : Unasked run) :
    flags (op.act config nowMs run).1 = (flags run).seeOp op ∧
      Unasked (op.act config nowMs run).1 := by
  cases op with
  | stdout line parsed =>
    cases parsed with
    | ok event => exact flags_ingest event hun
    | error why => exact flags_unparsed line why hun
  | stderr line =>
    obtain ⟨h, hu⟩ := @flags_ingest config run nowMs (stderrEvent line) hun
    refine ⟨?_, hu⟩
    show flags (ingest config nowMs run (stderrEvent line)).1 = flags run
    rw [h, see_stderr (by rfl)]
  | violation reason =>
    have hsome : (run.protocolFailure.or (some reason)).isSome = true := by
      cases run.protocolFailure <;> rfl
    have hnone : ¬ run.protocolFailure.or (some reason) = none := by
      intro hn
      rw [hn] at hsome
      cases hsome
    unfold Op.act violation
    dsimp only
    split
    · refine ⟨?_, fun _ fail => absurd fail hnone⟩
      rw [flags, hsome]
      rfl
    · refine ⟨?_, fun _ fail => absurd fail hnone⟩
      rw [flags, hsome]
      rfl
  | flush =>
    show flags (Supervisor.flush run).1 = flags run ∧ Unasked (Supervisor.flush run).1
    unfold Supervisor.flush
    split
    · exact ⟨rfl, hun⟩
    · exact ⟨rfl, hun⟩
  | answer requestId given by_ isOpen =>
    unfold Op.act
    dsimp only
    split
    · rename_i hanswer
      exact flags_answer hun hanswer
    · exact ⟨rfl, hun⟩
  | cancel force =>
    unfold Op.act
    dsimp only
    split
    · rename_i run' hcancel
      unfold cancel at hcancel
      split at hcancel
      · cases hcancel
      · obtain rfl := Except.ok.inj hcancel
        refine ⟨rfl, fun ok fail => ⟨(hun ok fail).1, ?_⟩⟩
        dsimp only
        split
        · exact (hun ok fail).2
        · rfl
    · exact ⟨rfl, hun⟩
  | stop => exact ⟨rfl, hun⟩

theorem flags_runOps (firstSeq : Nat) (stopping : Bool) (ops : List (Op × Int)) :
    ∃ run, (runOps config (started firstSeq stopping) ops).run = some run ∧
      flags run = (ops.map (·.1)).foldl Flags.seeOp ⟨false, false, none⟩ ∧ Unasked run := by
  induction ops using List.reverseRecOn with
  | nil => exact ⟨.start firstSeq, rfl, rfl, fun _ _ => ⟨rfl, rfl⟩⟩
  | append_singleton ops op ih =>
    obtain ⟨run, hrun, hflags, hun⟩ := ih
    obtain ⟨h, hu⟩ := @flags_act config run op.2 op.1 hun
    unfold runOps at hrun ⊢
    rw [List.foldl_append, List.foldl_cons, List.foldl_nil, Op.step, hrun]
    refine ⟨_, rfl, ?_, hu⟩
    rw [List.map_append, List.foldl_append, ← hflags]
    exact h

end

/-! ## What the script's output says -/

def stdoutLines (ops : List (Op × Int)) : List (Except String WorkflowEvent) :=
  ops.filterMap fun op =>
    match op.1 with
    | .stdout _ parsed => some parsed
    | _ => none

def violated (ops : List (Op × Int)) : Bool := ops.any fun op => op.1 matches .violation _

def labelled : Except String WorkflowEvent → Bool
  | .ok event => isStderr event
  | .error _ => false

def headerLine : Except String WorkflowEvent → Bool
  | .ok event => isHeader event
  | .error _ => false

/-- Whether the first line that isn't labelled is the header. -/
def headed (lines : List (Except String WorkflowEvent)) : Bool :=
  (lines.dropWhile labelled).head?.any headerLine

def lineStatus : Except String WorkflowEvent → Option CompletedStatus
  | .ok event => completedStatus event
  | .error _ => none

def lastCompleted (lines : List (Except String WorkflowEvent)) : Option CompletedStatus :=
  (lines.filterMap lineStatus).getLast?

theorem lastCompleted_append (lines : List (Except String WorkflowEvent))
    (line : Except String WorkflowEvent) :
    lastCompleted (lines ++ [line]) = (lineStatus line).or (lastCompleted lines) := by
  unfold lastCompleted
  rw [List.filterMap_append]
  cases h : lineStatus line with
  | none => simp [h]
  | some status => simp [h]

/-- The flags tell what the output said: the protocol holds as long as nothing but labelled lines
came before the header. -/
structure Tells (ops : List (Op × Int)) (f : Flags) : Prop where
  failed : f.failed = false ↔ violated ops = false ∧
    (headed (stdoutLines ops) = true ∨ (stdoutLines ops).dropWhile labelled = [])
  ok : f.failed = false → f.ok = headed (stdoutLines ops)
  completed : f.failed = false → f.completed = lastCompleted (stdoutLines ops)

variable {lines : List (Except String WorkflowEvent)}

theorem headed_of_nil (h : lines.dropWhile labelled = []) : headed lines = false := by
  rw [headed, h]
  rfl

/-- Labelled lines are no `completed` events. -/
theorem lineStatus_labelled
    (h : lines.dropWhile labelled = []) : lines.filterMap lineStatus = [] := by
  refine List.filterMap_eq_nil_iff.mpr fun line hl => ?_
  have hall := List.dropWhile_eq_nil_iff.mp h line hl
  cases line with
  | ok event =>
    cases event with
    | log => rfl
    | _ => cases hall
  | error why => cases hall

theorem dropWhile_append (lines : List (Except String WorkflowEvent))
    (line : Except String WorkflowEvent) : (lines ++ [line]).dropWhile labelled =
      if lines.dropWhile labelled = [] then (if labelled line then [] else [line])
      else lines.dropWhile labelled ++ [line] := by
  rw [List.dropWhile_append]
  by_cases h : lines.dropWhile labelled = []
  · rw [if_pos h, if_pos (by rw [h]; rfl)]
    by_cases hl : labelled line = true
    · simp [hl]
    · simp [hl]
  · rw [if_neg h, if_neg (by simpa using h)]

theorem headed_append_of_ne {lines : List (Except String WorkflowEvent)}
    {line : Except String WorkflowEvent} (h : lines.dropWhile labelled ≠ []) :
    headed (lines ++ [line]) = headed lines := by
  rw [headed, dropWhile_append, if_neg h, List.head?_append_of_ne_nil _ h, headed]

theorem headed_append_of_nil
    {line : Except String WorkflowEvent} (h : lines.dropWhile labelled = []) :
    headed (lines ++ [line]) = (!labelled line && headerLine line) := by
  rw [headed, dropWhile_append, if_pos h]
  cases labelled line with
  | true => rfl
  | false => rfl

/-- What an operation says on stdout: one line, which counts as the event. -/
structure Says (ops : List (Op × Int)) (op : Op × Int) (parsed : Except String WorkflowEvent)
    (event : WorkflowEvent) : Prop where
  lines : stdoutLines (ops ++ [op]) = stdoutLines ops ++ [parsed]
  violated : violated (ops ++ [op]) = violated ops
  label : labelled parsed = isStderr event
  header : headerLine parsed = isHeader event
  status : lineStatus parsed = completedStatus event

section

variable {ops : List (Op × Int)} {f : Flags} {op : Op × Int} {parsed : Except String WorkflowEvent}
variable {event : WorkflowEvent}

theorem Tells.still_failed (h : Tells ops f) (hline : Says ops op parsed event)
    (hd : (stdoutLines ops).dropWhile labelled = []) (hf : f.failed = true) :
    Tells (ops ++ [op]) (f.see event) := by
  have hv : violated ops = true := by
    cases hv : violated ops with
    | true => rfl
    | false => rw [h.failed.mpr ⟨hv, .inr hd⟩] at hf; cases hf
  have hsee : (f.see event).failed = true := by simp [Flags.see, hf]
  refine ⟨⟨fun hn => ?_, fun hn => ?_⟩, fun hn => ?_, fun hn => ?_⟩
  · rw [hsee] at hn; cases hn
  · rw [hline.violated, hv] at hn; cases hn.1
  · rw [hsee] at hn; cases hn
  · rw [hsee] at hn; cases hn

/-- A labelled line before the header changes nothing. -/
theorem Tells.of_labelled (h : Tells ops f) (hline : Says ops op parsed event)
    (hd : (stdoutLines ops).dropWhile labelled = []) (hf : f.failed = false) (hs : isStderr event = true) :
    Tells (ops ++ [op]) (f.see event) := by
  have hlabel : labelled parsed = true := hline.label.trans hs
  rw [see_stderr hs]
  refine ⟨?_, fun _ => ?_, fun _ => ?_⟩
  · rw [hf, hline.lines, hline.violated, dropWhile_append, if_pos hd, if_pos hlabel]
    simp [(h.failed.mp hf).1]
  · rw [hline.lines, headed_append_of_nil hd, hlabel, h.ok hf, headed_of_nil hd]
    rfl
  · have hnone : completedStatus event = none := by
      cases event with
      | log => rfl
      | _ => cases hs
    rw [hline.lines, lastCompleted_append, hline.status, hnone, h.completed hf]
    rfl

/-- The first line that isn't labelled passes when it is the header. -/
theorem Tells.first (h : Tells ops f) (hline : Says ops op parsed event)
    (hd : (stdoutLines ops).dropWhile labelled = []) (hf : f.failed = false)
    (hs : isStderr event = false) : Tells (ops ++ [op]) (f.see event) := by
  have hv := (h.failed.mp hf).1
  have hok : f.ok = false := (h.ok hf).trans (headed_of_nil hd)
  have hlabel : labelled parsed = false := hline.label.trans hs
  have hhead : headed (stdoutLines ops ++ [parsed]) = isHeader event := by
    rw [headed_append_of_nil hd, hlabel, hline.header]
    rfl
  cases hi : isHeader event with
  | true =>
    have hsee : f.see event = { f with ok := true } := by simp [Flags.see, hok, hf, hs, hi]
    have hnone : completedStatus event = none := by
      cases event with
      | protocol => rfl
      | _ => cases hi
    rw [hi] at hhead
    rw [hsee]
    refine ⟨?_, fun _ => ?_, fun _ => ?_⟩
    · rw [hline.lines, hline.violated, hhead]
      simp [hv, hf]
    · rw [hline.lines, hhead]
    · rw [hline.lines, lastCompleted_append, hline.status, hnone]
      exact h.completed hf
  | false =>
    have hsee : f.see event = { f with failed := true } := by simp [Flags.see, hok, hf, hs, hi]
    rw [hi] at hhead
    rw [hsee]
    refine ⟨?_, fun hn => (nomatch hn), fun hn => (nomatch hn)⟩
    rw [hline.lines, hline.violated, hhead, dropWhile_append, if_pos hd, hlabel]
    simp

/-- A line after it only counts when it is a `completed` event. -/
theorem Tells.later (h : Tells ops f) (hline : Says ops op parsed event)
    (hd : (stdoutLines ops).dropWhile labelled ≠ []) : Tells (ops ++ [op]) (f.see event) := by
  have hhead := @headed_append_of_ne _ parsed hd
  have hdrop : (stdoutLines ops ++ [parsed]).dropWhile labelled ≠ [] := by
    rw [dropWhile_append, if_neg hd]
    simp
  have hsee : (f.see event).failed = f.failed ∧ (f.failed = false → (f.see event).ok = f.ok ∧
      (f.see event).completed = (completedStatus event).or f.completed) := by
    cases hf : f.failed with
    | true => simp [Flags.see, hf]
    | false =>
      have hok : f.ok = true := by
        rw [h.ok hf]
        exact (h.failed.mp hf).2.resolve_right hd
      simp [Flags.see, hok, hf]
  refine ⟨?_, fun hn => ?_, fun hn => ?_⟩
  · rw [hsee.1, h.failed, hline.lines, hline.violated, hhead]
    simp [hd, hdrop]
  · rw [hsee.1] at hn
    rw [(hsee.2 hn).1, hline.lines, hhead, h.ok hn]
  · rw [hsee.1] at hn
    rw [(hsee.2 hn).2, hline.lines, lastCompleted_append, hline.status, h.completed hn]

theorem Tells.line (h : Tells ops f) (hline : Says ops op parsed event) :
    Tells (ops ++ [op]) (f.see event) := by
  by_cases hd : (stdoutLines ops).dropWhile labelled = []
  · cases hf : f.failed with
    | true => exact h.still_failed hline hd hf
    | false =>
      cases hs : isStderr event with
      | true => exact h.of_labelled hline hd hf hs
      | false => exact h.first hline hd hf hs
  · exact h.later hline hd

end

theorem tells_ops (ops : List (Op × Int)) :
    Tells ops ((ops.map (·.1)).foldl Flags.seeOp ⟨false, false, none⟩) := by
  induction ops using List.reverseRecOn with
  | nil => exact ⟨by simp [violated, stdoutLines], fun _ => rfl, fun _ => rfl⟩
  | append_singleton ops op ih =>
    rw [List.map_append, List.foldl_append]
    obtain ⟨op, nowMs⟩ := op
    have hlines : ∀ {o : Op}, (match o with
        | .stdout _ parsed => some parsed
        | _ => none) = (none : Option (Except String WorkflowEvent)) →
        stdoutLines (ops ++ [(o, nowMs)]) = stdoutLines ops := by
      intro o ho
      simp only [stdoutLines, List.filterMap_append, List.filterMap_cons, ho, List.filterMap_nil,
        List.append_nil]
    have hsame : ∀ {o : Op} {f : Flags}, stdoutLines (ops ++ [(o, nowMs)]) = stdoutLines ops →
        violated (ops ++ [(o, nowMs)]) = violated ops → Tells ops f → Tells (ops ++ [(o, nowMs)]) f := by
      intro o f hl hv ht
      exact ⟨by rw [hl, hv]; exact ht.failed, by rw [hl]; exact ht.ok, by rw [hl]; exact ht.completed⟩
    cases op with
    | stdout line parsed =>
      cases parsed with
      | ok event =>
        exact @Tells.line _ _ _ (.ok event) event ih ⟨by simp [stdoutLines], by simp [violated], rfl, rfl, rfl⟩
      | error why =>
        exact @Tells.line _ _ _ (.error why) _ ih ⟨by simp [stdoutLines], by simp [violated], rfl, rfl, rfl⟩
    | violation reason =>
      refine ⟨⟨fun hn => (nomatch hn), fun hn => ?_⟩, fun hn => (nomatch hn), fun hn => (nomatch hn)⟩
      have hv : violated (ops ++ [(.violation reason, nowMs)]) = true := by simp [violated]
      rw [hv] at hn
      cases hn.1
    | stderr | flush | answer | cancel | stop =>
      exact hsame (hlines rfl) (by simp [violated]) ih

/-! ## Whole runs -/

/-- What the script says, and its exit, when the run completes. -/
def Completes (ops : List (Op × Int)) (status : ExitStatus) : Prop :=
  violated ops = false ∧ headed (stdoutLines ops) = true ∧
    lastCompleted (stdoutLines ops) = some .success ∧ status.exitCode = some 0

/-- Whether an event that says it comes from stderr is the first on stdout. -/
def LabelledFirst (ops : List (Op × Int)) : Prop :=
  ∃ event rest, stdoutLines ops = .ok event :: rest ∧ isStderr event = true

section

variable {config : Config} {run : ActiveRun} {nowMs : Int} {status : ExitStatus}

theorem isTerminal_ended : (ended run status).1.isTerminal = true := by
  unfold ended
  split
  · rfl
  · split
    · split <;> rfl
    · rfl
    · rfl
    · split <;> rfl

theorem state_terminal {state : JobState} {message : Option String} (h : state.isTerminal = true) :
    (terminal state message).state = some state := by
  cases state with
  | completed | failed | cancelled => rfl
  | admitted | running | interrupted => cases h

/-- A run completes when nothing broke the protocol, the last `completed` event says success, and the
process exits with 0. -/
theorem ended_completed_iff : (ended run status).1 = .completed ↔
    (flags run).failed = false ∧ (flags run).completed = some .success ∧
      status.exitCode = some 0 := by
  unfold ended flags
  cases hf : run.protocolFailure with
  | some reason => simp
  | none =>
    cases hc : run.completed with
    | none =>
      cases run.cancel with
      | none => simp
      | some forced => simp
    | some said =>
      obtain ⟨said, message⟩ := said
      cases said with
      | success =>
        by_cases he : status.exitCode = some 0
        · simp [he]
        · simp [he]
      | failed => simp
      | cancelled => simp

theorem ended_completed {firstSeq : Nat} {stopping : Bool} {ops : List (Op × Int)}
    (hrun : (runOps config (started firstSeq stopping) ops).run = some run) :
    (ended run status).1 = .completed ↔ Completes ops status := by
  obtain ⟨run', hrun', hflags, -⟩ := @flags_runOps config firstSeq stopping ops
  rw [hrun] at hrun'
  obtain rfl := Option.some.inj hrun'
  have htells := tells_ops ops
  rw [← hflags] at htells
  rw [ended_completed_iff]
  constructor
  · rintro ⟨hfail, hcompleted, hexit⟩
    obtain ⟨hviolated, hhead⟩ := htells.failed.mp hfail
    rw [htells.completed hfail] at hcompleted
    refine ⟨hviolated, hhead.resolve_right fun hnil => ?_, hcompleted, hexit⟩
    rw [lastCompleted, lineStatus_labelled hnil] at hcompleted
    cases hcompleted
  · rintro ⟨hviolated, hhead, hlast, hexit⟩
    have hfail := htells.failed.mpr ⟨hviolated, .inl hhead⟩
    exact ⟨hfail, (htells.completed hfail).trans hlast, hexit⟩

theorem endPhases_adds (end_ : PhaseStatus) (phases : List PhaseState) :
    AddsOpen config run (endPhases config nowMs end_ phases run) := by
  induction phases generalizing run with
  | nil => exact .of_fields rfl rfl
  | cons phase rest ih =>
    have hpush : AddsOpen config run
        (push config nowMs run (.phase phase.id phase.label end_ none) false) :=
      ⟨_, by simp [ends, EventBody.state], push_adds false⟩
    exact hpush.trans ih

/-- What `finalize` does with a run that isn't left: it ends with the event of its state. -/
theorem finalize_ended {s : Supervised} (hrun : s.run = some run) (hleft : left s.stopping run = false) :
    ∃ bodies, (∀ b ∈ bodies, ends b.2 = false) ∧
      (finalize config nowMs s status).sent.flatten =
        s.sent.flatten ++ (run.pending ++ numbered config run.seq
          (bodies ++ [(nowMs, terminal (ended run status).1 (ended run status).2)])) ∧
      (finalize config nowMs s status).outcome = some ⟨(ended run status).1, (ended run status).2,
        status.exitCode, status.signal, run.seq + (bodies.length + 1)⟩ := by
  obtain ⟨bodies, hopen, hadds⟩ := @endPhases_adds config run nowMs
    (phaseEnd (ended run status).1) (run.phases.filter (·.status = .running))
  refine ⟨bodies, hopen, ?_⟩
  unfold finalize
  rw [hrun]
  dsimp only
  rw [hleft]
  simp only [Bool.false_eq_true, if_false]
  rcases hphases : endPhases config nowMs (phaseEnd (ended run status).1)
    (run.phases.filter (·.status = .running)) run with ⟨run', sent⟩
  rw [hphases] at hadds
  have hpush := @push_adds config run' nowMs (terminal (ended run status).1 (ended run status).2) true
  have hall := hadds.trans hpush
  have hpending : (push config nowMs run' (terminal (ended run status).1 (ended run status).2) true).1.pending
      = [] := rfl
  refine ⟨?_, ?_⟩
  · have hlog := hall.log
    rw [hpending, List.append_nil] at hlog
    rw [List.append_assoc, List.flatten_append, hlog]
  · have hseq := hall.seq
    rw [List.length_append] at hseq
    rw [show (push config nowMs run' (terminal (ended run status).1 (ended run status).2) true).1.seq =
      run.seq + (bodies.length + 1) from hseq]

theorem finalize_left {s : Supervised} (hrun : s.run = some run) (hleft : left s.stopping run = true) :
    (finalize config nowMs s status).sent.flatten = s.sent.flatten ++ run.pending ∧
      (finalize config nowMs s status).outcome = s.outcome := by
  unfold finalize
  rw [hrun]
  dsimp only
  rw [if_pos hleft]
  have hflush := (@flush_adds config run).log
  have hpending : (flush run).1.pending = [] := by
    unfold flush
    split
    · rename_i he
      simpa using he
    · rfl
  rw [hpending] at hflush
  simp only [numbered, List.append_nil] at hflush
  refine ⟨?_, rfl⟩
  rw [List.flatten_append, hflush]

end

/-- A complete log: consecutive numbers, one event that ends the job, last and of the outcome's state,
or none when the daemon stops; and a run that completes did so by the protocol. -/
structure Complete (config : Config) (firstSeq : Nat) (stopping : Bool) (ops : List (Op × Int))
    (status : ExitStatus) (nowMs : Int) : Prop where
  numbers : ∃ n, ((finalize config nowMs (runOps config (started firstSeq stopping) ops) status).sent
    |>.flatten.map (·.seq)) = List.range' firstSeq n
  ended : (∀ run, (runOps config (started firstSeq stopping) ops).run = some run →
      left (runOps config (started firstSeq stopping) ops).stopping run = false) →
    ∃ outcome front last,
      (finalize config nowMs (runOps config (started firstSeq stopping) ops) status).outcome =
        some outcome ∧
      (finalize config nowMs (runOps config (started firstSeq stopping) ops) status).sent.flatten =
        front ++ [last] ∧
      last.body.state = some outcome.state ∧ last.terminal = true ∧
      ∀ e ∈ front, e.terminal = false
  left : (∃ run, (runOps config (started firstSeq stopping) ops).run = some run ∧
      left (runOps config (started firstSeq stopping) ops).stopping run = true) →
    (finalize config nowMs (runOps config (started firstSeq stopping) ops) status).outcome.isNone ∧
    ∀ e ∈ (finalize config nowMs (runOps config (started firstSeq stopping) ops) status).sent.flatten,
      e.terminal = false
  completed : ∀ outcome,
    (finalize config nowMs (runOps config (started firstSeq stopping) ops) status).outcome =
      some outcome → outcome.state = .completed →
    (stdoutLines ops).head?.any headerLine = true ∧
      lastCompleted (stdoutLines ops) = some .success ∧
      (∀ run, (runOps config (started firstSeq stopping) ops).run = some run →
        run.protocolFailure = none) ∧
      status.exitCode = some 0

section

variable {config : Config} {firstSeq : Nat} {stopping : Bool} {ops : List (Op × Int)}
variable {status : ExitStatus} {nowMs : Int} {run : ActiveRun} {w : Supervised}

/-- The log of a run that is left holds no event that ends the job. -/
theorem log_left (hw : runOps config (started firstSeq stopping) ops = w) (hrun : w.run = some run)
    (hleft : left w.stopping run = true) : ∃ bodies, (∀ b ∈ bodies, ends b.2 = false) ∧
      (finalize config nowMs w status).sent.flatten = numbered config (firstSeq - 1) bodies ∧
      (finalize config nowMs w status).outcome = none := by
  subst hw
  obtain ⟨run', hrun', hout, bodies, hopen, hadds⟩ := @runOps_adds config firstSeq stopping ops
  obtain rfl := Option.some.inj (hrun.symm.trans hrun')
  obtain ⟨hflat, houtcome⟩ := @finalize_left config run nowMs status _ hrun hleft
  exact ⟨bodies, hopen, hflat.trans hadds.log, houtcome.trans hout⟩

theorem log_ended (hw : runOps config (started firstSeq stopping) ops = w) (hrun : w.run = some run)
    (hleft : left w.stopping run = false) : ∃ front, (∀ b ∈ front, ends b.2 = false) ∧
      (finalize config nowMs w status).sent.flatten = numbered config (firstSeq - 1)
        (front ++ [(nowMs, terminal (ended run status).1 (ended run status).2)]) ∧
      ∃ lastSeq, (finalize config nowMs w status).outcome = some ⟨(ended run status).1,
        (ended run status).2, status.exitCode, status.signal, lastSeq⟩ := by
  subst hw
  obtain ⟨run', hrun', -, bodies, hopen, hadds⟩ := @runOps_adds config firstSeq stopping ops
  obtain rfl := Option.some.inj (hrun.symm.trans hrun')
  obtain ⟨more, hmore, hflat, houtcome⟩ := @finalize_ended config run nowMs status _ hrun hleft
  have hsent : (runOps config (started firstSeq stopping) ops).sent.flatten ++ run.pending =
      numbered config (firstSeq - 1) bodies := hadds.log
  have hseq : run.seq = firstSeq - 1 + bodies.length := hadds.seq
  refine ⟨bodies ++ more, fun b hb => ?_, ?_, _, houtcome⟩
  · exact (List.mem_append.mp hb).elim (hopen b) (hmore b)
  · rw [hflat, ← List.append_assoc, hsent, hseq, List.append_assoc bodies, ← numbered_append]

theorem log_numbers (hw : runOps config (started firstSeq stopping) ops = w)
    (hrun : w.run = some run) (hfirst : 1 ≤ firstSeq) :
    ∃ n, ((finalize config nowMs w status).sent.flatten.map (·.seq)) = List.range' firstSeq n := by
  have hone : firstSeq - 1 + 1 = firstSeq := Nat.sub_add_cancel hfirst
  cases hleft : left w.stopping run with
  | true =>
    obtain ⟨bodies, -, hflat, -⟩ := log_left hw hrun hleft
    exact ⟨bodies.length, by rw [hflat, seq_numbered, hone]⟩
  | false =>
    obtain ⟨front, -, hflat, -⟩ := log_ended hw hrun hleft
    refine ⟨front.length + 1, ?_⟩
    rw [hflat, seq_numbered, hone, List.length_append, List.length_singleton]

/-- The outcome is `completed` when the script and its exit say so. -/
theorem outcome_completed {outcome : Outcome}
    (hw : runOps config (started firstSeq stopping) ops = w) (hrun : w.run = some run)
    (houtcome : (finalize config nowMs w status).outcome = some outcome) :
    outcome.state = .completed ↔ Completes ops status := by
  cases hleft : left w.stopping run with
  | true =>
    obtain ⟨-, -, -, hnone⟩ := @log_left _ _ _ _ status nowMs _ _ hw hrun hleft
    rw [hnone] at houtcome
    cases houtcome
  | false =>
    obtain ⟨-, -, -, lastSeq, hout⟩ := @log_ended _ _ _ _ status nowMs _ _ hw hrun hleft
    rw [hout] at houtcome
    obtain rfl := Option.some.inj houtcome
    exact ended_completed (hw ▸ hrun)

/-- A run that completes isn't left. -/
theorem not_left_of_completed (h : (ended run status).1 = .completed) : left stopping run = false := by
  have hsuccess := (ended_completed_iff.mp h).2.1
  cases hc : run.completed with
  | none => rw [flags, hc] at hsuccess; cases hsuccess
  | some said => simp [left, hc]

/-- When the first line isn't labelled, it is the header. -/
theorem head_of_headed (hnot : ¬ LabelledFirst ops) (hhead : headed (stdoutLines ops) = true) :
    (stdoutLines ops).head?.any headerLine = true := by
  cases hlines : stdoutLines ops with
  | nil => rw [hlines] at hhead; cases hhead
  | cons line rest =>
    cases hlabel : labelled line with
    | true =>
      cases line with
      | ok event => exact absurd ⟨event, rest, hlines, hlabel⟩ hnot
      | error why => cases hlabel
    | false =>
      rw [headed, hlines, List.dropWhile_cons_of_neg (by simp [hlabel])] at hhead
      exact hhead

end

/-- The log of a run is complete, except that a run completes although an event on stdout came before
the header, if the event says that it comes from stderr. -/
theorem log_complete_iff (config : Config) (firstSeq : Nat) (stopping : Bool) (ops : List (Op × Int))
    (status : ExitStatus) (nowMs : Int) (hfirst : 1 ≤ firstSeq) :
    Complete config firstSeq stopping ops status nowMs ↔
      ¬ (LabelledFirst ops ∧ Completes ops status) := by
  obtain ⟨run, hrun, -⟩ := @runOps_adds config firstSeq stopping ops
  constructor
  · rintro hcomplete ⟨⟨event, rest, hlines, hlabel⟩, hcompletes⟩
    have hstate : (ended run status).1 = .completed := (ended_completed hrun).mpr hcompletes
    obtain ⟨-, -, -, lastSeq, houtcome⟩ :=
      @log_ended _ _ _ _ status nowMs _ _ rfl hrun (not_left_of_completed hstate)
    have hhead := (hcomplete.completed _ houtcome hstate).1
    rw [hlines] at hhead
    cases event with
    | log => cases hhead
    | _ => cases hlabel
  · intro hnot
    refine ⟨log_numbers rfl hrun hfirst, fun hleft => ?_, ?_, fun outcome houtcome hstate => ?_⟩
    · obtain ⟨front, hfront, hflat, lastSeq, houtcome⟩ := log_ended rfl hrun (hleft run hrun)
      have hstate := @state_terminal _ (Supervisor.ended run status).2 (@isTerminal_ended run status)
      refine ⟨_, numbered config (firstSeq - 1) front,
        ⟨config.job, firstSeq - 1 + front.length + 1, nowMs,
          terminal (Supervisor.ended run status).1 (Supervisor.ended run status).2⟩,
        houtcome, ?_, hstate, ?_, terminal_numbered hfront⟩
      · rw [hflat, numbered_append]
        rfl
      · unfold JobEvent.terminal
        rw [hstate]
        exact isTerminal_ended
    · rintro ⟨run', hrun', hleft⟩
      obtain ⟨bodies, hopen, hflat, hnone⟩ := log_left rfl hrun' hleft
      rw [hflat, hnone]
      exact ⟨rfl, terminal_numbered hopen⟩
    · have hcompletes := (outcome_completed rfl hrun houtcome).mp hstate
      obtain ⟨-, hhead, hlast, hexit⟩ := id hcompletes
      refine ⟨head_of_headed (fun hfirst => hnot ⟨hfirst, hcompletes⟩) hhead, hlast,
        fun run' hrun' => ?_, hexit⟩
      have hstate : (ended run' status).1 = .completed := (ended_completed hrun').mpr hcompletes
      have hfail := (ended_completed_iff.mp hstate).1
      simpa [flags] using hfail

/-! ### A labelled event before the header -/

def quietConfig : Config := ⟨1, fun _ => false, fun _ => 0, fun _ value => .ok value⟩

def headerEvent : WorkflowEvent := .protocol protocolName protocolVersion none

def successEvent : WorkflowEvent := .completed .success none none none

def headedRun : List (Op × Int) :=
  [(.stdout "" (.ok headerEvent), 0), (.stderr "a note", 1), (.stdout "" (.ok (.info "hello")), 2),
    (.flush, 3), (.stdout "" (.ok successEvent), 4)]

theorem log_complete_headed : Complete quietConfig 2 false headedRun ⟨some 0, none⟩ 5 := by
  refine (log_complete_iff quietConfig 2 false headedRun ⟨some 0, none⟩ 5 (by decide)).mpr ?_
  rintro ⟨⟨event, rest, hlines, hlabel⟩, -⟩
  obtain ⟨hevent, -⟩ := List.cons.inj hlines
  obtain rfl := Except.ok.inj hevent
  cases hlabel

def labelledRun : List (Op × Int) :=
  [(.stdout "" (.ok (.log (some "stderr") .info "hello" none)), 0),
    (.stdout "" (.ok headerEvent), 1), (.stdout "" (.ok successEvent), 2)]

theorem not_log_complete : ¬ ∀ (config : Config) (firstSeq : Nat) (stopping : Bool)
    (ops : List (Op × Int)) (status : ExitStatus) (nowMs : Int), 1 ≤ firstSeq →
    Complete config firstSeq stopping ops status nowMs := by
  intro h
  have hcomplete := h quietConfig 2 false labelledRun ⟨some 0, none⟩ 3 (by decide)
  have hhead := (hcomplete.completed _ rfl rfl).1
  cases hhead

end Bmac.Bmacd.Supervisor
