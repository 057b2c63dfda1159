import Bmac.Bmacd.Supervisor

/-!
# What a run's operations add to its log

Each operation numbers its events on from the run's last one, and hands them to the sink or keeps
them, in order (`Adds`). None of them ends the job.
-/

namespace Bmac.Bmacd.Supervisor

open Bmac.Core Bmac.Bmacd Bmac.Proto

/-! ## The log -/

section

variable {config : Config} {run : ActiveRun} {d d' : Delivered} {nowMs : Int} {body : EventBody}

/-- The events of `bodies`, numbered after `seq`. -/
def numbered (config : Config) : Nat → List (Int × EventBody) → List JobEvent
  | _, [] => []
  | seq, (atMs, body) :: rest => ⟨config.job, seq + 1, atMs, body⟩ :: numbered config (seq + 1) rest

theorem numbered_append (seq : Nat) (xs ys : List (Int × EventBody)) :
    numbered config seq (xs ++ ys) =
      numbered config seq xs ++ numbered config (seq + xs.length) ys := by
  induction xs generalizing seq with
  | nil => rfl
  | cons x xs ih =>
    rw [List.cons_append, numbered, ih, numbered, List.cons_append, List.length_cons,
      show seq + (xs.length + 1) = seq + 1 + xs.length by omega]

theorem seq_numbered (seq : Nat) (xs : List (Int × EventBody)) :
    (numbered config seq xs).map (·.seq) = List.range' (seq + 1) xs.length := by
  induction xs generalizing seq with
  | nil => rfl
  | cons x xs ih => rw [numbered, List.map_cons, ih, List.length_cons, List.range'_succ]

def ends (body : EventBody) : Bool := body.state.any (·.isTerminal)

variable {xs : List (Int × EventBody)}

theorem terminal_numbered {seq : Nat}
    (h : ∀ x ∈ xs, ends x.2 = false) : ∀ e ∈ numbered config seq xs, e.terminal = false := by
  induction xs generalizing seq with
  | nil =>
    intro e he
    cases he
  | cons x xs ih =>
    intro e he
    rcases List.mem_cons.mp he with rfl | he
    · exact h x (List.mem_cons_self ..)
    · exact ih (fun y hy => h y (List.mem_cons_of_mem _ hy)) e he

/-- The run went on with the events of `bodies`, delivered or waiting in order. -/
structure Adds (config : Config) (bodies : List (Int × EventBody)) (run : ActiveRun)
    (d : Delivered) : Prop where
  log : d.2.flatten ++ d.1.pending = run.pending ++ numbered config run.seq bodies
  seq : d.1.seq = run.seq + bodies.length

variable {run' : ActiveRun}

theorem Adds.of_fields (hseq : run'.seq = run.seq)
    (hpending : run'.pending = run.pending) : Adds config [] run (run', []) where
  log := by rw [hpending]; simp [numbered]
  seq := hseq

theorem Adds.trans {ys : List (Int × EventBody)} {sent : List (List JobEvent)}
    (h : Adds config xs run (run', sent)) (h' : Adds config ys run' d) :
    Adds config (xs ++ ys) run (d.1, sent ++ d.2) where
  log := by
    have h1 := h.log
    have h2 := h'.log
    rw [List.flatten_append, List.append_assoc, h2, ← List.append_assoc, h1, List.append_assoc,
      numbered_append, show run'.seq = run.seq + xs.length from h.seq]
  seq := by
    have h1 := h.seq
    have h2 := h'.seq
    rw [List.length_append]
    dsimp only at h1 ⊢
    omega

/-- A change of the run that isn't about its events. -/
theorem Adds.then_fields {run'' : ActiveRun}
    {sent : List (List JobEvent)} (h : Adds config xs run (run', sent))
    (hseq : run''.seq = run'.seq) (hpending : run''.pending = run'.pending) :
    Adds config xs run (run'', sent) where
  log := by rw [show (run'', sent).1.pending = run'.pending from hpending]; exact h.log
  seq := hseq.trans h.seq

theorem push_adds (isUrgent : Bool) :
    Adds config [(nowMs, body)] run (push config nowMs run body isUrgent) := by
  unfold push
  dsimp only
  split
  · exact ⟨by simp [numbered], rfl⟩
  · exact ⟨by simp [numbered], rfl⟩

theorem flush_adds : Adds config [] run (flush run) := by
  unfold flush
  split
  · exact .of_fields rfl rfl
  · exact ⟨by simp [numbered], rfl⟩

/-! ## One operation -/

theorem header_fields {event : WorkflowEvent}
    (h : header run event = some run') : run'.seq = run.seq ∧ run'.pending = run.pending := by
  unfold header at h
  split at h
  · split at h
    · split at h
      · obtain rfl := Option.some.inj h
        exact ⟨rfl, rfl⟩
      · obtain rfl := Option.some.inj h
        exact ⟨rfl, rfl⟩
    · obtain rfl := Option.some.inj h
      exact ⟨rfl, rfl⟩
  · cases h

/-- One event doesn't touch the log itself, and only `completed` events end jobs: they are kept. -/
theorem apply_fields (event : WorkflowEvent) :
    (apply config run event).1.seq = run.seq ∧ (apply config run event).1.pending = run.pending ∧
      ((apply config run event).2.2 = true →
        ∀ body, (apply config run event).2.1.intoJobEvent = some body → ends body = false) := by
  unfold apply
  cases hheader : header run event with
  | some run' => exact ⟨(header_fields hheader).1, (header_fields hheader).2, fun h => nomatch h⟩
  | none =>
    cases event with
    | protocol | workflowStarted | workflowMetadata | completed => exact ⟨rfl, rfl, fun h => nomatch h⟩
    | nextStep text command workflow args =>
      dsimp only
      generalize (if workflow.any config.knownOperation = true then workflow else none) = known
      split
      · exact ⟨rfl, rfl, fun h => nomatch h⟩
      · refine ⟨rfl, rfl, fun _ body hb => ?_⟩
        obtain rfl := Option.some.inj hb
        rfl
    | validationError =>
      dsimp only
      split
      · refine ⟨rfl, rfl, fun _ body hb => ?_⟩
        obtain rfl := Option.some.inj hb
        rfl
      · refine ⟨rfl, rfl, fun _ body hb => ?_⟩
        obtain rfl := Option.some.inj hb
        rfl
    | request | phase | progress | result | info | plan | warning | error | log =>
      refine ⟨rfl, rfl, fun _ body hb => ?_⟩
      obtain rfl := Option.some.inj hb
      rfl

theorem stopFailed_fields (run : ActiveRun) :
    (stopFailed run).seq = run.seq ∧ (stopFailed run).pending = run.pending := by
  unfold stopFailed
  split <;> exact ⟨rfl, rfl⟩

/-- What an operation adds doesn't end the job. -/
def AddsOpen (config : Config) (run : ActiveRun) (d : Delivered) : Prop :=
  ∃ bodies, (∀ b ∈ bodies, ends b.2 = false) ∧ Adds config bodies run d

theorem AddsOpen.of_fields {run' : ActiveRun} (hseq : run'.seq = run.seq)
    (hpending : run'.pending = run.pending) : AddsOpen config run (run', []) :=
  ⟨[], by simp, .of_fields hseq hpending⟩

theorem AddsOpen.trans {sent : List (List JobEvent)} {run' : ActiveRun}
    (h : AddsOpen config run (run', sent)) (h' : AddsOpen config run' d) :
    AddsOpen config run (d.1, sent ++ d.2) := by
  obtain ⟨xs, hxs, hadds⟩ := h
  obtain ⟨ys, hys, hadds'⟩ := h'
  refine ⟨xs ++ ys, fun b hb => ?_, hadds.trans hadds'⟩
  exact (List.mem_append.mp hb).elim (hxs b) (hys b)

theorem ingest_adds (event : WorkflowEvent) :
    AddsOpen config run (ingest config nowMs run event) := by
  obtain ⟨hseq, hpending, hbody⟩ := @apply_fields config run (scrub run.secrets event)
  unfold ingest
  rcases happly : apply config run (scrub run.secrets event) with ⟨run', event', keep⟩
  rw [happly] at hseq hpending hbody
  dsimp only at hseq hpending hbody ⊢
  have hbase : ∀ run'' : ActiveRun, run''.seq = run'.seq → run''.pending = run'.pending →
      AddsOpen config run (run'', []) :=
    fun run'' h1 h2 => .of_fields (h1.trans hseq) (h2.trans hpending)
  cases hkeep : (if keep = true then event'.intoJobEvent else none) with
  | none =>
    dsimp only
    refine hbase _ ?_ ?_
    · rw [(stopFailed_fields _).1]
      split <;> rfl
    · rw [(stopFailed_fields _).2]
      split <;> rfl
  | some body =>
    have hends : ends body = false := by
      split at hkeep
      · rename_i hk
        exact hbody hk body hkeep
      · cases hkeep
    refine ⟨[(nowMs, body)], by simpa using hends, ?_⟩
    have hpush : Adds config [(nowMs, body)] run' (push config nowMs run' body (urgent body)) :=
      push_adds _
    have hadds : Adds config [(nowMs, body)] run (push config nowMs run' body (urgent body)) :=
      ⟨by rw [hpush.log, hpending, hseq], by rw [hpush.seq, hseq]⟩
    refine hadds.then_fields ?_ ?_
    · rw [(stopFailed_fields _).1]
      split <;> rfl
    · rw [(stopFailed_fields _).2]
      split <;> rfl

theorem unparsed_adds (line why : String) :
    AddsOpen config run (unparsed config nowMs run line why) := by
  unfold unparsed
  dsimp only
  have hmark : AddsOpen config run ({ run with unparsedWarned := true }, []) := .of_fields rfl rfl
  split
  · exact hmark.trans ((ingest_adds _).trans (ingest_adds _))
  · exact hmark.trans (ingest_adds _)

theorem answer_adds {requestId by_ : String} {given : Answer} {isOpen : Bool}
    (h : answer config nowMs run requestId given by_ isOpen = .ok d) : AddsOpen config run d := by
  unfold answer at h
  split at h
  · cases h
  · split at h
    · cases h
    · split at h
      · cases h
      · obtain rfl := Except.ok.inj h
        refine ⟨[(nowMs, _)], ?_, ⟨(push_adds true).log, (push_adds true).seq⟩⟩
        simp [ends, EventBody.state]

theorem cancel_fields {force : Bool} (h : cancel run force = .ok run') :
    run'.seq = run.seq ∧ run'.pending = run.pending := by
  unfold cancel at h
  split at h
  · cases h
  · obtain rfl := Except.ok.inj h
    exact ⟨rfl, rfl⟩

theorem violation_fields (reason : String) : (violation run reason).seq = run.seq ∧
    (violation run reason).pending = run.pending := by
  unfold violation
  dsimp only
  split <;> exact ⟨rfl, rfl⟩

theorem act_adds (op : Op) : AddsOpen config run (op.act config nowMs run) := by
  cases op with
  | stdout line parsed =>
    cases parsed with
    | ok event => exact ingest_adds event
    | error why => exact unparsed_adds line why
  | stderr line => exact ingest_adds _
  | violation reason => exact .of_fields (violation_fields reason).1 (violation_fields reason).2
  | flush => exact ⟨[], by simp, flush_adds⟩
  | answer requestId given by_ isOpen =>
    unfold Op.act
    dsimp only
    split
    · rename_i hanswer
      exact answer_adds hanswer
    · exact .of_fields rfl rfl
  | cancel force =>
    unfold Op.act
    dsimp only
    split
    · rename_i run' hcancel
      exact .of_fields (cancel_fields hcancel).1 (cancel_fields hcancel).2
    · exact .of_fields rfl rfl
  | stop => exact .of_fields rfl rfl

/-- While a run goes on, its log has the events from the first one on, and none ends the job. -/
theorem runOps_adds (firstSeq : Nat) (stopping : Bool) (ops : List (Op × Int)) :
    ∃ run, (runOps config (started firstSeq stopping) ops).run = some run ∧
      (runOps config (started firstSeq stopping) ops).outcome = none ∧
      AddsOpen config (.start firstSeq) (run, (runOps config (started firstSeq stopping) ops).sent) := by
  induction ops using List.reverseRecOn with
  | nil => exact ⟨.start firstSeq, rfl, rfl, .of_fields rfl rfl⟩
  | append_singleton ops op ih =>
    obtain ⟨run, hrun, hout, hadds⟩ := ih
    unfold runOps at hrun hout hadds ⊢
    rw [List.foldl_append, List.foldl_cons, List.foldl_nil]
    rw [Op.step, hrun]
    exact ⟨(op.1.act config op.2 run).1, rfl, hout, hadds.trans (act_adds op.1)⟩

end

end Bmac.Bmacd.Supervisor
