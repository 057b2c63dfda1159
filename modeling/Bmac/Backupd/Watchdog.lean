import Bmac.Base.Alarm
import Bmac.Core.Dict

/-!
# The appliance's watchdog

`bmac-backupd/src/watchdog.rs`, `ClusterWatch` and `UrlWatch`: what one round of heartbeats or one
URL check changes, and the email then due. `tick` calls `observe` once a round and `sent` with the
email it returned when the delivery went through. `outages_pair_up` says how the emails of any such
run fit together.
-/

namespace Bmac.Backupd

open Bmac.Base Bmac.Core

structure Recovered where
  sinceMs : Int
  atMs : Int
  hosts : List String
  deriving DecidableEq

/-- An email the state says is due. -/
inductive Mail where
  | clusterDown (sinceMs : Int) (hosts : List (String × Option Int))
  | clusterUp (up : Recovered)
  | urlDown (sinceMs : Int) (error : String)
  | urlUp (up : Recovered)
  deriving DecidableEq

structure ClusterWatch where
  clusterUuid : String
  clusterName : String
  watchingSinceMs : Int
  lastSeenMs : Dict Int
  /-- When the last host answered, once none has for the wait. -/
  downSinceMs : Option Int
  downSent : Bool
  upPending : Option Recovered

structure UrlWatch where
  url : String
  lastOkMs : Option Int
  /-- The first failed check of the current run of failures. -/
  failingSinceMs : Option Int
  lastError : Option String
  /-- It has failed for the whole wait. -/
  down : Bool
  downSent : Bool
  upPending : Option Recovered

namespace ClusterWatch

/-- The watch of a cluster first seen at `nowMs`. -/
def new (clusterUuid clusterName : String) (nowMs : Int) : ClusterWatch where
  clusterUuid := clusterUuid
  clusterName := clusterName
  watchingSinceMs := nowMs
  lastSeenMs := []
  downSinceMs := none
  downSent := false
  upPending := none

def due (w : ClusterWatch) (hosts : List String) : Option Mail :=
  match w.downSinceMs, w.upPending with
  | some since, _ =>
    if w.downSent then none
    else some (.clusterDown since (hosts.map fun h => (h, w.lastSeenMs.get? h)))
  | none, some up => some (.clusterUp up)
  | none, none => none

def last (w : ClusterWatch) : Int := (w.lastSeenMs.map Prod.snd).max?.getD w.watchingSinceMs

/-- The heartbeats of one round, recorded. -/
def see (w : ClusterWatch) (answered : List String) (nowMs : Int) : ClusterWatch :=
  { w with lastSeenMs := answered.foldl (fun seen host => seen.insert host nowMs) w.lastSeenMs }

def recover (w : ClusterWatch) (answered : List String) (nowMs : Int) : ClusterWatch :=
  { w with
    downSinceMs := none
    downSent := false
    upPending :=
      match w.downSinceMs with
      | some since => if w.downSent then some ⟨since, nowMs, answered⟩ else w.upPending
      | none => w.upPending }

/-- No host answered: an outage is noticed once the wait is over. -/
def miss (w : ClusterWatch) (nowMs downAfterMs : Int) : ClusterWatch :=
  if w.downSinceMs = none ∧ downAfterMs ≤ nowMs - w.last then
    { w with downSinceMs := some w.last, upPending := none }
  else w

/-- Records one round of heartbeats from `hosts`, of which `answered` answered; the email now
due. -/
def observe (w : ClusterWatch) (hosts answered : List String) (nowMs downAfterMs : Int) :
    ClusterWatch × Option Mail :=
  let w := w.see answered nowMs
  let w := if answered ≠ [] then w.recover answered nowMs else w.miss nowMs downAfterMs
  (w, w.due hosts)

def sent (w : ClusterWatch) : Mail → ClusterWatch
  | .clusterDown .. => { w with downSent := true }
  | .clusterUp _ => { w with upPending := none }
  | _ => w

end ClusterWatch

namespace UrlWatch

def new (url : String) : UrlWatch where
  url := url
  lastOkMs := none
  failingSinceMs := none
  lastError := none
  down := false
  downSent := false
  upPending := none

def due (w : UrlWatch) : Option Mail :=
  match w.failingSinceMs, w.upPending with
  | some since, _ =>
    if w.down ∧ ¬ w.downSent then some (.urlDown since (w.lastError.getD "")) else none
  | none, some up => some (.urlUp up)
  | none, none => none

/-- A check that passed. -/
def pass (w : UrlWatch) (nowMs : Int) : UrlWatch :=
  { w with
    lastOkMs := some nowMs
    lastError := none
    failingSinceMs := none
    upPending :=
      match w.failingSinceMs with
      | some since => if w.downSent then some ⟨since, nowMs, []⟩ else w.upPending
      | none => w.upPending
    downSent := false
    down := false }

/-- A check that failed with `e`. -/
def fail (w : UrlWatch) (e : String) (nowMs downAfterMs : Int) : UrlWatch :=
  let since := w.failingSinceMs.getD nowMs
  let w := { w with lastError := some e, failingSinceMs := some since }
  if downAfterMs ≤ nowMs - since ∧ ¬ w.down then { w with down := true, upPending := none } else w

def observe (w : UrlWatch) (result : Except String Unit) (nowMs downAfterMs : Int) :
    UrlWatch × Option Mail :=
  let w :=
    match result with
    | .ok () => w.pass nowMs
    | .error e => w.fail e nowMs downAfterMs
  (w, w.due)

def sent (w : UrlWatch) : Mail → UrlWatch
  | .urlDown .. => { w with downSent := true }
  | .urlUp _ => { w with upPending := none }
  | _ => w

end UrlWatch

/-! ### Runs -/

/-- What an email tells. -/
def Mail.notice : Mail → Alarm.Notice Recovered
  | .clusterDown since _ | .urlDown since _ => .down since
  | .clusterUp up | .urlUp up => .up up.sinceMs up

/-- A watch between two calls, the time of the last one, and the email under way. -/
structure Watching (W : Type) where
  watch : W
  clock : Int
  flight : Option Mail

/-- `tick`'s calls on one cluster's watch: the clock does not go back, the wait is at least a
minute, and `sent` is told of the email that the round produced. -/
inductive ClusterWatch.Step :
    Watching ClusterWatch → Alarm.Entry Recovered → Watching ClusterWatch → Prop where
  | observe {w : Watching ClusterWatch} (hosts answered : List String) {nowMs downAfterMs : Int}
      (hclock : w.clock ≤ nowMs) (hwait : 0 < downAfterMs) :
      Step w
        (.observed nowMs downAfterMs (!answered.isEmpty)
          ((w.watch.observe hosts answered nowMs downAfterMs).2.map Mail.notice))
        ⟨(w.watch.observe hosts answered nowMs downAfterMs).1, nowMs,
          (w.watch.observe hosts answered nowMs downAfterMs).2⟩
  | sent {w : Watching ClusterWatch} {mail : Mail} (hflight : w.flight = some mail) :
      Step w (.accepted mail.notice) ⟨w.watch.sent mail, w.clock, none⟩

/-- `tick`'s calls on one URL's watch. -/
inductive UrlWatch.Step :
    Watching UrlWatch → Alarm.Entry Recovered → Watching UrlWatch → Prop where
  | observe {w : Watching UrlWatch} (result : Except String Unit) {nowMs downAfterMs : Int}
      (hclock : w.clock ≤ nowMs) (hwait : 0 < downAfterMs) :
      Step w
        (.observed nowMs downAfterMs result.isOk
          ((w.watch.observe result nowMs downAfterMs).2.map Mail.notice))
        ⟨(w.watch.observe result nowMs downAfterMs).1, nowMs,
          (w.watch.observe result nowMs downAfterMs).2⟩
  | sent {w : Watching UrlWatch} {mail : Mail} (hflight : w.flight = some mail) :
      Step w (.accepted mail.notice) ⟨w.watch.sent mail, w.clock, none⟩

/-! ### The watches are alarms -/

def owedUp (up : Option Recovered) : Option (Int × Recovered) := up.map fun r => (r.sinceMs, r)

theorem owedUp_answer (outage : Option Int) (isSent : Bool) (up : Option Recovered) (nowMs : Int)
    (hosts : List String) :
    owedUp (match outage with
      | some since => if isSent then some ⟨since, nowMs, hosts⟩ else up
      | none => up) =
    match outage with
    | some since => if isSent then some (since, ⟨since, nowMs, hosts⟩) else owedUp up
    | none => owedUp up := by
  cases outage with
  | none => rfl
  | some since => cases isSent <;> rfl

variable {a : Alarm.World Recovered} {nowMs downAfterMs : Int} {mail : Mail}

namespace ClusterWatch

def alarm (w : ClusterWatch) : Alarm Recovered := ⟨w.downSinceMs, w.downSent, owedUp w.upPending⟩

/-- The alarm's state that a cluster's watch stands for. -/
structure Refines (w : Watching ClusterWatch) (a : Alarm.World Recovered) : Prop where
  alarm : a.alarm = w.watch.alarm
  clock : a.clock = w.clock
  last : a.last = w.watch.last
  seen : ∀ e ∈ w.watch.lastSeenMs, e.2 ≤ w.clock
  flight : w.flight = none ∧ a.flight = none ∨
    ∃ hosts, w.flight = w.watch.due hosts ∧ a.flight = (w.watch.due hosts).map Mail.notice

theorem due_notice (w : ClusterWatch) (hosts : List String) :
    (w.due hosts).map Mail.notice = w.alarm.due := by
  unfold due Alarm.due alarm owedUp
  cases w.downSinceMs with
  | some since =>
    cases w.downSent with
    | true => cases w.upPending <;> rfl
    | false => cases w.upPending <;> rfl
  | none => cases w.upPending <;> rfl

theorem recover_alarm (w : ClusterWatch) (answered : List String) (nowMs : Int) :
    (w.recover answered nowMs).alarm = w.alarm.answer ⟨w.downSinceMs.getD 0, nowMs, answered⟩ := by
  unfold recover alarm Alarm.answer
  dsimp only
  rw [owedUp_answer]
  cases w.downSinceMs <;> rfl

variable {answered : List String} {w : Watching ClusterWatch}

theorem mem_see {w : ClusterWatch} {e : String × Int}
    (h : e ∈ (w.see answered nowMs).lastSeenMs) : e.2 = nowMs ∨ e ∈ w.lastSeenMs := by
  unfold see at h
  dsimp only at h
  induction answered using List.reverseRecOn with
  | nil => exact .inr h
  | append_singleton answered host ih =>
    rw [List.foldl_append, List.foldl_cons, List.foldl_nil] at h
    rcases Dict.mem_insert h with rfl | h
    · exact .inl rfl
    · exact ih h

theorem last_see {w : ClusterWatch} (hseen : ∀ e ∈ w.lastSeenMs, e.2 ≤ nowMs) (h : answered ≠ []) :
    (w.see answered nowMs).last = nowMs := by
  have hle : ∀ t ∈ (w.see answered nowMs).lastSeenMs.map Prod.snd, t ≤ nowMs := by
    intro t ht
    obtain ⟨e, he, rfl⟩ := List.mem_map.mp ht
    rcases mem_see he with heq | he
    · exact heq.le
    · exact hseen e he
  have hmem : nowMs ∈ (w.see answered nowMs).lastSeenMs.map Prod.snd := by
    obtain ⟨init, host, rfl⟩ : ∃ init host, answered = init ++ [host] :=
      ⟨_, _, (List.dropLast_concat_getLast h).symm⟩
    unfold see
    rw [List.foldl_append, List.foldl_cons, List.foldl_nil]
    exact List.mem_map_of_mem (Dict.mem_of_get? (Dict.get?_insert ..))
  have hmax : ((w.see answered nowMs).lastSeenMs.map Prod.snd).max? = some nowMs :=
    List.max?_eq_some_iff.mpr ⟨hmem, hle⟩
  rw [last, hmax, Option.getD_some]

theorem start_refines (clusterUuid clusterName : String) (nowMs : Int) :
    Refines ⟨.new clusterUuid clusterName nowMs, nowMs, none⟩ (.new nowMs) where
  alarm := rfl
  clock := rfl
  last := rfl
  seen := by simp [new]
  flight := .inl ⟨rfl, rfl⟩

section

variable (w : ClusterWatch) (hosts : List String) {answered : List String} (nowMs downAfterMs : Int)

theorem observe_answered (h : answered ≠ []) :
    w.observe hosts answered nowMs downAfterMs =
      ((w.see answered nowMs).recover answered nowMs,
        ((w.see answered nowMs).recover answered nowMs).due hosts) := by
  unfold observe
  simp only [if_pos h]

theorem observe_nil :
    w.observe hosts [] nowMs downAfterMs =
      (w.miss nowMs downAfterMs, (w.miss nowMs downAfterMs).due hosts) := rfl

end

theorem due_owed (w : ClusterWatch) (hosts : List String) (n : Alarm.Notice Recovered)
    (h : (w.due hosts).map Mail.notice = some n) : w.alarm.due = some n :=
  (due_notice w hosts).symm.trans h

theorem observe_refines
    {hosts : List String} (h : Refines w a)
    (hclock : w.clock ≤ nowMs) (hwait : 0 < downAfterMs) :
    ∃ a', Alarm.Step a
        (.observed nowMs downAfterMs (!answered.isEmpty)
          ((w.watch.observe hosts answered nowMs downAfterMs).2.map Mail.notice)) a' ∧
      Refines ⟨(w.watch.observe hosts answered nowMs downAfterMs).1, nowMs,
        (w.watch.observe hosts answered nowMs downAfterMs).2⟩ a' := by
  have hclock' : a.clock ≤ nowMs := h.clock.trans_le hclock
  have hseen : ∀ e ∈ w.watch.lastSeenMs, e.2 ≤ nowMs := fun e he => (h.seen e he).trans hclock
  by_cases hanswered : answered = []
  · subst hanswered
    by_cases hdeclares : w.watch.downSinceMs = none ∧ downAfterMs ≤ nowMs - w.watch.last
    · rw [observe_nil, miss, if_pos hdeclares]
      set w' : ClusterWatch := { w.watch with downSinceMs := some w.watch.last, upPending := none }
      have halarm : a.alarm.declare w.watch.last = w'.alarm := by rw [h.alarm]; rfl
      refine ⟨_, .declare w.watch.last hclock' (h.alarm ▸ hdeclares.1) h.last.le hwait hdeclares.2 ?_,
        halarm, rfl, h.last, hseen, .inr ⟨hosts, rfl, rfl⟩⟩
      rw [halarm]
      exact due_owed w' hosts
    · rw [observe_nil, miss, if_neg hdeclares]
      refine ⟨_, .silent hclock' ?_, h.alarm, rfl, h.last, hseen, .inr ⟨hosts, rfl, rfl⟩⟩
      rw [h.alarm]
      exact due_owed w.watch hosts
  · rw [observe_answered _ _ _ _ hanswered]
    have hanswer : (!answered.isEmpty) = true := by simpa using hanswered
    rw [hanswer]
    set w' := (w.watch.see answered nowMs).recover answered nowMs
    have halarm : a.alarm.answer ⟨w.watch.downSinceMs.getD 0, nowMs, answered⟩ = w'.alarm := by
      rw [h.alarm]
      exact (recover_alarm (w.watch.see answered nowMs) answered nowMs).symm
    have hlast : w'.last = nowMs := last_see hseen hanswered
    refine ⟨_, .answer _ hclock' ?_, halarm, rfl, hlast.symm, fun e he => ?_,
      .inr ⟨hosts, rfl, rfl⟩⟩
    · rw [halarm]
      exact due_owed w' hosts
    · rcases mem_see he with heq | he
      · exact heq.le
      · exact hseen e he

theorem due_cases {w : ClusterWatch} {hosts : List String} (h : w.due hosts = some mail) :
    (∃ since names, mail = .clusterDown since names) ∨ ∃ up, mail = .clusterUp up := by
  unfold due at h
  split at h
  · split at h
    · cases h
    · cases h
      exact .inl ⟨_, _, rfl⟩
  · cases h
    exact .inr ⟨_, rfl⟩
  · cases h

theorem sent_refines (h : Refines w a) (hflight : w.flight = some mail) :
    ∃ a', Alarm.Step a (.accepted mail.notice) a' ∧
      Refines ⟨w.watch.sent mail, w.clock, none⟩ a' := by
  rcases h.flight with ⟨hnone, -⟩ | ⟨hosts, hdue, ha⟩
  · exact nomatch hnone.symm.trans hflight
  · have hmail : w.watch.due hosts = some mail := hdue.symm.trans hflight
    have hnotice : a.flight = some mail.notice := by rw [ha, hmail]; rfl
    have halarm : a.alarm.accept mail.notice = (w.watch.sent mail).alarm := by
      rw [h.alarm]
      rcases due_cases hmail with ⟨since, names, rfl⟩ | ⟨up, rfl⟩ <;> rfl
    have hsame : (w.watch.sent mail).last = w.watch.last ∧
        (w.watch.sent mail).lastSeenMs = w.watch.lastSeenMs := by
      rcases due_cases hmail with ⟨since, names, rfl⟩ | ⟨up, rfl⟩ <;> exact ⟨rfl, rfl⟩
    refine ⟨_, .accept hnotice, halarm, h.clock, h.last.trans hsame.1.symm, ?_, .inl ⟨rfl, rfl⟩⟩
    dsimp only
    rw [hsame.2]
    exact h.seen

theorem step_refines {w' : Watching ClusterWatch} {e : Alarm.Entry Recovered} (h : Refines w a)
    (hstep : Step w e w') : ∃ a', Alarm.Step a e a' ∧ Refines w' a' := by
  cases hstep with
  | observe hosts answered hclock hwait => exact observe_refines h hclock hwait
  | sent hflight => exact sent_refines h hflight

end ClusterWatch

namespace UrlWatch

/-- A failing URL is an outage once it has failed for the wait. -/
def alarm (w : UrlWatch) : Alarm Recovered :=
  ⟨if w.down then w.failingSinceMs else none, w.downSent, owedUp w.upPending⟩

structure Refines (w : Watching UrlWatch) (a : Alarm.World Recovered) : Prop where
  alarm : a.alarm = w.watch.alarm
  clock : a.clock = w.clock
  last : a.last ≤ a.clock
  failing : ∀ since, w.watch.failingSinceMs = some since → a.last ≤ since
  down : w.watch.down = true → w.watch.failingSinceMs ≠ none
  sent : w.watch.downSent = true → w.watch.down = true
  flight : w.flight = none ∧ a.flight = none ∨
    w.flight = w.watch.due ∧ a.flight = w.watch.due.map Mail.notice

theorem start_refines (url : String) (nowMs : Int) :
    Refines ⟨.new url, nowMs, none⟩ (.new nowMs) where
  alarm := rfl
  clock := rfl
  last := le_rfl
  failing := by simp [new]
  down := by simp [new]
  sent := by simp [new]
  flight := .inl ⟨rfl, rfl⟩

theorem due_cases {w : UrlWatch} (h : w.due = some mail) :
    (∃ since error, mail = .urlDown since error ∧ w.failingSinceMs = some since ∧ w.down = true ∧
      w.downSent = false) ∨
    ∃ up, mail = .urlUp up ∧ w.failingSinceMs = none ∧ w.upPending = some up := by
  unfold due at h
  split at h
  · split at h
    · rename_i hdown
      cases h
      exact .inl ⟨_, _, rfl, by assumption, hdown.1, Bool.eq_false_iff.mpr hdown.2⟩
    · cases h
  · cases h
    exact .inr ⟨_, rfl, by assumption, by assumption⟩
  · cases h

theorem due_owed (w : UrlWatch) (n : Alarm.Notice Recovered) (h : w.due.map Mail.notice = some n) :
    w.alarm.due = some n := by
  obtain ⟨mail, hmail, rfl⟩ := Option.map_eq_some_iff.mp h
  unfold alarm Alarm.due owedUp
  rcases due_cases hmail with ⟨since, error, rfl, hfailing, hdown, hsent⟩ | ⟨up, rfl, hfailing, hup⟩
  · rw [hfailing, hdown, hsent]
    rfl
  · rw [hfailing, hup, ite_self]
    rfl

theorem pass_alarm {w : UrlWatch} (nowMs : Int) (hsent : w.downSent = true → w.down = true) :
    (w.pass nowMs).alarm = w.alarm.answer ⟨w.failingSinceMs.getD 0, nowMs, []⟩ := by
  unfold pass alarm Alarm.answer
  dsimp only
  rw [owedUp_answer]
  cases w.failingSinceMs with
  | none => simp only [ite_self]
  | some since =>
    cases hdown : w.down with
    | true => rfl
    | false =>
      have hunsent : w.downSent = false := by
        cases hs : w.downSent with
        | false => rfl
        | true => exact absurd (hdown.symm.trans (hsent hs)) (by decide)
      rw [hunsent]
      rfl

theorem fail_down {w : UrlWatch} (e : String)
    (h : downAfterMs ≤ nowMs - w.failingSinceMs.getD nowMs ∧ ¬ w.down) :
    w.fail e nowMs downAfterMs =
      { w with
        lastError := some e
        failingSinceMs := some (w.failingSinceMs.getD nowMs)
        down := true
        upPending := none } := by
  unfold fail
  dsimp only
  rw [if_pos h]

theorem fail_silent {w : UrlWatch} (e : String)
    (h : ¬ (downAfterMs ≤ nowMs - w.failingSinceMs.getD nowMs ∧ ¬ w.down)) :
    w.fail e nowMs downAfterMs =
      { w with lastError := some e, failingSinceMs := some (w.failingSinceMs.getD nowMs) } := by
  unfold fail
  dsimp only
  rw [if_neg h]

/-- A failure before the wait is over changes nothing for the alarm. -/
theorem alarm_failing {w : UrlWatch} (e : String) (nowMs : Int)
    (hdown : w.down = true → w.failingSinceMs ≠ none) :
    alarm { w with lastError := some e, failingSinceMs := some (w.failingSinceMs.getD nowMs) } =
      w.alarm := by
  unfold alarm
  cases h : w.down with
  | false => rfl
  | true =>
    obtain ⟨since, hfailing⟩ := Option.ne_none_iff_exists'.mp (hdown h)
    rw [hfailing, Option.getD_some]

variable {w : Watching UrlWatch}

theorem pass_refines (h : Refines w a) (hclock : w.clock ≤ nowMs) :
    ∃ a', Alarm.Step a
        (.observed nowMs downAfterMs true ((w.watch.pass nowMs).due.map Mail.notice)) a' ∧
      Refines ⟨w.watch.pass nowMs, nowMs, (w.watch.pass nowMs).due⟩ a' := by
  have halarm : a.alarm.answer ⟨w.watch.failingSinceMs.getD 0, nowMs, []⟩ =
      (w.watch.pass nowMs).alarm := by
    rw [h.alarm]
    exact (pass_alarm nowMs h.sent).symm
  refine ⟨_, .answer _ (h.clock.trans_le hclock) ?_, halarm, rfl, le_rfl, (fun since hs => nomatch hs),
    (fun hdown => nomatch hdown), (fun hsent => nomatch hsent), .inr ⟨rfl, rfl⟩⟩
  rw [halarm]
  exact due_owed _

theorem fail_refines {e : String}
    (h : Refines w a) (hclock : w.clock ≤ nowMs)
    (hwait : 0 < downAfterMs) :
    ∃ a', Alarm.Step a
        (.observed nowMs downAfterMs false
          ((w.watch.fail e nowMs downAfterMs).due.map Mail.notice)) a' ∧
      Refines ⟨w.watch.fail e nowMs downAfterMs, nowMs, (w.watch.fail e nowMs downAfterMs).due⟩
        a' := by
  have hclock' : a.clock ≤ nowMs := h.clock.trans_le hclock
  have hlast : a.last ≤ nowMs := h.last.trans hclock'
  have hsince : a.last ≤ w.watch.failingSinceMs.getD nowMs := by
    cases hfailing : w.watch.failingSinceMs with
    | none => exact hlast
    | some since => exact h.failing since hfailing
  by_cases hdeclares : downAfterMs ≤ nowMs - w.watch.failingSinceMs.getD nowMs ∧ ¬ w.watch.down
  · rw [fail_down e hdeclares]
    set w' : UrlWatch := { w.watch with
      lastError := some e
      failingSinceMs := some (w.watch.failingSinceMs.getD nowMs)
      down := true
      upPending := none }
    have hnone : a.alarm.outage = none := by
      rw [h.alarm]
      exact if_neg hdeclares.2
    have halarm : a.alarm.declare (w.watch.failingSinceMs.getD nowMs) = w'.alarm := by
      rw [h.alarm]
      rfl
    refine ⟨_, .declare _ hclock' hnone hsince hwait hdeclares.1 ?_, halarm, rfl, hlast, ?_,
      fun _ => Option.some_ne_none _, fun _ => rfl, .inr ⟨rfl, rfl⟩⟩
    · rw [halarm]
      exact due_owed w'
    · rintro since ⟨⟩
      exact hsince
  · rw [fail_silent e hdeclares]
    set w' : UrlWatch := { w.watch with
      lastError := some e
      failingSinceMs := some (w.watch.failingSinceMs.getD nowMs) }
    have halarm : a.alarm = w'.alarm := h.alarm.trans (alarm_failing e nowMs h.down).symm
    refine ⟨_, .silent hclock' ?_, halarm, rfl, hlast, ?_, fun _ => Option.some_ne_none _, h.sent,
      .inr ⟨rfl, rfl⟩⟩
    · rw [halarm]
      exact due_owed w'
    · rintro since ⟨⟩
      exact hsince

theorem sent_refines (h : Refines w a) (hflight : w.flight = some mail) :
    ∃ a', Alarm.Step a (.accepted mail.notice) a' ∧
      Refines ⟨w.watch.sent mail, w.clock, none⟩ a' := by
  rcases h.flight with ⟨hnone, -⟩ | ⟨hdue, ha⟩
  · exact nomatch hnone.symm.trans hflight
  · have hmail : w.watch.due = some mail := hdue.symm.trans hflight
    have hnotice : a.flight = some mail.notice := by rw [ha, hmail]; rfl
    refine ⟨_, .accept hnotice, ?_⟩
    rcases due_cases hmail with ⟨since, error, rfl, -, hdown, -⟩ | ⟨up, rfl, -, -⟩
    · exact ⟨by rw [h.alarm]; rfl, h.clock, h.last, h.failing, h.down, fun _ => hdown,
        .inl ⟨rfl, rfl⟩⟩
    · exact ⟨by rw [h.alarm]; rfl, h.clock, h.last, h.failing, h.down, h.sent, .inl ⟨rfl, rfl⟩⟩

theorem step_refines {w' : Watching UrlWatch} {e : Alarm.Entry Recovered} (h : Refines w a)
    (hstep : Step w e w') : ∃ a', Alarm.Step a e a' ∧ Refines w' a' := by
  cases hstep with
  | observe result hclock hwait =>
    cases result with
    | ok _ => exact pass_refines h hclock
    | error e => exact fail_refines h hclock hwait
  | sent hflight => exact sent_refines h hflight

end UrlWatch

/-- The emails of every run of a cluster's or a URL's watch fit together. -/
theorem outages_pair_up :
    (∀ (clusterUuid clusterName : String) (startMs : Int) (log : List (Alarm.Entry Recovered))
      (w : Watching ClusterWatch),
      Run ClusterWatch.Step ⟨.new clusterUuid clusterName startMs, startMs, none⟩ log w →
        Alarm.Paired log) ∧
    ∀ (url : String) (startMs : Int) (log : List (Alarm.Entry Recovered)) (w : Watching UrlWatch),
      Run UrlWatch.Step ⟨.new url, startMs, none⟩ log w → Alarm.Paired log := by
  constructor
  · intro clusterUuid clusterName startMs log w hrun
    obtain ⟨a, ha, -⟩ := hrun.simulate (f := id) (fun _ _ _ _ => ClusterWatch.step_refines)
      (ClusterWatch.start_refines clusterUuid clusterName startMs)
    rw [List.map_id] at ha
    exact Alarm.Run.paired ha
  · intro url startMs log w hrun
    obtain ⟨a, ha, -⟩ := hrun.simulate (f := id) (fun _ _ _ _ => UrlWatch.step_refines)
      (UrlWatch.start_refines url startMs)
    rw [List.map_id] at ha
    exact Alarm.Run.paired ha

/-! ### An `up` whose delivery failed -/

/-- Two failed checks, the email accepted, then two passed checks: the first `up` is not
accepted. -/
def retriedLog : List (Alarm.Entry Recovered) :=
  [.observed 0 1 false none, .observed 1 1 false (some (.down 0)), .accepted (.down 0),
    .observed 2 1 true (some (.up 0 ⟨0, 2, []⟩)), .observed 3 1 true (some (.up 0 ⟨0, 2, []⟩))]

theorem retriedLog_run :
    ∃ w, Run UrlWatch.Step ⟨.new "https://bmac.local", 0, none⟩ retriedLog w :=
  ⟨_, .cons (.observe (.error "refused") (by decide) (by decide)) <|
    .cons (.observe (.error "refused") (by decide) (by decide)) <|
    .cons (.sent (show _ = some (.urlDown 0 "refused") from rfl)) <|
    .cons (.observe (.ok ()) (by decide) (by decide)) <|
    .cons (.observe (.ok ()) (by decide) (by decide)) <| .nil _⟩

def producesUp (since : Int) : Alarm.Entry Recovered → Bool
  | .observed _ _ _ (some (.up s _)) => s == since
  | _ => false

theorem not_one_up : ¬ ∀ (url : String) (startMs : Int) (log : List (Alarm.Entry Recovered))
    (w : Watching UrlWatch), Run UrlWatch.Step ⟨.new url, startMs, none⟩ log w →
      ∀ since, log.countP (producesUp since) ≤ 1 := by
  intro hall
  obtain ⟨w, hrun⟩ := retriedLog_run
  exact absurd (hall _ _ _ w hrun 0) (by decide)

theorem retriedLog_paired : Alarm.Paired retriedLog := by
  obtain ⟨w, hrun⟩ := retriedLog_run
  exact outages_pair_up.2 _ _ _ w hrun

end Bmac.Backupd
