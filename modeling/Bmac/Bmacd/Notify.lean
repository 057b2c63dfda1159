import Bmac.Bmacd.Alerts

/-!
# Notifications

`bmacd/src/notify/mod.rs`, with the outbox of `outbox.rs` and the records of `store.rs`: an evaluation
takes the book through the conditions, queues the messages that the routes ask for, and writes the
records that it changed one after the other. The clock's texts are parameters (`Times`); an entry
keeps its template's model and layout apart. The sending of the outbox and its health are left out.
-/

namespace Bmac.Bmacd.Notify

open Bmac.Base Bmac.Core

/-! ## Settings and recipients -/

structure Route where
  categories : List String
  minSeverity : ConditionSeverity
  /-- Empty means the default recipients. -/
  recipients : List String
  /-- Send a message when the alert resolves. -/
  recovery : Bool
  deriving DecidableEq

structure NotifySettings where
  recipients : List String
  routes : List Route
  throttleMinutes : Nat
  digestHour : Option Nat
  dashboardUrl : Option String
  disabledConditions : List String
  deriving DecidableEq

def effectiveRoutes (settings : NotifySettings) : List Route :=
  if settings.routes.isEmpty then [⟨[], .warning, [], true⟩] else settings.routes

/-- A `BTreeSet` of addresses, in order. -/
def addressSet (addresses : List String) : List String := addresses.dedup.insertionSort (· ≤ ·)

/-- Whether a route is about an alert; for a recovery, only if it sends them. -/
def Route.takes (route : Route) (alert : Alert) (recovery : Bool) : Bool :=
  (route.categories.isEmpty || route.categories.any (· = category alert.condition)) &&
  route.minSeverity ≤ alert.severity && (!recovery || route.recovery)

def recipients (alert : Alert) (settings : NotifySettings) (recovery : Bool) : List String :=
  addressSet <| ((effectiveRoutes settings).filter (·.takes alert recovery)).flatMap fun route =>
    if route.recipients.isEmpty then settings.recipients else route.recipients

/-! ## Messages -/

inductive Kind where
  | opened | resolved
  deriving DecidableEq

/-- A message about an alert, as the alert was, to one recipient. -/
structure Message where
  kind : Kind
  alert : Alert
  to_ : String
  deriving DecidableEq

def Message.key (m : Message) : String :=
  match m.kind with
  | .opened => s!"{m.alert.id}:opened:{m.alert.generation}:{m.to_}"
  | .resolved => s!"{m.alert.id}:resolved:{m.alert.generation}:{m.to_}"

def messagesFor (settings : NotifySettings) (silences : List Silence) (nowMs : Int) (change : Change)
    (alert : Alert) : List Message :=
  let throttleMs : Int := settings.throttleMinutes * 60000
  -- it doesn't try to email about email
  if category alert.condition = "notify" || silenced alert silences nowMs then []
  else
    match change with
    | .opened _ | .reopened _ =>
      if alert.notifiedMs.any (nowMs - · < throttleMs) then []
      else (recipients alert settings false).map (⟨.opened, alert, ·⟩)
    | .escalated _ =>
      if alert.state = .acknowledged then []
      else (recipients alert settings false).map (⟨.opened, alert, ·⟩)
    | .resolved _ =>
      if alert.notifiedMs.isNone then []
      else (recipients alert settings true).map (⟨.resolved, alert, ·⟩)

def notified (nowMs : Int) (alert : Alert) : Alert := { alert with notifiedMs := some nowMs }

def Change.isResolved : Change → Bool
  | resolved _ => true
  | _ => false

/-- One change in the plan: an alert that is announced is marked. -/
def planOne (settings : NotifySettings) (silences : List Silence) (nowMs : Int)
    (s : Book × List Message) (change : Change) : Book × List Message :=
  match s.1.get change.id with
  | none => s
  | some alert =>
    let messages := messagesFor settings silences nowMs change alert
    (if !change.isResolved && !messages.isEmpty then
        ⟨Keyed.modifyFirst (·.id = change.id) (notified nowMs) s.1.alerts⟩
      else s.1, s.2 ++ messages)

/-- The messages `changes` call for, marking the alerts notified. -/
def plan (settings : NotifySettings) (silences : List Silence) (nowMs : Int) (book : Book)
    (changes : List Change) : Book × List Message :=
  changes.foldl (planOne settings silences nowMs) (book, [])

def evaluateBook (sha256 : List UInt8 → List UInt8) (settings : NotifySettings)
    (silences : List Silence) (conditions : List Condition) (nowMs : Int) (mayResolve : Bool)
    (book : Book) : Book × List Message × List Alert :=
  let disabled := settings.disabledConditions
  let enabled := conditions.filter fun c => !switchedOff disabled c.id
  let (book, changes, expired) :=
    (book.switchOff disabled nowMs).evaluate sha256 enabled nowMs mayResolve
  let (book, messages) := plan settings silences nowMs book changes
  (book, messages, expired)

/-! ## The outbox -/

def keepDoneMs : Int := 7 * 24 * 60 * 60000
def maxEntries : Nat := 1000

/-- The clock's readings as texts, and in the cluster's zone. -/
structure Times where
  utc : Int → String
  local_ : Int → String
  /-- The hour and the date. -/
  zoned : Int → Option (Nat × String)

/-- What the messages say about the cluster. -/
structure Context where
  clusterName : String
  dashboardUrl : String
  times : Times
  nowMs : Int

structure Layout where
  productName : String
  clusterName : String
  dashboardUrl : String
  sentAt : String
  deriving DecidableEq

structure DigestAlert where
  severity : String
  host : String
  openedAt : String
  summary : String
  deriving DecidableEq

inductive Model where
  | alertOpened (alertId severity summary host resource condition openedAt openedAtLocal nextStep
      alertUrl : String)
  | alertResolved (alertId severity summary host resource condition openedAt resolvedAt
      resolvedAtLocal alertUrl : String)
  | digest (openCount : Nat) (alerts : List DigestAlert) (backupSummary alertsUrl : String)
  deriving DecidableEq

def Model.aliasName : Model → String
  | alertOpened .. => "bmac-alert-opened-v1"
  | alertResolved .. => "bmac-alert-resolved-v1"
  | digest .. => "bmac-digest-v1"

inductive Delivery where
  | pending | held | sent | failed
  deriving DecidableEq

structure Entry where
  key : String
  template : String
  model : Layout × Model
  to_ : String
  tag : String
  alertId : Option String
  createdMs : Int
  attempts : Nat
  nextMs : Int
  state : Delivery
  messageId : Option String
  error : Option String
  doneMs : Option Int
  deriving DecidableEq

def severityName : ConditionSeverity → String
  | .info => "Info"
  | .warning => "Warning"
  | .critical => "Critical"

def hostName (host : Option HostSlot) : String := (host.map HostSlot.text).getD "cluster"

namespace Context

def layout (context : Context) : Layout :=
  ⟨"BMAC", context.clusterName, context.dashboardUrl, context.times.utc context.nowMs⟩

def page (context : Context) (page : String) : String :=
  if context.dashboardUrl.isEmpty then ""
  else
    let base := String.ofList (context.dashboardUrl.toList.reverse.dropWhile (· = '/')).reverse
    s!"{base}/{page}"

def entry (context : Context) (key : String) (model : Model) (to_ tag : String)
    (alert : Option String) : Entry :=
  ⟨key, model.aliasName, (context.layout, model), to_, tag, alert, context.nowMs, 0, context.nowMs,
    .pending, none, none, none⟩

end Context

def Message.model (m : Message) (context : Context) : Model :=
  let alert := m.alert
  match m.kind with
  | .opened =>
    .alertOpened alert.id (severityName alert.severity) alert.message (hostName alert.host)
      alert.resource alert.condition (context.times.utc alert.openedMs)
      (context.times.local_ alert.openedMs)
      ((alert.nextStep.map (·.text)).getD "Open the alert in the Dashboard.")
      (context.page "alerts")
  | .resolved =>
    let resolved := alert.resolvedMs.getD context.nowMs
    .alertResolved alert.id (severityName alert.severity) alert.message (hostName alert.host)
      alert.resource alert.condition (context.times.utc alert.openedMs)
      (context.times.utc resolved) (context.times.local_ resolved) (context.page "alerts")

def Message.entry (m : Message) (context : Context) : Entry :=
  context.entry m.key (m.model context) m.to_ (category m.alert.condition) (some m.alert.id)

/-- Adds an entry unless one with its key is already here. -/
def enqueue (entries : List Entry) (entry : Entry) : List Entry :=
  if entries.any (·.key = entry.key) then entries else entries ++ [entry]

/-- Drops the first of the entries that were done the longest ago. -/
def dropOldest (entries : List Entry) : Option (List Entry) :=
  (entries.filterMap (·.doneMs)).min?.map fun done => entries.eraseP (·.doneMs = some done)

def dropExcess : Nat → List Entry → List Entry
  | 0, entries => entries
  | fuel + 1, entries =>
    if maxEntries < entries.length then
      match dropOldest entries with
      | some entries => dropExcess fuel entries
      | none => entries
    else entries

def prune (entries : List Entry) (nowMs : Int) : List Entry :=
  let entries := entries.filter fun e => e.doneMs.all (nowMs - · ≤ keepDoneMs)
  dropExcess entries.length entries

/-! ## The records -/

structure State where
  book : Book
  history : List Alert
  silences : List Silence
  settings : NotifySettings
  outbox : List Entry
  deriving DecidableEq

/-- The daily digest, once a day at the configured hour. -/
def digest (state : State) (context : Context) : List Entry :=
  match state.settings.digestHour, context.times.zoned context.nowMs with
  | some hour, some (now, date) =>
    if now ≠ hour then []
    else
      let «open» := state.book.alerts.filter (·.state ≠ .resolved)
      let model : Model := .digest «open».length
        («open».map fun a =>
          ⟨severityName a.severity, hostName a.host, context.times.utc a.openedMs, a.message⟩)
        "Backups are not set up yet." (context.page "alerts")
      state.settings.recipients.filterMap fun to_ =>
        let key := s!"digest:{date}:{to_}"
        if state.outbox.any (·.key = key) then none
        else some (context.entry key model to_ "digest" none)
  | _, _ => []

/-- What one evaluation works on. -/
structure Evaluation where
  sha256 : List UInt8 → List UInt8
  times : Times
  clusterName : Option String
  conditions : List Condition
  nowMs : Int
  mayResolve : Bool
  /-- The cluster's settings and silences, where a host alone uses its own records. -/
  shared : Option (NotifySettings × List Silence)

namespace Evaluation

variable (e : Evaluation) (state : State)

def settings : NotifySettings := (e.shared.map (·.1)).getD state.settings
def silences : List Silence := (e.shared.map (·.2)).getD state.silences

def context : Context where
  clusterName := e.clusterName.getD ""
  dashboardUrl := (e.settings state).dashboardUrl.getD ""
  times := e.times
  nowMs := e.nowMs

def booked : Book × List Message × List Alert :=
  evaluateBook e.sha256 (e.settings state) (e.silences state) e.conditions e.nowMs e.mayResolve
    state.book

def messages : List Message := (e.booked state).2.1

/-- `evaluate`: the records after it. -/
def run : State :=
  let context := e.context state
  let state' : State := {
    book := (e.booked state).1
    history := archive state.history (e.booked state).2.2
    silences := e.silences state
    settings := e.settings state
    outbox := ((e.messages state).map (·.entry context)).foldl enqueue state.outbox }
  { state' with
    silences := state'.silences.filter (e.nowMs < ·.untilMs)
    outbox := prune ((digest state' context).foldl enqueue state'.outbox) e.nowMs }

end Evaluation

inductive Record where
  | book | history | silences | settings | outbox
  deriving DecidableEq

def Record.differs (before after : State) : Record → Bool
  | book => after.book ≠ before.book
  | history => after.history ≠ before.history
  | silences => after.silences ≠ before.silences
  | settings => after.settings ≠ before.settings
  | outbox => after.outbox ≠ before.outbox

def Record.write (after state : State) : Record → State
  | book => { state with book := after.book }
  | history => { state with history := after.history }
  | silences => { state with silences := after.silences }
  | settings => { state with settings := after.settings }
  | outbox => { state with outbox := after.outbox }

/-- The records that `update` writes, in its order. -/
def writes (before after : State) : List Record :=
  [Record.book, .history, .silences, .settings, .outbox].filter (·.differs before after)

/-- The records after the first `done` writes of an update. -/
def stored (before after : State) (done : Nat) : State :=
  ((writes before after).take done).foldl (Record.write after) before

end Bmac.Bmacd.Notify
