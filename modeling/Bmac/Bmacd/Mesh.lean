import Bmac.Records.Streams

/-!
# The feed of a host's records

`bmacd/src/mesh/mod.rs`, `feed` and `send_from`: a feed subscribes to new records, replays the stream
that its peer names and the later ones a page at a time, and then sends what it receives. A record it
missed it reads again. The feed's other frames are left out, and so is a peer that is gone, which
ends its feed.
-/

namespace Bmac.Bmacd.Mesh

open Bmac.Base Bmac.Records

/-- `PAGE` -/
def pageSize : UInt64 := 500

inductive Phase where
  /-- subscribed, and about to read the later streams -/
  | listing
  /-- in `send_from`, with the streams that follow -/
  | replay (stream : String) (after : UInt64) (rest : List String)
  | live (last : UInt64)
  deriving DecidableEq

structure Feed where
  asked : Option String
  after : UInt64
  /-- How many of the published records the subscription is past. -/
  received : Nat
  sent : List Record
  phase : Phase

/-- A daemon with its store. -/
structure World where
  store : Store
  /-- Committed records that subscribers don't have yet. -/
  pending : List Record
  published : List Record
  feed : Option Feed

/-! ## One feed -/

def replayed (after : UInt64) : List String → Phase
  | stream :: rest => .replay stream 0 rest
  | [] => .live after

namespace Feed

variable (codec : Codec) (store : Store) (f : Feed)

def list : Feed :=
  match f.asked, f.asked.bind (laterStreams store.db store.origin) with
  | some asked, some later => { f with phase := .replay asked f.after later }
  | _, _ => { f with phase := .replay store.stream 0 [] }

/-- One page of `send_from`. -/
def page (stream : String) (after : UInt64) (rest : List String) : Feed :=
  match readRecords codec store store.origin stream after pageSize with
  | .ok records =>
    let last := records.foldl (fun _ r => r.seq) after
    { f with
      sent := f.sent ++ records
      phase := if records.length = pageSize.toNat then .replay stream last rest else replayed last rest }
  | .error _ => { f with phase := replayed after rest }

def receive (last : UInt64) (record : Record) : Feed :=
  let f := { f with received := f.received + 1 }
  if record.seq ≤ last then f
  else if record.seq = last + 1 then
    { f with sent := f.sent ++ [record], phase := .live record.seq }
  else { f with phase := .replay store.stream last [] }

/-- The channel dropped what the feed didn't receive in time. -/
def lag (last : UInt64) (received : Nat) : Feed :=
  { f with received, phase := .replay store.stream last [] }

end Feed

/-! ## Steps -/

inductive Act where
  | append (entries : List Entry)
  | publish
  | restart (stream : String) (nowMs : Int64)
  | connect (asked : Option String) (after : UInt64)
  | list
  | page
  | receive
  | lag (received : Nat)

inductive FeedStep (codec : Codec) (w : World) (f : Feed) : Act → Feed → Prop where
  | list (hphase : f.phase = .listing) : FeedStep codec w f .list (f.list w.store)
  | page {stream : String} {after : UInt64} {rest : List String}
      (hphase : f.phase = .replay stream after rest) :
      FeedStep codec w f .page (f.page codec w.store stream after rest)
  | receive {last : UInt64} {record : Record} (hphase : f.phase = .live last)
      (hrecord : w.published[f.received]? = some record) :
      FeedStep codec w f .receive (f.receive w.store last record)
  | lag {last : UInt64} {received : Nat} (hphase : f.phase = .live last)
      (hmore : f.received < received) (hle : received ≤ w.published.length) :
      FeedStep codec w f (.lag received) (f.lag w.store last received)

/-- A step of the daemon or of its feed. A start of the daemon opens a stream, and ends the feed. -/
inductive Step (lib : Lib) (codec : Codec) : World → Act → World → Prop where
  | append {w : World} {entries : List Entry} {store : Store}
      (h : w.store.append lib entries = .ok store) :
      Step lib codec w (.append entries)
        { w with
          store := store
          pending := w.pending ++ lib.appended w.store.origin w.store.stream w.store.chain entries }
  | publish {w : World} {record : Record} {rest : List Record} (h : w.pending = record :: rest) :
      Step lib codec w .publish { w with pending := rest, published := w.published ++ [record] }
  | restart {w : World} {stream : String} {nowMs : Int64} {store : Store}
      (h : Store.open_ w.store.db w.store.segments w.store.origin stream nowMs = .ok store) :
      Step lib codec w (.restart stream nowMs) ⟨store, [], [], none⟩
  | connect (w : World) (asked : Option String) (after : UInt64) :
      Step lib codec w (.connect asked after)
        { w with feed := some ⟨asked, after, w.published.length, [], .listing⟩ }
  | feed {w : World} {f f' : Feed} {act : Act} (hfeed : w.feed = some f)
      (h : FeedStep codec w f act f') : Step lib codec w act { w with feed := some f' }

/-- A host whose database is new. -/
def World.start (origin stream : String) (nowMs : Int64) : World :=
  ⟨Store.fresh origin stream nowMs, [], [], none⟩

/-! ## What a feed is to send -/

/-- The streams at or after the point that a feed was asked for, in the order in which they were opened,
each with the position from which it is sent. -/
def World.due (w : World) (asked : Option String) (after : UInt64) : List (String × Nat) :=
  let opened := w.store.db.opened w.store.origin
  match asked.filter (· ∈ opened) with
  | some asked => (asked, after.toNat) :: (openedAfter asked opened).map (·, 0)
  | none => [(w.store.stream, 0)]

def World.recordsOf (w : World) (streams : List (String × Nat)) : List Record :=
  streams.flatMap fun p => (w.store.db.content w.store.origin p.1).drop p.2

/-- The feed has nothing more to read or receive. -/
def World.Idle (w : World) (f : Feed) : Prop :=
  ∃ last, f.phase = .live last ∧ f.received = w.published.length ∧ w.pending = []

/-- The clock doesn't go back between two starts of the daemon, and a peer names a position that a
stream can have. -/
def Act.Orderly (w : World) : Act → Prop
  | .restart _ nowMs => ∀ row ∈ w.store.db.streams, row.origin = w.store.origin → row.startedMs ≤ nowMs
  | .connect _ after => after.toNat < 2 ^ 63
  | _ => True

end Bmac.Bmacd.Mesh
