import Realwork.Receive.Batch
import Realwork.Receive.SaxXml
import Realwork.Receive.Socket

/-!
# Receive — the threads

The main thread, the work thread, the HC thread and the database thread, with their queues, as a
machine in which any thread may take the next step.  `ReadWork` is the main thread; its
`Disconnect` and the `Connect` after it are two steps.  `WSaxXml::Run` goes on by one call of the
handler, one notified record or one response at a time, `WHead::Run` and `WRecord::Run` by one
event.

* `mainStep_cases`, `workStep_cases`, `hcStep_cases`, `dbStep_cases`: what a step of each thread
  does.
-/

namespace Realwork.Receive

open Realwork.Lib

/-- `WSaxXml`, with the connection its message has been read on. -/
structure WSaxXml where
  conn : Nat
  inputSource : Str
  head : WHead
  deriving DecidableEq

/-- A head in the queue of the HC thread, with the connection it has been read on. -/
structure HcRequest where
  conn : Nat
  head : WHead
  deriving DecidableEq

def Event.saxXml? (e : Event) : Option WSaxXml :=
  match e.effect with
  | .work text head => some ⟨e.conn, text.flatMap Prod.snd, head⟩
  | _ => none

def Event.hcRequest? (e : Event) : Option HcRequest :=
  match e.effect with
  | .hc head => some ⟨e.conn, head⟩
  | _ => none

/-- The parser reads as many bytes of the fixed text as the text had before. -/
def WSaxXml.parsed (xerces : Nat → Xerces) (xml : WSaxXml) : Parsed :=
  xerces xml.inputSource.length (fixChar xml.inputSource)

/-- Where the work thread is. -/
inductive Work where
  | waiting
  | parsing (xml : WSaxXml) (handler : WSax2Handler) (events : List Sax)
  | notifying (xml : WSaxXml) (records : List WRecord) (hasRecord : Bool)
  | answering (xml : WSaxXml)
  /-- The thread has left its loop. -/
  | ended

namespace Work

/-- The records the loop of `endDocument` has still to notify. -/
def pending : Work → List WRecord
  | notifying _ [] false => []
  | notifying _ records _ => records ++ [endRecord]
  | _ => []

/-- The message the thread is at. -/
def xml? : Work → Option WSaxXml
  | parsing xml _ _ => some xml
  | notifying xml _ _ => some xml
  | answering xml => some xml
  | waiting | ended => none

/-- The message whose parse has not ended. -/
def open? : Work → Option WSaxXml
  | parsing xml _ _ => some xml
  | _ => none

end Work

/-- A message the work thread is done with parsing: whether there was a connection when `Run`
tested for one, and when the parse ended. -/
structure Handled where
  xml : WSaxXml
  begun : Bool
  up : Bool
  deriving DecidableEq

/-- A response, with the connection of its request and the one it is written to. -/
structure Reply where
  head : WHead
  conn : Nat
  writtenOn : Nat
  deriving DecidableEq

/-- A record passed to the database thread, with the connection of its message and the current
one. -/
structure Notified where
  record : WRecord
  conn : Nat
  current : Option Nat
  deriving DecidableEq

/-- The database thread: its queue, the events it has run, and its state. -/
structure DbThread where
  queue : List WRecord
  ran : List WRecord
  world : World

/-- The state of the program. -/
structure Receiver where
  reader : Reader
  /-- `m_connected`. -/
  connected : Bool
  workQueue : List WSaxXml
  work : Work
  handled : List Handled
  hcQueue : List HcRequest
  hc : Option HcRequest
  replies : List Reply
  notified : List Notified
  db : DbThread
  /-- The HC thread has left its loop. -/
  hcEnded : Bool
  /-- The database thread has left its loop. -/
  dbEnded : Bool

namespace Receiver

/-- The connection that is up. -/
def current (s : Receiver) : Option Nat :=
  if s.connected then some s.reader.conn else none

/-- `WriteResponse`. -/
def writeResponse (s : Receiver) (conn : Nat) (head : WHead) : Receiver :=
  { s with
    replies := if s.connected then s.replies ++ [⟨head, conn, s.reader.conn⟩] else s.replies }

/-- `m_pDbThread->Notify`, after which the work thread goes on with `work`. -/
def notifyDb (s : Receiver) (xml : WSaxXml) (record : WRecord) (work : Work) : Receiver :=
  { s with
    work
    notified := s.notified ++ [⟨record, xml.conn, s.current⟩]
    db := { s.db with queue := s.db.queue ++ [record] } }

/-- The events of a frame are put into their queues. -/
def enqueue (s : Receiver) (reader : Reader) : Receiver :=
  let events := reader.events.drop s.reader.events.length
  { s with
    reader
    workQueue := s.workQueue ++ events.filterMap Event.saxXml?
    hcQueue := s.hcQueue ++ events.filterMap Event.hcRequest? }

/-- The main thread: `Connect`, or an iteration of `ReadWork` up to its `Connect`. -/
def mainStep (order : ByteOrder) (s : Receiver) : Option Receiver :=
  match s.reader.gone, s.connected, s.reader.conns with
  | true, _, _ => none
  | false, false, [] => none
  | false, false, _ :: _ => some { s with connected := true }
  | false, true, _ =>
      (readWork order s.reader).map fun reader =>
        if reader.conn = s.reader.conn then s.enqueue reader
        else { s with reader, connected := false }

/-- `Get` has nothing for the work thread, and returns `NULL`. -/
def endStep (s : Receiver) : Option Receiver :=
  match s.work, s.workQueue with
  | .waiting, [] => some { s with work := .ended }
  | _, _ => none

/-- `CheckSignal` finds the work thread ended: `Disconnect`, and the loop is left. -/
def stopStep (s : Receiver) : Option Receiver :=
  match s.work with
  | .ended => some { s with reader := { s.reader with gone := true }, connected := false }
  | _ => none

/-- The parse has ended, and the work thread goes on with `work`. -/
def parseEnded (s : Receiver) (xml : WSaxXml) (work : Work) : Receiver :=
  { s with work, handled := s.handled ++ [⟨xml, true, s.connected⟩] }

/-- The work thread. -/
def workStep (xerces : Nat → Xerces) (s : Receiver) : Option Receiver :=
  match s.work with
  | .waiting =>
      match s.workQueue with
      | [] => none
      | xml :: workQueue =>
          if s.connected then
            some { s with workQueue, work := .parsing xml {} (xml.parsed xerces).events }
          else
            some { s with
              workQueue
              work := .answering xml
              handled := s.handled ++ [⟨xml, false, false⟩] }
  | .parsing xml handler (event :: events) =>
      match handler.event event with
      | .ok handler => some { s with work := .parsing xml handler events }
      | .error _ => some (s.parseEnded xml (.answering xml))
  | .parsing xml handler [] =>
      if (xml.parsed xerces).complete ∧ s.connected then
        some (s.parseEnded xml (.notifying xml handler.tmpRecordList false))
      else some (s.parseEnded xml (.answering xml))
  | .notifying xml (record :: records) _ =>
      some (s.notifyDb xml record (.notifying xml records true))
  | .notifying xml [] true => some (s.notifyDb xml endRecord (.answering xml))
  | .notifying xml [] false => some { s with work := .answering xml }
  | .answering xml => some { s.writeResponse xml.conn xml.head with work := .waiting }
  | .ended => none

/-- The HC thread. -/
def hcStep (s : Receiver) : Option Receiver :=
  match s.hcEnded, s.hc, s.hcQueue with
  | true, _, _ => none
  | false, none, [] => none
  | false, none, request :: hcQueue => some { s with hcQueue, hc := some request }
  | false, some request, _ => some { s.writeResponse request.conn request.head with hc := none }

/-- `Get` has nothing for the HC thread, and returns `NULL`. -/
def hcEndStep (s : Receiver) : Option Receiver :=
  match s.hcEnded, s.hc, s.hcQueue with
  | false, none, [] => some { s with hcEnded := true }
  | _, _, _ => none

/-- The database thread. -/
def dbStep (env : Env) (s : Receiver) : Option Receiver :=
  match s.dbEnded, s.db.queue with
  | true, _ => none
  | false, [] => none
  | false, record :: queue =>
      some { s with
        db := ⟨queue, s.db.ran ++ [record], reached ((record.run env).run s.db.world)⟩ }

/-- `Get` has nothing for the database thread, and returns `NULL`. -/
def dbEndStep (s : Receiver) : Option Receiver :=
  match s.dbEnded, s.db.queue with
  | false, [] => some { s with dbEnded := true }
  | _, _ => none

end Receiver

/-- Who takes the next step. -/
inductive Thread where
  | main
  | stop
  | work
  | workEnd
  | hc
  | hcEnd
  | db
  | dbEnd
  deriving DecidableEq

/-- The program, from before its first connection on. -/
def receiving (order : ByteOrder) (xerces : Nat → Xerces) (env : Env) :
    Machine Receiver Thread where
  start s := ∃ conns world, world.Idle ∧
    s = ⟨.first conns, false, [], .waiting, [], [], none, [], [], ⟨[], [], world⟩, false, false⟩
  step
    | .main, s => s.mainStep order
    | .stop, s => s.stopStep
    | .work, s => s.workStep xerces
    | .workEnd, s => s.endStep
    | .hc, s => s.hcStep
    | .hcEnd, s => s.hcEndStep
    | .db, s => s.dbStep env
    | .dbEnd, s => s.dbEndStep

/-- The next read finds the connection broken. -/
def Receiver.Broken (order : ByteOrder) (s : Receiver) : Prop :=
  ∃ reader ∈ readWork order s.reader, reader.conn ≠ s.reader.conn

instance (order : ByteOrder) (s : Receiver) : Decidable (s.Broken order) :=
  inferInstanceAs (Decidable (∃ reader ∈ readWork order s.reader, _))

/-! ### The main thread -/

/-- A frame leaves the connection, and its events are of that connection. -/
theorem readBody_conn (order : ByteOrder) (r : Reader) (c : Conn) (later : List Conn) (got : Str) :
    readBody order r c later got = r.broken later ∨
      (readBody order r c later got).conn = r.conn ∧
        ∃ new, (readBody order r c later got).events = r.events ++ new ∧
          ∀ e ∈ new, e.conn = r.conn := by
  have hdone : ∀ c' body xmlBuff effects,
      (r.done c' later got body xmlBuff effects).conn = r.conn ∧
        ∃ new, (r.done c' later got body xmlBuff effects).events = r.events ++ new ∧
          ∀ e ∈ new, e.conn = r.conn := by
    intro c' body xmlBuff effects
    refine ⟨rfl, _, rfl, fun e he => ?_⟩
    obtain ⟨effect, -, rfl⟩ := List.mem_map.mp he
    rfl
  simp only [readBody]
  split
  · exact .inr (hdone _ _ _ _)
  split
  · exact .inr ⟨rfl, [], by simp, by simp⟩
  split
  · exact .inl rfl
  split
  · exact .inl rfl
  · exact .inr (hdone _ _ _ _)

theorem readWork_conn {order : ByteOrder} {r r' : Reader} (h : readWork order r = some r') :
    r'.conn = r.conn + 1 ∧ r'.events = r.events ∨
      r'.conn = r.conn ∧ ∃ new, r'.events = r.events ++ new ∧ ∀ e ∈ new, e.conn = r.conn := by
  unfold readWork at h
  split at h
  · cases h
  · cases h
  · dsimp only at h
    split at h
    · cases h
      exact .inl ⟨rfl, rfl⟩
    · obtain rfl := Option.some.inj h
      rename_i c later _ _ _
      rcases readBody_conn order r (c.readn headSize).conn later (c.readn headSize).got with hb | hb
      · rw [hb]
        exact .inl ⟨rfl, rfl⟩
      · exact .inr hb

/-- **A step of the main thread** connects, breaks the connection off, or adds the requests of a
frame to the queues. -/
theorem Receiver.mainStep_cases {order : ByteOrder} {s s' : Receiver}
    (h : s.mainStep order = some s') :
    (s.connected = false ∧ s' = { s with connected := true }) ∨
      (s.connected = true ∧ s.Broken order ∧ ∃ reader, reader.events = s.reader.events ∧
        s' = { s with reader, connected := false }) ∨
      (s.connected = true ∧ ∃ reader new, reader.conn = s.reader.conn ∧
        reader.events = s.reader.events ++ new ∧ (∀ e ∈ new, e.conn = s.reader.conn) ∧
        s' = { s with
          reader
          workQueue := s.workQueue ++ new.filterMap Event.saxXml?
          hcQueue := s.hcQueue ++ new.filterMap Event.hcRequest? }) := by
  unfold mainStep at h
  split at h
  · cases h
  · cases h
  · rename_i hc _
    cases h
    exact .inl ⟨hc, rfl⟩
  · rename_i hc
    obtain ⟨reader, hr, rfl⟩ := Option.map_eq_some_iff.mp h
    rcases readWork_conn hr with ⟨hconn, hevents⟩ | ⟨hconn, new, hevents, hnew⟩
    · rw [if_neg (by omega)]
      exact .inr (.inl ⟨hc, ⟨reader, hr, by omega⟩, reader, hevents, rfl⟩)
    · rw [if_pos hconn]
      refine .inr (.inr ⟨hc, reader, new, hconn, hevents, hnew, ?_⟩)
      simp only [enqueue, hevents, List.drop_left]

/-! ### The work thread -/

/-- The steps of the work thread. -/
inductive WorkStep (xerces : Nat → Xerces) (s : Receiver) : Receiver → Prop where
  | begin {xml workQueue} (hw : s.work = .waiting) (hq : s.workQueue = xml :: workQueue)
      (hc : s.connected = true) :
      WorkStep xerces s
        { s with workQueue, work := .parsing xml {} (xml.parsed xerces).events }
  | drop {xml workQueue} (hw : s.work = .waiting) (hq : s.workQueue = xml :: workQueue)
      (hc : s.connected = false) :
      WorkStep xerces s
        { s with
          workQueue, work := .answering xml, handled := s.handled ++ [⟨xml, false, false⟩] }
  | event {xml handler event events handler'} (hw : s.work = .parsing xml handler (event :: events))
      (he : handler.event event = .ok handler') :
      WorkStep xerces s { s with work := .parsing xml handler' events }
  | raise {xml handler event events message} (hw : s.work = .parsing xml handler (event :: events))
      (he : handler.event event = .error message) :
      WorkStep xerces s (s.parseEnded xml (.answering xml))
  | endDocument {xml handler} (hw : s.work = .parsing xml handler [])
      (hc : (xml.parsed xerces).complete = true) (hup : s.connected = true) :
      WorkStep xerces s (s.parseEnded xml (.notifying xml handler.tmpRecordList false))
  | skip {xml handler} (hw : s.work = .parsing xml handler [])
      (hc : ¬((xml.parsed xerces).complete = true ∧ s.connected = true)) :
      WorkStep xerces s (s.parseEnded xml (.answering xml))
  | record {xml record records hasRecord}
      (hw : s.work = .notifying xml (record :: records) hasRecord) :
      WorkStep xerces s (s.notifyDb xml record (.notifying xml records true))
  | last {xml} (hw : s.work = .notifying xml [] true) :
      WorkStep xerces s (s.notifyDb xml endRecord (.answering xml))
  | none {xml} (hw : s.work = .notifying xml [] false) :
      WorkStep xerces s { s with work := .answering xml }
  | answer {xml} (hw : s.work = .answering xml) :
      WorkStep xerces s { s.writeResponse xml.conn xml.head with work := .waiting }

theorem Receiver.workStep_cases {xerces : Nat → Xerces} {s s' : Receiver}
    (h : s.workStep xerces = some s') : WorkStep xerces s s' := by
  unfold workStep at h
  cases hw : s.work with
  | waiting =>
      rw [hw] at h
      cases hq : s.workQueue with
      | nil =>
          rw [hq] at h
          cases h
      | cons xml workQueue =>
          simp only [hq] at h
          cases hc : s.connected with
          | true =>
              rw [if_pos hc] at h
              obtain rfl := Option.some.inj h
              exact .begin hw hq hc
          | false =>
              rw [if_neg (by simp [hc])] at h
              obtain rfl := Option.some.inj h
              exact .drop hw hq hc
  | parsing xml handler events =>
      rw [hw] at h
      cases events with
      | nil =>
          dsimp only at h
          split at h
          · rename_i hc
            obtain rfl := Option.some.inj h
            exact .endDocument hw hc.1 hc.2
          · rename_i hc
            obtain rfl := Option.some.inj h
            exact .skip hw hc
      | cons event events =>
          dsimp only at h
          split at h
          · rename_i he
            obtain rfl := Option.some.inj h
            exact .event hw he
          · rename_i he
            obtain rfl := Option.some.inj h
            exact .raise hw he
  | notifying xml records hasRecord =>
      rw [hw] at h
      cases records with
      | nil =>
          cases hasRecord with
          | true =>
              obtain rfl := Option.some.inj h
              exact .last hw
          | false =>
              obtain rfl := Option.some.inj h
              exact .none hw
      | cons record records =>
          obtain rfl := Option.some.inj h
          exact .record hw
  | answering xml =>
      rw [hw] at h
      obtain rfl := Option.some.inj h
      exact .answer hw
  | ended =>
      rw [hw] at h
      cases h

/-! ### The other threads -/

theorem Receiver.hcStep_cases {s s' : Receiver} (h : s.hcStep = some s') :
    (∃ request hcQueue, s.hc = none ∧ s.hcQueue = request :: hcQueue ∧
        s' = { s with hcQueue, hc := some request }) ∨
      ∃ request, s.hc = some request ∧
        s' = { s.writeResponse request.conn request.head with hc := none } := by
  unfold hcStep at h
  split at h
  · cases h
  · cases h
  · rename_i request hcQueue _ hc hq
    cases h
    exact .inl ⟨request, hcQueue, hc, hq, rfl⟩
  · rename_i request _ hc
    cases h
    exact .inr ⟨request, hc, rfl⟩

theorem Receiver.hcEndStep_cases {s s' : Receiver} (h : s.hcEndStep = some s') :
    s.hc = none ∧ s' = { s with hcEnded := true } := by
  unfold hcEndStep at h
  split at h
  · rename_i hc _
    cases h
    exact ⟨hc, rfl⟩
  · cases h

theorem Receiver.dbStep_cases {env : Env} {s s' : Receiver} (h : s.dbStep env = some s') :
    ∃ record queue, s.db.queue = record :: queue ∧
      s' = { s with
        db := ⟨queue, s.db.ran ++ [record], reached ((record.run env).run s.db.world)⟩ } := by
  unfold dbStep at h
  split at h
  · cases h
  · cases h
  · rename_i record queue _ hq
    cases h
    exact ⟨record, queue, hq, rfl⟩

theorem Receiver.dbEndStep_cases {s s' : Receiver} (h : s.dbEndStep = some s') :
    s' = { s with dbEnded := true } := by
  unfold dbEndStep at h
  split at h
  · cases h
    rfl
  · cases h

theorem Receiver.endStep_cases {s s' : Receiver} (h : s.endStep = some s') :
    s.work = .waiting ∧ s.workQueue = [] ∧ s' = { s with work := .ended } := by
  unfold endStep at h
  split at h
  · rename_i hw hq
    cases h
    exact ⟨hw, hq, rfl⟩
  · cases h

theorem Receiver.stopStep_cases {s s' : Receiver} (h : s.stopStep = some s') :
    s.work = .ended ∧
      s' = { s with reader := { s.reader with gone := true }, connected := false } := by
  unfold stopStep at h
  split at h
  · rename_i hw
    cases h
    exact ⟨hw, rfl⟩
  · cases h

end Realwork.Receive
