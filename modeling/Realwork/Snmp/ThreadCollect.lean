import Mathlib.Data.PNat.Defs
import Mathlib.Data.Prod.Lex
import Realwork.Lib.Buffers
import Realwork.Snmp.OutputFile

/-!
# Snmp — the threads

`thread_snmp_mib_collect.pl` is `snmp_mib_collect.pl` with `$THREADS` threads, which take the nodes
from a queue.  The name of a host is put behind the fields of its line there, and read as the fourth
one.  Each thread has its own copy of `OUTPUT_FILE`, with a buffer that is written whenever it is
full, and at the end of the thread: a row may be torn apart, and the rows of other threads may come
between its pieces.

* `move_of_step`, `Move.left`: what a step does, and that less is to be done then.
* `threadHostOf_eq_iff`: when a thread has the host of the plain script.
-/

namespace Realwork.Snmp.Mib.Threads

open Lib
open Reflect (fileLines)
open scoped List

/-! ### What both scripts do -/

/-- A node with the name of its host. -/
structure Host where
  node : Node
  hostname : Option Str

/-- What the database and the nodes answer. -/
structure Answers where
  /-- the `HOST_NAME` of an `IP_ADD` -/
  hostName : Option Str → Option Str
  /-- whether `Net::SNMP->session` opens a session -/
  session : Node → Bool
  /-- the result of `get_table`, in the order of `sort keys` -/
  table : Node → Option (List (Str × Str))
  /-- the result of `get_request`, and `$result->{$oid}` -/
  value : Node → Str → Option (Option Str)

/-- `@conf_list` -/
def confList (line : Str) : List Str := splitFields 0x2c (line.filter (· ≠ 0x20))

/-- `/\[\$ifindex\]/` -/
def ifindex : Str := lit "[$ifindex]"

/-- `s/text/new/g`; `skip` bytes are of the text that was found last. -/
def substitute (text new : Str) : Nat → Str → Str
  | _, [] => []
  | skip + 1, _ :: s => substitute text new skip s
  | 0, c :: s =>
      if text.isPrefixOf (c :: s) then new ++ substitute text new (text.length - 1) s
      else c :: substitute text new 0 s

/-- `@oid_conf_list` -/
def readOidListConf (conf : Str) : List Str := (fileLines conf).filter isNode

namespace Answers

variable (answers : Answers) (oidConfList : List Str)

/-- `$hostname` of `SelectFromDB`. -/
def selectFromDB (ip : Option Str) : Str := (answers.hostName ip).getD []

/-- `GetStatusUpIfIndex`. -/
def getStatusUpIfIndex (node : Node) : List Str :=
  ((answers.table node).getD []).filterMap fun entry =>
    if entry.2 = lit "1" then lastNumber entry.1 else none

/-- The objects `SnmpGet` is called with. -/
def oids (node : Node) : List Str := oidConfList.flatMap fun oid =>
  if ifindex <:+: oid then
    (answers.getStatusUpIfIndex node).map fun ifIndex => substitute ifindex ifIndex 0 oid
  else [oid]

/-- What `SnmpGet` prints. -/
def snmpGet (host : Host) (oid : Str) : Option Row :=
  (answers.value host.node oid).map fun value =>
    { hostname := host.hostname.getD []
      ip := host.node.ip.getD []
      slot := (parseSlotPort oid).1
      port := (parseSlotPort oid).2
      oid
      value := (value.getD []).map fun c => if c = 0x0a then 0x20 else c }

/-- The rows of a node. -/
def collect (host : Host) : List Row :=
  if answers.session host.node then
    (answers.oids oidConfList host.node).filterMap (answers.snmpGet host)
  else []

/-! ### One thread -/

/-- An element of `@node_conf_list` of `snmp_mib_collect.pl`. -/
def hostOf (line : Str) : Host where
  node := nodeOf line
  hostname := some (answers.selectFromDB (nodeOf line).ip)

/-- `CollectMib` of `snmp_mib_collect.pl`. -/
def collectMib (hosts : List Host) : List Row := hosts.flatMap (answers.collect oidConfList)

/-! ### Many threads -/

/-- The array of a line, when `SelectFromDB` has put the name of the host behind its fields. -/
def nodeArray (line : Str) : List Str :=
  confList line ++ [answers.selectFromDB (confList line)[0]?]

/-- `$node` of `DoOneSession`. -/
def threadHostOf (line : Str) : Host where
  node :=
    { ip := (answers.nodeArray line)[0]?
      community := (answers.nodeArray line)[1]?
      port := (answers.nodeArray line)[2]? }
  hostname := (answers.nodeArray line)[3]?

end Answers

/-- Where a thread is. -/
inductive Worker where
  /-- At `$node_conf_queue->dequeue`. -/
  | dequeue
  /-- At `OpenSnmpSession`. -/
  | session (host : Host)
  /-- In the loop over the objects. -/
  | get (host : Host) (oids : List Str)
  /-- At the end of `CollectThread`, where its buffer is written. -/
  | ending
  | ended

/-- The queue, the threads, how many of them have been joined, the output file with the buffers of
the threads, and the rows that have been printed, with the thread and the time. -/
structure Control where
  threads : Nat
  queue : List (Option Host)
  worker : Nat → Worker
  joined : Nat
  closed : Bool
  output : Buffers UInt8
  printed : List (Nat × Str × Row)

inductive Action where
  | worker (w : Nat) (timeNow : Str)
  | main

namespace Control

variable (answers : Answers) (oidConfList : List Str) (bufsiz : ℕ+)

/-- The rows a thread has printed. -/
def printedBy (s : Control) (w : Nat) : List (Str × Row) :=
  (s.printed.filter fun print => print.1 = w).map Prod.snd

/-- `print OUTPUT_FILE`. -/
def print (w : Nat) (rows : List (Str × Row)) (s : Control) : Control :=
  { s with output := s.output.put w (outputText rows), printed := s.printed ++ rows.map (w, ·) }

/-- `CollectThread`, with `DoOneSession`; `next` goes on with the loop of `CollectThread`.  A buffer
that is full is written before anything else. -/
def workerStep (w : Nat) (timeNow : Str) (s : Control) : Option Control :=
  if bufsiz ≤ (s.output.buffer w).length then some { s with output := s.output.spill bufsiz w }
  else
    match s.worker w with
    | .dequeue =>
        match s.queue with
        | [] => none
        | none :: queue => some { s with queue, worker := Function.update s.worker w .ending }
        | some host :: queue =>
            some { s with queue, worker := Function.update s.worker w (.session host) }
    | .session host =>
        if answers.session host.node then
          some { s with
            worker := Function.update s.worker w
              (.get host (answers.oids oidConfList host.node)) }
        else some { s with worker := Function.update s.worker w .dequeue }
    | .get _ [] => some { s with worker := Function.update s.worker w .dequeue }
    | .get host (oid :: oids) =>
        some { s.print w ((answers.snmpGet host oid).toList.map (timeNow, ·)) with
          worker := Function.update s.worker w (.get host oids) }
    | .ending =>
        some { s with
          worker := Function.update s.worker w .ended
          output := s.output.flush w }
    | .ended => none

/-- `CollectMib`: the threads are joined in their order. -/
def mainStep (s : Control) : Option Control :=
  if s.closed then none
  else if s.joined < s.threads then
    match s.worker s.joined with
    | .ended => some { s with joined := s.joined + 1 }
    | _ => none
  else some { s with closed := true }

def step : Action → Control → Option Control
  | .worker w timeNow, s =>
      if w < s.threads then s.workerStep answers oidConfList bufsiz w timeNow else none
  | .main, s => s.mainStep

end Control

/-- The control when `CollectMib` has created its threads. -/
def created (threads : Nat) (hosts : List Host) : Control where
  threads
  queue := hosts.map some ++ List.replicate threads none
  worker := fun _ => .dequeue
  joined := 0
  closed := false
  output := .empty
  printed := []

/-- `CollectMib` of `thread_snmp_mib_collect.pl`; `bufsiz` is the size of the buffer of a file. -/
def collectThreads (answers : Answers) (oidConfList : List Str) (bufsiz : ℕ+) (threads : Nat)
    (hosts : List Host) : Machine Control Action where
  start := (· = created threads hosts)
  step := Control.step answers oidConfList bufsiz

/-! ### What a step does -/

namespace Control

section

variable (answers : Answers) (oidConfList : List Str) (bufsiz : ℕ+)

/-- The steps of the threads and of the main thread. -/
inductive Move (s : Control) : Control → Prop where
  | spill {w : Nat} (hw : w < s.threads) (hfull : bufsiz ≤ (s.output.buffer w).length) :
      Move s { s with output := s.output.spill bufsiz w }
  | take {w : Nat} {host : Host} {queue : List (Option Host)} (hw : w < s.threads)
      (hplace : s.worker w = .dequeue) (hqueue : s.queue = some host :: queue) :
      Move s { s with queue, worker := Function.update s.worker w (.session host) }
  | stop {w : Nat} {queue : List (Option Host)} (hw : w < s.threads)
      (hplace : s.worker w = .dequeue) (hqueue : s.queue = none :: queue) :
      Move s { s with queue, worker := Function.update s.worker w .ending }
  | opened {w : Nat} {host : Host} (hw : w < s.threads) (hplace : s.worker w = .session host)
      (hsession : answers.session host.node = true) :
      Move s { s with
        worker := Function.update s.worker w (.get host (answers.oids oidConfList host.node)) }
  | failed {w : Nat} {host : Host} (hw : w < s.threads) (hplace : s.worker w = .session host)
      (hsession : answers.session host.node = false) :
      Move s { s with worker := Function.update s.worker w .dequeue }
  | get {w : Nat} {host : Host} {oid : Str} {oids : List Str} (timeNow : Str) (hw : w < s.threads)
      (hplace : s.worker w = .get host (oid :: oids)) :
      Move s { s.print w ((answers.snmpGet host oid).toList.map (timeNow, ·)) with
        worker := Function.update s.worker w (.get host oids) }
  | close {w : Nat} {host : Host} (hw : w < s.threads) (hplace : s.worker w = .get host []) :
      Move s { s with worker := Function.update s.worker w .dequeue }
  | flush {w : Nat} (hw : w < s.threads) (hplace : s.worker w = .ending) :
      Move s { s with
        worker := Function.update s.worker w .ended
        output := s.output.flush w }
  | join (hclosed : s.closed = false) (hjoined : s.joined < s.threads)
      (hplace : s.worker s.joined = .ended) :
      Move s { s with joined := s.joined + 1 }
  | closeOutput (hclosed : s.closed = false) (hjoined : ¬ s.joined < s.threads) :
      Move s { s with closed := true }

/-- What a thread prints of the node it has. -/
def rowsOf : Worker → List Row
  | .dequeue => []
  | .session host => answers.collect oidConfList host
  | .get host oids => oids.filterMap (answers.snmpGet host)
  | .ending | .ended => []

/-- What is to be printed of the nodes in the queue. -/
def queueRows (queue : List (Option Host)) : List Row :=
  queue.flatMap fun host => host.elim [] (answers.collect oidConfList)

/-- The steps a thread has left before the next node. -/
def stepsOf : Worker → Nat
  | .dequeue => 0
  | .session host => (answers.oids oidConfList host.node).length + 2
  | .get _ oids => oids.length + 1
  | .ending => 1
  | .ended => 0

/-- The steps the elements of the queue are good for. -/
def queueSteps : List (Option Host) → Nat
  | [] => 0
  | none :: queue => 2 + queueSteps queue
  | some host :: queue => (answers.oids oidConfList host.node).length + 3 + queueSteps queue

/-- The steps of the threads, and what is in their buffers. -/
def left (s : Control) : Nat ×ₗ Nat :=
  toLex (queueSteps answers oidConfList s.queue +
    weight s.threads (stepsOf answers oidConfList) s.worker + (s.threads - s.joined) +
    (!s.closed).toNat, weight s.threads List.length s.output.buffer)

end

/-- A thread that has not taken its `undef`. -/
def live : Worker → Nat
  | .ending | .ended => 0
  | _ => 1

section

variable {answers : Answers} {oidConfList : List Str} {bufsiz : ℕ+} {s s' : Control} {a : Action}

theorem move_of_step (h : s.step answers oidConfList bufsiz a = some s') :
    Move answers oidConfList bufsiz s s' := by
  cases a with
  | worker w timeNow =>
      simp only [step] at h
      split at h
      · rename_i hw
        simp only [workerStep] at h
        split at h
        · cases h
          exact .spill hw ‹_›
        split at h
        · rename_i hplace
          split at h
          · cases h
          · rename_i hqueue
            cases h
            exact .stop hw hplace hqueue
          · rename_i hqueue
            cases h
            exact .take hw hplace hqueue
        · rename_i hplace
          split at h
          · rename_i hsession
            cases h
            exact .opened hw hplace hsession
          · rename_i hsession
            cases h
            exact .failed hw hplace (Bool.eq_false_of_not_eq_true hsession)
        · cases h
          exact .close hw ‹_›
        · cases h
          exact .get timeNow hw ‹_›
        · cases h
          exact .flush hw ‹_›
        · cases h
      · cases h
  | main =>
      simp only [step, mainStep] at h
      split at h
      · cases h
      · rename_i hclosed
        rw [Bool.not_eq_true] at hclosed
        split at h
        · rename_i hjoined
          split at h
          · cases h
            exact .join hclosed hjoined ‹_›
          · cases h
        · cases h
          exact .closeOutput hclosed ‹_›

/-- The weight of the threads after one has moved. -/
theorem weight_move {w : Nat} {p : Worker} (hw : w < s.threads) (hplace : s.worker w = p)
    (f : Worker → Nat) (q : Worker) :
    weight s.threads f (Function.update s.worker w q) + f p = weight s.threads f s.worker + f q :=
  hplace ▸ weight_update hw q

/-- A thread has come closer to its end, or to that of the queue. -/
theorem left_move {w : Nat} {p q : Worker} {queue : List (Option Host)} (hw : w < s.threads)
    (hplace : s.worker w = p) (output : Buffers UInt8) (printed : List (Nat × Str × Row))
    (hless : queueSteps answers oidConfList queue + stepsOf answers oidConfList q <
      queueSteps answers oidConfList s.queue + stepsOf answers oidConfList p) :
    Control.left answers oidConfList
        { s with queue, worker := Function.update s.worker w q, output, printed } <
      s.left answers oidConfList := by
  have hmove := weight_move hw hplace (stepsOf answers oidConfList) q
  refine .left _ _ ?_
  dsimp only
  omega

/-- **Each step** leaves less to be done. -/
theorem Move.left (h : Move answers oidConfList bufsiz s s') :
    s'.left answers oidConfList < s.left answers oidConfList := by
  cases h with
  | @spill w hw hfull =>
      refine .right _ ?_
      have hmove : weight s.threads List.length
            (Function.update s.output.buffer w ((s.output.buffer w).drop bufsiz)) +
          (s.output.buffer w).length =
          weight s.threads List.length s.output.buffer + ((s.output.buffer w).drop bufsiz).length :=
        weight_update hw _
      have hpos := bufsiz.pos
      rw [List.length_drop] at hmove
      change weight s.threads List.length (Function.update s.output.buffer w _) < _
      omega
  | take hw hplace hqueue =>
      refine left_move hw hplace s.output s.printed ?_
      simp only [hqueue, queueSteps, stepsOf]
      omega
  | stop hw hplace hqueue =>
      refine left_move hw hplace s.output s.printed ?_
      simp only [hqueue, queueSteps, stepsOf]
      omega
  | opened hw hplace => exact left_move hw hplace s.output s.printed (by simp [stepsOf])
  | failed hw hplace => exact left_move hw hplace s.output s.printed (by simp [stepsOf])
  | get timeNow hw hplace =>
      refine @left_move answers oidConfList s _ _ _ s.queue hw hplace _ _ ?_
      simp [stepsOf]
  | close hw hplace => exact left_move hw hplace s.output s.printed (by simp [stepsOf])
  | flush hw hplace => exact left_move hw hplace _ s.printed (by simp [stepsOf])
  | join hclosed hjoined =>
      refine .left _ _ ?_
      dsimp only
      omega
  | closeOutput hclosed hjoined =>
      refine .left _ _ ?_
      simp only [hclosed, Bool.not_false, Bool.not_true, Bool.toNat_true, Bool.toNat_false]
      omega

end

end Control

/-! ### The two scripts -/

/-- A thread has the host of the plain script if the name is behind three fields. -/
theorem threadHostOf_eq_iff (answers : Answers) (line : Str) :
    answers.threadHostOf line = answers.hostOf line ↔
      (confList line).length = 3 ∨
        (confList line)[3]? = some (answers.selectFromDB (confList line)[0]?) := by
  have hnode : nodeOf line =
      ⟨(confList line)[0]?, (confList line)[1]?, (confList line)[2]?⟩ := rfl
  rw [Answers.threadHostOf, Answers.hostOf, hnode, Answers.nodeArray]
  generalize confList line = fields
  generalize hname : answers.selectFromDB fields[0]? = name
  match fields with
  | [] => simp
  | [ip] => simp
  | [ip, community] => simp
  | [ip, community, port] => simp
  | ip :: community :: port :: hostname :: rest => simp

end Realwork.Snmp.Mib.Threads
