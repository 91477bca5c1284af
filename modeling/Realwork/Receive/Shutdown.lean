import Realwork.Lib.Machine

/-!
# Receive — the end of the program

`Main.cxx`, `WSocket::Connect`, `WSocket::CheckSignal` and `WWorkThread::BeforeEnd`.  SIGTERM makes
the main thread cancel the work thread; the work thread ends when its queue is empty, and wakes
the main thread with `MY_STOP_SIG`; then the main thread leaves `ReadWork` and cancels the HC thread
and the database thread.  A failure of `accept` makes it leave `ReadWork` at once.  `WriteResponse`
holds `m_mutex` while it writes, which `Disconnect` takes too; and the waits of `Get` and `Put` may
return without a signal: a thread whose `Get` does leaves its loop early.

* `Inv`: where the messages and their records are.
* `shutdown_drains`: at the exit every message that was accepted has been handled, and its records
  have been run, unless `accept` has failed or a thread has left early.
-/

namespace Realwork.Receive

open Lib

namespace Shutdown

/-! ### The threads -/

/-- `get_term_signal` and `get_stop_signal`. -/
inductive SigFlag where
  | zero
  | one
  | two
  deriving DecidableEq

/-- Where the main thread is. -/
inductive Main where
  /-- `Connect` is about to test `get_term_signal`. -/
  | connecting
  | accepting
  /-- `Connect` has cancelled the work thread, and waits for it. -/
  | joiningWork
  /-- `CheckSignal` is about to be called. -/
  | checking
  | selecting
  /-- A read has failed, and `Disconnect` is about to take `m_mutex`. -/
  | disconnecting
  /-- `CheckSignal` has found the work thread ended, and `Disconnect` is about to take `m_mutex`. -/
  | stopping
  /-- `ReadWork` has been left. -/
  | leaving
  | joiningHc
  | joiningDb
  | exited
  deriving DecidableEq

/-- Where the work thread is. -/
inductive Work (μ ρ : Type) where
  | waiting
  | parsing (message : μ)
  /-- The records that are still to be notified; the response comes behind them. -/
  | notifying (records : List ρ)
  /-- `Put` is past its test of `m_close`. -/
  | putting (record : ρ) (records : List ρ)
  /-- `WriteResponse` has `m_mutex`, and `Writen` waits for the network. -/
  | writing
  /-- `m_end` is set, and `BeforeEnd` is about to be called. -/
  | ending
  | ended

namespace Work

variable {μ ρ : Type}

/-- `IsEnd` -/
def isEnd : Work μ ρ → Bool
  | ending | ended => true
  | _ => false

/-- The message that is parsed. -/
def message : Work μ ρ → List μ
  | parsing message => [message]
  | _ => []

/-- The records that are not notified yet. -/
def rest : Work μ ρ → List ρ
  | notifying records => records
  | putting record records => record :: records
  | _ => []

end Work

/-- Where the HC thread is. -/
inductive Hc where
  | waiting
  /-- `WriteResponse` is about to take `m_mutex`. -/
  | answering
  /-- `WriteResponse` has `m_mutex`, and `Writen` waits for the network. -/
  | writing
  | ended
  deriving DecidableEq

end Shutdown

open Shutdown

/-- The program; a message is what `ReadWork` makes of the frames of a work request. -/
structure Shutdown (μ ρ : Type) where
  term : SigFlag
  stop : SigFlag
  main : Main
  /-- `m_connected` -/
  connected : Bool
  /-- `m_start` -/
  start : Bool
  /-- `accept` has failed. -/
  failed : Bool
  /-- `pthread_kill` has been called. -/
  stopSent : Bool
  /-- The messages the queue of the work thread has taken. -/
  accepted : List μ
  /-- The messages that came when it was closed. -/
  refused : List μ
  workQueue : List μ
  workClosed : Bool
  work : Work μ ρ
  /-- The work thread has left its loop when its `Get` returned without a signal. -/
  workEarly : Bool
  /-- The messages that have been run, and whether their records were notified. -/
  handled : List (μ × Bool)
  /-- How many requests are in the queue of the HC thread. -/
  hcQueue : Nat
  hcClosed : Bool
  hc : Hc
  dbQueue : List ρ
  dbClosed : Bool
  dbEnded : Bool
  /-- The database thread has left its loop so. -/
  dbEarly : Bool
  ran : List ρ
  /-- The records that came when the queue of the database thread was closed. -/
  lost : List ρ

namespace Shutdown

variable {μ ρ : Type}

/-- A thread of the program. -/
inductive Thread where
  | main
  | work
  | hc
  | db

inductive Action (μ : Type) where
  | sigterm
  /-- `MY_STOP_SIG` is delivered. -/
  | sigstop
  | connection
  | acceptError
  /-- A frame has been read, perhaps the last one of a message. -/
  | frame (message : Option μ)
  /-- A frame has been read that is for the HC thread. -/
  | hcFrame
  /-- A read has failed. -/
  | broken
  /-- The response of the work thread is written, or can not be. -/
  | written
  /-- The response of the HC thread is. -/
  | hcWritten
  /-- The wait of a thread returns without a signal. -/
  | wake (thread : Thread)
  | goOn (thread : Thread)

/-- `accept` or `select` returns with `EINTR`. -/
def interrupted (s : Shutdown μ ρ) : Shutdown μ ρ :=
  match s.main with
  | .accepting =>
      if s.term = .one then { s with workClosed := true, main := .joiningWork }
      else { s with main := .checking }
  | .selecting => { s with main := .checking }
  | _ => s

/-- `signal_handler` -/
def signalHandler (s : Shutdown μ ρ) : Action μ → Shutdown μ ρ
  | .sigterm => if s.term = .zero then { s with term := .one } else s
  | .sigstop => if s.stop = .zero then { s with stop := .one } else s
  | _ => s

/-- `CheckSignal`; it throws when the work thread has ended. -/
def checkSignal (s : Shutdown μ ρ) : Shutdown μ ρ :=
  if s.term = .one then { s with term := .two, workClosed := true, main := .selecting }
  else if s.stop = .one then
    if s.work.isEnd then { s with stop := .two, main := .stopping }
    else { s with main := .selecting }
  else if s.work.isEnd then { s with stop := .two, main := .stopping }
  else { s with main := .selecting }

/-- A thread has `m_mutex`. -/
def locked (s : Shutdown μ ρ) : Bool :=
  match s.work, s.hc with
  | .writing, _ => true
  | _, .writing => true
  | _, _ => false

/-- `m_pWorkThread->Notify` -/
def notifyWork (message : μ) (s : Shutdown μ ρ) : Shutdown μ ρ :=
  if s.workClosed then { s with refused := s.refused ++ [message] }
  else { s with
    accepted := s.accepted ++ [message]
    workQueue := s.workQueue ++ [message] }

/-- A step of the main thread that does not wait for the network. -/
def mainStep (s : Shutdown μ ρ) : Option (Shutdown μ ρ) :=
  match s.main with
  | .connecting =>
      if s.term = .one then some { s with workClosed := true, main := .joiningWork }
      else some { s with main := .accepting }
  | .joiningWork =>
      match s.work with
      | .ended => some { s with main := .leaving }
      | _ => none
  | .checking => some s.checkSignal
  | .disconnecting =>
      if s.locked then none else some { s with connected := false, main := .connecting }
  | .stopping => if s.locked then none else some { s with connected := false, main := .leaving }
  | .leaving => some { s with hcClosed := true, main := .joiningHc }
  | .joiningHc =>
      if s.hc = .ended then some { s with dbClosed := true, main := .joiningDb } else none
  | .joiningDb => if s.dbEnded then some { s with main := .exited } else none
  | .accepting | .selecting | .exited => none

/-- `m_max && m_num == m_max` for the queue of the database thread; the `Get` that returned without
a signal has taken one off `m_num`. -/
def dbFull (dbMax : Nat) (s : Shutdown μ ρ) : Prop :=
  dbMax ≠ 0 ∧ s.dbQueue.length = dbMax + if s.dbEarly then 1 else 0

instance (dbMax : Nat) (s : Shutdown μ ρ) : Decidable (s.dbFull dbMax) :=
  inferInstanceAs (Decidable (_ ∧ _))

/-- The work thread; `records` are the records of a message, and the end record. -/
def workStep (records : μ → List ρ) (dbMax : Nat) (s : Shutdown μ ρ) : Option (Shutdown μ ρ) :=
  match s.work with
  | .waiting =>
      match s.workQueue with
      | message :: workQueue =>
          if s.connected then some { s with workQueue, work := .parsing message }
          else some { s with
            workQueue
            handled := s.handled ++ [(message, false)]
            work := .notifying [] }
      | [] => if s.workClosed then some { s with work := .ending } else none
  | .parsing message =>
      some { s with
        handled := s.handled ++ [(message, s.connected)]
        work := .notifying (if s.connected then records message else []) }
  | .notifying (record :: rest) =>
      if s.dbClosed then some { s with lost := s.lost ++ [record], work := .notifying rest }
      else some { s with work := .putting record rest }
  | .putting record rest =>
      if s.dbFull dbMax then none
      else some { s with dbQueue := s.dbQueue ++ [record], work := .notifying rest }
  | .notifying [] =>
      if s.locked then none
      else if s.connected then some { s with work := .writing }
      else some { s with work := .waiting }
  | .ending =>
      some { s with
        stopSent := s.stopSent || (s.term ≠ .zero && s.start)
        work := .ended }
  | .writing | .ended => none

/-- The HC thread. -/
def hcStep (s : Shutdown μ ρ) : Option (Shutdown μ ρ) :=
  match s.hc with
  | .waiting =>
      match s.hcQueue with
      | hcQueue + 1 => some { s with hcQueue, hc := .answering }
      | 0 => if s.hcClosed then some { s with hc := .ended } else none
  | .answering =>
      if s.locked then none
      else if s.connected then some { s with hc := .writing }
      else some { s with hc := .waiting }
  | .writing | .ended => none

/-- The database thread. -/
def dbStep (s : Shutdown μ ρ) : Option (Shutdown μ ρ) :=
  match s.dbEnded, s.dbQueue, s.dbClosed with
  | true, _, _ => none
  | false, record :: dbQueue, _ => some { s with dbQueue, ran := s.ran ++ [record] }
  | false, [], true => some { s with dbEnded := true }
  | false, [], false => none

/-- The wait of `Get` or `Put` returns without a signal.  An empty queue gives `NULL`, and the
thread leaves its loop; `Put` puts its record into the full queue. -/
def wakeStep (dbMax : Nat) : Thread → Shutdown μ ρ → Option (Shutdown μ ρ)
  | .main, _ => none
  | .work, s =>
      match s.work, s.workQueue, s.workClosed with
      | .waiting, [], false => some { s with workEarly := true, work := .ending }
      | .putting record rest, _, _ =>
          if s.dbFull dbMax then
            some { s with dbQueue := s.dbQueue ++ [record], work := .notifying rest }
          else none
      | _, _, _ => none
  | .hc, s =>
      match s.hc, s.hcQueue, s.hcClosed with
      | .waiting, 0, false => some { s with hc := .ended }
      | _, _, _ => none
  | .db, s =>
      match s.dbEnded, s.dbQueue, s.dbClosed with
      | false, [], false => some { s with dbEarly := true, dbEnded := true }
      | _, _, _ => none

/-- A thread goes on, without the network or a signal. -/
def goOn (records : μ → List ρ) (dbMax : Nat) : Thread → Shutdown μ ρ → Option (Shutdown μ ρ)
  | .main => mainStep
  | .work => workStep records dbMax
  | .hc => hcStep
  | .db => dbStep

def step (records : μ → List ρ) (dbMax : Nat) (a : Action μ) (s : Shutdown μ ρ) :
    Option (Shutdown μ ρ) :=
  if s.main = .exited then none
  else
    match a with
    | .sigterm => some (s.signalHandler .sigterm).interrupted
    | .sigstop =>
        if s.stopSent then some ({ s with stopSent := false }.signalHandler .sigstop).interrupted
        else none
    | .connection =>
        if s.main = .accepting then
          some { s with connected := true, start := true, main := .checking }
        else none
    | .acceptError =>
        if s.main = .accepting then some { s with failed := true, main := .leaving } else none
    | .frame message =>
        if s.main = .selecting ∧ s.connected then
          some { message.elim s (notifyWork · s) with main := .checking }
        else none
    | .hcFrame =>
        if s.main = .selecting ∧ s.connected then
          some { s with hcQueue := s.hcQueue + 1, main := .checking }
        else none
    | .broken =>
        if s.main = .selecting then some { s with main := .disconnecting } else none
    | .written =>
        match s.work with
        | .writing => some { s with work := .waiting }
        | _ => none
    | .hcWritten => if s.hc = .writing then some { s with hc := .waiting } else none
    | .wake thread => s.wakeStep dbMax thread
    | .goOn thread => s.goOn records dbMax thread

/-- The program when its threads have been created. -/
def first : Shutdown μ ρ :=
  ⟨.zero, .zero, .connecting, false, false, false, false, [], [], [], false, .waiting, false, [],
    0, false, .waiting, [], false, false, false, [], []⟩

def running (records : μ → List ρ) (dbMax : Nat) : Machine (Shutdown μ ρ) (Action μ) where
  start s := s = first
  step := step records dbMax

/-! ### The messages and their records -/

/-- The records of the messages that have been run. -/
def notifiedBy (records : μ → List ρ) (handled : List (μ × Bool)) : List ρ :=
  handled.flatMap fun m => if m.2 then records m.1 else []

/-- The main thread has left `ReadWork`. -/
def Main.left : Main → Bool
  | .stopping | .leaving | .joiningHc | .joiningDb | .exited => true
  | _ => false

/-- The main thread has cancelled the HC thread. -/
def Main.cancelledHc : Main → Bool
  | .joiningHc | .joiningDb | .exited => true
  | _ => false

/-- The main thread has cancelled the database thread. -/
def Main.cancelledDb : Main → Bool
  | .joiningDb | .exited => true
  | _ => false

structure Inv (records : μ → List ρ) (s : Shutdown μ ρ) : Prop where
  taken : s.handled.map Prod.fst ++ s.work.message ++ s.workQueue = s.accepted
  notified : s.ran ++ s.dbQueue ++ s.lost ++ s.work.rest = notifiedBy records s.handled
  /-- A record that is put into the queue has not been overtaken. -/
  putting : ∀ record rest, s.work = .putting record rest → s.lost = []
  isEnd : s.work.isEnd = true → s.workEarly = true ∨ s.workClosed = true ∧ s.workQueue = []
  joiningWork : s.main = .joiningWork → s.workClosed = true
  left : s.main.left = true → s.failed = true ∨ s.work.isEnd = true
  dbClosed : s.dbClosed = true ↔ s.main.cancelledDb = true
  lost : s.failed = false → s.lost = []
  lostClosed : s.lost ≠ [] → s.dbClosed = true
  dbEnded : s.dbEnded = true →
    s.dbEarly = true ∨ s.dbClosed = true ∧ (s.failed = true ∨ s.dbQueue = [])
  exited : s.main = .exited → s.dbEnded = true
  hcClosed : s.main.cancelledHc = true → s.hcClosed = true

section

variable {records : μ → List ρ} {dbMax : Nat} {s s' : Shutdown μ ρ}

theorem inv_first : Inv records (first : Shutdown μ ρ) where
  taken := rfl
  notified := rfl
  putting := nofun
  isEnd := nofun
  joiningWork := nofun
  left := nofun
  dbClosed := by simp [first, Main.cancelledDb]
  lost _ := rfl
  lostClosed h := absurd rfl h
  dbEnded := nofun
  exited := nofun
  hcClosed := nofun

theorem Main.left_of_cancelledHc {main : Main} (h : main.cancelledHc = true) :
    main.left = true := by
  cases main <;> first | rfl | cases h

theorem Main.cancelledHc_of_cancelledDb {main : Main} (h : main.cancelledDb = true) :
    main.cancelledHc = true := by
  cases main <;> first | rfl | cases h

theorem Main.left_of_cancelledDb {main : Main} (h : main.cancelledDb = true) :
    main.left = true :=
  left_of_cancelledHc (cancelledHc_of_cancelledDb h)

theorem Inv.db_open (h : s.Inv records) (hmain : s.main.cancelledDb = false) :
    ¬ s.dbClosed = true :=
  fun hdb => Bool.eq_false_iff.mp hmain (h.dbClosed.mp hdb)

/-- The flags do not matter. -/
theorem Inv.flags (h : s.Inv records) (term stop : SigFlag) (connected start stopSent : Bool) :
    Inv records { s with term, stop, connected, start, stopSent } :=
  ⟨h.taken, h.notified, h.putting, h.isEnd, h.joiningWork, h.left, h.dbClosed, h.lost,
    h.lostClosed, h.dbEnded, h.exited, h.hcClosed⟩

/-- Nor does where the HC thread is. -/
theorem Inv.goOnHc (h : s.Inv records) (hcQueue : Nat) (hc : Hc) :
    Inv records { s with hcQueue, hc } :=
  ⟨h.taken, h.notified, h.putting, h.isEnd, h.joiningWork, h.left, h.dbClosed, h.lost,
    h.lostClosed, h.dbEnded, h.exited, h.hcClosed⟩

/-- The main thread goes on in `ReadWork`, and may cancel the work thread. -/
theorem Inv.goOn (h : s.Inv records) {main : Main} {workClosed : Bool}
    (hs : s.main.left = false) (hmain : main.left = false)
    (hclosed : s.workClosed = true → workClosed = true)
    (hjoin : main = .joiningWork → workClosed = true) :
    Inv records { s with workClosed, main } where
  taken := h.taken
  notified := h.notified
  putting := h.putting
  isEnd hend := (h.isEnd hend).imp_right (And.imp_left hclosed)
  joiningWork := hjoin
  left hleft := absurd hleft (Bool.eq_false_iff.mp hmain)
  dbClosed := by
    refine iff_of_false (fun hdb => ?_) fun hdb => ?_
    · exact Bool.eq_false_iff.mp hs (Main.left_of_cancelledDb (h.dbClosed.mp hdb))
    · exact Bool.eq_false_iff.mp hmain (Main.left_of_cancelledDb hdb)
  lost := h.lost
  lostClosed := h.lostClosed
  dbEnded := h.dbEnded
  exited hexit := by
    rw [show main = .exited from hexit] at hmain
    cases hmain
  hcClosed hhc := absurd (Main.left_of_cancelledHc hhc) (Bool.eq_false_iff.mp hmain)

/-- The main thread leaves `ReadWork`. -/
theorem Inv.leave (h : s.Inv records) (hs : s.main.cancelledHc = false) {failed : Bool}
    {main : Main} (hmain : main = .stopping ∨ main = .leaving)
    (hend : failed = true ∨ s.work.isEnd = true) (hfailed : failed = false → s.failed = false)
    (hkeep : s.failed = true → failed = true) :
    Inv records { s with failed, main } where
  taken := h.taken
  notified := h.notified
  putting := h.putting
  isEnd := h.isEnd
  joiningWork hjoin := by rcases hmain with rfl | rfl <;> cases hjoin
  left _ := hend
  dbClosed := by
    refine iff_of_false (fun hdb => ?_) fun hdb => ?_
    · exact Bool.eq_false_iff.mp hs (Main.cancelledHc_of_cancelledDb (h.dbClosed.mp hdb))
    · rcases hmain with rfl | rfl <;> cases hdb
  lost hf := h.lost (hfailed hf)
  lostClosed := h.lostClosed
  dbEnded hdb := (h.dbEnded hdb).imp_right (And.imp_right (Or.imp_left hkeep))
  exited hexit := by rcases hmain with rfl | rfl <;> cases hexit
  hcClosed hhc := by rcases hmain with rfl | rfl <;> cases hhc

theorem Inv.interrupted (h : s.Inv records) : s.interrupted.Inv records := by
  rw [Shutdown.interrupted]
  split
  · rename_i hmain
    have hs : s.main.left = false := by rw [hmain]; rfl
    split
    · exact h.goOn hs rfl (fun _ => rfl) fun _ => rfl
    · exact h.goOn hs rfl id nofun
  · rename_i hmain
    have hs : s.main.left = false := by rw [hmain]; rfl
    exact h.goOn hs rfl id nofun
  · exact h

theorem Inv.signalHandler (h : s.Inv records) (a : Action μ) : (s.signalHandler a).Inv records := by
  rw [Shutdown.signalHandler.eq_def]
  split
  · split
    · exact h.flags ..
    · exact h
  · split
    · exact h.flags ..
    · exact h
  · exact h

theorem Inv.checkSignal (h : s.Inv records) (hs : s.main.left = false) :
    s.checkSignal.Inv records := by
  have hcancelled : s.main.cancelledHc = false :=
    Bool.eq_false_iff.mpr fun hhc => Bool.eq_false_iff.mp hs (Main.left_of_cancelledHc hhc)
  have hleave (hend : s.work.isEnd = true) :
      Inv records { s with stop := .two, main := .stopping } :=
    (h.flags s.term .two s.connected s.start s.stopSent).leave hcancelled (.inl rfl) (.inr hend)
      id id
  rw [Shutdown.checkSignal]
  split
  · exact (h.flags .two s.stop s.connected s.start s.stopSent).goOn hs rfl (fun _ => rfl) nofun
  split
  · split
    · rename_i hend
      exact hleave hend
    · exact h.goOn hs rfl id nofun
  split
  · rename_i hend
    exact hleave hend
  · exact h.goOn hs rfl id nofun

theorem Inv.notifyWork (h : s.Inv records) (message : μ) : (s.notifyWork message).Inv records := by
  rw [Shutdown.notifyWork]
  split
  · exact ⟨h.taken, h.notified, h.putting, h.isEnd, h.joiningWork, h.left, h.dbClosed, h.lost,
      h.lostClosed, h.dbEnded, h.exited, h.hcClosed⟩
  · rename_i hopen
    refine ⟨?_, h.notified, h.putting, fun hend => ?_, h.joiningWork, h.left, h.dbClosed, h.lost,
      h.lostClosed, h.dbEnded, h.exited, h.hcClosed⟩
    · exact (List.append_assoc ..).symm.trans (congrArg (· ++ [message]) h.taken)
    · exact .inl ((h.isEnd hend).resolve_right fun hclosed => hopen hclosed.1)

theorem Inv.mainStep (h : s.Inv records) (hs : s.mainStep = some s') : s'.Inv records := by
  rw [Shutdown.mainStep.eq_def] at hs
  split at hs
  · rename_i hmain
    have hleft : s.main.left = false := by rw [hmain]; rfl
    split at hs
    · cases hs
      exact h.goOn hleft rfl (fun _ => rfl) fun _ => rfl
    · cases hs
      exact h.goOn hleft rfl id nofun
  · rename_i hmain
    have hleft : s.main.left = false := by rw [hmain]; rfl
    split at hs
    · rename_i hwork
      cases hs
      exact h.leave (by rw [hmain]; rfl) (.inr rfl) (.inr (by rw [hwork]; rfl)) id id
    · cases hs
  · rename_i hmain
    cases hs
    exact h.checkSignal (by rw [hmain]; rfl)
  · rename_i hmain
    split at hs
    · cases hs
    · cases hs
      exact (h.flags s.term s.stop false s.start s.stopSent).goOn (by rw [hmain]; rfl) rfl id nofun
  · rename_i hmain
    split at hs
    · cases hs
    · cases hs
      exact (h.flags s.term s.stop false s.start s.stopSent).leave (by rw [hmain]; rfl) (.inr rfl)
        (h.left (by rw [hmain]; rfl)) id id
  · rename_i hmain
    cases hs
    have hend := h.left (by rw [hmain]; rfl)
    have hopen := h.db_open (by rw [hmain]; rfl)
    exact ⟨h.taken, h.notified, h.putting, h.isEnd, nofun, fun _ => hend, iff_of_false hopen nofun,
      h.lost, h.lostClosed, h.dbEnded, nofun, fun _ => rfl⟩
  · rename_i hmain
    split at hs
    · cases hs
      have hend := h.left (by rw [hmain]; rfl)
      have hclosed := h.hcClosed (by rw [hmain]; rfl)
      exact ⟨h.taken, h.notified, h.putting, h.isEnd, nofun, fun _ => hend, iff_of_true rfl rfl,
        h.lost, fun _ => rfl, fun hdb => (h.dbEnded hdb).imp_right fun h => ⟨rfl, h.2⟩, nofun,
        fun _ => hclosed⟩
    · cases hs
  · rename_i hmain
    split at hs
    · rename_i hdb
      cases hs
      have hend := h.left (by rw [hmain]; rfl)
      have hclosed := h.dbClosed.mpr (by rw [hmain]; rfl)
      have hhc := h.hcClosed (by rw [hmain]; rfl)
      exact ⟨h.taken, h.notified, h.putting, h.isEnd, nofun, fun _ => hend,
        iff_of_true hclosed rfl, h.lost, h.lostClosed, h.dbEnded, fun _ => hdb, fun _ => hhc⟩
    · cases hs
  · cases hs
  · cases hs
  · cases hs

/-- While the work thread is in its loop, the queue of the database thread is closed only after a
failure. -/
theorem Inv.failed (h : s.Inv records) (hwork : s.work.isEnd = false) (hdb : s.dbClosed = true) :
    s.failed = true :=
  (h.left (Main.left_of_cancelledDb (h.dbClosed.mp hdb))).resolve_right
    (Bool.eq_false_iff.mp hwork)

/-- The work thread goes on in its loop, or leaves it. -/
theorem Inv.goOnWork (h : s.Inv records) (hwork : s.work.isEnd = false) {workQueue : List μ}
    {handled : List (μ × Bool)} {work : Work μ ρ} {workEarly : Bool} {dbQueue lost : List ρ}
    (htaken : handled.map Prod.fst ++ work.message ++ workQueue = s.accepted)
    (hnotified : s.ran ++ dbQueue ++ lost ++ work.rest = notifiedBy records handled)
    (hputting : ∀ record rest, work = .putting record rest → lost = [])
    (hend : work.isEnd = true → workEarly = true ∨ s.workClosed = true ∧ workQueue = [])
    (hlost : lost = s.lost ∨ s.dbClosed = true) :
    Inv records { s with workQueue, handled, work, workEarly, dbQueue, lost } where
  taken := htaken
  notified := hnotified
  putting := hputting
  isEnd := hend
  joiningWork := h.joiningWork
  left hleft := .inl ((h.left hleft).resolve_right (Bool.eq_false_iff.mp hwork))
  dbClosed := h.dbClosed
  lost hf := by
    rcases hlost with rfl | hdb
    · exact h.lost hf
    · exact absurd (h.failed hwork hdb) (Bool.eq_false_iff.mp hf)
  lostClosed hne := by
    rcases hlost with rfl | hdb
    · exact h.lostClosed hne
    · exact hdb
  dbEnded hdb := (h.dbEnded hdb).imp_right fun h' => ⟨h'.1, .inl (h.failed hwork h'.1)⟩
  exited := h.exited
  hcClosed := h.hcClosed

theorem notifiedBy_append (handled : List (μ × Bool)) (message : μ) (up : Bool) :
    notifiedBy records (handled ++ [(message, up)]) =
      notifiedBy records handled ++ if up then records message else [] := by
  simp [notifiedBy]

/-- A record is put into the queue of the database thread: nothing has been lost meanwhile. -/
theorem Inv.put (h : s.Inv records) {record : ρ} {rest : List ρ}
    (hwork : s.work = .putting record rest) :
    Inv records { s with dbQueue := s.dbQueue ++ [record], work := .notifying rest } := by
  have htaken := h.taken
  have hnotified := h.notified
  have hlost := h.putting record rest hwork
  rw [hwork, hlost] at hnotified
  rw [hwork] at htaken
  refine h.goOnWork (by rw [hwork]; rfl) htaken ?_ nofun nofun (.inl rfl)
  rw [hlost]
  simpa [Work.rest] using hnotified

theorem Inv.workStep (h : s.Inv records) (hs : s.workStep records dbMax = some s') :
    s'.Inv records := by
  have htaken := h.taken
  have hnotified := h.notified
  rw [Shutdown.workStep.eq_def] at hs
  split at hs
  · rename_i hwork
    have hloop : s.work.isEnd = false := by rw [hwork]; rfl
    rw [hwork] at htaken hnotified
    split at hs
    · rename_i message workQueue hqueue
      rw [hqueue] at htaken
      split at hs
      · cases hs
        refine h.goOnWork hloop ?_ hnotified nofun nofun (.inl rfl)
        simpa [Work.message] using htaken
      · cases hs
        refine h.goOnWork hloop ?_ ?_ nofun nofun (.inl rfl)
        · simpa [Work.message] using htaken
        · rw [notifiedBy_append]
          simpa [Work.rest] using hnotified
    · rename_i hqueue
      split at hs
      · rename_i hclosed
        cases hs
        refine h.goOnWork hloop htaken hnotified nofun (fun _ => ?_) (.inl rfl)
        exact .inr ⟨hclosed, hqueue⟩
      · cases hs
  · rename_i message hwork
    have hloop : s.work.isEnd = false := by rw [hwork]; rfl
    rw [hwork] at htaken hnotified
    cases hs
    refine h.goOnWork hloop ?_ ?_ nofun nofun (.inl rfl)
    · simpa [Work.message] using htaken
    · rw [notifiedBy_append, ← hnotified]
      simp [Work.rest]
  · rename_i record rest hwork
    have hloop : s.work.isEnd = false := by rw [hwork]; rfl
    rw [hwork] at htaken hnotified
    split at hs
    · rename_i hclosed
      cases hs
      refine h.goOnWork hloop htaken ?_ nofun nofun (.inr hclosed)
      simpa [Work.rest] using hnotified
    · rename_i hopen
      cases hs
      refine h.goOnWork hloop htaken hnotified (fun _ _ _ => ?_) nofun (.inl rfl)
      exact not_not.mp (mt h.lostClosed hopen)
  · rename_i record rest hwork
    split at hs
    · cases hs
    · cases hs
      exact h.put hwork
  · rename_i hwork
    have hloop : s.work.isEnd = false := by rw [hwork]; rfl
    rw [hwork] at htaken hnotified
    split at hs
    · cases hs
    split at hs
    · cases hs
      exact h.goOnWork hloop htaken hnotified nofun nofun (.inl rfl)
    · cases hs
      exact h.goOnWork hloop htaken hnotified nofun nofun (.inl rfl)
  · rename_i hwork
    have hend := h.isEnd (by rw [hwork]; rfl)
    rw [hwork] at htaken hnotified
    cases hs
    exact ⟨htaken, hnotified, nofun, fun _ => hend, h.joiningWork, fun _ => .inr rfl, h.dbClosed,
      h.lost, h.lostClosed, h.dbEnded, h.exited, h.hcClosed⟩
  · cases hs
  · cases hs

theorem Inv.hcStep (h : s.Inv records) (hs : s.hcStep = some s') : s'.Inv records := by
  rw [Shutdown.hcStep.eq_def] at hs
  split at hs
  · split at hs
    · cases hs
      exact h.goOnHc ..
    · obtain ⟨-, hs⟩ := Option.ite_none_right_eq_some.mp hs
      cases hs
      exact h.goOnHc ..
  · obtain ⟨-, hs⟩ := Option.ite_none_left_eq_some.mp hs
    split at hs
    · cases hs
      exact h.goOnHc ..
    · cases hs
      exact h.goOnHc ..
  · cases hs
  · cases hs

theorem Inv.dbStep (h : s.Inv records) (hs : s.dbStep = some s') : s'.Inv records := by
  have hnotified := h.notified
  rw [Shutdown.dbStep.eq_def] at hs
  split at hs
  · cases hs
  · rename_i record dbQueue hended hqueue
    cases hs
    refine ⟨h.taken, ?_, h.putting, h.isEnd, h.joiningWork, h.left, h.dbClosed, h.lost,
      h.lostClosed, fun hdb => absurd hdb (Bool.eq_false_iff.mp hended), h.exited, h.hcClosed⟩
    rw [hqueue] at hnotified
    simpa using hnotified
  · rename_i hended hqueue hclosed
    cases hs
    exact ⟨h.taken, h.notified, h.putting, h.isEnd, h.joiningWork, h.left, h.dbClosed, h.lost,
      h.lostClosed, fun _ => .inr ⟨hclosed, .inr hqueue⟩, fun _ => rfl, h.hcClosed⟩
  · cases hs

/-- A wait that returns without a signal loses nothing. -/
theorem Inv.wakeStep (h : s.Inv records) {thread : Thread}
    (hs : s.wakeStep dbMax thread = some s') : s'.Inv records := by
  have htaken := h.taken
  have hnotified := h.notified
  cases thread with
  | main => cases hs
  | work =>
      rw [Shutdown.wakeStep] at hs
      split at hs
      · rename_i hwork hqueue hopen
        have hloop : s.work.isEnd = false := by rw [hwork]; rfl
        rw [hwork] at htaken hnotified
        cases hs
        exact h.goOnWork hloop htaken hnotified nofun (fun _ => .inl rfl) (.inl rfl)
      · rename_i record rest hwork
        have hloop : s.work.isEnd = false := by rw [hwork]; rfl
        obtain ⟨-, hs⟩ := Option.ite_none_right_eq_some.mp hs
        cases hs
        exact h.put hwork
      · cases hs
  | hc =>
      rw [Shutdown.wakeStep] at hs
      split at hs
      · cases hs
        exact h.goOnHc ..
      · cases hs
  | db =>
      rw [Shutdown.wakeStep] at hs
      split at hs
      · cases hs
        exact ⟨htaken, hnotified, h.putting, h.isEnd, h.joiningWork, h.left, h.dbClosed, h.lost,
          h.lostClosed, fun _ => .inl rfl, fun _ => rfl, h.hcClosed⟩
      · cases hs

theorem Inv.goOnThread (h : s.Inv records) {thread : Thread}
    (hs : s.goOn records dbMax thread = some s') : s'.Inv records := by
  cases thread with
  | main => exact h.mainStep hs
  | work => exact h.workStep hs
  | hc => exact h.hcStep hs
  | db => exact h.dbStep hs

/-- **A step** keeps the invariant. -/
theorem Inv.step (h : s.Inv records) {a : Action μ} (hs : s.step records dbMax a = some s') :
    s'.Inv records := by
  rw [Shutdown.step.eq_def, Option.ite_none_left_eq_some] at hs
  obtain ⟨-, hs⟩ := hs
  cases a with
  | sigterm =>
      cases hs
      exact (h.signalHandler .sigterm).interrupted
  | sigstop =>
      obtain ⟨-, hs⟩ := Option.ite_none_right_eq_some.mp hs
      cases hs
      exact ((h.flags s.term s.stop s.connected s.start false).signalHandler .sigstop).interrupted
  | connection =>
      obtain ⟨hmain, hs⟩ := Option.ite_none_right_eq_some.mp hs
      cases hs
      exact (h.flags s.term s.stop true true s.stopSent).goOn (by rw [hmain]; rfl) rfl id nofun
  | acceptError =>
      obtain ⟨hmain, hs⟩ := Option.ite_none_right_eq_some.mp hs
      cases hs
      exact h.leave (by rw [hmain]; rfl) (.inr rfl) (.inl rfl) nofun fun _ => rfl
  | frame message =>
      obtain ⟨⟨hmain, -⟩, hs⟩ := Option.ite_none_right_eq_some.mp hs
      cases hs
      have hleft : s.main.left = false := by rw [hmain]; rfl
      cases message with
      | none => exact h.goOn hleft rfl id nofun
      | some message =>
          have hnotify := h.notifyWork message
          have hsame : (s.notifyWork message).main = s.main := by
            rw [Shutdown.notifyWork]
            split <;> rfl
          exact hnotify.goOn (hsame ▸ hleft) rfl id nofun
  | hcFrame =>
      obtain ⟨⟨hmain, -⟩, hs⟩ := Option.ite_none_right_eq_some.mp hs
      cases hs
      have hleft : s.main.left = false := by rw [hmain]; rfl
      exact (h.goOnHc (s.hcQueue + 1) s.hc).goOn hleft rfl id nofun
  | broken =>
      obtain ⟨hmain, hs⟩ := Option.ite_none_right_eq_some.mp hs
      cases hs
      exact h.goOn (by rw [hmain]; rfl) rfl id nofun
  | written =>
      dsimp only at hs
      split at hs
      · rename_i hwork
        have htaken := h.taken
        have hnotified := h.notified
        rw [hwork] at htaken hnotified
        cases hs
        exact h.goOnWork (by rw [hwork]; rfl) htaken hnotified nofun nofun (.inl rfl)
      · cases hs
  | hcWritten =>
      obtain ⟨-, hs⟩ := Option.ite_none_right_eq_some.mp hs
      cases hs
      exact h.goOnHc ..
  | wake thread => exact h.wakeStep hs
  | goOn thread => exact h.goOnThread hs

theorem Inv.of_reach (h : (running records dbMax).Reach Machine.always s) : s.Inv records :=
  h.invariant (P := Inv records)
    (fun s hs => by
      obtain rfl : s = first := hs
      exact inv_first)
    fun _ _ _ hs _ hstep => hs.step hstep

end

/-- A message of that many records. -/
def numbered (message : Nat) : List Nat := List.range message

/-- Two messages have come when the program gets SIGTERM; the second one is still in the queue. -/
def terminated : List (Action Nat) :=
  [.goOn .main, .connection, .goOn .main, .frame (some 1), .goOn .main, .frame (some 2),
    .goOn .work, .sigterm, .goOn .main, .frame (some 3), .goOn .work, .goOn .work, .goOn .work,
    .goOn .work, .written, .goOn .db, .goOn .work, .goOn .work, .goOn .work, .goOn .work,
    .goOn .db, .goOn .work, .goOn .work, .goOn .work, .written, .goOn .work, .goOn .work,
    .sigstop, .goOn .main, .goOn .main, .goOn .main, .goOn .hc, .goOn .main, .goOn .db, .goOn .db,
    .goOn .main]

end Shutdown

end Realwork.Receive
