import Realwork.Lib.Machine
import Realwork.Snmp.NodeList

/-!
# Snmp — the task control

`snmp_task_control.pl`, `RunThreads` and `SnmpThread`, as a machine in which any worker or the main
thread may take the next step.  A worker takes numbers from the task queue until it takes an
`undef`, and puts each number and then an `undef` into the result queue, in two steps; the main
thread leaves an iteration of its `for` at each `undef` it takes.

* `step_move`: what a step does.
-/

namespace Realwork.Snmp

open Lib

/-! ### The machine -/

/-- Where a worker is; `dequeue` waits for the task queue to have an element. -/
inductive Worker where
  | dequeue
  /-- At the `system` of `MULTI_SNMP_PERL`. -/
  | run (i : Nat)
  | unlink (i : Nat)
  /-- At `$result_queue->enqueue( $i )`. -/
  | enqueue (i : Nat)
  /-- At `$result_queue->enqueue( undef )`. -/
  | mark
  | ended
  deriving DecidableEq

/-- Where the main thread is; `rest` iterations of its `for` come after the one it is in. -/
inductive Main where
  | dequeue (rest : Nat)
  /-- At the `system` of `cat`. -/
  | cat (rest i : Nat)
  | unlink (rest i : Nat)
  /-- At the `join` of a worker. -/
  | join (w : Nat)
  | ended
  deriving DecidableEq

/-- The queues, the threads and the files; the numbers that have been taken, with the worker, and
those that have been appended. -/
structure Control where
  threads : Nat
  taskQueue : List (Option Nat)
  resultQueue : List (Option Nat)
  worker : Nat → Worker
  main : Main
  nodePart : Nat → Option Str
  outputPart : Nat → Option Str
  outputFile : Str
  taken : List (Nat × Nat)
  appended : List Nat

inductive Action where
  | worker (w : Nat)
  | main

/-- The joins from that of the worker `w` on. -/
def joinFrom (threads w : Nat) : Main := if w < threads then .join w else .ended

/-- The `for` with `rest` iterations, and what comes after it. -/
def iterations (threads : Nat) : Nat → Main
  | 0 => joinFrom threads 0
  | rest + 1 => .dequeue rest

namespace Control

/-- `SnmpThread`.  The numbers are from `1` on, and so are true. -/
def workerStep (env : Env) (w : Nat) (s : Control) : Option Control :=
  match s.worker w with
  | .dequeue =>
      match s.taskQueue with
      | [] => none
      | some i :: taskQueue =>
          some { s with
            taskQueue
            worker := Function.update s.worker w (.run i)
            taken := s.taken ++ [(w, i)] }
      | none :: taskQueue =>
          some { s with taskQueue, worker := Function.update s.worker w .ended }
  | .run i =>
      some { s with
        outputPart := Function.update s.outputPart i
          (env.multiSnmp i (s.nodePart i) (s.outputPart i))
        worker := Function.update s.worker w (.unlink i) }
  | .unlink i =>
      some { s with
        nodePart := Function.update s.nodePart i none
        worker := Function.update s.worker w (.enqueue i) }
  | .enqueue i =>
      some { s with
        resultQueue := s.resultQueue ++ [some i]
        worker := Function.update s.worker w .mark }
  | .mark =>
      some { s with
        resultQueue := s.resultQueue ++ [none]
        worker := Function.update s.worker w .dequeue }
  | .ended => none

/-- `RunThreads`. -/
def mainStep (s : Control) : Option Control :=
  match s.main with
  | .dequeue rest =>
      match s.resultQueue with
      | [] => none
      | some i :: resultQueue => some { s with resultQueue, main := .cat rest i }
      | none :: resultQueue => some { s with resultQueue, main := iterations s.threads rest }
  | .cat rest i =>
      some { s with
        outputFile := s.outputFile ++ (s.outputPart i).getD []
        appended := s.appended ++ [i]
        main := .unlink rest i }
  | .unlink rest i =>
      some { s with
        outputPart := Function.update s.outputPart i none
        main := .dequeue rest }
  | .join w =>
      if s.worker w = .ended then some { s with main := joinFrom s.threads (w + 1) } else none
  | .ended => none

def step (env : Env) (a : Action) (s : Control) : Option Control :=
  match a with
  | .worker w => if w < s.threads then s.workerStep env w else none
  | .main => s.mainStep

end Control

/-- The control when `RunThreads` has created its threads. -/
def runThreads (list : NodeList) (outputPart : Nat → Option Str) : Control where
  threads := list.threads
  taskQueue := list.taskQueue
  resultQueue := []
  worker := fun _ => .dequeue
  main := iterations list.threads list.threads
  nodePart := list.nodePart
  outputPart
  outputFile := []
  taken := []
  appended := []

/-- The task control on a node list, with the files of the parts that are there before. -/
def controller (env : Env) (list : NodeList) (outputPart : Nat → Option Str) :
    Machine Control Action where
  start s := s = runThreads list outputPart
  step := Control.step env

/-! ### What a step does -/

namespace Control

/-- The steps of the workers and of the main thread. -/
inductive Move (env : Env) (s : Control) : Control → Prop where
  | take {w i : Nat} {taskQueue : List (Option Nat)} (hw : w < s.threads)
      (hplace : s.worker w = .dequeue) (hqueue : s.taskQueue = some i :: taskQueue) :
      Move env s { s with
        taskQueue
        worker := Function.update s.worker w (.run i)
        taken := s.taken ++ [(w, i)] }
  | stop {w : Nat} {taskQueue : List (Option Nat)} (hw : w < s.threads)
      (hplace : s.worker w = .dequeue) (hqueue : s.taskQueue = none :: taskQueue) :
      Move env s { s with taskQueue, worker := Function.update s.worker w .ended }
  | run {w i : Nat} (hw : w < s.threads) (hplace : s.worker w = .run i) :
      Move env s { s with
        outputPart := Function.update s.outputPart i
          (env.multiSnmp i (s.nodePart i) (s.outputPart i))
        worker := Function.update s.worker w (.unlink i) }
  | unlink {w i : Nat} (hw : w < s.threads) (hplace : s.worker w = .unlink i) :
      Move env s { s with
        nodePart := Function.update s.nodePart i none
        worker := Function.update s.worker w (.enqueue i) }
  | enqueue {w i : Nat} (hw : w < s.threads) (hplace : s.worker w = .enqueue i) :
      Move env s { s with
        resultQueue := s.resultQueue ++ [some i]
        worker := Function.update s.worker w .mark }
  | mark {w : Nat} (hw : w < s.threads) (hplace : s.worker w = .mark) :
      Move env s { s with
        resultQueue := s.resultQueue ++ [none]
        worker := Function.update s.worker w .dequeue }
  | collect {rest i : Nat} {resultQueue : List (Option Nat)} (hmain : s.main = .dequeue rest)
      (hqueue : s.resultQueue = some i :: resultQueue) :
      Move env s { s with resultQueue, main := .cat rest i }
  | next {rest : Nat} {resultQueue : List (Option Nat)} (hmain : s.main = .dequeue rest)
      (hqueue : s.resultQueue = none :: resultQueue) :
      Move env s { s with resultQueue, main := iterations s.threads rest }
  | cat {rest i : Nat} (hmain : s.main = .cat rest i) :
      Move env s { s with
        outputFile := s.outputFile ++ (s.outputPart i).getD []
        appended := s.appended ++ [i]
        main := .unlink rest i }
  | unlinkOutput {rest i : Nat} (hmain : s.main = .unlink rest i) :
      Move env s { s with
        outputPart := Function.update s.outputPart i none
        main := .dequeue rest }
  | join {w : Nat} (hmain : s.main = .join w) (hended : s.worker w = .ended) :
      Move env s { s with main := joinFrom s.threads (w + 1) }

variable {env : Env} {s s' : Control} {a : Action}

theorem workerStep_move {w : Nat} (hw : w < s.threads) (h : s.workerStep env w = some s') :
    Move env s s' := by
  unfold workerStep at h
  split at h
  · rename_i hplace
    split at h
    · cases h
    · rename_i hqueue
      cases h
      exact .take hw hplace hqueue
    · rename_i hqueue
      cases h
      exact .stop hw hplace hqueue
  · cases h
    exact .run hw ‹_›
  · cases h
    exact .unlink hw ‹_›
  · cases h
    exact .enqueue hw ‹_›
  · cases h
    exact .mark hw ‹_›
  · cases h

theorem mainStep_move (h : s.mainStep = some s') : Move env s s' := by
  unfold mainStep at h
  split at h
  · rename_i hmain
    split at h
    · cases h
    · rename_i hqueue
      cases h
      exact .collect hmain hqueue
    · rename_i hqueue
      cases h
      exact .next hmain hqueue
  · cases h
    exact .cat ‹_›
  · cases h
    exact .unlinkOutput ‹_›
  · rename_i hmain
    split at h
    · cases h
      exact .join hmain ‹_›
    · cases h
  · cases h

/-- **A step** is a move of a worker or of the main thread. -/
theorem step_move (h : step env a s = some s') : Move env s s' := by
  cases a with
  | worker w =>
      simp only [step] at h
      split at h
      · exact workerStep_move ‹_› h
      · cases h
  | main => exact mainStep_move h

end Control

end Realwork.Snmp
