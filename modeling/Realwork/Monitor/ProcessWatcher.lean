import Mathlib.Data.List.DropRight
import Mathlib.Data.List.Induction

/-!
# Monitor — the status of a process

`ProcessWatcher.cpp`.  The watcher polls whether the process runs and whether the stop signal has
come, and carries two variables from poll to poll.

* `stopSeen_concat`: one more poll of the history.
* `statusOf_history`: the status is that of the history.
-/

namespace Realwork.Monitor

/-! ### The watcher -/

inductive ProcessStatus where
  | error
  | started
  | stopping
  | stopped
  deriving DecidableEq

/-- `isProcStopping` and `procPid`, with the values `Run` gives them first. -/
structure ProcState where
  isProcStopping : Bool := false
  procPid : Int := 0

/-- `GetProcessStatus`, on whether the stop signal waits and on what `IsProcessStarted` returns. -/
def getProcessStatus (stopSignal : Bool) (callRet : Int) (s : ProcState) :
    ProcessStatus × ProcState :=
  let isProcStopping := s.isProcStopping || stopSignal
  if callRet = -1 then (.error, { s with isProcStopping })
  else if callRet = 0 then (.stopped, ⟨false, callRet⟩)
  else
    let isProcStopping :=
      if isProcStopping then
        if callRet ≠ s.procPid then false else isProcStopping
      else isProcStopping
    (if isProcStopping then .stopping else .started, ⟨isProcStopping, callRet⟩)

/-- A poll: 0 is the pid of a process that does not run. -/
structure Poll where
  stopSignal : Bool
  pid : Nat

def poll (s : ProcState) (p : Poll) : ProcessStatus × ProcState :=
  getProcessStatus p.stopSignal p.pid s

def afterPolls (polls : List Poll) : ProcState := polls.foldl (fun s p => (poll s p).2) {}

/-- What the poll `p` returns after `polls`. -/
def statusOf (polls : List Poll) (p : Poll) : ProcessStatus := (poll (afterPolls polls) p).1

/-! ### The history -/

/-- The polls since the pid has been this one, without a break. -/
def currentRun (polls : List Poll) (pid : Nat) : List Poll := polls.rtakeWhile fun p => p.pid = pid

/-- The stop signal was seen in the current run, not in its first poll. -/
def StopSeen (polls : List Poll) (pid : Nat) : Prop :=
  ∃ p ∈ (currentRun polls pid).tail, p.stopSignal = true

instance (polls : List Poll) (pid : Nat) : Decidable (StopSeen polls pid) :=
  inferInstanceAs (Decidable (∃ p ∈ (currentRun polls pid).tail, p.stopSignal = true))

def lastPid (polls : List Poll) : Option Nat := polls.getLast?.map Poll.pid

theorem currentRun_concat (polls : List Poll) (p : Poll) :
    currentRun (polls ++ [p]) p.pid = currentRun polls p.pid ++ [p] :=
  List.rtakeWhile_concat_pos _ _ _ (decide_eq_true rfl)

/-- Of the last poll the current run is not empty exactly if the pid is its pid. -/
theorem currentRun_ne_nil {polls : List Poll} {pid : Nat} :
    currentRun polls pid ≠ [] ↔ lastPid polls = some pid := by
  cases polls using List.reverseRecOn with
  | nil => simp [currentRun, lastPid]
  | append_singleton polls p => simp [currentRun, lastPid, List.rtakeWhile_eq_nil_iff]

/-- **One more poll**: a signal counts if the pid has not changed. -/
theorem stopSeen_concat (polls : List Poll) (p : Poll) :
    StopSeen (polls ++ [p]) p.pid ↔
      lastPid polls = some p.pid ∧ (StopSeen polls p.pid ∨ p.stopSignal = true) := by
  rw [StopSeen, currentRun_concat, ← currentRun_ne_nil, StopSeen]
  cases currentRun polls p.pid with
  | nil => simp
  | cons q run => simp [or_and_right, exists_or]

/-- What the two variables say of the history. -/
structure Records (polls : List Poll) (s : ProcState) : Prop where
  procPid : s.procPid = ((lastPid polls).getD 0 : Nat)
  stopping : s.isProcStopping = true ↔
    ∃ pid, lastPid polls = some pid ∧ pid ≠ 0 ∧ StopSeen polls pid

/-- What a poll does: a pid is no error, and a signal is forgotten when the pid changes. -/
theorem poll_eq (s : ProcState) (p : Poll) :
    poll s p =
      if p.pid = 0 then (.stopped, ⟨false, p.pid⟩)
      else if (s.isProcStopping = true ∨ p.stopSignal = true) ∧ (p.pid : Int) = s.procPid then
        (.stopping, ⟨true, p.pid⟩)
      else (.started, ⟨false, p.pid⟩) := by
  have herror : (p.pid : Int) ≠ -1 := by omega
  rw [poll, getProcessStatus, if_neg herror]
  by_cases hzero : p.pid = 0
  · rw [if_pos hzero, if_pos (by omega)]
  · rw [if_neg hzero, if_neg (by omega)]
    by_cases hpid : (p.pid : Int) = s.procPid
    · cases s.isProcStopping <;> cases p.stopSignal <;> simp [hpid]
    · cases s.isProcStopping <;> cases p.stopSignal <;> simp [hpid]

/-- The signal that is kept is the one the history has. -/
theorem Records.kept_iff {polls : List Poll} {s : ProcState} (h : Records polls s) {p : Poll}
    (hpid : p.pid ≠ 0) :
    (s.isProcStopping = true ∨ p.stopSignal = true) ∧ (p.pid : Int) = s.procPid ↔
      StopSeen (polls ++ [p]) p.pid := by
  have hlast : (p.pid : Int) = s.procPid ↔ lastPid polls = some p.pid := by
    rw [h.procPid]
    cases lastPid polls with
    | none => simp [hpid]
    | some pid =>
        rw [Option.getD_some, Option.some_inj]
        omega
  rw [stopSeen_concat, and_comm, hlast]
  refine and_congr_right fun hlast => or_congr_left ?_
  rw [h.stopping, hlast]
  simp [hpid]

/-- **A poll returns the status of the history**, and the variables go on to follow it. -/
theorem Records.poll {polls : List Poll} {s : ProcState} (h : Records polls s) (p : Poll) :
    Records (polls ++ [p]) (poll s p).2 ∧
      (Monitor.poll s p).1 = if p.pid = 0 then .stopped
        else if StopSeen (polls ++ [p]) p.pid then .stopping else .started := by
  have hlast : lastPid (polls ++ [p]) = some p.pid := by simp [lastPid]
  rw [poll_eq]
  by_cases hzero : p.pid = 0
  · rw [if_pos hzero, if_pos hzero]
    exact ⟨⟨by rw [hlast]; rfl, by simp [hlast, hzero]⟩, rfl⟩
  · rw [if_neg hzero, if_neg hzero]
    by_cases hseen : StopSeen (polls ++ [p]) p.pid
    · rw [if_pos ((h.kept_iff hzero).mpr hseen), if_pos hseen]
      exact ⟨⟨by rw [hlast]; rfl, by simp [hlast, hzero, hseen]⟩, rfl⟩
    · rw [if_neg (mt (h.kept_iff hzero).mp hseen), if_neg hseen]
      exact ⟨⟨by rw [hlast]; rfl, by simp [hlast, hseen]⟩, rfl⟩

theorem records_afterPolls (polls : List Poll) : Records polls (afterPolls polls) := by
  induction polls using List.reverseRecOn with
  | nil => exact ⟨rfl, by simp [afterPolls, lastPid]⟩
  | append_singleton polls p ih =>
      rw [afterPolls, List.foldl_concat]
      exact (ih.poll p).1

/-- **The status is that of the history**: stopped without a pid; stopping if the signal was seen
since the first poll that gave this pid; else started. -/
theorem statusOf_history (polls : List Poll) (p : Poll) :
    (statusOf polls p = .stopped ↔ p.pid = 0) ∧
      (statusOf polls p = .stopping ↔ p.pid ≠ 0 ∧ StopSeen (polls ++ [p]) p.pid) ∧
      (statusOf polls p = .started ↔ p.pid ≠ 0 ∧ ¬ StopSeen (polls ++ [p]) p.pid) := by
  rw [statusOf, ((records_afterPolls polls).poll p).2]
  by_cases hzero : p.pid = 0
  · simp [hzero]
  · by_cases hseen : StopSeen (polls ++ [p]) p.pid
    · simp [hzero, hseen]
    · simp [hzero, hseen]

end Realwork.Monitor
