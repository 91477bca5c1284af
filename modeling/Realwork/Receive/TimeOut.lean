import Mathlib.Data.List.Chain
import Realwork.Receive.Queue

/-!
# Receive — the timeout of the health check

`WTimeOut.cxx`.  The main thread notifies the thread of each health check and each new connection
(a check), and of each broken connection (a stop).  `BeforeNotify` writes `last_hc_time` and
`m_stop` without a lock; `AfterRun` waits until the time has run out for the event it is called
for.  What is done with the mutex held, up to a wait, is one step.

* `checking`: the machine of the main thread, the queue and the thread.
* `alarm_once`: between two alarms there is a check, as long as no event of an earlier check is
  left when an alarm is sent.
-/

namespace Realwork.Receive

open Realwork.Lib

/-! ### The machine -/

/-- `m_flag`. -/
inductive HcFlag where
  | check
  | stop
  deriving DecidableEq

/-- Where the main thread is in `Notify`. -/
inductive Notifier where
  | idle
  /-- `BeforeNotify` has set `last_hc_time`, for a check. -/
  | timed
  /-- `BeforeNotify` has set `m_stop`. -/
  | marked (flag : HcFlag)
  /-- `BeforeNotify` has returned. -/
  | signalled (flag : HcFlag)
  /-- `Put` is past its test of `m_close`. -/
  | tested (flag : HcFlag)
  deriving DecidableEq

/-- The flag of the event that is notified. -/
def Notifier.flag? : Notifier → Option HcFlag
  | .idle => none
  | .timed => some .check
  | .marked flag | .signalled flag | .tested flag => some flag

/-- Where `OnExecute` is. -/
inductive HcWorker where
  | looping
  | waiting
  | running (event : HcFlag)
  /-- `AfterRun` waits until this time. -/
  | timing (time : Int)
  /-- The wait has returned `ETIMEDOUT`, and the mutex is held. -/
  | expired
  | ended
  deriving DecidableEq

/-- `AfterRun` waits, or is after its wait. -/
def HcWorker.InAfterRun : HcWorker → Prop
  | .timing _ | .expired => True
  | _ => False

/-- An event is run. -/
def HcWorker.Runs : HcWorker → Prop
  | .running _ => True
  | _ => False

/-- A check is notified, or `MESSAGE_HC_TIMEOUT` is sent. -/
inductive HcMark where
  | check
  | alarm
  deriving DecidableEq

/-- The thread with the main thread, the clock and the connection; `log` is not in the program. -/
structure WHCCheckThread where
  events : WQueue HcFlag := ⟨[], 0, 0, false⟩
  notifier : Notifier := .idle
  worker : HcWorker := .looping
  /-- `m_stop`. -/
  stop : Bool := false
  lastHcTime : Int := 0
  now : Int := 0
  connected : Bool := false
  log : List HcMark := []

inductive HcAction where
  /-- `Notify` is called, and `BeforeNotify` writes `last_hc_time` or, for a stop, `m_stop`. -/
  | notify (flag : HcFlag)
  /-- `m_stop = false` -/
  | mark
  /-- `BeforeNotify` takes and leaves the mutex. -/
  | signal
  /-- `Put` tests `m_close`. -/
  | test
  | put
  | cancel
  | get
  | wakeGet
  /-- The event has been run, and `AfterRun` takes the mutex. -/
  | afterRun
  /-- `pthread_cond_timedwait` returns `ETIMEDOUT`. -/
  | expire
  /-- `pthread_cond_timedwait` returns 0. -/
  | wake
  /-- After an `ETIMEDOUT`: the test of the connection, and `SEND_NOTIFY_AO`. -/
  | alarm
  | tick (seconds : Nat)
  | connection (up : Bool)
  deriving DecidableEq

namespace WHCCheckThread

/-- `Get` returns; a `NULL` ends the loop. -/
def take (s : WHCCheckThread) : WHCCheckThread :=
  { s with
    events := s.events.get.2
    worker := match s.events.get.1 with
      | some event => .running event
      | none => .ended }

/-- A signal only makes a wait return, which a wait may do at any time. -/
def step (timeout : Int) : HcAction → WHCCheckThread → Option WHCCheckThread
  | .notify .check, s =>
      if s.notifier = .idle then
        some { s with notifier := .timed, lastHcTime := s.now, log := s.log ++ [.check] }
      else none
  | .notify .stop, s =>
      if s.notifier = .idle then some { s with notifier := .marked .stop, stop := true } else none
  | .mark, s =>
      if s.notifier = .timed then some { s with notifier := .marked .check, stop := false }
      else none
  | .signal, s =>
      match s.notifier with
      | .marked flag =>
          if s.worker = .expired then none else some { s with notifier := .signalled flag }
      | _ => none
  | .test, s =>
      match s.notifier with
      | .signalled flag =>
          some { s with notifier := if s.events.close then .idle else .tested flag }
      | _ => none
  | .put, s =>
      -- `m_EventList(0)`: the queue is never full
      match s.notifier with
      | .tested flag => some { s with notifier := .idle, events := s.events.insert flag }
      | _ => none
  | .cancel, s => some { s with events := s.events.closed }
  | .get, s =>
      if s.worker = .looping then
        some (if s.events.Idle then { s with worker := .waiting } else s.take)
      else none
  | .wakeGet, s => if s.worker = .waiting then some s.take else none
  | .afterRun, s =>
      match s.worker with
      | .running _ =>
          some { s with
            worker := if s.stop = false ∧ timeout ≠ 0 then .timing (s.lastHcTime + timeout)
              else .looping }
      | _ => none
  | .expire, s =>
      match s.worker with
      | .timing time => if time ≤ s.now then some { s with worker := .expired } else none
      | _ => none
  | .wake, s =>
      match s.worker with
      | .timing _ => some { s with worker := .looping }
      | _ => none
  | .alarm, s =>
      if s.worker = .expired then
        some { s with
          worker := .looping
          log := if s.connected then s.log ++ [.alarm] else s.log }
      else none
  | .tick seconds, s => some { s with now := s.now + seconds }
  | .connection up, s => some { s with connected := up }

end WHCCheckThread

/-- The thread from before its first notification on, `timeout` being its `m_timeout`. -/
def checking (timeout : Int) : Machine WHCCheckThread HcAction where
  start s := ∃ now, s = { now }
  step := WHCCheckThread.step timeout

/-- When an alarm is sent no check is being notified, and the queue is empty or the checks have
been stopped. -/
def NoneLeft : HcAction → WHCCheckThread → Prop
  | .alarm, s => s.connected = true →
      s.notifier.flag? ≠ some .check ∧ (s.stop = true ∨ s.events.queue = [])
  | _, _ => True

instance (a : HcAction) (s : WHCCheckThread) : Decidable (NoneLeft a s) := by
  cases a <;> simp only [NoneLeft] <;> infer_instance

/-! ### One alarm for each check -/

namespace WHCCheckThread

/-- Nothing is left that could raise an alarm before the next check. -/
structure Rested (s : WHCCheckThread) : Prop where
  notifier : s.notifier.flag? ≠ some .check
  worker : ¬ s.worker.InAfterRun
  left : s.stop = true ∨ s.events.queue = [] ∧ ¬ s.worker.Runs

/-- The invariant: after an alarm, and before the next check, the thread is `Rested`. -/
structure Inv (s : WHCCheckThread) : Prop where
  stopping : s.notifier.flag? = some .stop → s.stop = true
  rested : s.log.getLast? = some .alarm → s.Rested
  apart : s.log.IsChain fun m m' => ¬(m = .alarm ∧ m' = .alarm)

variable {s s' : WHCCheckThread} {timeout : Int}

/-- A step that changes neither the log nor the notifier, and leaves no more than there was. -/
theorem Inv.congr (h : s.Inv) (hlog : s'.log = s.log) (hnotifier : s'.notifier = s.notifier)
    (hstop : s'.stop = s.stop) (hrested : s.Rested → s'.Rested) : s'.Inv where
  stopping := by
    rw [hnotifier, hstop]
    exact h.stopping
  rested hlast := hrested (h.rested (hlog ▸ hlast))
  apart := hlog ▸ h.apart

/-! The main thread. -/

theorem Inv.notify (h : s.Inv) {flag : HcFlag} (hs : step timeout (.notify flag) s = some s') :
    s'.Inv := by
  cases flag with
  | check =>
      simp only [step, Option.ite_none_right_eq_some, Option.some.injEq] at hs
      obtain ⟨-, rfl⟩ := hs
      refine ⟨by simp [Notifier.flag?], by simp, ?_⟩
      refine List.isChain_append.mpr ⟨h.apart, .singleton _, ?_⟩
      rintro m - m' hm' ⟨-, rfl⟩
      simp at hm'
  | stop =>
      simp only [step, Option.ite_none_right_eq_some, Option.some.injEq] at hs
      obtain ⟨-, rfl⟩ := hs
      refine ⟨fun _ => rfl, fun hlast => ?_, h.apart⟩
      exact ⟨by simp [Notifier.flag?], (h.rested hlast).worker, .inl rfl⟩

/-- Only a check sets `m_stop` to false. -/
theorem Inv.mark (h : s.Inv) (hs : step timeout .mark s = some s') : s'.Inv := by
  simp only [step, Option.ite_none_right_eq_some, Option.some.injEq] at hs
  obtain ⟨hn, rfl⟩ := hs
  refine ⟨by simp [Notifier.flag?], fun hlast => ?_, h.apart⟩
  exact absurd (by rw [hn]; rfl) (h.rested hlast).notifier

/-- The main thread goes on with the notification of the same event. -/
theorem Inv.goOn (h : s.Inv) {notifier : Notifier} (hflag : notifier.flag? = s.notifier.flag?) :
    Inv { s with notifier } := by
  refine ⟨fun hstop => h.stopping (hflag ▸ hstop), fun hlast => ?_, h.apart⟩
  obtain ⟨hnotifier, hworker, hleft⟩ := h.rested hlast
  exact ⟨hflag ▸ hnotifier, hworker, hleft⟩

/-- The main thread returns from `Notify`. -/
theorem Inv.return (h : s.Inv) : Inv { s with notifier := .idle } := by
  refine ⟨by simp [Notifier.flag?], fun hlast => ?_, h.apart⟩
  exact ⟨by simp [Notifier.flag?], (h.rested hlast).worker, (h.rested hlast).left⟩

theorem Inv.signal (h : s.Inv) (hs : step timeout .signal s = some s') : s'.Inv := by
  simp only [step] at hs
  split at hs
  · rename_i flag hn
    split at hs
    · cases hs
    · cases hs
      exact h.goOn (by rw [hn]; rfl)
  · cases hs

theorem Inv.test (h : s.Inv) (hs : step timeout .test s = some s') : s'.Inv := by
  simp only [step] at hs
  split at hs
  · rename_i flag hn
    cases hs
    split
    · exact h.return
    · exact h.goOn (by rw [hn]; rfl)
  · cases hs

/-- The event that is put into the queue after an alarm is a stop. -/
theorem Inv.put (h : s.Inv) (hs : step timeout .put s = some s') : s'.Inv := by
  simp only [step] at hs
  split at hs
  · rename_i flag hn
    cases hs
    refine ⟨by simp [Notifier.flag?], fun hlast => ?_, h.apart⟩
    obtain ⟨hnotifier, hworker, -⟩ := h.rested hlast
    refine ⟨by simp [Notifier.flag?], hworker, .inl (h.stopping ?_)⟩
    cases flag with
    | check => exact absurd (by rw [hn]; rfl) hnotifier
    | stop => rw [hn]; rfl
  · cases hs

/-! The thread. -/

/-- `Get` finds no event after an alarm, unless the checks have been stopped. -/
theorem Inv.take (h : s.Inv) : s.take.Inv := by
  refine h.congr rfl rfl rfl fun hr => ⟨hr.notifier, ?_, ?_⟩
  · cases hget : s.events.get.1 <;> simp [WHCCheckThread.take, hget, HcWorker.InAfterRun]
  · refine hr.left.imp_right ?_
    rintro ⟨hqueue, -⟩
    have hget : s.events.get.1 = none ∧ s.events.get.2.queue = [] := by
      unfold WQueue.get
      split
      · exact ⟨rfl, hqueue⟩
      · simp [hqueue]
    refine ⟨hget.2, ?_⟩
    simp only [WHCCheckThread.take, hget.1]
    exact id

theorem Inv.get (h : s.Inv) (hs : step timeout .get s = some s') : s'.Inv := by
  simp only [step, Option.ite_none_right_eq_some, Option.some.injEq] at hs
  obtain ⟨-, rfl⟩ := hs
  split
  · exact h.congr rfl rfl rfl fun hr => ⟨hr.notifier, id, hr.left.imp_right fun hl => ⟨hl.1, id⟩⟩
  · exact h.take

theorem Inv.wakeGet (h : s.Inv) (hs : step timeout .wakeGet s = some s') : s'.Inv := by
  simp only [step, Option.ite_none_right_eq_some, Option.some.injEq] at hs
  obtain ⟨-, rfl⟩ := hs
  exact h.take

/-- `AfterRun` does not wait when the checks have been stopped. -/
theorem Inv.afterRun (h : s.Inv) (hs : step timeout .afterRun s = some s') : s'.Inv := by
  simp only [step] at hs
  split at hs
  · rename_i event hw
    cases hs
    refine h.congr rfl rfl rfl fun hr => ?_
    have hstop : s.stop = true := hr.left.resolve_right fun hl => hl.2 (by rw [hw]; trivial)
    rw [if_neg (by simp [hstop])]
    exact ⟨hr.notifier, id, .inl hstop⟩
  · cases hs

theorem Inv.expire (h : s.Inv) (hs : step timeout .expire s = some s') : s'.Inv := by
  simp only [step] at hs
  split at hs
  · rename_i time hw
    split at hs
    · cases hs
      exact h.congr rfl rfl rfl fun hr => absurd (by rw [hw]; trivial) hr.worker
    · cases hs
  · cases hs

theorem Inv.wake (h : s.Inv) (hs : step timeout .wake s = some s') : s'.Inv := by
  simp only [step] at hs
  split at hs
  · rename_i time hw
    cases hs
    exact h.congr rfl rfl rfl fun hr => absurd (by rw [hw]; trivial) hr.worker
  · cases hs

/-- **An alarm** is the first one after a check, and leaves the thread `Rested`. -/
theorem Inv.alarm (h : s.Inv) (hc : NoneLeft .alarm s) (hs : step timeout .alarm s = some s') :
    s'.Inv := by
  simp only [step, Option.ite_none_right_eq_some, Option.some.injEq] at hs
  obtain ⟨hw, rfl⟩ := hs
  have hlast : s.log.getLast? ≠ some .alarm := fun hlast =>
    (h.rested hlast).worker (by rw [hw]; trivial)
  by_cases hup : s.connected = true
  · rw [if_pos hup]
    obtain ⟨hnotifier, hleft⟩ := hc hup
    refine ⟨h.stopping, fun _ => ⟨hnotifier, id, hleft.imp_right fun hq => ⟨hq, id⟩⟩, ?_⟩
    refine List.isChain_append.mpr ⟨h.apart, .singleton _, ?_⟩
    rintro m hm m' - ⟨rfl, -⟩
    exact hlast hm
  · rw [if_neg hup]
    exact ⟨h.stopping, fun h' => absurd h' hlast, h.apart⟩

theorem Inv.step (h : s.Inv) {a : HcAction} (hc : NoneLeft a s)
    (hs : WHCCheckThread.step timeout a s = some s') : s'.Inv := by
  cases a with
  | notify flag => exact h.notify hs
  | mark => exact h.mark hs
  | signal => exact h.signal hs
  | test => exact h.test hs
  | put => exact h.put hs
  | get => exact h.get hs
  | wakeGet => exact h.wakeGet hs
  | afterRun => exact h.afterRun hs
  | expire => exact h.expire hs
  | wake => exact h.wake hs
  | alarm => exact h.alarm hc hs
  | cancel | tick | connection =>
      cases hs
      exact h.congr rfl rfl rfl fun hr => ⟨hr.notifier, hr.worker, hr.left⟩

end WHCCheckThread

/-- **Between two alarms there is a check**, in every run in which no event of an earlier check is
left when an alarm is sent. -/
theorem alarm_once {timeout : Int} {s : WHCCheckThread} (h : (checking timeout).Reach NoneLeft s)
    {before between after : List HcMark}
    (hlog : s.log = before ++ .alarm :: between ++ .alarm :: after) : .check ∈ between := by
  have hinv : s.Inv := by
    refine h.invariant (fun s hs => ?_) fun a s s' hs hc hstep => hs.step hc hstep
    obtain ⟨now, rfl⟩ := hs
    exact ⟨by simp [Notifier.flag?], by simp, .nil⟩
  have hchain := hinv.apart
  rw [hlog, List.append_assoc, List.isChain_append] at hchain
  cases between with
  | nil => exact absurd ⟨rfl, rfl⟩ (List.isChain_cons_cons.mp hchain.2.1).1
  | cons m between =>
      cases m with
      | check => exact List.mem_cons_self
      | alarm => exact absurd ⟨rfl, rfl⟩ (List.isChain_cons_cons.mp hchain.2.1).1

/-- The connection, and later a health check; the time runs out after each. -/
theorem alarm_once_twice :
    ∃ s, (checking 10).Reach NoneLeft s ∧ ∃ before between after,
      s.log = before ++ .alarm :: between ++ .alarm :: after ∧ .check ∈ between := by
  let check : List HcAction := [.notify .check, .mark, .signal, .test, .put]
  let alarm : List HcAction := [.get, .afterRun, .tick 10, .expire, .alarm]
  obtain ⟨s, hs, hlog⟩ := Machine.Reach.exists_of_exec (M := checking 10) (C := NoneLeft)
    (P := fun s => s.log = [HcMark.check] ++ HcMark.alarm :: [HcMark.check] ++ [HcMark.alarm])
    (.connection true :: (check ++ alarm ++ check ++ alarm)) {} ⟨0, rfl⟩ (by decide) (by decide)
  exact ⟨s, hs, _, _, _, hlog, alarm_once hs hlog⟩

/-- A health check comes while the event of the connection is still in the queue: both checks
have been notified when the time runs out, and an alarm is sent for each of their events. -/
theorem alarm_twice :
    ∃ s, (checking 10).Reach Machine.always s ∧ ∃ before between after,
      s.log = before ++ .alarm :: between ++ .alarm :: after ∧ .check ∉ between := by
  let check : List HcAction := [.notify .check, .mark, .signal, .test, .put]
  obtain ⟨s, hs, hlog⟩ := Machine.Reach.exists_of_exec (M := checking 10) (C := Machine.always)
    (P := fun s => s.log = [HcMark.check, .check] ++ [HcMark.alarm] ++ [HcMark.alarm])
    (.connection true :: (check ++ check ++
      [.get, .afterRun, .tick 10, .expire, .alarm, .get, .afterRun, .expire, .alarm])) {} ⟨0, rfl⟩
    (Machine.meets_always _ _ _) (by decide)
  exact ⟨s, hs, _, _, _, hlog, List.not_mem_nil⟩

end Realwork.Receive
