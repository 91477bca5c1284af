import Mathlib.Data.Int.Order.Basic
import Mathlib.Logic.Function.Basic
import Realwork.Lib.Machine

/-!
# Receive — the event queue of a thread

`WQueue` and the thread that takes its events, `WThread::OnExecute`.  Any number of calls of
`Notify` run beside the thread and one call of `Cancel`.  `Put` tests `m_close` before it takes
the mutex, and the waits of `Put` and `Get` may return at any time, as `pthread_cond_wait` may;
what is done between a lock of the mutex and the next wait or unlock is one step.

* `WThread.Keeps`: an event that has been accepted is in the queue, or is run, or has been run.
* `notify_delivers`: when the thread has left its loop, every accepted event has been run once,
  as long as the steps of `Get` are `Orderly`.
-/

namespace Realwork.Receive

open Realwork.Lib

/-! ### `WQueue` -/

structure WQueue (α : Type) where
  queue : List α
  max : Int
  num : Int
  close : Bool

namespace WQueue

variable {α : Type}

/-- `Put` has to wait. -/
def Full (q : WQueue α) : Prop := q.max ≠ 0 ∧ q.num = q.max

/-- `Get` has to wait. -/
def Idle (q : WQueue α) : Prop := q.num = 0 ∧ q.close = false

/-- The queue is closed, and `Get` returns `NULL`. -/
def Drained (q : WQueue α) : Prop := q.num = 0 ∧ q.close = true

instance (q : WQueue α) : Decidable q.Full :=
  inferInstanceAs (Decidable (q.max ≠ 0 ∧ q.num = q.max))

instance (q : WQueue α) : Decidable q.Idle :=
  inferInstanceAs (Decidable (q.num = 0 ∧ q.close = false))

instance (q : WQueue α) : Decidable q.Drained :=
  inferInstanceAs (Decidable (q.num = 0 ∧ q.close = true))

/-- `Put`, from its insertion on. -/
def insert (q : WQueue α) (item : α) : WQueue α :=
  { q with queue := q.queue ++ [item], num := q.num + 1 }

/-- `Get`, after its wait: the item, or `NULL`. -/
def get (q : WQueue α) : Option α × WQueue α :=
  if q.Drained then (none, q)
  else (q.queue.head?, { q with queue := q.queue.tail, num := q.num - 1 })

/-- `Close`. -/
def closed (q : WQueue α) : WQueue α := { q with close := true }

end WQueue

/-! ### `WThread` -/

/-- A call of `Notify`. -/
inductive Call where
  | ready
  /-- `Put` is past its test of `m_close`. -/
  | tested
  | waiting
  | returned (result : Bool)
  deriving DecidableEq

/-- Where `OnExecute` is. -/
inductive Worker where
  | looping
  | waiting
  | running (event : Nat)
  | ended
  deriving DecidableEq

/-- The event that is run. -/
def Worker.held : Worker → List Nat
  | running event => [event]
  | _ => []

/-- A thread, the calls of its `Notify`, each with an event of its own, and the events it has
run. -/
structure WThread where
  events : WQueue Nat
  calls : Nat → Call
  worker : Worker
  ran : List Nat

inductive Action where
  /-- `Put` tests its argument and `m_close`. -/
  | test (k : Nat) (isNull : Bool)
  /-- `Put` takes the mutex. -/
  | put (k : Nat)
  /-- The wait of `Put` returns. -/
  | wakePut (k : Nat)
  | cancel
  /-- `Get` takes the mutex. -/
  | get
  /-- The wait of `Get` returns. -/
  | wakeGet
  | run
  deriving DecidableEq

namespace WThread

def setCall (s : WThread) (k : Nat) (call : Call) : WThread :=
  { s with calls := Function.update s.calls k call }

/-- `Put` inserts the event of the call, and returns. -/
def insert (s : WThread) (k : Nat) : WThread :=
  { s.setCall k (.returned true) with events := s.events.insert k }

/-- `Get` returns; a `NULL` ends the loop. -/
def take (s : WThread) : WThread :=
  { s with
    events := s.events.get.2
    worker := match s.events.get.1 with
      | some event => .running event
      | none => .ended }

def step : Action → WThread → Option WThread
  | .test k isNull, s =>
      if s.calls k = .ready then
        some (s.setCall k (if isNull ∨ s.events.close then .returned false else .tested))
      else none
  | .put k, s =>
      if s.calls k = .tested then
        some (if s.events.Full then s.setCall k .waiting else s.insert k)
      else none
  | .wakePut k, s => if s.calls k = .waiting then some (s.insert k) else none
  | .cancel, s => if s.events.close then none else some { s with events := s.events.closed }
  | .get, s =>
      if s.worker = .looping then
        some (if s.events.Idle then { s with worker := .waiting } else s.take)
      else none
  | .wakeGet, s => if s.worker = .waiting then some s.take else none
  | .run, s =>
      match s.worker with
      | .running event => some { s with worker := .looping, ran := s.ran ++ [event] }
      | _ => none

end WThread

/-- A thread with a queue of any size, from before its first call on. -/
def notifying : Machine WThread Action where
  start s := ∃ max, s = ⟨⟨[], max, 0, false⟩, fun _ => .ready, .looping, []⟩
  step := WThread.step

/-! ### Delivery -/

/-- No call is between its test of `m_close` and its insertion. -/
def WThread.Settled (s : WThread) : Prop := ∀ k, s.calls k ≠ .tested ∧ s.calls k ≠ .waiting

/-- The wait of `Get` returns only for an event or a closed queue, and `Get` finds the queue
closed and empty only when no call is between its test and its insertion. -/
def Orderly (a : Action) (s : WThread) : Prop :=
  (a = .wakeGet → ¬ s.events.Idle) ∧
    (a = .get ∨ a = .wakeGet → s.events.Drained → s.Settled)

/-- The events that have been accepted are run, or have been run, or are in the queue. -/
structure WThread.Keeps (s : WThread) : Prop where
  num : s.events.num = s.events.queue.length
  accepted : ∀ k, (s.ran ++ s.worker.held ++ s.events.queue).count k =
    if s.calls k = .returned true then 1 else 0
  ended : s.worker = .ended → s.events.close = true ∧ s.events.queue = [] ∧ s.Settled

namespace WThread.Keeps

variable {s : WThread}

/-- A call goes on, and is not yet accepted. -/
theorem setCall (h : s.Keeps) {k : Nat} {call : Call} (hk : s.calls k ≠ .returned true)
    (hcall : call ≠ .returned true)
    (hend : s.worker = .ended → call ≠ .tested ∧ call ≠ .waiting) : (s.setCall k call).Keeps where
  num := h.num
  accepted j := by
    refine (h.accepted j).trans ?_
    by_cases hj : j = k
    · subst hj
      simp [WThread.setCall, hk, hcall]
    · simp [WThread.setCall, hj]
  ended he := by
    obtain ⟨hclose, hqueue, hsettled⟩ := h.ended he
    refine ⟨hclose, hqueue, fun j => ?_⟩
    by_cases hj : j = k
    · subst hj
      simpa [WThread.setCall] using hend he
    · simpa [WThread.setCall, hj] using hsettled j

/-- A call past its test puts its event into the queue. -/
theorem insert (h : s.Keeps) {k : Nat} (hk : s.calls k = .tested ∨ s.calls k = .waiting) :
    (s.insert k).Keeps where
  num := by
    simp [WThread.insert, WQueue.insert, h.num]
  accepted j := by
    have hj := h.accepted j
    have hlist : (s.insert k).ran ++ (s.insert k).worker.held ++ (s.insert k).events.queue =
        (s.ran ++ s.worker.held ++ s.events.queue) ++ [k] := by
      simp [WThread.insert, WThread.setCall, WQueue.insert]
    rw [hlist, List.count_append, hj]
    by_cases hjk : j = k
    · subst hjk
      rcases hk with hk | hk <;> simp [WThread.insert, WThread.setCall, hk]
    · simp [WThread.insert, WThread.setCall, hjk, Ne.symm hjk]
  ended he := by
    -- a thread that has left its loop has no call past its test
    obtain ⟨-, -, hsettled⟩ := h.ended he
    exact (hk.elim (hsettled k).1 (hsettled k).2).elim

/-- **`Get` returns** an event, or `NULL` from a queue that is closed and empty. -/
theorem take (h : s.Keeps) (hw : s.worker.held = []) (hidle : ¬ s.events.Idle)
    (hdrained : s.events.Drained → s.Settled) : s.take.Keeps := by
  by_cases hd : s.events.Drained
  · have hqueue : s.events.queue = [] := by
      rw [← List.length_eq_zero_iff, ← Int.natCast_eq_zero, ← h.num]
      exact hd.1
    have htake : s.take = { s with worker := .ended } := by
      simp only [WThread.take, WQueue.get, if_pos hd]
    rw [htake]
    refine ⟨h.num, fun k => ?_, fun _ => ⟨hd.2, hqueue, hdrained hd⟩⟩
    rw [← h.accepted k, hw]
    rfl
  · have hnum : s.events.num ≠ 0 := by
      intro h₀
      cases hc : s.events.close with
      | false => exact hidle ⟨h₀, hc⟩
      | true => exact hd ⟨h₀, hc⟩
    cases hq : s.events.queue with
    | nil => exact absurd (by rw [h.num, hq]; rfl) hnum
    | cons event queue =>
        have htake : s.take = { s with
            events := { s.events with queue, num := s.events.num - 1 }
            worker := .running event } := by
          simp only [WThread.take, WQueue.get, if_neg hd, hq]
          rfl
        rw [htake]
        refine ⟨?_, fun k => ?_, nofun⟩
        · simp [h.num, hq]
        · rw [← h.accepted k, hw, hq]
          simp [Worker.held]

theorem step (h : s.Keeps) {a : Action} (hc : Orderly a s) {s' : WThread}
    (hs : WThread.step a s = some s') : s'.Keeps := by
  cases a with
  | test k isNull =>
      simp only [WThread.step, Option.ite_none_right_eq_some, Option.some.injEq] at hs
      obtain ⟨hk, rfl⟩ := hs
      refine h.setCall (by simp [hk]) (by split <;> simp) fun he => ?_
      rw [if_pos (.inr (h.ended he).1)]
      simp
  | put k =>
      simp only [WThread.step, Option.ite_none_right_eq_some, Option.some.injEq] at hs
      obtain ⟨hk, rfl⟩ := hs
      split
      · refine h.setCall (by simp [hk]) (by simp) fun he => ?_
        exact absurd hk ((h.ended he).2.2 k).1
      · exact h.insert (.inl hk)
  | wakePut k =>
      simp only [WThread.step, Option.ite_none_right_eq_some, Option.some.injEq] at hs
      obtain ⟨hk, rfl⟩ := hs
      exact h.insert (.inr hk)
  | cancel =>
      simp only [WThread.step, Option.ite_none_left_eq_some, Option.some.injEq] at hs
      obtain ⟨-, rfl⟩ := hs
      exact ⟨h.num, h.accepted, fun he => ⟨rfl, (h.ended he).2⟩⟩
  | get =>
      simp only [WThread.step, Option.ite_none_right_eq_some, Option.some.injEq] at hs
      obtain ⟨hw, rfl⟩ := hs
      have hheld : s.worker.held = [] := by rw [hw]; rfl
      split
      · refine ⟨h.num, fun k => ?_, nofun⟩
        rw [← h.accepted k, hheld]
        rfl
      · rename_i hidle
        exact h.take hheld hidle (hc.2 (.inl rfl))
  | wakeGet =>
      simp only [WThread.step, Option.ite_none_right_eq_some, Option.some.injEq] at hs
      obtain ⟨hw, rfl⟩ := hs
      exact h.take (by rw [hw]; rfl) (hc.1 rfl) (hc.2 (.inr rfl))
  | run =>
      simp only [WThread.step] at hs
      split at hs
      · rename_i event hw
        obtain rfl := Option.some.inj hs
        refine ⟨h.num, fun k => ?_, nofun⟩
        rw [← h.accepted k, hw]
        simp [Worker.held]
      · cases hs

end WThread.Keeps

/-- **Delivery.**  When the thread has left its loop, the queue has been closed and every event
whose `Notify` returned true has been run once, in every run in which the wait of `Get` returns
only for an event or a closed queue, and `Get` finds the queue closed and empty only when no call
is between its test and its insertion. -/
theorem notify_delivers {s : WThread} (h : notifying.Reach Orderly s) (hend : s.worker = .ended) :
    s.events.close = true ∧ ∀ k, s.calls k = .returned true → s.ran.count k = 1 := by
  have hkeeps : s.Keeps := by
    refine h.invariant (fun s hs => ?_) fun a s s' hs hc hstep => hs.step hc hstep
    obtain ⟨max, rfl⟩ := hs
    exact ⟨rfl, fun k => rfl, nofun⟩
  obtain ⟨hclose, hqueue, -⟩ := hkeeps.ended hend
  refine ⟨hclose, fun k hk => ?_⟩
  have haccepted := hkeeps.accepted k
  rw [hend, hqueue, if_pos hk] at haccepted
  simpa [Worker.held] using haccepted

/-- The thread before its first call, with a queue without a bound. -/
def WThread.first : WThread := ⟨⟨[], 0, 0, false⟩, fun _ => .ready, .looping, []⟩

/-- The thread waits, a call is accepted and its event run; then the queue is closed. -/
theorem notify_delivers_one :
    ∃ s, notifying.Reach Orderly s ∧ s.worker = .ended ∧ s.calls 0 = .returned true ∧
      s.ran.count 0 = 1 := by
  -- until the last step the queue is not closed and empty
  have hmeets : notifying.Meets (fun a s => (a = .wakeGet → ¬ s.events.Idle) ∧ ¬ s.events.Drained)
      [.get, .test 0 false, .put 0, .wakeGet, .run, .cancel] .first := by decide
  have hexec : notifying.exec [.get, .test 0 false, .put 0, .wakeGet, .run, .cancel] .first =
      some ⟨⟨[], 0, 0, true⟩,
        Function.update (Function.update (fun _ => .ready) 0 .tested) 0 (.returned true),
        .looping, [0]⟩ := rfl
  have hstart : notifying.start .first := ⟨0, rfl⟩
  have hclosed := ((Machine.Reach.start hstart).of_exec hmeets hexec).mono (D := Orderly)
    fun a s h => ⟨h.1, fun _ hd => absurd hd h.2⟩
  have hended := hclosed.step (a := .get) ⟨nofun, fun _ _ k => by
    by_cases hk : k = 0 <;> simp [hk]⟩ rfl
  exact ⟨_, hended, rfl, rfl, (notify_delivers hended rfl).2 0 rfl⟩

/-- The wait of `Get` returns without a signal, and the thread leaves its loop although `Cancel`
is not called; or a call is past its test when the queue is closed, and its event is accepted
after the thread has left its loop. -/
theorem notify_lost :
    (∃ s, notifying.Reach Machine.always s ∧ s.worker = .ended ∧ s.events.close = false) ∧
      ∃ s, notifying.Reach Machine.always s ∧ s.worker = .ended ∧
        s.calls 0 = .returned true ∧ s.ran.count 0 = 0 :=
  ⟨Machine.Reach.exists_of_exec [.get, .wakeGet] .first ⟨0, rfl⟩ (Machine.meets_always _ _ _)
      (by decide),
    Machine.Reach.exists_of_exec [.test 0 false, .cancel, .get, .put 0] .first ⟨0, rfl⟩
      (Machine.meets_always _ _ _) (by decide)⟩

end Realwork.Receive
