import Mathlib.Data.List.ReduceOption
import Realwork.Lib.Cond
import Realwork.Receive.Queue

/-!
# Receive — the signals of the event queue

`WQueue` with its two condition variables: any number of calls of `Put`, one consumer that calls
`Get` in a loop, and calls of `Close`.  What is done between a lock of the mutex and the next wait
or unlock is one step.  A wait returns only after a signal, but between the signal and the return
of the wait other threads may have the mutex.

* `queue_accounting`: `Get` returns the items that were inserted, in their order, and the consumer
  does not wait for an item that is there.
* `queue_bounded`: the bound `m_max` is kept, and no producer is left waiting for space that is
  there, as long as the returns of the wait of `Put` are `Spaced`.
-/

namespace Realwork.Receive

open Realwork.Lib

/-- Where the consumer is. -/
inductive Consumer where
  | outside
  | waiting
  /-- A signal has woken it, and it does not have the mutex yet. -/
  | woken
  deriving DecidableEq

/-- `pthread_cond_signal( &m_cond_get )`. -/
def Consumer.signal : Consumer → Consumer
  | waiting => woken
  | c => c

/-- A queue and its callers; a call of `Put` is its item. -/
structure SharedQueue (α : Type) where
  events : WQueue α
  /-- The calls of `Put` past the test of `m_close`, which is made without the mutex. -/
  tested : List α
  condPut : Cond α
  consumer : Consumer
  /-- The items that have been inserted. -/
  inserted : List α
  /-- What the calls of `Get` have returned. -/
  returned : List (Option α)

inductive QueueAction (α : Type) where
  /-- `Put` tests its argument and `m_close`. -/
  | test (item : Option α)
  /-- `Put` takes the mutex. -/
  | put (i : Nat)
  /-- The wait of `Put` returns. -/
  | wakePut (i : Nat)
  | close
  /-- `Get` takes the mutex; the mask is for the producers it may wake. -/
  | get (mask : List Bool)
  /-- The wait of `Get` returns. -/
  | wakeGet (mask : List Bool)
  deriving DecidableEq

namespace SharedQueue

variable {α : Type}

/-- `Put`, from its insertion on. -/
def insert (s : SharedQueue α) (item : α) : SharedQueue α :=
  { s with
    events := s.events.insert item
    inserted := s.inserted ++ [item]
    consumer := if (s.events.insert item).num = 1 then s.consumer.signal else s.consumer }

/-- `Get`, after its wait. -/
def take (s : SharedQueue α) (mask : List Bool) : SharedQueue α :=
  let item := s.events.get.1
  let events := s.events.get.2
  { s with
    events
    consumer := .outside
    returned := s.returned ++ [item]
    condPut :=
      if ¬ s.events.Drained ∧ events.max ≠ 0 ∧ events.num = events.max - 1 then
        s.condPut.signal mask
      else s.condPut }

def step : QueueAction α → SharedQueue α → Option (SharedQueue α)
  | .test item, s =>
      some { s with tested := s.tested ++ if s.events.close then [] else item.toList }
  | .put i, s =>
      s.tested[i]?.map fun item =>
        let s := { s with tested := s.tested.eraseIdx i }
        if s.events.Full then { s with condPut := s.condPut.wait item } else s.insert item
  | .wakePut i, s =>
      (s.condPut.resume i).map fun (item, condPut) => { s with condPut }.insert item
  | .close, s =>
      some { s with
        events := s.events.closed
        consumer := if s.events.num = 0 then s.consumer.signal else s.consumer }
  | .get mask, s =>
      if s.consumer = .outside then
        some (if s.events.Idle then { s with consumer := .waiting } else s.take mask)
      else none
  | .wakeGet mask, s => if s.consumer = .woken then some (s.take mask) else none

/-- What a step does, one case for each way through the code of its action. -/
inductive Stepped (s : SharedQueue α) : QueueAction α → SharedQueue α → Prop where
  | test (item : Option α) (tested : List α) : Stepped s (.test item) { s with tested }
  | wait (i : Nat) (item : α) (tested : List α) (hfull : s.events.Full) :
      Stepped s (.put i) { s with tested, condPut := s.condPut.wait item }
  | put (i : Nat) (item : α) (tested : List α) (hspace : ¬ s.events.Full) :
      Stepped s (.put i) ({ s with tested }.insert item)
  | wakePut (i : Nat) (item : α) (condPut : Cond α)
      (hresume : s.condPut.resume i = some (item, condPut)) :
      Stepped s (.wakePut i) ({ s with condPut }.insert item)
  | close : Stepped s .close { s with
      events := s.events.closed
      consumer := if s.events.num = 0 then s.consumer.signal else s.consumer }
  | sleep (mask : List Bool) (hidle : s.events.Idle) :
      Stepped s (.get mask) { s with consumer := .waiting }
  | get (mask : List Bool) (hready : ¬ s.events.Idle) : Stepped s (.get mask) (s.take mask)
  | wakeGet (mask : List Bool) (hwoken : s.consumer = .woken) :
      Stepped s (.wakeGet mask) (s.take mask)

theorem stepped_of_step {s s' : SharedQueue α} {a : QueueAction α} (hs : step a s = some s') :
    s.Stepped a s' := by
  cases a with
  | test item =>
      cases hs
      exact .test item _
  | put i =>
      obtain ⟨item, -, rfl⟩ := Option.map_eq_some_iff.mp hs
      dsimp only
      split
      · rename_i hfull
        exact .wait i item _ hfull
      · rename_i hspace
        exact .put i item _ hspace
  | wakePut i =>
      obtain ⟨⟨item, condPut⟩, hresume, rfl⟩ := Option.map_eq_some_iff.mp hs
      exact .wakePut i item condPut hresume
  | close =>
      cases hs
      exact .close
  | get mask =>
      obtain ⟨-, hs⟩ := Option.ite_none_right_eq_some.mp hs
      cases hs
      split
      · rename_i hidle
        exact .sleep mask hidle
      · rename_i hready
        exact .get mask hready
  | wakeGet mask =>
      obtain ⟨hwoken, hs⟩ := Option.ite_none_right_eq_some.mp hs
      cases hs
      exact .wakeGet mask hwoken

/-- The step is one in which `Get` returns. -/
def Returns (s : SharedQueue α) : QueueAction α → Prop
  | .get _ => s.consumer = .outside ∧ ¬ s.events.Idle
  | .wakeGet _ => s.consumer = .woken
  | _ => False

end SharedQueue

/-- A queue of any size, from before its first call on. -/
def sharing (α : Type) : Machine (SharedQueue α) (QueueAction α) where
  start s := ∃ max, s = ⟨⟨[], max, 0, false⟩, [], {}, .outside, [], []⟩
  step := SharedQueue.step

/-! ### Accounting -/

namespace SharedQueue

variable {α : Type}

/-- The counter counts the list, what has been inserted has been returned or is in the list, and
the consumer waits for an event or the end, or is woken for one. -/
structure Accounts (s : SharedQueue α) : Prop where
  num : s.events.num = s.events.queue.length
  items : s.inserted = s.returned.reduceOption ++ s.events.queue
  waiting : s.consumer = .waiting → s.events.Idle
  woken : s.consumer = .woken → ¬ s.events.Idle

theorem signal_ne_waiting (c : Consumer) : c.signal ≠ .waiting := by
  cases c <;> decide

namespace Accounts

variable {s : SharedQueue α}

/-- The other callers do not matter. -/
theorem same (h : s.Accounts) (tested : List α) (condPut : Cond α) :
    Accounts { s with tested, condPut } :=
  ⟨h.num, h.items, h.waiting, h.woken⟩

theorem insert (h : s.Accounts) (item : α) : (s.insert item).Accounts := by
  have hnum : (s.events.insert item).num = s.events.queue.length + 1 := by
    simp [WQueue.insert, h.num]
  refine ⟨?_, ?_, fun hw => ?_, fun _ hidle => ?_⟩
  · simp [SharedQueue.insert, WQueue.insert, h.num]
  · simp [SharedQueue.insert, WQueue.insert, h.items]
  · -- the first item wakes the consumer, and it does not wait for another one
    simp only [SharedQueue.insert] at hw
    split at hw
    · exact absurd hw (signal_ne_waiting _)
    · rename_i hfirst
      have hzero := (h.waiting hw).1
      rw [h.num] at hzero
      exact absurd (by rw [hnum, hzero]; rfl) hfirst
  · have hzero : (s.events.insert item).num = 0 := hidle.1
    omega

/-- What `Get` finds where its wait is over. -/
theorem ready (h : s.Accounts) (hidle : ¬ s.events.Idle) :
    (s.events.Drained ∧ s.events.queue = [] ∧ s.events.get = (none, s.events)) ∨
      ∃ item queue, ¬ s.events.Drained ∧ s.events.queue = item :: queue ∧
        s.events.get = (some item, { s.events with queue, num := s.events.num - 1 }) := by
  by_cases hd : s.events.Drained
  · have hqueue : s.events.queue = [] := by
      rw [← List.length_eq_zero_iff, ← Int.natCast_eq_zero, ← h.num]
      exact hd.1
    exact .inl ⟨hd, hqueue, if_pos hd⟩
  · cases hq : s.events.queue with
    | nil =>
        have hzero : s.events.num = 0 := by rw [h.num, hq]; rfl
        cases hc : s.events.close with
        | false => exact absurd ⟨hzero, hc⟩ hidle
        | true => exact absurd ⟨hzero, hc⟩ hd
    | cons item queue =>
        refine .inr ⟨item, queue, hd, rfl, ?_⟩
        rw [WQueue.get, if_neg hd, hq]
        rfl

theorem take (h : s.Accounts) (hidle : ¬ s.events.Idle) (mask : List Bool) :
    (s.take mask).Accounts := by
  rcases h.ready hidle with ⟨-, -, hget⟩ | ⟨item, queue, -, hqueue, hget⟩
  · refine ⟨?_, ?_, nofun, nofun⟩
    · simpa [SharedQueue.take, hget] using h.num
    · simpa [SharedQueue.take, hget, List.reduceOption_append] using h.items
  · refine ⟨?_, ?_, nofun, nofun⟩
    · simp [SharedQueue.take, hget, h.num, hqueue]
    · simp [SharedQueue.take, hget, h.items, hqueue, List.reduceOption_append]

/-- **Every step** keeps the accounts. -/
theorem step (h : s.Accounts) {a : QueueAction α} {s' : SharedQueue α}
    (hs : SharedQueue.step a s = some s') : s'.Accounts := by
  cases stepped_of_step hs with
  | test item tested => exact h.same _ _
  | wait i item tested hfull => exact h.same _ _
  | put i item tested hspace => exact (h.same _ _).insert item
  | wakePut i item condPut hresume => exact (h.same _ _).insert item
  | close =>
      refine ⟨h.num, h.items, fun hw => ?_, fun _ hidle => Bool.noConfusion hidle.2⟩
      dsimp only at hw
      split at hw
      · exact absurd hw (signal_ne_waiting _)
      · rename_i hsome
        exact absurd (h.waiting hw).1 hsome
  | sleep mask hidle => exact ⟨h.num, h.items, fun _ => hidle, nofun⟩
  | get mask hready => exact h.take hready mask
  | wakeGet mask hwoken => exact h.take (h.woken hwoken) mask

end Accounts

end SharedQueue

open SharedQueue

/-- **Accounting.**  In every state of every run the counter counts the list, `Get` has returned
the first of the items that were inserted, in their order, and the rest is in the list; the consumer
waits only while there is nothing to take and the queue is open.  Where `Get` returns, it does not
take from an empty list, and it returns `NULL` only from a queue that is closed and empty. -/
theorem queue_accounting {α : Type} {s : SharedQueue α} (h : (sharing α).Reach Machine.always s) :
    s.events.num = s.events.queue.length ∧
      s.inserted = s.returned.reduceOption ++ s.events.queue ∧
      (s.consumer = .waiting → ¬ (0 < s.events.num ∨ s.events.close = true)) ∧
      ∀ a, s.Returns a → (¬ s.events.Drained → s.events.queue ≠ []) ∧
        (s.events.get.1 = none → s.events.close = true ∧ s.events.queue = []) := by
  have haccounts : s.Accounts := by
    refine h.invariant (fun s hs => ?_) fun a s s' hs _ hstep => hs.step hstep
    obtain ⟨max, rfl⟩ := hs
    exact ⟨rfl, rfl, nofun, nofun⟩
  refine ⟨haccounts.num, haccounts.items, fun hw => ?_, fun a ha => ?_⟩
  · obtain ⟨hzero, hopen⟩ := haccounts.waiting hw
    simp [hzero, hopen]
  · have hidle : ¬ s.events.Idle := by
      cases a with
      | get mask => exact ha.2
      | wakeGet mask => exact haccounts.woken ha
      | _ => exact ha.elim
    rcases haccounts.ready hidle with ⟨hd, hqueue, -⟩ | ⟨item, queue, hd, hqueue, hget⟩
    · exact ⟨fun h => absurd hd h, fun _ => ⟨hd.2, hqueue⟩⟩
    · rw [hqueue, hget]
      exact ⟨fun _ => List.cons_ne_nil _ _, nofun⟩

/-- The consumer waits, and two producers put an item each before it has the mutex again. -/
theorem queue_accounting_two :
    ∃ s, (sharing Nat).Reach Machine.always s ∧ s.returned = [some 7] ∧
      s.inserted = s.returned.reduceOption ++ s.events.queue ∧ s.events.queue = [8] := by
  obtain ⟨s, hs, hreturned, hqueue⟩ := Machine.Reach.exists_of_exec (M := sharing Nat)
    (P := fun s => s.returned = [some 7] ∧ s.events.queue = [8])
    [.get [], .test (some 7), .put 0, .test (some 8), .put 0, .wakeGet []]
    ⟨⟨[], 0, 0, false⟩, [], {}, .outside, [], []⟩ ⟨0, rfl⟩ (Machine.meets_always _ _ _) (by decide)
  exact ⟨s, hs, hreturned, (queue_accounting hs).2.1, hqueue⟩

/-! ### The bound -/

/-- The wait of `Put` returns only where there is space, and where it does not use the last of it
while other producers wait, one of those has been woken too. -/
def Spaced {α : Type} : QueueAction α → SharedQueue α → Prop
  | .wakePut _, s => s.events.num < s.events.max ∧
      (s.condPut.waiting = [] ∨ s.events.num + 1 = s.events.max ∨ 2 ≤ s.condPut.woken.length)
  | _, _ => True

instance {α : Type} [DecidableEq α] : ∀ (a : QueueAction α) (s : SharedQueue α),
    Decidable (Spaced a s)
  | .wakePut _, s => inferInstanceAs (Decidable (s.events.num < s.events.max ∧
      (s.condPut.waiting = [] ∨ s.events.num + 1 = s.events.max ∨ 2 ≤ s.condPut.woken.length)))
  | .test _, _ | .put _, _ | .close, _ | .get _, _ | .wakeGet _, _ => .isTrue trivial

namespace SharedQueue

variable {α : Type} {s : SharedQueue α}

/-- The bound is kept, and where there is space a waiting producer is not the only one: one has
been woken. -/
structure Bounded (s : SharedQueue α) : Prop where
  le : s.events.num ≤ s.events.max
  served : s.condPut.waiting ≠ [] → s.events.num < s.events.max → s.condPut.woken ≠ []

namespace Bounded

/-- `Get` makes space, and wakes a producer where there was none. -/
theorem take (h : s.Bounded) (hmax : 0 < s.events.max) (mask : List Bool) :
    (s.take mask).Bounded := by
  by_cases hd : s.events.Drained
  · have htake : (s.take mask).events = s.events ∧ (s.take mask).condPut = s.condPut := by
      simp [SharedQueue.take, WQueue.get, hd]
    exact ⟨htake.1 ▸ h.le, htake.1 ▸ htake.2 ▸ h.served⟩
  · have hne : s.events.max ≠ 0 := by omega
    have hevents : (s.take mask).events.num = s.events.num - 1 ∧
        (s.take mask).events.max = s.events.max := by
      simp [SharedQueue.take, WQueue.get, hd]
    have hcond : (s.take mask).condPut =
        if s.events.num = s.events.max then s.condPut.signal mask else s.condPut := by
      simp [SharedQueue.take, WQueue.get, hd, hne]
    refine ⟨?_, ?_⟩
    · have hle := h.le
      rw [hevents.1, hevents.2]
      omega
    · intro hwaiting _
      rw [hcond] at hwaiting ⊢
      split at hwaiting
      · rename_i hfull
        rw [if_pos hfull]
        refine Cond.signal_woken (fun hnone => hwaiting ?_) mask
        rw [Cond.signal_of_none hnone, hnone]
      · rename_i hspace
        rw [if_neg hspace]
        exact h.served hwaiting (lt_of_le_of_ne h.le hspace)

/-- **A step that is `Spaced`** keeps the bound, and the size of the queue. -/
theorem step (h : s.Bounded) (hmax : 0 < s.events.max) {a : QueueAction α} (hc : Spaced a s)
    {s' : SharedQueue α} (hs : SharedQueue.step a s = some s') : s'.Bounded := by
  cases stepped_of_step hs with
  | test item tested => exact ⟨h.le, h.served⟩
  | wait i item tested hfull =>
      -- the call waits only while there is no space
      refine ⟨h.le, fun _ hspace => ?_⟩
      exact absurd hfull.2 (Int.ne_of_lt hspace)
  | put i item tested hfull =>
      have hspace : s.events.num < s.events.max :=
        lt_of_le_of_ne h.le fun heq => hfull ⟨Int.ne_of_gt hmax, heq⟩
      exact ⟨hspace, fun hwaiting _ => h.served hwaiting hspace⟩
  | wakePut i item condPut hresume =>
      obtain ⟨hwaiting, hwoken⟩ := Cond.resume_spec hresume
      obtain ⟨hspace, hothers⟩ := hc
      refine ⟨hspace, fun hwait hless => ?_⟩
      have hwait' : s.condPut.waiting ≠ [] := hwaiting ▸ hwait
      have hless' : s.events.num + 1 < s.events.max := hless
      have hmore : 2 ≤ s.condPut.woken.length :=
        (hothers.resolve_left hwait').resolve_left (Int.ne_of_lt hless')
      exact List.ne_nil_of_length_pos (show 0 < condPut.woken.length by omega)
  | close => exact ⟨h.le, h.served⟩
  | sleep mask hidle => exact ⟨h.le, h.served⟩
  | get mask hready => exact h.take hmax mask
  | wakeGet mask hwoken => exact h.take hmax mask

end Bounded

/-- The size of a queue does not change. -/
theorem step_max {a : QueueAction α} {s' : SharedQueue α} (hs : SharedQueue.step a s = some s') :
    s'.events.max = s.events.max := by
  have htake : ∀ mask, (s.take mask).events.max = s.events.max := by
    intro mask
    simp only [SharedQueue.take, WQueue.get]
    split <;> rfl
  cases stepped_of_step hs with
  | get mask hready => exact htake mask
  | wakeGet mask hwoken => exact htake mask
  | _ => rfl

end SharedQueue

/-- **The bound.**  In every run in which the wait of `Put` returns only where there is space, and
with another producer woken where it leaves space for one, the counter does not exceed `m_max`, and
where there is space and a producer waits, one has been woken. -/
theorem queue_bounded {α : Type} {s : SharedQueue α} (h : (sharing α).Reach Spaced s)
    (hmax : 0 < s.events.max) :
    s.events.num ≤ s.events.max ∧
      (s.condPut.waiting ≠ [] → s.events.num < s.events.max → s.condPut.woken ≠ []) := by
  have hbounded : 0 < s.events.max → s.Bounded := by
    refine h.invariant (P := fun s => 0 < s.events.max → s.Bounded) (fun s hs => ?_)
      fun a s s' hs hc hstep hmax => ?_
    · obtain ⟨max, rfl⟩ := hs
      exact fun hmax => ⟨Int.le_of_lt hmax, fun h => absurd rfl h⟩
    · rw [step_max hstep] at hmax
      exact (hs hmax).step hmax hc hstep
  exact ⟨(hbounded hmax).le, (hbounded hmax).served⟩

/-- A queue of size `max`, before its first call. -/
def SharedQueue.first (max : Int) : SharedQueue Nat :=
  ⟨⟨[], max, 0, false⟩, [], {}, .outside, [], []⟩

/-- Three producers at a queue of size 1: `Get` makes space for the second one. -/
theorem queue_bounded_one :
    ∃ s, (sharing Nat).Reach Spaced s ∧ s.inserted = [1, 2] ∧ s.condPut.waiting = [3] ∧
      s.events.num ≤ s.events.max := by
  obtain ⟨s, hs, hmax, hinserted, hwaiting⟩ := Machine.Reach.exists_of_exec (M := sharing Nat)
    (C := Spaced) (P := fun s => 0 < s.events.max ∧ s.inserted = [1, 2] ∧ s.condPut.waiting = [3])
    [.test (some 1), .test (some 2), .test (some 3), .put 0, .put 0, .put 0, .get [], .wakePut 0]
    (.first 1) ⟨1, rfl⟩ (by decide) (by decide)
  exact ⟨s, hs, hinserted, hwaiting, (queue_bounded hs hmax).1⟩

/-- A producer that has been woken inserts its item without a test, although another one has come
first; and a second producer that waits is not woken, although there is space for it. -/
theorem queue_bounded_lost :
    (∃ s, (sharing Nat).Reach Machine.always s ∧ 0 < s.events.max ∧ s.events.max < s.events.num) ∧
      ∃ s, (sharing Nat).Reach Machine.always s ∧ 0 < s.events.max ∧
        s.condPut.waiting ≠ [] ∧ s.events.num < s.events.max ∧ s.condPut.woken = [] :=
  ⟨Machine.Reach.exists_of_exec [.test (some 1), .test (some 2), .test (some 3), .put 0, .put 0,
      .get [], .put 0, .wakePut 0] (.first 1) ⟨1, rfl⟩ (Machine.meets_always _ _ _) (by decide),
    Machine.Reach.exists_of_exec [.test (some 1), .test (some 2), .test (some 3), .test (some 4),
      .put 0, .put 0, .put 0, .put 0, .get [], .get [], .wakePut 0] (.first 2) ⟨2, rfl⟩
      (Machine.meets_always _ _ _) (by decide)⟩

end Realwork.Receive
