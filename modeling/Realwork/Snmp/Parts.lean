import Realwork.Snmp.TaskControl

/-!
# Snmp — where the parts are

What holds in every state of every run of the task control.

* `tally_move`, `undefs_move`: a step moves a number from one place to the next, and an `undef`
  that is taken ends one iteration of the `for`.
* `Orderly`: the order of the two queues.
* `Files`: which files of a part are there.
* `reach_inv`: the invariant.
-/

namespace Realwork.Snmp

open Lib

/-! ### Where the numbers are -/

/-- Whether a worker is to run the part `k`. -/
def Worker.before (k : Nat) : Worker → Nat
  | .run i => [i].count k
  | _ => 0

/-- Whether a worker has run the part `k`, and has not put its number into the result queue. -/
def Worker.after (k : Nat) : Worker → Nat
  | .unlink i | .enqueue i => [i].count k
  | _ => 0

/-- Whether a worker has taken a number without an `undef` in the result queue yet. -/
def Worker.owes : Worker → Nat
  | .run _ | .unlink _ | .enqueue _ | .mark => 1
  | .dequeue | .ended => 0

/-- Whether the next a worker does is to put an `undef` into the result queue. -/
def Worker.marking : Worker → Nat
  | .mark => 1
  | _ => 0

def Worker.live : Worker → Nat
  | .ended => 0
  | _ => 1

/-- The part the main thread has not appended yet. -/
def Main.held (k : Nat) : Main → Nat
  | .cat _ i => [i].count k
  | _ => 0

/-- The iterations of the `for` that have not come to their end. -/
def Main.left : Main → Nat
  | .dequeue rest | .cat rest _ | .unlink rest _ => rest + 1
  | .join _ | .ended => 0

/-- The numbers in a queue. -/
def numbers (queue : List (Option Nat)) : List Nat := queue.filterMap id

@[simp]
theorem numbers_none (queue : List (Option Nat)) : numbers (none :: queue) = numbers queue := rfl

@[simp]
theorem length_numbers_some (i : Nat) (queue : List (Option Nat)) :
    (numbers (some i :: queue)).length = (numbers queue).length + 1 := rfl

@[simp]
theorem length_numbers_append (queue queue' : List (Option Nat)) :
    (numbers (queue ++ queue')).length = (numbers queue).length + (numbers queue').length := by
  rw [numbers, List.filterMap_append, List.length_append]
  rfl

@[simp]
theorem count_undef_some (i : Nat) (queue : List (Option Nat)) :
    (some i :: queue).count none = queue.count none := by
  simp

@[simp]
theorem count_undef_none (queue : List (Option Nat)) :
    (none :: queue).count none = queue.count none + 1 := by
  simp

theorem count_numbers_some (k i : Nat) (queue : List (Option Nat)) :
    (numbers (some i :: queue)).count k = (numbers queue).count k + [i].count k := by
  show (i :: numbers queue).count k = _
  rw [List.count_cons, List.count_singleton]

theorem count_numbers_append (k : Nat) (queue queue' : List (Option Nat)) :
    (numbers (queue ++ queue')).count k = (numbers queue).count k + (numbers queue').count k := by
  rw [numbers, List.filterMap_append, List.count_append]
  rfl

theorem left_dequeue (rest : Nat) : (Main.dequeue rest).left = rest + 1 := rfl

theorem left_join (w : Nat) : (Main.join w).left = 0 := rfl

theorem left_iterations (threads rest : Nat) : (iterations threads rest).left = rest := by
  cases rest with
  | zero =>
      simp only [iterations, joinFrom]
      split <;> rfl
  | succ rest => rfl

theorem held_dequeue (rest k : Nat) : (Main.dequeue rest).held k = 0 := rfl

theorem held_unlink (rest i k : Nat) : (Main.unlink rest i).held k = 0 := rfl

theorem held_join (w k : Nat) : (Main.join w).held k = 0 := rfl

theorem held_joinFrom (threads w k : Nat) : (joinFrom threads w).held k = 0 := by
  unfold joinFrom
  split <;> rfl

theorem held_iterations (threads rest k : Nat) : (iterations threads rest).held k = 0 := by
  cases rest with
  | zero => exact held_joinFrom threads 0 k
  | succ rest => rfl

theorem left_joinFrom (threads w : Nat) : (joinFrom threads w).left = 0 := by
  unfold joinFrom
  split <;> rfl

namespace Control

/-- The weight of the places of the workers. -/
def pool (s : Control) (f : Worker → Nat) : Nat := weight s.threads f s.worker

/-- How often the number `k` is anywhere. -/
def tally (s : Control) (k : Nat) : Nat :=
  (numbers s.taskQueue).count k + s.pool (Worker.before k) + s.pool (Worker.after k) +
    (numbers s.resultQueue).count k + s.main.held k + s.appended.count k

section

variable {env : Env} {s s' : Control} {a : Action} {k w : Nat} {f : Worker → Nat} {place : Worker}

theorem pool_update (hw : w < s.threads) (hplace : s.worker w = place) (p : Worker) :
    weight s.threads f (Function.update s.worker w p) + f place = s.pool f + f p := by
  rw [← hplace]
  exact weight_update hw p

/-- A move between places of one weight. -/
theorem pool_keep (hw : w < s.threads) (hplace : s.worker w = place) {p : Worker}
    (hp : f p = f place) : weight s.threads f (Function.update s.worker w p) = s.pool f := by
  have hupdate := pool_update (f := f) hw hplace p
  omega

theorem pool_pos (hw : w < s.threads) (hplace : s.worker w = place) (hf : 0 < f place) :
    0 < s.pool f := by
  rw [← hplace] at hf
  exact hf.trans_le (le_weight hw)

theorem pool_update_pos (hw : w < s.threads) {p : Worker} (hf : 0 < f p) :
    0 < weight s.threads f (Function.update s.worker w p) := by
  calc 0 < f (Function.update s.worker w p w) := by rwa [Function.update_self]
    _ ≤ _ := le_weight hw

/-- **A number** goes from one place to the next. -/
theorem tally_move (hm : Move env s s') : s'.tally k = s.tally k := by
  -- each move changes two of the six summands at most, by the same amount
  cases hm with
  | @take w i taskQueue hw hplace hqueue =>
      have hbefore := pool_update (f := Worker.before k) hw hplace (.run i)
      have hafter := pool_update (f := Worker.after k) hw hplace (.run i)
      have hnumbers := count_numbers_some k i taskQueue
      simp only [tally, pool, hqueue, Worker.before, Worker.after] at *
      omega
  | @stop w taskQueue hw hplace hqueue =>
      have hbefore := pool_update (f := Worker.before k) hw hplace .ended
      have hafter := pool_update (f := Worker.after k) hw hplace .ended
      simp only [tally, pool, hqueue, numbers_none, Worker.before, Worker.after] at *
      omega
  | @run w i hw hplace =>
      have hbefore := pool_update (f := Worker.before k) hw hplace (.unlink i)
      have hafter := pool_update (f := Worker.after k) hw hplace (.unlink i)
      simp only [tally, pool, Worker.before, Worker.after] at *
      omega
  | @unlink w i hw hplace =>
      have hbefore := pool_update (f := Worker.before k) hw hplace (.enqueue i)
      have hafter := pool_update (f := Worker.after k) hw hplace (.enqueue i)
      simp only [tally, pool, Worker.before, Worker.after] at *
      omega
  | @enqueue w i hw hplace =>
      have hbefore := pool_update (f := Worker.before k) hw hplace .mark
      have hafter := pool_update (f := Worker.after k) hw hplace .mark
      have hnumbers : (numbers [some i]).count k = [i].count k := rfl
      simp only [tally, pool, count_numbers_append, Worker.before, Worker.after] at *
      omega
  | @mark w hw hplace =>
      have hbefore := pool_update (f := Worker.before k) hw hplace .dequeue
      have hafter := pool_update (f := Worker.after k) hw hplace .dequeue
      have hnumbers : (numbers [none]).count k = 0 := rfl
      simp only [tally, pool, count_numbers_append, Worker.before, Worker.after] at *
      omega
  | @collect rest i resultQueue hmain hqueue =>
      have hnumbers := count_numbers_some k i resultQueue
      simp only [tally, pool, hmain, hqueue, Main.held] at *
      omega
  | @next rest resultQueue hmain hqueue =>
      simp only [tally, pool, hmain, hqueue, numbers_none, held_iterations, held_dequeue]
  | @cat rest i hmain =>
      simp only [tally, pool, hmain, Main.held, List.count_append]
      omega
  | unlinkOutput hmain => simp only [tally, pool, hmain, Main.held]
  | @join w hmain _ =>
      simp only [tally, pool, hmain, held_joinFrom, held_join]

theorem taken_move (hm : Move env s s') :
    (numbers s'.taskQueue).count k + (s'.taken.map Prod.snd).count k =
      (numbers s.taskQueue).count k + (s.taken.map Prod.snd).count k := by
  cases hm with
  | @take w i taskQueue _ _ hqueue =>
      rw [hqueue, count_numbers_some, List.map_append, List.count_append]
      show (numbers taskQueue).count k + (_ + [i].count k) = _
      omega
  | stop _ _ hqueue =>
      rw [hqueue]
      rfl
  | _ => rfl

/-- The `undef`s in the result queue, and those that are still to come. -/
def undefs (s : Control) : Nat :=
  (numbers s.taskQueue).length + s.pool Worker.owes + s.resultQueue.count none

/-- **An `undef`** is one iteration of the `for`. -/
theorem undefs_move (hm : Move env s s') : s'.undefs + s.main.left = s.undefs + s'.main.left := by
  -- only `next` takes an `undef` out of the result queue, and it ends an iteration
  cases hm with
  | @take w i taskQueue hw hplace hqueue =>
      have howes := pool_update (f := Worker.owes) hw hplace (.run i)
      simp only [undefs, pool, hqueue, length_numbers_some, Worker.owes] at *
      omega
  | @stop w taskQueue hw hplace hqueue =>
      have howes := pool_update (f := Worker.owes) hw hplace .ended
      simp only [undefs, pool, hqueue, numbers_none, Worker.owes] at *
      omega
  | @run w i hw hplace =>
      have howes := pool_keep (f := Worker.owes) hw hplace (p := .unlink i) rfl
      exact congrArg (fun owes => _ + owes + _ + s.main.left) howes
  | @unlink w i hw hplace =>
      have howes := pool_keep (f := Worker.owes) hw hplace (p := .enqueue i) rfl
      exact congrArg (fun owes => _ + owes + _ + s.main.left) howes
  | @enqueue w i hw hplace =>
      have howes := pool_keep (f := Worker.owes) hw hplace (p := .mark) rfl
      have hcount : (s.resultQueue ++ [some i]).count none = s.resultQueue.count none := by simp
      simp only [undefs, hcount]
      exact congrArg (fun owes => _ + owes + _ + s.main.left) howes
  | @mark w hw hplace =>
      have howes := pool_update (f := Worker.owes) hw hplace .dequeue
      simp only [undefs, pool, List.count_append, count_undef_none, List.count_nil,
        Worker.owes] at *
      omega
  | @collect rest i resultQueue hmain hqueue =>
      simp only [undefs, pool, hmain, hqueue, count_undef_some, Main.left]
  | @next rest resultQueue hmain hqueue =>
      simp only [undefs, pool, hmain, hqueue, count_undef_none, left_iterations, left_dequeue]
      omega
  | cat hmain => simp only [undefs, pool, hmain, Main.left]
  | unlinkOutput hmain => simp only [undefs, pool, hmain, Main.left]
  | @join w hmain _ =>
      simp only [undefs, pool, hmain, left_joinFrom, left_join]

/-- The task queue has an `undef` for each worker that has not ended. -/
theorem live_move (hm : Move env s s') (h : s.taskQueue.count none = s.pool Worker.live) :
    s'.taskQueue.count none = s'.pool Worker.live := by
  cases hm with
  | @take w i taskQueue hw hplace hqueue =>
      have hlive := pool_update (f := Worker.live) hw hplace (.run i)
      simp only [pool, hqueue, count_undef_some, Worker.live] at *
      omega
  | @stop w taskQueue hw hplace hqueue =>
      have hlive := pool_update (f := Worker.live) hw hplace .ended
      simp only [pool, hqueue, count_undef_none, Worker.live] at *
      omega
  | run hw hplace | unlink hw hplace | enqueue hw hplace | mark hw hplace =>
      refine h.trans (pool_keep hw hplace ?_).symm
      rfl
  | _ => exact h

/-! ### The order of the queues -/

/-- In the task queue the numbers are before the `undef`s, and no worker has ended before the last
number is taken; a result queue that ends with a number has an `undef` still to come. -/
structure Orderly (s : Control) : Prop where
  sorted : s.taskQueue.Pairwise fun a b => a = none → b = none
  fresh : ∀ i, some i ∈ s.taskQueue → 0 < s.threads ∧ s.pool Worker.live = s.threads
  last : s.pool Worker.marking = 0 → ∀ x ∈ s.resultQueue.getLast?, x = none

theorem Orderly.fresh_keep (h : s.Orderly) (hw : w < s.threads) (hplace : s.worker w = place)
    {p : Worker} (hp : p.live = place.live) {i : Nat} (hi : some i ∈ s.taskQueue) :
    0 < s.threads ∧ weight s.threads Worker.live (Function.update s.worker w p) = s.threads :=
  ⟨(h.fresh i hi).1, (pool_keep hw hplace hp).trans (h.fresh i hi).2⟩

theorem Orderly.last_keep (h : s.Orderly) (hw : w < s.threads) (hplace : s.worker w = place)
    {p : Worker} (hp : p.marking = place.marking)
    (hmarking : weight s.threads Worker.marking (Function.update s.worker w p) = 0) :
    ∀ x ∈ s.resultQueue.getLast?, x = none :=
  h.last ((pool_keep hw hplace hp).symm.trans hmarking)

theorem Orderly.move (h : s.Orderly) (hm : Move env s s') : s'.Orderly := by
  cases hm with
  | @take w i taskQueue hw hplace hqueue =>
      have hsorted := (List.pairwise_cons.mp (hqueue ▸ h.sorted)).2
      have htail : ∀ x ∈ taskQueue, x ∈ s.taskQueue := fun x hx =>
        hqueue ▸ List.mem_cons_of_mem _ hx
      exact ⟨hsorted, fun j hj => h.fresh_keep hw hplace (by rfl) (htail _ hj),
        h.last_keep hw hplace (by rfl)⟩
  | @stop w taskQueue hw hplace hqueue =>
      obtain ⟨hnone, hsorted⟩ := List.pairwise_cons.mp (hqueue ▸ h.sorted)
      -- what follows an `undef` are `undef`s, so no number is left to be fresh
      have hno : ∀ j, some j ∉ taskQueue := fun j hj => by cases hnone _ hj rfl
      exact ⟨hsorted, fun j hj => absurd hj (hno j), h.last_keep hw hplace (by rfl)⟩
  | run hw hplace | unlink hw hplace =>
      exact ⟨h.sorted, fun j hj => h.fresh_keep hw hplace (by rfl) hj,
        h.last_keep hw hplace (by rfl)⟩
  | @enqueue w i hw hplace =>
      refine ⟨h.sorted, fun j hj => h.fresh_keep hw hplace (by rfl) hj, fun hmarking => ?_⟩
      -- the result queue now ends with a number, and the worker is the one that owes the `undef`
      have hpos : 0 < weight s.threads Worker.marking (Function.update s.worker w .mark) :=
        pool_update_pos hw Nat.one_pos
      exact absurd hmarking hpos.ne'
  | @mark w hw hplace =>
      refine ⟨h.sorted, fun j hj => h.fresh_keep hw hplace (by rfl) hj, fun _ x hx => ?_⟩
      rw [List.getLast?_append] at hx
      exact (Option.some.inj hx).symm
  | collect _ hqueue | next _ hqueue =>
      refine ⟨h.sorted, h.fresh, fun hmarking x hx => h.last hmarking x ?_⟩
      rw [hqueue, List.getLast?_cons, Option.mem_def.mp hx]
      rfl
  | cat | unlinkOutput | join => exact ⟨h.sorted, h.fresh, h.last⟩

end

/-! ### The files of the parts -/

section

variable {env : Env} {list : NodeList} {outputPart : Nat → Option Str} {s s' : Control} {k : Nat}

/-- What `MULTI_SNMP_PERL` makes of the output file of a part, on the nodes of its share. -/
def collected (env : Env) (list : NodeList) (outputPart : Nat → Option Str) (k : Nat) :
    Option Str :=
  env.multiSnmp k (list.nodePart k) (outputPart k)

/-- The files of a part are as they were until it is run; then the output file is the collected
one until it has been appended. -/
structure Files (env : Env) (list : NodeList) (outputPart : Nat → Option Str) (s : Control) :
    Prop where
  before : ∀ k, 0 < (numbers s.taskQueue).count k + s.pool (Worker.before k) →
    s.nodePart k = list.nodePart k ∧ s.outputPart k = outputPart k
  after : ∀ k, 0 < s.pool (Worker.after k) + (numbers s.resultQueue).count k + s.main.held k →
    s.outputPart k = collected env list outputPart k
  outputFile : s.outputFile = s.appended.flatMap fun k => (collected env list outputPart k).getD []

/-- How often the number of a part is where it has yet to be run. -/
def waits (s : Control) (k : Nat) : Nat := (numbers s.taskQueue).count k + s.pool (Worker.before k)

/-- How often the number of a part is where it has been run and not been appended. -/
def ran (s : Control) (k : Nat) : Nat :=
  s.pool (Worker.after k) + (numbers s.resultQueue).count k + s.main.held k

theorem tally_eq (s : Control) (k : Nat) :
    s.tally k = s.waits k + s.ran k + s.appended.count k := by
  unfold tally waits ran
  omega

theorem waits_move (hm : Move env s s') : s'.waits k ≤ s.waits k := by
  cases hm with
  | @take w i taskQueue hw hplace hqueue =>
      have hbefore := pool_update (f := Worker.before k) hw hplace (.run i)
      have hnumbers := count_numbers_some k i taskQueue
      simp only [waits, pool, hqueue, Worker.before] at *
      omega
  | @stop w taskQueue hw hplace hqueue =>
      have hbefore := pool_keep (f := Worker.before k) hw hplace (p := .ended) rfl
      simp only [waits, pool, hqueue, numbers_none] at *
      omega
  | @run w i hw hplace =>
      have hbefore := pool_update (f := Worker.before k) hw hplace (.unlink i)
      simp only [waits, pool, Worker.before] at *
      omega
  | unlink hw hplace | enqueue hw hplace | mark hw hplace =>
      refine Nat.add_le_add_left (pool_keep hw hplace ?_).le _
      rfl
  | _ => exact le_rfl

/-- The nodes of a part are removed only when it has been run. -/
theorem nodePart_move (hm : Move env s s') : s'.nodePart k = s.nodePart k ∨ 0 < s'.ran k := by
  cases hm with
  | @unlink w i hw hplace =>
      by_cases hki : k = i
      · subst hki
        have hafter : 0 < weight s.threads (Worker.after k)
            (Function.update s.worker w (.enqueue k)) :=
          pool_update_pos hw (by simp [Worker.after])
        exact .inr (Nat.add_pos_left (Nat.add_pos_left hafter _) _)
      · exact .inl (Function.update_of_ne hki _ _)
  | _ => exact .inl rfl

/-- **The output file of a part** is written when the part is run, and removed when it has been
appended; otherwise it stays, and no part comes to have been run. -/
theorem outputPart_move (hm : Move env s s')
    (hunlinked : ∀ rest i, s.main = .unlink rest i → i ∈ s.appended) :
    s'.outputPart k = s.outputPart k ∧ s'.ran k ≤ s.ran k ∨
      0 < s.waits k ∧ 0 < s'.ran k ∧
        s'.outputPart k = env.multiSnmp k (s.nodePart k) (s.outputPart k) ∨
      0 < s'.appended.count k := by
  cases hm with
  | take hw hplace | stop hw hplace | unlink hw hplace =>
      refine .inl ⟨rfl, ?_⟩
      refine Nat.add_le_add_right (Nat.add_le_add_right (pool_keep hw hplace ?_).le _) _
      rfl
  | @run w i hw hplace =>
      by_cases hki : k = i
      · subst hki
        have hself : 0 < [k].count k := by simp
        have hbefore : 0 < s.pool (Worker.before k) := pool_pos hw hplace hself
        have hafter : 0 < weight s.threads (Worker.after k)
            (Function.update s.worker w (.unlink k)) :=
          pool_update_pos hw hself
        exact .inr (.inl ⟨Nat.add_pos_right _ hbefore,
          Nat.add_pos_left (Nat.add_pos_left hafter _) _, Function.update_self ..⟩)
      · have hzero : [i].count k = 0 := by simp [Ne.symm hki]
        have hafter := pool_keep (f := Worker.after k) hw hplace (p := .unlink i) hzero
        exact .inl ⟨Function.update_of_ne hki _ _,
          Nat.add_le_add_right (Nat.add_le_add_right hafter.le _) _⟩
  | @enqueue w i hw hplace =>
      have hafter := pool_update (f := Worker.after k) hw hplace .mark
      have hnumbers := count_numbers_append k s.resultQueue [some i]
      have hcount : (numbers [some i]).count k = [i].count k := rfl
      refine .inl ⟨rfl, ?_⟩
      simp only [ran, pool, Worker.after] at *
      omega
  | @mark w hw hplace =>
      have hafter := pool_keep (f := Worker.after k) hw hplace (p := .dequeue) rfl
      have hnumbers := count_numbers_append k s.resultQueue [none]
      have hcount : (numbers [none]).count k = 0 := rfl
      refine .inl ⟨rfl, ?_⟩
      simp only [ran, pool] at *
      omega
  | @collect rest i resultQueue hmain hqueue =>
      have hnumbers := count_numbers_some k i resultQueue
      refine .inl ⟨rfl, ?_⟩
      simp only [ran, pool, hmain, hqueue, Main.held] at *
      omega
  | @next rest resultQueue hmain hqueue =>
      refine .inl ⟨rfl, ?_⟩
      simp only [ran, pool, hmain, hqueue, numbers_none, held_iterations, held_dequeue, le_refl]
  | @cat rest i hmain =>
      refine .inl ⟨rfl, ?_⟩
      simp only [ran, pool, hmain, held_unlink]
      omega
  | @unlinkOutput rest i hmain =>
      by_cases hki : k = i
      · subst hki
        exact .inr (.inr (List.count_pos_iff.mpr (hunlinked rest k hmain)))
      · refine .inl ⟨Function.update_of_ne hki _ _, ?_⟩
        simp only [ran, pool, hmain, held_dequeue, held_unlink, le_refl]
  | @join w hmain hended =>
      refine .inl ⟨rfl, ?_⟩
      simp only [ran, pool, hmain, held_joinFrom, held_join, le_refl]

theorem Files.before_move (h : Files env list outputPart s) (hm : Move env s s')
    (hone : s'.tally k ≤ 1) (hunlinked : ∀ rest i, s.main = .unlink rest i → i ∈ s.appended)
    (hk : 0 < s'.waits k) :
    s'.nodePart k = list.nodePart k ∧ s'.outputPart k = outputPart k := by
  -- the number of the part is with those that wait, and so nowhere else
  rw [tally_eq] at hone
  obtain ⟨hnode, houtput⟩ := h.before k (hk.trans_le (waits_move hm))
  constructor
  · obtain hsame | hran := nodePart_move (k := k) hm
    · exact hsame.trans hnode
    · omega
  · obtain ⟨hsame, -⟩ | ⟨-, hran, -⟩ | happended := outputPart_move (k := k) hm hunlinked
    · exact hsame.trans houtput
    · omega
    · omega

theorem Files.after_move (h : Files env list outputPart s) (hm : Move env s s')
    (hone : s'.tally k ≤ 1) (hunlinked : ∀ rest i, s.main = .unlink rest i → i ∈ s.appended)
    (hk : 0 < s'.ran k) : s'.outputPart k = collected env list outputPart k := by
  rw [tally_eq] at hone
  obtain ⟨hsame, hran⟩ | ⟨hwaits, -, hrun⟩ | happended := outputPart_move (k := k) hm hunlinked
  · exact hsame.trans (h.after k (hk.trans_le hran))
  · -- until now both files were as they had been at the start
    obtain ⟨hnode, houtput⟩ := h.before k hwaits
    rw [hrun, hnode, houtput]
    rfl
  · omega

theorem Files.move (h : Files env list outputPart s) (hm : Move env s s')
    (hone : ∀ k, s'.tally k ≤ 1)
    (hunlinked : ∀ rest i, s.main = .unlink rest i → i ∈ s.appended) :
    Files env list outputPart s' where
  before k hk := h.before_move hm (hone k) hunlinked hk
  after k hk := h.after_move hm (hone k) hunlinked hk
  outputFile := by
    cases hm with
    | @cat rest i hmain =>
        have hheld : 0 < s.main.held i := by simp [hmain, Main.held]
        have hcollected := h.after i (by omega)
        show s.outputFile ++ _ = _
        rw [h.outputFile, hcollected, List.flatMap_append, List.flatMap_singleton]
    | _ => exact h.outputFile

/-! ### The invariant -/

structure Inv (env : Env) (list : NodeList) (outputPart : Nat → Option Str) (s : Control) :
    Prop where
  threads : s.threads = list.threads
  tally : ∀ k, s.tally k = (List.range' 1 list.threads).count k
  taken : ∀ k, (numbers s.taskQueue).count k + (s.taken.map Prod.snd).count k =
    (List.range' 1 list.threads).count k
  undefs : s.undefs = s.main.left
  live : s.taskQueue.count none = s.pool Worker.live
  orderly : s.Orderly
  join : ∀ w, s.main = .join w → w < s.threads
  unlinked : ∀ rest i, s.main = .unlink rest i → i ∈ s.appended
  files : Files env list outputPart s

theorem Inv.tally_le_one (h : Inv env list outputPart s) (k : Nat) : s.tally k ≤ 1 := by
  rw [h.tally]
  exact List.nodup_iff_count_le_one.mp List.nodup_range' k

theorem threads_move (hm : Move env s s') : s'.threads = s.threads := by
  cases hm <;> rfl

/-- The main thread joins a worker only, and removes an output only when it has appended it. -/
theorem main_move (hm : Move env s s') (hjoin : ∀ w, s.main = .join w → w < s.threads)
    (hunlinked : ∀ rest i, s.main = .unlink rest i → i ∈ s.appended) :
    (∀ w, s'.main = .join w → w < s'.threads) ∧
      ∀ rest i, s'.main = .unlink rest i → i ∈ s'.appended := by
  have hfrom : ∀ threads u, (∀ w, joinFrom threads u = .join w → w < threads) ∧
      ∀ rest i, joinFrom threads u ≠ .unlink rest i := by
    intro threads u
    unfold joinFrom
    split
    · refine ⟨fun w hw => ?_, fun _ _ h => by cases h⟩
      cases hw
      assumption
    · exact ⟨fun _ h => (by cases h), fun _ _ h => by cases h⟩
  cases hm with
  | take | stop | run | unlink | enqueue | mark => exact ⟨hjoin, hunlinked⟩
  | collect => exact ⟨fun _ h => (by cases h), fun _ _ h => by cases h⟩
  | @next rest =>
      cases rest with
      | zero => exact ⟨(hfrom _ 0).1, fun rest i h => absurd h ((hfrom _ 0).2 rest i)⟩
      | succ rest => exact ⟨fun _ h => (by cases h), fun _ _ h => by cases h⟩
  | cat =>
      refine ⟨fun _ h => (by cases h), fun _ _ h => ?_⟩
      cases h
      simp
  | unlinkOutput => exact ⟨fun _ h => (by cases h), fun _ _ h => by cases h⟩
  | @join w => exact ⟨(hfrom _ _).1, fun rest i h => absurd h ((hfrom _ _).2 rest i)⟩

theorem Inv.move (h : Inv env list outputPart s) (hm : Move env s s') :
    Inv env list outputPart s' := by
  have hmain := main_move hm h.join h.unlinked
  have htally : ∀ k, s'.tally k = s.tally k := fun k => tally_move hm
  exact {
    threads := (threads_move hm).trans h.threads
    tally k := (htally k).trans (h.tally k)
    taken k := (taken_move hm).trans (h.taken k)
    undefs := by
      have hundefs := undefs_move hm
      have hbefore := h.undefs
      omega
    live := live_move hm h.live
    orderly := h.orderly.move hm
    join := hmain.1
    unlinked := hmain.2
    files := h.files.move hm (fun k => (htally k).trans_le (h.tally_le_one k)) h.unlinked }

/-- The numbers, and then an `undef` for each worker. -/
def Queued (list : NodeList) : Prop :=
  list.taskQueue = (List.range' 1 list.threads).map some ++ List.replicate list.threads none

theorem numbers_queued (h : Queued list) : numbers list.taskQueue = List.range' 1 list.threads := by
  have hnone : numbers (List.replicate list.threads none) = [] := by
    simp [numbers]
  rw [h, numbers, List.filterMap_append, List.filterMap_map]
  refine (congrArg _ hnone).trans ?_
  simp

theorem runThreads_count (h : Queued list) :
    (runThreads list outputPart).taskQueue.count none = list.threads := by
  show list.taskQueue.count none = _
  rw [h, List.count_append, List.count_replicate_self, List.count_eq_zero.mpr (by simp),
    Nat.zero_add]

theorem runThreads_pool (f : Worker → Nat) :
    (runThreads list outputPart).pool f = list.threads * f .dequeue :=
  weight_const ..

theorem runThreads_held (k : Nat) : (runThreads list outputPart).main.held k = 0 :=
  held_iterations list.threads list.threads k

theorem iterations_self_ne (threads : Nat) : (∀ w, iterations threads threads ≠ .join w) ∧
    ∀ rest i, iterations threads threads ≠ .unlink rest i := by
  cases threads with
  | zero => exact ⟨fun w h => (by cases h), fun rest i h => by cases h⟩
  | succ n => exact ⟨fun w h => (by cases h), fun rest i h => by cases h⟩

theorem runThreads_orderly (h : Queued list) : (runThreads list outputPart).Orderly where
  sorted := by
    show list.taskQueue.Pairwise _
    rw [h, List.pairwise_append]
    refine ⟨?_, List.pairwise_replicate.mpr (.inr fun _ => rfl), fun a _ b hb _ => ?_⟩
    · exact List.pairwise_map.mpr (List.pairwise_of_forall fun _ _ h => by cases h)
    · exact List.eq_of_mem_replicate hb
  fresh i hi := by
    have hmem : i ∈ numbers list.taskQueue := List.mem_filterMap.mpr ⟨some i, hi, rfl⟩
    rw [numbers_queued h, List.mem_range'_1] at hmem
    refine ⟨?_, (runThreads_pool Worker.live).trans (Nat.mul_one _)⟩
    show 0 < list.threads
    omega
  last _ _ hx := by cases hx

theorem runThreads_files : Files env list outputPart (runThreads list outputPart) where
  before _ _ := ⟨rfl, rfl⟩
  after k hk := by
    have hnumbers : (numbers (runThreads list outputPart).resultQueue).count k = 0 := rfl
    have hafter : (runThreads list outputPart).pool (Worker.after k) = 0 := runThreads_pool _
    rw [hafter, hnumbers, runThreads_held] at hk
    exact absurd hk (Nat.lt_irrefl 0)
  outputFile := rfl

theorem runThreads_inv (h : Queued list) :
    Inv env list outputPart (runThreads list outputPart) := by
  have hnumbers : numbers (runThreads list outputPart).taskQueue = List.range' 1 list.threads :=
    numbers_queued h
  obtain ⟨hjoin, hunlink⟩ := iterations_self_ne list.threads
  exact {
    threads := rfl
    tally k := by
      rw [tally, hnumbers, runThreads_pool, runThreads_pool, runThreads_held]
      rfl
    taken k := by
      rw [hnumbers]
      rfl
    undefs := by
      rw [undefs, hnumbers, runThreads_pool, List.length_range']
      exact (left_iterations list.threads list.threads).symm
    live := by
      rw [runThreads_pool, runThreads_count h]
      exact (Nat.mul_one _).symm
    orderly := runThreads_orderly h
    join w hw := absurd hw (hjoin w)
    unlinked rest i hi := absurd hi (hunlink rest i)
    files := runThreads_files }

/-- **The invariant** holds in every state of every run. -/
theorem reach_inv (h : Queued list)
    (hs : (controller env list outputPart).Reach Machine.always s) : Inv env list outputPart s := by
  refine hs.invariant ?_ fun a s s' hinv _ hstep => hinv.move (step_move hstep)
  rintro _ rfl
  exact runThreads_inv h

end

end Control

end Realwork.Snmp
