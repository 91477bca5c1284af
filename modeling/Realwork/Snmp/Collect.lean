import Realwork.Snmp.Parts

/-!
# Snmp — the end of the task control

* `Inv.progress`: a run in which the main thread has not ended can go on.
* `exec_length_le`: every run is finite.
* `controller_collects`: each part is collected once.
-/

namespace Realwork.Snmp

open Lib

/-! ### No run gets stuck -/

namespace Control

section

variable {env : Env} {list : NodeList} {outputPart : Nat → Option Str} {s : Control}

theorem workerStep_isSome {w : Nat} (hended : s.worker w ≠ .ended)
    (hqueue : s.worker w = .dequeue → s.taskQueue ≠ []) : (s.workerStep env w).isSome := by
  cases hplace : s.worker w with
  | dequeue =>
      obtain ⟨x, taskQueue, hx⟩ := List.exists_cons_of_ne_nil (hqueue hplace)
      cases x <;> simp [workerStep, hplace, hx]
  | ended => exact absurd hplace hended
  | _ => simp [workerStep, hplace]

theorem step_worker_isSome {w : Nat} (hw : w < s.threads) (hended : s.worker w ≠ .ended)
    (hqueue : s.worker w = .dequeue → s.taskQueue ≠ []) :
    ∃ a, (step env a s).isSome := by
  refine ⟨.worker w, ?_⟩
  simp only [step, if_pos hw]
  exact workerStep_isSome hended hqueue

/-- As long as a worker has not ended, the task queue has an `undef` for it. -/
theorem Inv.taskQueue_ne_nil (h : Inv env list outputPart s) {w : Nat} (hw : w < s.threads)
    (hended : s.worker w ≠ .ended) : s.taskQueue ≠ [] := by
  have hlive : 0 < s.pool Worker.live := by
    refine pool_pos hw rfl ?_
    cases hplace : s.worker w with
    | ended => exact absurd hplace hended
    | _ => exact Nat.one_pos
  intro hnil
  have hcount := h.live
  rw [hnil, List.count_nil] at hcount
  omega

/-- **While the main thread waits** for an `undef`, the result queue has an element or a worker can
take a step. -/
theorem Inv.waiting (h : Inv env list outputPart s) {rest : Nat} (hmain : s.main = .dequeue rest)
    (hempty : s.resultQueue = []) : ∃ a, (step env a s).isSome := by
  have hundefs : (numbers s.taskQueue).length + s.pool Worker.owes + 0 = rest + 1 := by
    have hsum := h.undefs
    rw [Control.undefs, hempty, hmain] at hsum
    exact hsum
  by_cases howes : 0 < s.pool Worker.owes
  · -- a worker between its `dequeue` and its `undef` waits for nothing
    obtain ⟨w, hw, hpos⟩ := exists_of_weight_pos howes
    refine step_worker_isSome hw (fun hended => ?_) fun hplace => ?_
    · rw [hended] at hpos
      exact absurd hpos (Nat.lt_irrefl 0)
    · rw [hplace] at hpos
      exact absurd hpos (Nat.lt_irrefl 0)
  · -- otherwise a number is in the task queue still, and then all workers are alive
    obtain ⟨i, hi⟩ := List.exists_mem_of_length_pos (l := numbers s.taskQueue) (by omega)
    obtain ⟨x, hx, rfl⟩ := List.mem_filterMap.mp hi
    obtain ⟨hpos, hlive⟩ := h.orderly.fresh i hx
    obtain ⟨w, hw, hpos⟩ := exists_of_weight_pos (hlive ▸ hpos : 0 < s.pool Worker.live)
    refine step_worker_isSome hw (fun hended => ?_) fun _ => List.ne_nil_of_mem hx
    rw [hended] at hpos
    exact absurd hpos (Nat.lt_irrefl 0)

/-- **Progress.** -/
theorem Inv.progress (h : Inv env list outputPart s) (hended : s.main ≠ .ended) :
    ∃ a, (step env a s).isSome := by
  cases hmain : s.main with
  | dequeue rest =>
      by_cases hempty : s.resultQueue = []
      · exact h.waiting hmain hempty
      · obtain ⟨x, resultQueue, hx⟩ := List.exists_cons_of_ne_nil hempty
        refine ⟨.main, ?_⟩
        cases x <;> simp [step, mainStep, hmain, hx]
  | cat | unlink => exact ⟨.main, by simp [step, mainStep, hmain]⟩
  | join w =>
      by_cases hworker : s.worker w = .ended
      · exact ⟨.main, by simp [step, mainStep, hmain, hworker]⟩
      · have hw := h.join w hmain
        exact step_worker_isSome hw hworker fun _ => h.taskQueue_ne_nil hw hworker
  | ended => exact absurd hmain hended

end

end Control

/-! ### Every run is finite -/

/-- The steps that are still to come when a worker is at a place; the main thread takes three for a
number in the result queue, and one for an `undef`. -/
def Worker.cost : Worker → Nat
  | .run _ => 8
  | .unlink _ => 7
  | .enqueue _ => 6
  | .mark => 2
  | .dequeue | .ended => 0

def Main.cost (threads : Nat) : Main → Nat
  | .dequeue _ => threads + 1
  | .cat _ _ => threads + 3
  | .unlink _ _ => threads + 2
  | .join w => threads - w + 1
  | .ended => 0

theorem cost_joinFrom (threads w : Nat) :
    (joinFrom threads w).cost threads ≤ threads + 1 - w := by
  unfold joinFrom
  split
  · show threads - w + 1 ≤ _
    omega
  · exact Nat.zero_le _

theorem cost_iterations (threads rest : Nat) :
    (iterations threads rest).cost threads ≤ threads + 1 := by
  cases rest with
  | zero => exact cost_joinFrom threads 0
  | succ rest => exact le_rfl

namespace Control

/-- A bound for the steps that are still to come. -/
def cost (s : Control) : Nat :=
  9 * (numbers s.taskQueue).length + s.taskQueue.count none + s.pool Worker.cost +
    3 * (numbers s.resultQueue).length + s.resultQueue.count none + s.main.cost s.threads

section

variable {env : Env} {list : NodeList} {outputPart : Nat → Option Str} {s s' : Control}

theorem cost_move (hm : Move env s s') : s'.cost < s.cost := by
  cases hm with
  | @take w i taskQueue hw hplace hqueue =>
      have hcost := pool_update (f := Worker.cost) hw hplace (.run i)
      simp only [cost, pool, hqueue, length_numbers_some, count_undef_some, Worker.cost] at *
      omega
  | @stop w taskQueue hw hplace hqueue =>
      have hcost := pool_update (f := Worker.cost) hw hplace .ended
      simp only [cost, pool, hqueue, numbers_none, count_undef_none, Worker.cost] at *
      omega
  | @run w i hw hplace =>
      have hcost := pool_update (f := Worker.cost) hw hplace (.unlink i)
      simp only [cost, pool, Worker.cost] at *
      omega
  | @unlink w i hw hplace =>
      have hcost := pool_update (f := Worker.cost) hw hplace (.enqueue i)
      simp only [cost, pool, Worker.cost] at *
      omega
  | @enqueue w i hw hplace =>
      have hcost := pool_update (f := Worker.cost) hw hplace .mark
      have hone : (numbers [some i]).length = 1 := rfl
      simp only [cost, pool, length_numbers_append, hone, List.count_append, count_undef_some,
        List.count_nil, Worker.cost] at *
      omega
  | @mark w hw hplace =>
      have hcost := pool_update (f := Worker.cost) hw hplace .dequeue
      have hzero : (numbers [none]).length = 0 := rfl
      simp only [cost, pool, length_numbers_append, hzero, List.count_append, count_undef_none,
        List.count_nil, Worker.cost] at *
      omega
  | @collect rest i resultQueue hmain hqueue =>
      simp only [cost, pool, hmain, hqueue, length_numbers_some, count_undef_some, Main.cost]
      omega
  | @next rest resultQueue hmain hqueue =>
      have hmainCost := cost_iterations s.threads rest
      have hcost : (Main.dequeue rest).cost s.threads = s.threads + 1 := rfl
      simp only [cost, pool, hmain, hqueue, hcost, numbers_none, count_undef_none]
      omega
  | @cat rest i hmain =>
      simp only [cost, pool, hmain, Main.cost]
      omega
  | @unlinkOutput rest i hmain =>
      simp only [cost, pool, hmain, Main.cost]
      omega
  | @join w hmain hended =>
      have hmainCost := cost_joinFrom s.threads (w + 1)
      have hcost : (Main.join w).cost s.threads = s.threads - w + 1 := rfl
      simp only [cost, pool, hmain, hcost]
      omega

theorem runThreads_cost (h : Queued list) :
    (runThreads list outputPart).cost ≤ 11 * list.threads + 1 := by
  have hnumbers : (numbers (runThreads list outputPart).taskQueue).length = list.threads := by
    rw [show numbers (runThreads list outputPart).taskQueue = _ from numbers_queued h,
      List.length_range']
  have hworkers : (runThreads list outputPart).pool Worker.cost = 0 := runThreads_pool Worker.cost
  have hmain := cost_iterations list.threads list.threads
  rw [cost, hnumbers, runThreads_count h, hworkers]
  show 9 * list.threads + list.threads + 0 + 3 * 0 + 0 +
    (iterations list.threads list.threads).cost list.threads ≤ _
  omega

/-- **Every run is finite.** -/
theorem exec_length_le (h : Queued list) {as : List Action}
    (hexec : (controller env list outputPart).exec as (runThreads list outputPart) = some s) :
    as.length ≤ 11 * list.threads + 1 := by
  have hbound := Machine.exec_length_le (M := controller env list outputPart) (μ := cost)
    (fun a s s' hstep => cost_move (step_move hstep)) hexec
  exact (Nat.le_add_right ..).trans (hbound.trans (runThreads_cost h))

/-! ### When the loops have ended -/

/-- What the main thread has done when its loops end. -/
structure Collected (env : Env) (list : NodeList) (outputPart : Nat → Option Str) (s : Control) :
    Prop where
  /-- Each part has been taken by one worker. -/
  taken : (s.taken.map Prod.snd).Perm (List.range' 1 list.threads)
  /-- Each part has been appended once. -/
  appended : s.appended.Perm (List.range' 1 list.threads)
  outputFile : s.outputFile = s.appended.flatMap fun k => (collected env list outputPart k).getD []
  resultQueue : s.resultQueue = []

theorem before_le_owes (k : Nat) (p : Worker) : p.before k ≤ p.owes := by
  cases p with
  | run i => exact List.count_le_length
  | _ => exact Nat.zero_le _

theorem after_le_owes (k : Nat) (p : Worker) : p.after k ≤ p.owes := by
  cases p with
  | unlink i | enqueue i => exact List.count_le_length
  | _ => exact Nat.zero_le _

theorem marking_le_owes (p : Worker) : p.marking ≤ p.owes := by
  cases p with
  | mark => exact le_rfl
  | _ => exact Nat.zero_le _

theorem held_of_left {main : Main} (h : main.left = 0) (k : Nat) : main.held k = 0 := by
  cases main with
  | dequeue rest | cat rest i | unlink rest i => exact absurd h (Nat.succ_ne_zero rest)
  | join | ended => rfl

/-- **The end of the loops.**  All `undef`s have been taken, so no number is left anywhere. -/
theorem Inv.collected (h : Inv env list outputPart s) (hleft : s.main.left = 0) :
    Collected env list outputPart s := by
  have hundefs := h.undefs
  rw [hleft, Control.undefs] at hundefs
  have hnumbers : numbers s.taskQueue = [] := List.eq_nil_of_length_eq_zero (by omega)
  have howes : s.pool Worker.owes = 0 := by omega
  have hmarking : s.pool Worker.marking = 0 :=
    Nat.eq_zero_of_le_zero ((weight_mono marking_le_owes).trans_eq howes)
  -- nobody owes an `undef`, so the result queue would have to end with one, and there is none
  have hresult : s.resultQueue = [] := by
    by_contra hne
    have hlast := h.orderly.last hmarking _ (List.getLast?_eq_some_getLast hne)
    have hcount := List.count_pos_iff.mpr (hlast ▸ List.getLast_mem hne)
    omega
  refine ⟨?_, ?_, h.files.outputFile, hresult⟩
  · refine List.perm_iff_count.mpr fun k => ?_
    rw [← h.taken k, hnumbers, List.count_nil, Nat.zero_add]
  · refine List.perm_iff_count.mpr fun k => ?_
    have hbefore : s.pool (Worker.before k) = 0 :=
      Nat.eq_zero_of_le_zero ((weight_mono (before_le_owes k)).trans_eq howes)
    have hafter : s.pool (Worker.after k) = 0 :=
      Nat.eq_zero_of_le_zero ((weight_mono (after_le_owes k)).trans_eq howes)
    rw [← h.tally k, Control.tally, hnumbers, hbefore, hafter, hresult, held_of_left hleft]
    simp [numbers]

/-- No part is taken or appended twice. -/
theorem Inv.nodup (h : Inv env list outputPart s) :
    (s.taken.map Prod.snd).Nodup ∧ s.appended.Nodup := by
  have hrange : ∀ k, (List.range' 1 list.threads).count k ≤ 1 :=
    List.nodup_iff_count_le_one.mp List.nodup_range'
  refine ⟨List.nodup_iff_count_le_one.mpr fun k => ?_, List.nodup_iff_count_le_one.mpr fun k => ?_⟩
  · exact (Nat.le_add_left ..).trans ((h.taken k).trans_le (hrange k))
  · exact (Nat.le_add_left ..).trans (h.tally_le_one k)

end

end Control

/-- **The task control.**  The node lines are dealt out to the parts of the lowered `$THREADS`, each
to one.  Every run is finite, and goes on until the main thread has ended; no part is taken or
appended twice, and when the loops of the main thread have ended each part has been taken by one
worker and appended once, and no number is left in the result queue. -/
theorem controller_collects (env : Env) (optT : Option Nat) (conf : Str)
    (nodePart outputPart : Nat → Option Str) :
    let list := readNodeListConf env (threadsOf optT) conf nodePart
    ((List.range' 1 list.threads).flatMap (share (threadsOf optT) conf)).Perm (nodesOf conf) ∧
    (∀ j ∈ List.range' 1 list.threads, list.nodePart j =
      ((share (threadsOf optT) conf j).map env.echo).foldl append (nodePart j)) ∧
    (∀ j ∉ List.range' 1 list.threads, list.nodePart j = nodePart j) ∧
    (∀ as s, (controller env list outputPart).exec as (runThreads list outputPart) = some s →
      as.length ≤ 11 * list.threads + 1) ∧
    ∀ s, (controller env list outputPart).Reach Machine.always s →
      (s.main ≠ .ended → ∃ a, (s.step env a).isSome) ∧
      (s.taken.map Prod.snd).Nodup ∧ s.appended.Nodup ∧
      (s.main.left = 0 → s.Collected env list outputPart) := by
  intro list
  have hqueued : Control.Queued list := readNodeListConf_taskQueue conf nodePart
  obtain ⟨hshares, hparts, hothers⟩ :=
    readNodeListConf_shares env (threadsOf_pos optT) conf nodePart
  refine ⟨hshares, hparts, hothers, fun as s => Control.exec_length_le hqueued, fun s hs => ?_⟩
  have hinv := Control.reach_inv hqueued hs
  exact ⟨hinv.progress, hinv.nodup.1, hinv.nodup.2, hinv.collected⟩

/-- A list of two nodes and a comment, with ten threads: the pairs of the two workers are mixed in
the result queue, and the run ends. -/
theorem controller_collects_two :
    ∃ env conf as s, let list := readNodeListConf env (threadsOf none) conf fun _ => none
      (controller env list fun _ => none).exec as (runThreads list fun _ => none) = some s ∧
        list.threads = 2 ∧ s.main = .ended ∧ as.length ≤ 11 * list.threads + 1 ∧
        s.Collected env list (fun _ => none) ∧ s.outputFile = lit "b\na\n" := by
  let env : Env := { echo := fun line => line ++ lit "\n", multiSnmp := fun _ nodes _ => nodes }
  let conf : Str := lit "a\n#\nb\n"
  let list : NodeList := readNodeListConf env (threadsOf none) conf fun _ => none
  let as : List Action := [.worker 0, .worker 1, .worker 1, .worker 1, .worker 1, .worker 0,
    .worker 0, .worker 0, .worker 0, .worker 1, .worker 0] ++ List.replicate 8 .main ++
      [.worker 1, .main, .main]
  let s : Control := ((controller env list fun _ => none).exec as
    (runThreads list fun _ => none)).getD (runThreads list fun _ => none)
  have hexec : (controller env list fun _ => none).exec as
      (runThreads list fun _ => none) = some s :=
    Machine.eq_some_getD (by decide +kernel)
  have hcollects := controller_collects env none conf (fun _ => none) (fun _ => none)
  have hs : (controller env list fun _ => none).Reach Machine.always s :=
    .of_exec (.start rfl) (Machine.meets_always _ _ _) hexec
  exact ⟨env, conf, as, s, hexec, by decide +kernel, by decide +kernel,
    hcollects.2.2.2.1 as s hexec, (hcollects.2.2.2.2 s hs).2.2.2 (by decide +kernel),
    by decide +kernel⟩

end Realwork.Snmp
