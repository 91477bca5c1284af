import Realwork.Lib.Pool
import Realwork.Reflect.ControlTime

/-!
# Snmp — the node list

`snmp_task_control.pl`, `ReadNodeListConf`: the lines of the node list are dealt out to part
files, and the numbers of the parts are put into the task queue.  `$THREADS` is lowered when all
lines have been read.

* `readNodeListConf_nodePart`: what has been appended to a part file.
* `perm_shares`: each node line has gone to one part.
-/

namespace Realwork.Snmp

open Lib
open Reflect (fileLines isComment isNull)

/-- What the commands of `system` do to the files of the parts. -/
structure Env where
  /-- What `echo $_ >> file` appends to the file. -/
  echo : Str → Str
  /-- The output file of a part after `MULTI_SNMP_PERL` has run, from the number of the part, its
  nodes and the output file before. -/
  multiSnmp : Nat → Option Str → Option Str → Option Str

/-- `text >> file`; `none` is a file that is not there. -/
def append (file : Option Str) (text : Str) : Option Str := some (file.getD [] ++ text)

/-- `$THREADS=($opt_t?$opt_t:10)` -/
def threadsOf (optT : Option Nat) : Nat :=
  match optT with
  | some (n + 1) => n + 1
  | _ => 10

/-- `$j`, the part of the node `$i`. -/
def partOf (threads i : Nat) : Nat := if i % threads = 0 then threads else i % threads

/-- `$i` and the files `${NODE_CONF}_part${j}`. -/
structure NodeParts where
  i : Nat
  nodePart : Nat → Option Str

/-- The body of the loop over the lines. -/
def NodeParts.readLine (env : Env) (threads : Nat) (s : NodeParts) (line : Str) : NodeParts :=
  if isComment line || isNull line then s
  else
    let j := partOf threads s.i
    { i := s.i + 1
      nodePart := Function.update s.nodePart j (append (s.nodePart j) (env.echo line)) }

/-- What `ReadNodeListConf` leaves: `$THREADS`, the queue with `undef` as `none`, and the files. -/
structure NodeList where
  threads : Nat
  taskQueue : List (Option Nat)
  nodePart : Nat → Option Str

def readNodeListConf (env : Env) (threads : Nat) (conf : Str) (nodePart : Nat → Option Str) :
    NodeList :=
  let parts := (fileLines conf).foldl (NodeParts.readLine env threads) { i := 1, nodePart }
  let i := parts.i - 1
  let threads := if i < threads then i else threads
  { threads
    taskQueue := (List.range' 1 threads).map some ++ List.replicate threads none
    nodePart := parts.nodePart }

/-! ### The shares -/

def isNode (line : Str) : Bool := !(isComment line || isNull line)

/-- The lines of the nodes. -/
def nodesOf (conf : Str) : List Str := (fileLines conf).filter isNode

/-- Of the nodes from `$i` on, those of part `j`. -/
def sharesFrom (threads i : Nat) (nodes : List Str) (j : Nat) : List Str :=
  ((nodes.zipIdx i).filter fun node => partOf threads node.2 = j).map Prod.fst

/-- The nodes of part `j`. -/
def share (threads : Nat) (conf : Str) (j : Nat) : List Str := sharesFrom threads 1 (nodesOf conf) j

section

variable {env : Env} {threads i j : Nat}

theorem threadsOf_pos (optT : Option Nat) : 0 < threadsOf optT := by
  unfold threadsOf
  split
  · exact Nat.succ_pos _
  · decide

theorem sharesFrom_cons (node : Str) (nodes : List Str) :
    sharesFrom threads i (node :: nodes) j =
      (if partOf threads i = j then [node] else []) ++ sharesFrom threads (i + 1) nodes j := by
  unfold sharesFrom
  rw [List.zipIdx_cons, List.filter_cons]
  split
  · rename_i hpart
    rw [if_pos (of_decide_eq_true hpart)]
    rfl
  · rename_i hpart
    rw [if_neg fun h => hpart (decide_eq_true h)]
    rfl

theorem readLine_of_isNode {line : Str} (h : isNode line = true) (s : NodeParts) :
    s.readLine env threads line =
      { i := s.i + 1
        nodePart := fun j =>
          ((if partOf threads s.i = j then [line] else []).map env.echo).foldl append
            (s.nodePart j) } := by
  have hread : (isComment line || isNull line) = false := by simpa [isNode] using h
  have hpart : ∀ j, Function.update s.nodePart (partOf threads s.i)
      (append (s.nodePart (partOf threads s.i)) (env.echo line)) j =
        ((if partOf threads s.i = j then [line] else []).map env.echo).foldl append
          (s.nodePart j) := by
    intro j
    by_cases hj : partOf threads s.i = j
    · subst hj
      simp
    · rw [Function.update_of_ne (Ne.symm hj), if_neg hj]
      rfl
  simp only [NodeParts.readLine, hread, Bool.false_eq_true, if_false]
  rw [← funext hpart]

/-- **The loop** appends to each part its share, in the order of the lines. -/
theorem foldl_readLine (lines : List Str) (s : NodeParts) :
    lines.foldl (NodeParts.readLine env threads) s =
      { i := s.i + (lines.filter isNode).length
        nodePart := fun j =>
          ((sharesFrom threads s.i (lines.filter isNode) j).map env.echo).foldl append
            (s.nodePart j) } := by
  induction lines generalizing s with
  | nil => rfl
  | cons line lines ih =>
      rw [List.foldl_cons, ih]
      by_cases hnode : isNode line = true
      · rw [List.filter_cons_of_pos hnode, readLine_of_isNode hnode]
        simp only [sharesFrom_cons, List.map_append, List.foldl_append, List.length_cons,
          Nat.add_right_comm s.i 1, Nat.add_assoc]
      · have hread : (isComment line || isNull line) = true := by
          simpa only [isNode, Bool.not_eq_true', Bool.not_eq_false] using hnode
        rw [List.filter_cons_of_neg hnode]
        simp only [NodeParts.readLine, hread, if_true]

/-! ### What is left when the list has been read -/

theorem readNodeListConf_threads (conf : Str) (nodePart : Nat → Option Str) :
    (readNodeListConf env threads conf nodePart).threads =
      min (nodesOf conf).length threads := by
  have hcount : 1 + (nodesOf conf).length - 1 = (nodesOf conf).length := Nat.add_sub_cancel_left ..
  unfold readNodeListConf
  rw [foldl_readLine]
  show (if 1 + (nodesOf conf).length - 1 < threads then 1 + (nodesOf conf).length - 1
    else threads) = _
  rw [hcount]
  split
  · rename_i hlt
    exact (Nat.min_eq_left hlt.le).symm
  · rename_i hle
    exact (Nat.min_eq_right (Nat.le_of_not_lt hle)).symm

theorem readNodeListConf_taskQueue (conf : Str) (nodePart : Nat → Option Str) :
    (readNodeListConf env threads conf nodePart).taskQueue =
      (List.range' 1 (readNodeListConf env threads conf nodePart).threads).map some ++
        List.replicate (readNodeListConf env threads conf nodePart).threads none :=
  rfl

/-- The part files have what the commands of their shares appended, and nothing else. -/
theorem readNodeListConf_nodePart (conf : Str) (nodePart : Nat → Option Str) (j : Nat) :
    (readNodeListConf env threads conf nodePart).nodePart j =
      ((share threads conf j).map env.echo).foldl append (nodePart j) := by
  unfold readNodeListConf
  rw [foldl_readLine]
  rfl

/-- A part has a number from `1` to the lowered `$THREADS`: with fewer nodes than threads, the
part of a node is its own place. -/
theorem partOf_mem {n : Nat} (hthreads : 0 < threads) (hi : 1 ≤ i) (hin : i ≤ n) :
    partOf threads i ∈ List.range' 1 (min n threads) := by
  have hmod : i % threads < threads := Nat.mod_lt i hthreads
  have hle : i % threads ≤ i := Nat.mod_le i threads
  have hsmall : n < threads → i % threads = i := fun h => Nat.mod_eq_of_lt (by omega)
  rw [List.mem_range'_1]
  unfold partOf
  split <;> omega

/-- A node of the list is in a part of the lowered `$THREADS`. -/
theorem partOf_node_mem (hthreads : 0 < threads) {conf : Str} {node : Str × Nat}
    (h : node ∈ (nodesOf conf).zipIdx 1) :
    partOf threads node.2 ∈ List.range' 1 (min (nodesOf conf).length threads) := by
  obtain ⟨hge, hlt, -⟩ := List.mem_zipIdx h
  exact partOf_mem hthreads hge (by omega)

/-- A part that is not of the lowered `$THREADS` has no nodes. -/
theorem share_eq_nil (hthreads : 0 < threads) {conf : Str}
    (h : j ∉ List.range' 1 (min (nodesOf conf).length threads)) : share threads conf j = [] := by
  refine List.map_eq_nil_iff.mpr (List.filter_eq_nil_iff.mpr fun node hnode hpart => h ?_)
  rw [← of_decide_eq_true hpart]
  exact partOf_node_mem hthreads hnode

/-- **The shares.**  Each node line is in the share of one part, once. -/
theorem perm_shares (hthreads : 0 < threads) (conf : Str) :
    ((List.range' 1 (min (nodesOf conf).length threads)).flatMap (share threads conf)).Perm
      (nodesOf conf) := by
  have hall : ∀ node ∈ (nodesOf conf).zipIdx 1,
      decide (partOf threads node.2 ∈ List.range' 1 (min (nodesOf conf).length threads)) = true :=
    fun node hnode => decide_eq_true (partOf_node_mem hthreads hnode)
  have hperm := (perm_flatMap_filter (fun node : Str × Nat => partOf threads node.2)
    (List.nodup_range' (s := 1) (n := min (nodesOf conf).length threads))
    ((nodesOf conf).zipIdx 1)).map Prod.fst
  rw [List.filter_eq_self.mpr hall, List.zipIdx_map_fst, List.map_flatMap] at hperm
  exact hperm

/-- **The part files.**  The parts of the lowered `$THREADS` share the nodes, and the other part
files are as they were. -/
theorem readNodeListConf_shares (env : Env) (hthreads : 0 < threads) (conf : Str)
    (nodePart : Nat → Option Str) :
    let list := readNodeListConf env threads conf nodePart
    ((List.range' 1 list.threads).flatMap (share threads conf)).Perm (nodesOf conf) ∧
    (∀ j ∈ List.range' 1 list.threads,
      list.nodePart j = ((share threads conf j).map env.echo).foldl append (nodePart j)) ∧
    ∀ j ∉ List.range' 1 list.threads, list.nodePart j = nodePart j := by
  simp only [readNodeListConf_threads, readNodeListConf_nodePart]
  refine ⟨perm_shares hthreads conf, fun j _ => trivial, fun j hj => ?_⟩
  rw [share_eq_nil hthreads hj]
  rfl

end

end Realwork.Snmp
