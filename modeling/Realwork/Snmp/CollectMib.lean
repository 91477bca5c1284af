import Realwork.Lib.Fields
import Realwork.Lib.Loop
import Realwork.Lib.Pending
import Realwork.Snmp.NodeList

/-!
# Snmp — the sessions

`multi_snmp_mib_collect.pl`, `CollectMib`: a session is opened for each node, and each time
`$MAX_COCURRENT_HOST` nodes have been passed the dispatcher is run, which handles the sessions that
are open.  A node whose session can not be opened is passed with `next`, and then the dispatcher is
not run, wherever in the list the node stands.

* `inv_collectRound`: what a round of the loop keeps.
* `collectMib_sessions_iff`: every session is handled before the output file is closed; when there
  are never more than `$MAX_COCURRENT_HOST` of them.
-/

namespace Realwork.Snmp.Mib

open Lib
open Reflect (fileLines)

/-! ### The functions -/

/-- A hash of the node list; a value that is not there is `undef`. -/
structure Node where
  ip : Option Str
  community : Option Str
  port : Option Str

def nodeOf (line : Str) : Node :=
  let confList := splitFields 0x2c (line.filter (· ≠ 0x20))
  { ip := confList[0]?, community := confList[1]?, port := confList[2]? }

/-- `@node_conf_list`; an `undef` notifies its end. -/
def nodeConfList (nodes : List Node) : List (Option Node) := nodes.map some ++ [none]

def readNodeListConf (conf : Str) : List (Option Node) :=
  nodeConfList (((fileLines conf).filter isNode).map nodeOf)

/-- `$OID_ifOperStatus` -/
def oidIfOperStatus : Str := lit "1.3.6.1.2.1.2.2.1.8"

/-- What the script does to its sessions and its files. -/
inductive Event where
  | error (message : Str)
  | opened (node : Node)
  | getTable (node : Node) (baseoid : Str)
  | getRequest (node : Node) (oid : Str)
  | dispatcher
  | closeOutput

/-- The variables of `CollectMib`, and what has been done. -/
structure Collect where
  i : Nat := 0
  j : Nat := 0
  trace : List Event := []

section

-- `$err_info` of the `$i`-th call of `Net::SNMP->session`, if it opens no session
variable (session : Nat → Node → Option Str)

/-- What `OpenSnmpSession` and `CollectMib` do about a node. -/
def handleNode (oidOnlyConfList : List Str) (i : Nat) (node : Node) : List Event :=
  match session i node with
  | some errInfo =>
      [.error errInfo,
        .error (lit "open snmp session for " ++ node.ip.getD [] ++ lit " failed!")]
  | none =>
      .opened node :: .getTable node oidIfOperStatus :: oidOnlyConfList.map (.getRequest node)

/-- A round of the loop over the nodes. -/
def collectRound (maxCocurrentHost : Nat) (oidOnlyConfList : List Str)
    (nodeConfList : List (Option Node)) (s : Collect) : Collect ⊕ Collect :=
  match nodeConfList[s.i]?.join with
  | none => .inr s
  | some node =>
      let i := s.i + 1
      let s := { s with i, trace := s.trace ++ handleNode session oidOnlyConfList i node }
      -- `next` leaves the test out
      if (session i node).isNone ∧ i % maxCocurrentHost = 0 then
        .inl { s with j := s.j + maxCocurrentHost, trace := s.trace ++ [.dispatcher] }
      else .inl s

/-- `$MAX_COCURRENT_HOST`, as `CollectMib` sets it. -/
def atLeastOne (maxCocurrentHost : Option Int) : Nat :=
  match maxCocurrentHost with
  | none => 1
  | some n => if n ≤ 0 then 1 else n.toNat

/-- What `CollectMib` does; `none` if the loop does not end. -/
def collectMib (maxCocurrentHost : Option Int) (oidOnlyConfList : List Str)
    (nodeConfList : List (Option Node)) : Option (List Event) :=
  (rounds (collectRound session (atLeastOne maxCocurrentHost) oidOnlyConfList nodeConfList)
    (nodeConfList.length + 1) {}).map fun s =>
      s.trace ++ (if s.j < nodeConfList.length - 1 then [.dispatcher] else []) ++ [.closeOutput]

end

/-! ### Sessions -/

def Event.isOpened : Event → Bool
  | opened _ => true
  | _ => false

def Event.isDispatcher : Event → Bool
  | dispatcher => true
  | _ => false

/-- At no time more than `max` sessions have been opened since the dispatcher was run last. -/
def SessionsLe : Nat → List Event → Prop := PendingLe Event.isOpened Event.isDispatcher

/-- After a session is opened the dispatcher is run, and the output file is closed then. -/
def AllDispatched (trace : List Event) : Prop :=
  ∀ u node v, trace = u ++ .opened node :: v →
    ∃ w x, v = w ++ .dispatcher :: x ∧ .closeOutput ∈ x

/-- The `n`-th node gets a session. -/
def opens (session : Nat → Node → Option Str) (nodes : List Node) (n : Nat) : Bool :=
  (nodes[n - 1]?).any fun node => (session n node).isNone

/-- How many nodes behind the `p`-th one get a session, up to the `i`-th one. -/
def sessionsIn (opens : Nat → Bool) (p i : Nat) : Nat := (List.range' (p + 1) (i - p)).countP opens

/-- Of the nodes behind a multiple of `max`, up to the next multiple whose node gets a session or
the end of the list, no more than `max` get one. -/
def Spaced (max : Nat) (opens : Nat → Bool) (n : Nat) : Prop :=
  ∀ k i, i ≤ n → (∀ m, k < m → max * m < i → opens (max * m) = false) →
    sessionsIn opens (max * k) i ≤ max

section

variable {opens : Nat → Bool} {p q i k max : Nat}

theorem sessionsIn_of_le (h : i ≤ p) : sessionsIn opens p i = 0 := by
  rw [sessionsIn, Nat.sub_eq_zero_of_le h]
  rfl

theorem sessionsIn_succ (h : p ≤ i) :
    sessionsIn opens p (i + 1) = sessionsIn opens p i + if opens (i + 1) then 1 else 0 := by
  have hend : p + 1 + (i - p) = i + 1 := by omega
  rw [sessionsIn, sessionsIn, Nat.succ_sub h, List.range'_1_concat, List.countP_append, hend,
    List.countP_singleton]

theorem sessionsIn_anti (h : p ≤ q) : sessionsIn opens q i ≤ sessionsIn opens p i := by
  induction i with
  | zero =>
      rw [sessionsIn_of_le (Nat.zero_le q)]
      exact Nat.zero_le _
  | succ i ih =>
      by_cases hq : q ≤ i
      · rw [sessionsIn_succ hq, sessionsIn_succ (h.trans hq)]
        exact Nat.add_le_add_right ih _
      · rw [sessionsIn_of_le (Nat.lt_of_not_le hq)]
        exact Nat.zero_le _

/-- One node more: only the nodes behind the last multiple whose node got a session are to be
counted. -/
theorem spaced_succ (hk : max * k ≤ i) (hlast : k = 0 ∨ opens (max * k) = true)
    (hsince : ∀ m, k < m → max * m ≤ i → opens (max * m) = false) :
    Spaced max opens (i + 1) ↔ Spaced max opens i ∧ sessionsIn opens (max * k) (i + 1) ≤ max := by
  constructor
  · intro h
    refine ⟨fun k' i' hi' => h k' i' (by omega), h k (i + 1) (Nat.le_refl _) fun m hm hmi => ?_⟩
    exact hsince m hm (by omega)
  · rintro ⟨h, hnew⟩ k' i' hi' hbetween
    rcases Nat.lt_or_ge i i' with hlt | hle
    · obtain rfl : i' = i + 1 := by omega
      -- a stretch that begins before the last multiple ends there
      have hkk' : k ≤ k' := by
        rcases hlast with rfl | hopen
        · exact Nat.zero_le _
        · by_contra hlt
          have hclosed := hbetween k (by omega) (by omega)
          rw [hopen] at hclosed
          cases hclosed
      exact (sessionsIn_anti (Nat.mul_le_mul_left max hkk')).trans hnew
    · exact h k' i' hle hbetween

/-- When each node at a multiple gets a session, the nodes that get one are spaced. -/
theorem spaced_of_opens {n : Nat} (h : ∀ m, 0 < m → max * m ≤ n → opens (max * m) = true) :
    Spaced max opens n := by
  intro k i hi hbetween
  have hnear : i ≤ max * k + max := by
    by_contra hfar
    have hclosed := hbetween (k + 1) (Nat.lt_succ_self k) (by rw [Nat.mul_succ]; omega)
    rw [h (k + 1) (Nat.succ_pos k) (by rw [Nat.mul_succ]; omega)] at hclosed
    cases hclosed
  have hle := List.countP_le_length (p := opens) (l := List.range' (max * k + 1) (i - max * k))
  rw [List.length_range'] at hle
  rw [sessionsIn]
  omega

end

/-! ### The loop -/

section

variable {session : Nat → Node → Option Str} {oidOnlyConfList : List Str} {nodes : List Node}
  {max : Nat} {s s' : Collect}

theorem nodeConfList_join (nodes : List Node) (i : Nat) :
    (nodeConfList nodes)[i]?.join = nodes[i]? := by
  rw [nodeConfList, List.getElem?_append]
  split
  · rename_i hi
    rw [List.length_map] at hi
    rw [List.getElem?_map, List.getElem?_eq_getElem hi]
    rfl
  · rename_i hi
    rw [List.length_map, Nat.not_lt] at hi
    rw [List.getElem?_eq_none hi]
    cases i - (nodes.map some).length <;> rfl

theorem handleNode_not_dispatcher (i : Nat) (node : Node) :
    ∀ e ∈ handleNode session oidOnlyConfList i node, e.isDispatcher = false := by
  rw [handleNode]
  split
  · simp [Event.isDispatcher]
  · simp [Event.isDispatcher]

theorem countP_handleNode (i : Nat) (node : Node) :
    (handleNode session oidOnlyConfList i node).countP Event.isOpened =
      if (session i node).isNone then 1 else 0 := by
  rw [handleNode]
  split
  · rename_i h
    simp [Event.isOpened, h]
  · rename_i h
    have hrequests : (oidOnlyConfList.map (.getRequest node)).countP Event.isOpened = 0 := by
      rw [List.countP_map]
      exact List.countP_eq_zero.mpr fun _ _ => Bool.false_ne_true
    rw [List.countP_cons_of_pos rfl, List.countP_cons_of_neg Bool.false_ne_true,
      hrequests, h]
    rfl

/-- What holds when the nodes up to `$i` have been passed; the dispatcher has been run last at the
`k`-th multiple of `max`, if `k` is not 0. -/
structure Inv (session : Nat → Node → Option Str) (nodes : List Node) (max : Nat) (s : Collect)
    (k : Nat) : Prop where
  le : s.i ≤ nodes.length
  k_le : max * k ≤ s.i
  last : k = 0 ∨ opens session nodes (max * k) = true
  since : ∀ m, k < m → max * m ≤ s.i → opens session nodes (max * m) = false
  pending : pending Event.isOpened Event.isDispatcher s.trace =
    sessionsIn (opens session nodes) (max * k) s.i
  j_le : s.j ≤ max * k
  bound : SessionsLe max s.trace ↔ Spaced max (opens session nodes) s.i

theorem inv_start (hmax : 0 < max) : Inv session nodes max {} 0 where
  le := Nat.zero_le _
  k_le := Nat.le_refl _
  last := .inl rfl
  since m hm hzero := absurd hzero (Nat.not_le.mpr (Nat.mul_pos hmax hm))
  pending := rfl
  j_le := Nat.zero_le _
  bound := by
    refine iff_of_true (fun past hpast => ?_) fun k i hi _ => ?_
    · rw [List.prefix_nil.mp hpast]
      exact Nat.zero_le _
    · rw [sessionsIn_of_le (hi.trans (Nat.zero_le _))]
      exact Nat.zero_le _

theorem opens_succ {i : Nat} {node : Node} (hnode : nodes[i]? = some node) :
    opens session nodes (i + 1) = (session (i + 1) node).isNone := by
  rw [opens, Nat.add_sub_cancel, hnode, Option.any_some]

/-- The node behind `$i` is handled. -/
theorem inv_handleNode {k : Nat} {node : Node} (h : Inv session nodes max s k)
    (hnode : nodes[s.i]? = some node) :
    pending Event.isOpened Event.isDispatcher
        (s.trace ++ handleNode session oidOnlyConfList (s.i + 1) node) =
      sessionsIn (opens session nodes) (max * k) (s.i + 1) ∧
    (SessionsLe max (s.trace ++ handleNode session oidOnlyConfList (s.i + 1) node) ↔
      Spaced max (opens session nodes) (s.i + 1)) := by
  have hquiet := @handleNode_not_dispatcher session oidOnlyConfList (s.i + 1) node
  have hpending : pending Event.isOpened Event.isDispatcher
      (s.trace ++ handleNode session oidOnlyConfList (s.i + 1) node) =
        sessionsIn (opens session nodes) (max * k) (s.i + 1) := by
    rw [pending_append_of_not_flushes hquiet, countP_handleNode, h.pending, sessionsIn_succ h.k_le,
      opens_succ hnode]
  refine ⟨hpending, ?_⟩
  rw [SessionsLe, pendingLe_append hquiet, hpending, spaced_succ h.k_le h.last h.since]
  exact and_congr_left' h.bound

/-- The node stands at a multiple and has a session: the dispatcher is run. -/
theorem inv_dispatcher {k : Nat} {node : Node} (hmax : 0 < max) (h : Inv session nodes max s k)
    (hnode : nodes[s.i]? = some node) (hsession : (session (s.i + 1) node).isNone)
    (hmultiple : (s.i + 1) % max = 0) :
    ∃ k', Inv session nodes max
      { i := s.i + 1, j := s.j + max,
        trace := s.trace ++ handleNode session oidOnlyConfList (s.i + 1) node ++ [.dispatcher] }
      k' := by
  obtain ⟨hi, -⟩ := List.getElem?_eq_some_iff.mp hnode
  obtain ⟨k', hk'⟩ := Nat.dvd_of_mod_eq_zero hmultiple
  have hkk' : k < k' := by
    have hle := h.k_le
    exact Nat.lt_of_mul_lt_mul_left (a := max) (by omega)
  refine ⟨k', hi, hk'.ge, .inr (hk' ▸ (opens_succ hnode).trans hsession), fun m hm hle => ?_, ?_,
    ?_, ?_⟩
  · have hlt : max * k' < max * m := Nat.mul_lt_mul_of_pos_left hm hmax
    have hle' : max * m ≤ s.i + 1 := hle
    omega
  · rw [pending_flush rfl, sessionsIn_of_le hk'.le]
  · have hsucc : max * (k + 1) ≤ max * k' := Nat.mul_le_mul_left max hkk'
    have hj := h.j_le
    rw [Nat.mul_succ] at hsucc
    show s.j + max ≤ _
    omega
  · exact (pendingLe_flush rfl).trans (inv_handleNode h hnode).2

/-- The dispatcher is not run. -/
theorem inv_next {k : Nat} {node : Node} (h : Inv session nodes max s k)
    (hnode : nodes[s.i]? = some node)
    (htest : ¬ ((session (s.i + 1) node).isNone ∧ (s.i + 1) % max = 0)) :
    Inv session nodes max
      { s with i := s.i + 1,
               trace := s.trace ++ handleNode session oidOnlyConfList (s.i + 1) node } k := by
  obtain ⟨hi, -⟩ := List.getElem?_eq_some_iff.mp hnode
  obtain ⟨hpending, hbound⟩ := @inv_handleNode session oidOnlyConfList nodes max s k node h hnode
  refine ⟨hi, h.k_le.trans (Nat.le_succ _), h.last, fun m hm hle => ?_, hpending, h.j_le, hbound⟩
  rcases Nat.lt_or_ge s.i (max * m) with hlt | hge
  · -- the node stands at a multiple, and has no session
    have heq : max * m = s.i + 1 := by
      have hle' : max * m ≤ s.i + 1 := hle
      omega
    rw [heq, opens_succ hnode]
    by_contra hsome
    exact htest ⟨by simpa using hsome, heq ▸ Nat.mul_mod_right max m⟩
  · exact h.since m hm hge

/-- **A round passes a node.** -/
theorem inv_collectRound {k : Nat} (hmax : 0 < max) (h : Inv session nodes max s k)
    (hround : collectRound session max oidOnlyConfList (nodeConfList nodes) s = .inl s') :
    s'.i = s.i + 1 ∧ s.i < nodes.length ∧ ∃ k', Inv session nodes max s' k' := by
  rw [collectRound, nodeConfList_join] at hround
  split at hround
  · cases hround
  rename_i node hnode
  obtain ⟨hi, -⟩ := List.getElem?_eq_some_iff.mp hnode
  dsimp only at hround
  split at hround
  · rename_i htest
    cases hround
    exact ⟨rfl, hi, inv_dispatcher hmax h hnode htest.1 htest.2⟩
  · rename_i htest
    cases hround
    exact ⟨rfl, hi, k, inv_next h hnode htest⟩

/-- The loop is left behind the last node. -/
theorem le_of_collectRound
    (hround : collectRound session max oidOnlyConfList (nodeConfList nodes) s = .inr s') :
    s' = s ∧ nodes.length ≤ s.i := by
  rw [collectRound, nodeConfList_join] at hround
  split at hround
  · rename_i hnone
    cases hround
    exact ⟨rfl, List.getElem?_eq_none_iff.mp hnone⟩
  · dsimp only at hround
    split at hround <;> cases hround

/-- **The loop** passes all nodes. -/
theorem rounds_collectRound (hmax : 0 < max) :
    ∃ s, rounds (collectRound session max oidOnlyConfList (nodeConfList nodes))
        ((nodeConfList nodes).length + 1) {} = some s ∧
      s.i = nodes.length ∧ ∃ k, Inv session nodes max s k := by
  refine rounds_spec (fun s => nodes.length - s.i) (I := fun s => ∃ k, Inv session nodes max s k)
    (fun s s' hs hround => ?_) (fun s s' hs hround => ?_) ⟨0, inv_start hmax⟩ ?_
  · obtain ⟨k, hk⟩ := hs
    obtain ⟨hi, hlt, hs'⟩ := inv_collectRound hmax hk hround
    exact ⟨hs', by omega⟩
  · obtain ⟨rfl, hle⟩ := le_of_collectRound hround
    obtain ⟨k, hk⟩ := hs
    exact ⟨Nat.le_antisymm hk.le hle, k, hk⟩
  · rw [nodeConfList, List.length_append, List.length_map]
    show nodes.length - 0 < _
    omega

end

theorem atLeastOne_pos (maxCocurrentHost : Option Int) : 0 < atLeastOne maxCocurrentHost := by
  unfold atLeastOne
  split
  · exact Nat.one_pos
  · split <;> omega

/-- When nothing is pending the output file can be closed. -/
theorem closeOutput_of_pending {trace : List Event} {max : Nat}
    (hzero : pending Event.isOpened Event.isDispatcher trace = 0) :
    AllDispatched (trace ++ [.closeOutput]) ∧
      (SessionsLe max (trace ++ [.closeOutput]) ↔ SessionsLe max trace) := by
  have hquiet : ∀ e ∈ [Event.closeOutput], e.isDispatcher = false := by decide
  constructor
  · intro u node v htrace
    rcases List.eq_nil_or_concat' v with rfl | ⟨v, e, rfl⟩
    · have hlast := (List.append_inj' htrace rfl).2
      cases hlast
    · rw [← List.cons_append, ← List.append_assoc] at htrace
      obtain ⟨hinit, hclose⟩ := List.append_inj' htrace rfl
      cases hclose
      obtain ⟨f, hf, hdispatcher⟩ := flushed_of_pending_eq_zero hzero hinit rfl rfl
      obtain ⟨w, x, rfl⟩ := List.append_of_mem hf
      cases f with
      | dispatcher => exact ⟨w, x ++ [.closeOutput], by simp, by simp⟩
      | _ => cases hdispatcher
  · rw [SessionsLe, pendingLe_append hquiet, pending_append_of_not_flushes hquiet, hzero]
    exact and_iff_left (Nat.zero_le _)

/-- **The sessions.**  Each of them is handled before the output file is closed; there are never
more of them than `$MAX_COCURRENT_HOST` exactly if the nodes that get one are spaced. -/
theorem collectMib_sessions_iff (session : Nat → Node → Option Str) (maxCocurrentHost : Option Int)
    (oidOnlyConfList : List Str) (nodes : List Node) :
    ∃ trace, collectMib session maxCocurrentHost oidOnlyConfList (nodeConfList nodes) =
        some trace ∧ AllDispatched trace ∧
      (SessionsLe (atLeastOne maxCocurrentHost) trace ↔
        Spaced (atLeastOne maxCocurrentHost) (opens session nodes) nodes.length) := by
  obtain ⟨s, hs, hi, k, hk⟩ := @rounds_collectRound session oidOnlyConfList nodes _
    (atLeastOne_pos maxCocurrentHost)
  have hlen : (nodeConfList nodes).length - 1 = nodes.length := by simp [nodeConfList]
  have hbound := hk.bound
  rw [hi] at hbound
  rw [collectMib, hs, Option.map_some, hlen]
  split
  · have hzero := @pending_flush _ Event.isOpened Event.isDispatcher s.trace .dispatcher rfl
    obtain ⟨hall, hclose⟩ := closeOutput_of_pending hzero
    exact ⟨_, rfl, hall, hclose.trans ((pendingLe_flush rfl).trans hbound)⟩
  · rename_i hj
    have hpast : s.i ≤ atLeastOne maxCocurrentHost * k := by
      have hj_le := hk.j_le
      omega
    -- the dispatcher has been run behind the last node
    have hzero := hk.pending
    rw [sessionsIn_of_le hpast] at hzero
    obtain ⟨hall, hclose⟩ := closeOutput_of_pending hzero
    rw [List.append_nil]
    exact ⟨_, rfl, hall, hclose.trans hbound⟩

/-- Four nodes, of which the second one gets no session. -/
def fourNodes : List Node := List.replicate 4 ⟨lit "10.0.0.1", lit "public", lit "161"⟩

def secondFails (i : Nat) (_ : Node) : Option Str := if i = 2 then some (lit "no session") else none

/-- Of four nodes, two at a time, three get a session before the dispatcher is run. -/
theorem not_sessionsLe_secondFails :
    ∃ trace, collectMib secondFails (some 2) [] (nodeConfList fourNodes) = some trace ∧
      ¬ SessionsLe 2 trace := by
  refine ⟨_, rfl, fun hle => ?_⟩
  exact absurd (hle _ (List.take_prefix 7 _)) (by decide +kernel)

end Realwork.Snmp.Mib
