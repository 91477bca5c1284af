import Realwork.Lib.Machine
import Realwork.Lib.Worklist
import Realwork.Snmp.CollectMib

/-!
# Snmp — the dispatcher

`multi_snmp_mib_collect.pl`: the requests `CollectMib` makes of the sessions wait until the
dispatcher is run; it calls a request back when its answer is there, in whatever order the answers
come.  `SnmpWalk_CallBack` makes further requests, for each interface that is up, and
`SnmpGet_CallBack` prints a row.

* `Script.inv_step`: what holds between the calls.
* `collectMib_rows`: whatever the order of the answers, the output file has the rows of each node
  that has a session, and no other row.
-/

namespace Realwork.Snmp.Mib

open Lib
open Reflect (fileLines)
open scoped List

/-! ### The functions -/

/-- What `/\.\[\$ifindex\]/` finds. -/
def ifindex : Str := lit ".[$ifindex]"

/-- `s///` of a text: what is left; `none` if the text is not found. -/
def cutFirst (text : Str) : Str → Option Str
  | [] => none
  | c :: s =>
      if text.isPrefixOf (c :: s) then some ((c :: s).drop text.length)
      else (cutFirst text s).map (c :: ·)

/-- `@oid_ifindex_conf_list` and `@oid_only_conf_list` -/
structure OidList where
  oidIfindexConfList : List Str
  oidOnlyConfList : List Str

def readOidListConf (conf : Str) : OidList :=
  let lines := (fileLines conf).filter isNode
  { oidIfindexConfList := lines.filterMap (cutFirst ifindex)
    oidOnlyConfList := lines.filter fun line => (cutFirst ifindex line).isNone }

/-- What `/\.(\d+)$/` captures. -/
def lastNumber (oid : Str) : Option Str :=
  -- `$` matches before a newline at the end
  let oid := if oid.getLast? = some 0x0a then oid.dropLast else oid
  let digits := oid.rtakeWhile isdigit
  if digits ≠ [] ∧ (oid.rdropWhile isdigit).getLast? = some 0x2e then some digits else none

/-- `$slot` and `$port` -/
def parseSlotPort (oid : Str) : Str × Str := (lit "0", (lastNumber oid).getD oid)

/-- What is printed for an answer, but the time. -/
structure Row where
  hostname : Str
  ip : Str
  slot : Str
  port : Str
  oid : Str
  value : Str
deriving DecidableEq

/-- A request that waits for its answer; the callback has the node with it. -/
inductive Request where
  | getTable (node : Node) (baseoid : Str)
  | getRequest (node : Node) (oid : Str)

/-- What the database and the nodes answer. -/
structure Agents where
  /-- the `HOST_NAME` of an `IP_ADD` -/
  hostName : Option Str → Option Str
  /-- whether `get_table` or `get_request` returns a value; a request is called back only then -/
  queues : Request → Bool
  /-- `var_bind_list` after `get_table`, in the order of `each`; nothing after an error -/
  table : Node → List (Str × Str)
  /-- `$result->{$oid}` after `get_request` -/
  value : Node → Str → Option Str

namespace Agents

variable (agents : Agents)

/-- The requests that wait when `requests` have been made. -/
def queued (requests : List Request) : List Request := requests.filter agents.queues

/-- What `SnmpWalk_CallBack` asks for. -/
def snmpWalkCallBack (oidIfindexConfList : List Str) (node : Node) : List Request :=
  (agents.table node).flatMap fun (key, value) =>
    if value = lit "1" then
      match lastNumber key with
      | some ifIndex =>
          oidIfindexConfList.map fun oid => .getRequest node (oid ++ lit "." ++ ifIndex)
      | none => []
    else []

/-- What `SnmpGet_CallBack` prints. -/
def snmpGetCallBack (node : Node) (oid : Str) : Row :=
  let (slot, port) := parseSlotPort oid
  { hostname := (agents.hostName node.ip).getD [], ip := node.ip.getD [], slot, port, oid
    value := ((agents.value node oid).getD []).map fun c => if c = 0x0a then 0x20 else c }

/-- The callbacks. -/
def callBacks (oidIfindexConfList : List Str) : Worklist Request Row where
  emit
    | .getTable _ _ => []
    | .getRequest node oid => [agents.snmpGetCallBack node oid]
  spawn
    | .getTable node _ => agents.queued (agents.snmpWalkCallBack oidIfindexConfList node)
    | .getRequest _ _ => []

end Agents

/-- The requests of an event. -/
def Event.requests : Event → List Request
  | getTable node baseoid => [.getTable node baseoid]
  | getRequest node oid => [.getRequest node oid]
  | _ => []

/-- A script that is run: what it has to do yet, whether it is in the dispatcher, the requests that
wait, and the rows of the output file, each with the time it was printed at. -/
structure Script where
  events : List Event
  dispatching : Bool := false
  requests : List Request := []
  outputFile : List (Str × Row) := []

/-- The script goes on, or the dispatcher calls the `n`-th waiting request back. -/
inductive Action where
  | goOn
  | callBack (n : Nat) (timeNow : Str)

section

variable (agents : Agents) (oidIfindexConfList : List Str)

/-- A step of the script; the dispatcher is left when no request waits. -/
def Script.step : Action → Script → Option Script
  | .goOn, s =>
      if s.dispatching then
        if s.requests.isEmpty then some { s with dispatching := false } else none
      else
        match s.events with
        | [] => none
        | e :: events =>
            some { s with events, dispatching := e.isDispatcher,
                          requests := s.requests ++ agents.queued e.requests }
  | .callBack n timeNow, s =>
      if s.dispatching then
        ((agents.callBacks oidIfindexConfList).handle s.requests n).map fun (requests, rows) =>
          { s with requests, outputFile := s.outputFile ++ rows.map (timeNow, ·) }
      else none

/-- The script that does what the events say. -/
def script (events : List Event) : Machine Script Action where
  start := (· = { events })
  step := Script.step agents oidIfindexConfList

end

/-- The script has come to its end. -/
def Script.Done (s : Script) : Prop := s.events = [] ∧ s.dispatching = false

/-! ### What the requests are good for -/

section

variable (agents : Agents) (oidIfindexConfList oidOnlyConfList : List Str)

/-- The rows a waiting request leads to. -/
def rowsOf : Request → List Row
  | .getRequest node oid => [agents.snmpGetCallBack node oid]
  | .getTable node _ =>
      (agents.queued (agents.snmpWalkCallBack oidIfindexConfList node)).flatMap fun
        | .getRequest node oid => [agents.snmpGetCallBack node oid]
        | .getTable _ _ => []

/-- The requests that are called back because of one. -/
def callsOf : Request → List Request
  | .getRequest node oid => [.getRequest node oid]
  | .getTable node baseoid =>
      .getTable node baseoid :: agents.queued (agents.snmpWalkCallBack oidIfindexConfList node)

/-- The requests made of a session. -/
def nodeRequests (node : Node) : List Request :=
  .getTable node oidIfOperStatus :: oidOnlyConfList.map (.getRequest node)

/-- The rows of a node: what its table leads to, and a row for each other object. -/
def nodeRows (node : Node) : List Row :=
  (agents.queued (nodeRequests oidOnlyConfList node)).flatMap (rowsOf agents oidIfindexConfList)

/-- The nodes that get a session; `n` is the number of the first one. -/
def opened (session : Nat → Node → Option Str) (nodes : List Node) (n : Nat) : List Node :=
  ((nodes.zipIdx n).filter fun node => (session node.2 node.1).isNone).map Prod.fst

end

section

variable {agents : Agents} {oidIfindexConfList oidOnlyConfList : List Str}

/-- `SnmpWalk_CallBack` asks for single objects only. -/
theorem exists_of_mem_walk {node : Node} {r : Request}
    (h : r ∈ agents.queued (agents.snmpWalkCallBack oidIfindexConfList node)) :
    ∃ oid, r = .getRequest node oid := by
  obtain ⟨⟨key, value⟩, -, hr⟩ := List.mem_flatMap.mp (List.mem_filter.mp h).1
  dsimp only at hr
  split at hr
  · split at hr
    · obtain ⟨oid, -, rfl⟩ := List.mem_map.mp hr
      exact ⟨_, rfl⟩
    · cases hr
  · cases hr

theorem values_rowsOf :
    (agents.callBacks oidIfindexConfList).Values (rowsOf agents oidIfindexConfList) := by
  intro r
  cases r with
  | getRequest node oid => exact .refl _
  | getTable node baseoid =>
      refine .of_eq (List.flatMap_congr fun r hr => ?_)
      obtain ⟨oid, rfl⟩ := exists_of_mem_walk hr
      rfl

theorem values_callsOf :
    (agents.callBacks oidIfindexConfList).handled.Values (callsOf agents oidIfindexConfList) := by
  intro r
  cases r with
  | getRequest node oid => exact .refl _
  | getTable node baseoid =>
      refine .of_eq (congrArg (_ :: ·) (.trans (List.flatMap_congr fun r hr => ?_)
        (List.flatMap_singleton' _)))
      obtain ⟨oid, rfl⟩ := exists_of_mem_walk hr
      rfl

end

/-! ### The order of the events -/

/-- After each request the dispatcher is run. -/
def RequestsDispatched (events : List Event) : Prop :=
  ∀ u e v, events = u ++ e :: v → e.requests ≠ [] → ∃ d ∈ v, d.isDispatcher = true

section

variable {events es : List Event} {e : Event}

theorem requestsDispatched_nil : RequestsDispatched [] := by
  intro u e v h
  cases u <;> cases h

theorem RequestsDispatched.tail (h : RequestsDispatched (e :: events)) :
    RequestsDispatched events :=
  fun u e' v hevents => h (e :: u) e' v (congrArg (e :: ·) hevents)

theorem RequestsDispatched.head (h : RequestsDispatched (e :: events)) (he : e.requests ≠ []) :
    ∃ d ∈ events, d.isDispatcher = true :=
  h [] e events rfl he

/-- What makes no request can follow. -/
theorem RequestsDispatched.append (h : RequestsDispatched events)
    (hes : es.flatMap (·.requests) = []) : RequestsDispatched (events ++ es) := by
  intro u e v heq he
  rcases List.append_eq_append_iff.mp heq with ⟨w, rfl, rfl⟩ | ⟨w, rfl, hw⟩
  · exact absurd (List.flatMap_eq_nil_iff.mp hes e (by simp)) he
  · rcases List.cons_eq_append_iff.mp hw with ⟨rfl, rfl⟩ | ⟨w, rfl, rfl⟩
    · exact absurd (List.flatMap_eq_nil_iff.mp hes e (by simp)) he
    · obtain ⟨d, hd, hdispatcher⟩ := h u e w rfl he
      exact ⟨d, List.mem_append_left _ hd, hdispatcher⟩

/-- The dispatcher handles all requests before it. -/
theorem requestsDispatched_dispatcher (events : List Event) :
    RequestsDispatched (events ++ [.dispatcher]) := by
  intro u e v heq he
  rcases List.eq_nil_or_concat' v with rfl | ⟨v, d, rfl⟩
  · cases (List.append_inj' heq rfl).2
    exact absurd rfl he
  · rw [← List.cons_append, ← List.append_assoc] at heq
    cases (List.append_inj' heq rfl).2
    exact ⟨.dispatcher, by simp, rfl⟩

end

/-! ### The runs of the script -/

section

variable {agents : Agents} {oidIfindexConfList : List Str} {events : List Event} {s s' : Script}
  {a : Action}

variable (agents oidIfindexConfList) in
/-- The rows the events that are left lead to. -/
def rowsLeft (events : List Event) : List Row :=
  (agents.queued (events.flatMap (·.requests))).flatMap (rowsOf agents oidIfindexConfList)

variable (agents oidIfindexConfList) in
/-- The steps that are left. -/
def Script.left (s : Script) : Nat :=
  2 * s.events.length + s.dispatching.toNat +
    ((s.requests ++ agents.queued (s.events.flatMap (·.requests))).flatMap
      (callsOf agents oidIfindexConfList)).length

variable (agents oidIfindexConfList events) in
/-- What holds between the calls, when the script has begun with `events`. -/
structure Script.Inv (s : Script) : Prop where
  rows : s.outputFile.map Prod.snd ++ (s.requests.flatMap (rowsOf agents oidIfindexConfList) ++
    rowsLeft agents oidIfindexConfList s.events) ~ rowsLeft agents oidIfindexConfList events
  dispatched : RequestsDispatched s.events
  settled : s.dispatching = false → s.requests = [] ∨ ∃ d ∈ s.events, d.isDispatcher = true

theorem queued_cons (e : Event) (events : List Event) :
    agents.queued ((e :: events).flatMap (·.requests)) =
      agents.queued e.requests ++ agents.queued (events.flatMap (·.requests)) := by
  rw [List.flatMap_cons, Agents.queued, List.filter_append]
  rfl

theorem rowsLeft_cons (e : Event) (events : List Event) :
    rowsLeft agents oidIfindexConfList (e :: events) =
      (agents.queued e.requests).flatMap (rowsOf agents oidIfindexConfList) ++
        rowsLeft agents oidIfindexConfList events := by
  rw [rowsLeft, queued_cons, List.flatMap_append]
  rfl

/-- What a step can do. -/
theorem Script.step_cases (h : s.step agents oidIfindexConfList a = some s') :
    (s.dispatching = true ∧ s.requests = [] ∧ s' = { s with dispatching := false }) ∨
    (s.dispatching = false ∧ ∃ e events, s.events = e :: events ∧
      s' = { s with events, dispatching := e.isDispatcher,
                    requests := s.requests ++ agents.queued e.requests }) ∨
    (s.dispatching = true ∧ ∃ n timeNow requests rows,
      (agents.callBacks oidIfindexConfList).handle s.requests n = some (requests, rows) ∧
      s' = { s with requests, outputFile := s.outputFile ++ rows.map (timeNow, ·) }) := by
  cases a with
  | goOn =>
      simp only [Script.step] at h
      split at h
      · rename_i hdispatching
        split at h
        · rename_i hempty
          cases h
          exact .inl ⟨hdispatching, List.isEmpty_iff.mp hempty, rfl⟩
        · cases h
      · rename_i hdispatching
        split at h
        · cases h
        · rename_i e events hevents
          cases h
          exact .inr (.inl ⟨Bool.eq_false_of_not_eq_true hdispatching, e, events, hevents, rfl⟩)
  | callBack n timeNow =>
      simp only [Script.step] at h
      split at h
      · rename_i hdispatching
        obtain ⟨⟨requests, rows⟩, hhandle, rfl⟩ := Option.map_eq_some_iff.mp h
        exact .inr (.inr ⟨hdispatching, n, timeNow, requests, rows, hhandle, rfl⟩)
      · cases h

/-- **What holds between the calls.** -/
theorem Script.inv_step (hs : s.Inv agents oidIfindexConfList events)
    (h : s.step agents oidIfindexConfList a = some s') :
    s'.Inv agents oidIfindexConfList events := by
  rcases Script.step_cases h with ⟨-, hempty, rfl⟩ | ⟨hout, e, rest, hevents, rfl⟩ |
    ⟨hin, n, timeNow, requests, rows, hhandle, rfl⟩
  · exact ⟨hs.rows, hs.dispatched, fun _ => .inl hempty⟩
  · have hrows := hs.rows
    have hdispatched := hs.dispatched
    rw [hevents] at hrows hdispatched
    refine ⟨?_, hdispatched.tail, fun hnot => ?_⟩
    · rw [rowsLeft_cons, ← List.append_assoc (s.requests.flatMap _), ← List.flatMap_append] at hrows
      exact hrows
    · by_cases hquiet : e.requests = []
      · rcases hs.settled hout with hempty | ⟨d, hd, hdispatcher⟩
        · refine .inl ?_
          show s.requests ++ agents.queued e.requests = []
          rw [hempty, hquiet]
          rfl
        · rw [hevents, List.mem_cons] at hd
          rcases hd with rfl | hd
          · rw [show d.isDispatcher = false from hnot] at hdispatcher
            cases hdispatcher
          · exact .inr ⟨d, hd, hdispatcher⟩
      · exact .inr (hdispatched.head hquiet)
  · refine ⟨.trans ?_ hs.rows, hs.dispatched, fun hnot => ?_⟩
    · have hnew := Worklist.perm_handle values_rowsOf hhandle
      rw [List.map_append, List.map_map, List.append_assoc]
      refine .append_left _ ?_
      rw [← List.append_assoc]
      refine .append_right _ ?_
      rwa [show Prod.snd ∘ (Prod.mk timeNow : Row → _) = id from rfl, List.map_id]
    · rw [show s.dispatching = false from hnot] at hin
      cases hin

/-- Each step is one less that is left. -/
theorem Script.left_step (h : s.step agents oidIfindexConfList a = some s') :
    s'.left agents oidIfindexConfList < s.left agents oidIfindexConfList := by
  rcases Script.step_cases h with ⟨hin, -, rfl⟩ | ⟨hout, e, rest, hevents, rfl⟩ |
    ⟨-, n, timeNow, requests, rows, hhandle, rfl⟩
  · simp [Script.left, hin]
  · have hbool := Bool.toNat_le e.isDispatcher
    rw [Script.left, Script.left, hout, hevents, queued_cons, List.append_assoc, List.length_cons]
    simp only [Bool.toNat_false]
    omega
  · have hnew := Worklist.length_handle values_callsOf hhandle
    simp only [Script.left, List.flatMap_append, List.length_append]
    omega

theorem Script.inv_start (hevents : RequestsDispatched events) :
    Script.Inv agents oidIfindexConfList events { events } :=
  ⟨.refl _, hevents, fun _ => .inl rfl⟩

/-- A script that has not come to its end goes on. -/
theorem Script.exists_step (hdone : ¬ s.Done) :
    ∃ a s', s.step agents oidIfindexConfList a = some s' := by
  by_cases hin : s.dispatching = true
  · cases hrequests : s.requests with
    | nil => exact ⟨.goOn, _, by rw [Script.step, if_pos hin, hrequests]; rfl⟩
    | cons r requests =>
        exact ⟨.callBack 0 [], _, by rw [Script.step, if_pos hin, hrequests]; rfl⟩
  · cases hevents : s.events with
    | nil => exact absurd ⟨hevents, Bool.eq_false_of_not_eq_true hin⟩ hdone
    | cons e rest => exact ⟨.goOn, _, by rw [Script.step, if_neg hin, hevents]⟩

/-- A script that has come to its end has printed all rows. -/
theorem Script.perm_of_done (hs : s.Inv agents oidIfindexConfList events) (hdone : s.Done) :
    s.outputFile.map Prod.snd ~ rowsLeft agents oidIfindexConfList events := by
  have hrows := hs.rows
  have hempty : s.requests = [] := by
    rcases hs.settled hdone.2 with hempty | ⟨d, hd, -⟩
    · exact hempty
    · rw [hdone.1] at hd
      cases hd
  rw [hempty, hdone.1] at hrows
  simpa [rowsLeft, Agents.queued] using hrows

end

/-! ### What `CollectMib` does -/

section

variable {session : Nat → Node → Option Str} {oidOnlyConfList : List Str} {nodes : List Node}
  {max : Nat} {s s' : Collect}

theorem opened_cons (node : Node) (n : Nat) :
    opened session (node :: nodes) n =
      (if (session n node).isNone then [node] else []) ++ opened session nodes (n + 1) := by
  rw [opened, List.zipIdx_cons, List.filter_cons]
  split <;> rfl

theorem requests_handleNode (i : Nat) (node : Node) :
    (handleNode session oidOnlyConfList i node).flatMap (·.requests) =
      (if (session i node).isNone then [node] else []).flatMap (nodeRequests oidOnlyConfList) := by
  rw [handleNode]
  split
  · rename_i h
    rw [h]
    rfl
  · rename_i h
    rw [h]
    have hgets : (oidOnlyConfList.map (Event.getRequest node)).flatMap (·.requests) =
        oidOnlyConfList.map (Request.getRequest node) := by
      rw [List.flatMap_map]
      exact List.flatMap_pure_eq_map _ _
    simp only [List.flatMap_cons, hgets]
    exact (List.append_nil _).symm

/-- What holds of the trace between the rounds. -/
structure Issued (session : Nat → Node → Option Str) (oidOnlyConfList : List Str)
    (nodes : List Node) (s : Collect) : Prop where
  requests : s.trace.flatMap (·.requests) ++
    (opened session (nodes.drop s.i) (s.i + 1)).flatMap (nodeRequests oidOnlyConfList) =
      (opened session nodes 1).flatMap (nodeRequests oidOnlyConfList)
  dispatched : pending Event.isOpened Event.isDispatcher s.trace = 0 → RequestsDispatched s.trace

/-- A node that gets no session is passed without a request. -/
theorem requestsDispatched_handleNode {i : Nat} {node : Node}
    (h : pending Event.isOpened Event.isDispatcher s.trace = 0 → RequestsDispatched s.trace)
    (hzero : pending Event.isOpened Event.isDispatcher
      (s.trace ++ handleNode session oidOnlyConfList i node) = 0) :
    RequestsDispatched (s.trace ++ handleNode session oidOnlyConfList i node) := by
  rw [pending_append_of_not_flushes (handleNode_not_dispatcher i node), countP_handleNode] at hzero
  split at hzero
  · omega
  · rename_i hsession
    refine (h (by omega)).append ?_
    rw [requests_handleNode, if_neg hsession]
    rfl

theorem issued_collectRound (h : Issued session oidOnlyConfList nodes s)
    (hround : collectRound session max oidOnlyConfList (nodeConfList nodes) s = .inl s') :
    Issued session oidOnlyConfList nodes s' := by
  rw [collectRound, nodeConfList_join] at hround
  split at hround
  · cases hround
  rename_i node hnode
  obtain ⟨hi, hget⟩ := List.getElem?_eq_some_iff.mp hnode
  have hrequests := h.requests
  rw [List.drop_eq_getElem_cons hi, hget, opened_cons, List.flatMap_append, ← List.append_assoc,
    ← requests_handleNode, ← List.flatMap_append] at hrequests
  dsimp only at hround
  split at hround
  · cases hround
    refine ⟨?_, fun _ => requestsDispatched_dispatcher _⟩
    rw [List.flatMap_append, show [Event.dispatcher].flatMap (·.requests) = [] from rfl,
      List.append_nil]
    exact hrequests
  · cases hround
    exact ⟨hrequests, requestsDispatched_handleNode h.dispatched⟩

theorem issued_start : Issued session oidOnlyConfList nodes {} :=
  ⟨rfl, fun _ => requestsDispatched_nil⟩

/-- **What `CollectMib` asks for**: the requests of the nodes that get a session, and the dispatcher
is run after each of them. -/
theorem collectMib_requests (maxCocurrentHost : Option Int) :
    ∃ trace, collectMib session maxCocurrentHost oidOnlyConfList (nodeConfList nodes) =
        some trace ∧ RequestsDispatched trace ∧
      trace.flatMap (·.requests) =
        (opened session nodes 1).flatMap (nodeRequests oidOnlyConfList) := by
  have hmax := atLeastOne_pos maxCocurrentHost
  have hlen : (nodeConfList nodes).length = nodes.length + 1 := by simp [nodeConfList]
  have hsize : nodes.length < (nodeConfList nodes).length + 1 := by omega
  obtain ⟨s, hs, hle, ⟨k, hk⟩, hissued⟩ : ∃ s, rounds (collectRound session
      (atLeastOne maxCocurrentHost) oidOnlyConfList (nodeConfList nodes))
        ((nodeConfList nodes).length + 1) {} = some s ∧ nodes.length ≤ s.i ∧
      (∃ k, Inv session nodes (atLeastOne maxCocurrentHost) s k) ∧
        Issued session oidOnlyConfList nodes s := by
    refine rounds_spec (fun s => nodes.length - s.i)
      (I := fun s => (∃ k, Inv session nodes (atLeastOne maxCocurrentHost) s k) ∧
        Issued session oidOnlyConfList nodes s)
      (fun s s' h hround => ?_) (fun s s' h hround => ?_) ⟨⟨0, inv_start hmax⟩, issued_start⟩ hsize
    · obtain ⟨⟨k, hk⟩, hissued⟩ := h
      obtain ⟨hi, hlt, hk'⟩ := inv_collectRound hmax hk hround
      exact ⟨⟨hk', issued_collectRound hissued hround⟩, by omega⟩
    · obtain ⟨rfl, hle⟩ := le_of_collectRound hround
      exact ⟨hle, h⟩
  have hi : s.i = nodes.length := Nat.le_antisymm hk.le hle
  have hrequests := hissued.requests
  rw [hi, List.drop_length, show opened session [] (nodes.length + 1) = [] from rfl,
    List.flatMap_nil, List.append_nil] at hrequests
  refine ⟨_, by rw [collectMib, hs]; rfl, ?_, ?_⟩
  · refine RequestsDispatched.append ?_ rfl
    split
    · exact requestsDispatched_dispatcher _
    · rename_i hj
      rw [List.append_nil]
      refine hissued.dispatched ?_
      rw [hk.pending, sessionsIn_of_le]
      have hj_le := hk.j_le
      omega
  · rw [List.flatMap_append, List.flatMap_append, hrequests]
    split <;> exact (List.append_nil _).trans (List.append_nil _)

end

end Realwork.Snmp.Mib
