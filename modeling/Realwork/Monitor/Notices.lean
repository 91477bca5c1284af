import Realwork.Lib.Changes
import Realwork.Monitor.Coalesce
import Realwork.Monitor.ProcessWatcher

/-!
# Monitor — the notices

`ProcessWatcher::Run`: a round polls the receive process and the reflect process, and has a command
executed for each whose status is not the one of the round before; the first rounds compare with
`PROCESS_STATUS_DUMMY`.  The thread ends when a process can not be polled.

* `Watched.round`: what a round does.
* `files_run`: what has been executed after any number of rounds.
* `procStatusMsg_inj`: the command tells the status and the time.
-/

namespace Realwork.Monitor

open Realwork.Lib Realwork.Common

/-! ### Polling -/

/-- `IsProcessStarted`, on what `fuser` prints; `none` if `popen` fails. -/
def isProcessStarted (output : Option Str) : Int :=
  match output with
  | none => -1
  | some output =>
      let buf := takeLine newline lineBuffSize output
      if buf = [] then 0
      else if bufferedLine buf ≠ [] then atoi (bufferedLine buf) else 0

/-- What a process is polled for. -/
structure Answer where
  stopSignal : Bool
  output : Option Str

def Answer.callRet (answer : Answer) : Int := isProcessStarted answer.output

/-! ### Commands -/

inductive Process where
  | recv
  | refl
deriving DecidableEq

/-- The names `AoSender::Initialize` is called with. -/
structure AoNames where
  recvOcName : Str
  recvAoId : Str
  reflOcName : Str
  reflAoId : Str

/-- `[作業リアル1] ` -/
def work1 : Str :=
  lit "[" ++ [0x8d, 0xec, 0x8b, 0xc6, 0x83, 0x8a, 0x83, 0x41, 0x83, 0x8b] ++ lit "1] "

/-- ` 受信書き込みプロセス：` -/
def recvProcess : Str :=
  lit " " ++ [0x8e, 0xf3, 0x90, 0x4d, 0x8f, 0x91, 0x82, 0xab, 0x8d, 0x9e, 0x82, 0xdd, 0x83, 0x76,
    0x83, 0x8d, 0x83, 0x5a, 0x83, 0x58, 0x81, 0x46]

/-- ` 実績反映プロセス：` -/
def reflProcess : Str :=
  lit " " ++ [0x8e, 0xc0, 0x90, 0xd1, 0x94, 0xbd, 0x89, 0x66, 0x83, 0x76, 0x83, 0x8d, 0x83, 0x5a,
    0x83, 0x58, 0x81, 0x46]

/-- `起動` -/
def started : Str := [0x8b, 0x4e, 0x93, 0xae]

/-- `停止処理中` -/
def stopping : Str := [0x92, 0xe2, 0x8e, 0x7e, 0x8f, 0x88, 0x97, 0x9d, 0x92, 0x86]

/-- `停止` -/
def stopped : Str := [0x92, 0xe2, 0x8e, 0x7e]

/-- `GetProcStatusMsg`; what stands before and behind the time is the format. -/
def getProcStatusMsg (fmt : Str × Str) (ocName aoId aoEventTime : Str) : Str :=
  lit "set oper " ++ ocName ++ lit " alarm " ++ aoId ++ lit " additional text=\"" ++ fmt.1 ++
    aoEventTime ++ fmt.2 ++ lit "\""

namespace AoNames

variable (names : AoNames) (makeAoEventTime : Str)

def getRecvStartedMsg : Str :=
  getProcStatusMsg (work1, recvProcess ++ started) names.recvOcName names.recvAoId makeAoEventTime

def getRecvStoppingMsg : Str :=
  getProcStatusMsg (work1, recvProcess ++ stopping) names.recvOcName names.recvAoId makeAoEventTime

def getRecvStoppedMsg : Str :=
  getProcStatusMsg (work1, recvProcess ++ stopped) names.recvOcName names.recvAoId makeAoEventTime

def getReflStartedMsg : Str :=
  getProcStatusMsg (work1, reflProcess ++ started) names.reflOcName names.reflAoId makeAoEventTime

def getReflStoppingMsg : Str :=
  getProcStatusMsg (work1, reflProcess ++ stopping) names.reflOcName names.reflAoId makeAoEventTime

def getReflStoppedMsg : Str :=
  getProcStatusMsg (work1, reflProcess ++ stopped) names.reflOcName names.reflAoId makeAoEventTime

/-- The command about a process that has got a status. -/
def msg (process : Process) (status : ProcessStatus) : Str :=
  match process with
  | .recv =>
      match status with
      | .started => names.getRecvStartedMsg makeAoEventTime
      | .stopping => names.getRecvStoppingMsg makeAoEventTime
      | _ => names.getRecvStoppedMsg makeAoEventTime
  | .refl =>
      match status with
      | .started => names.getReflStartedMsg makeAoEventTime
      | .stopping => names.getReflStoppingMsg makeAoEventTime
      | _ => names.getReflStoppedMsg makeAoEventTime

end AoNames

theorem append_cancel_of_length {u v x y : Str} (hlen : x.length = y.length) :
    x ++ u = y ++ v ↔ x = y ∧ u = v :=
  ⟨fun h => List.append_inj h hlen, fun ⟨hx, hu⟩ => by rw [hx, hu]⟩

/-- **A command tells** the status and the time, of which all have the same length. -/
theorem procStatusMsg_inj (names : AoNames) (process : Process) {time time' : Str}
    (hlen : time.length = time'.length) {status status' : ProcessStatus}
    (h : status ≠ .error) (h' : status' ≠ .error) :
    names.msg time process status = names.msg time' process status' ↔
      status = status' ∧ time = time' := by
  have hquote : lit "\"" = [0x22] := rfl
  cases process <;> cases status <;> cases status' <;>
    simp_all [AoNames.msg, AoNames.getRecvStartedMsg, AoNames.getRecvStoppingMsg,
      AoNames.getRecvStoppedMsg, AoNames.getReflStartedMsg, AoNames.getReflStoppingMsg,
      AoNames.getReflStoppedMsg, getProcStatusMsg, append_cancel_of_length hlen, recvProcess,
      reflProcess, started, stopping, stopped]

/-! ### The loop -/

/-- What a round finds: the answers, and the times at which commands are made. -/
structure Round where
  recv : Answer
  refl : Answer
  recvTime : Str
  reflTime : Str

/-- What the thread does. -/
inductive WatcherAction where
  | sendAo (process : Process) (aoCmdContainer : AoCommandContainer)
  | sleep
  | exitAbnormal

/-- The variables of `Run`; a flag is `none` while it is `PROCESS_STATUS_DUMMY`. -/
structure ProcWatcher where
  recvRunFlagOld : Option ProcessStatus := none
  reflRunFlagOld : Option ProcessStatus := none
  recvProc : ProcState := {}
  reflProc : ProcState := {}
  exited : Bool := false
  actions : List WatcherAction := []

/-- The container with one common command. -/
def commonCmd (cmdContent : Str) : AoCommandContainer :=
  { commonCmdVector := [{ type := .common, cmdContent }] }

/-- The command that is sent if the status has changed. -/
def notice (names : AoNames) (process : Process) (runFlagOld : Option ProcessStatus)
    (runFlagNew : ProcessStatus) (time : Str) : List WatcherAction :=
  if some runFlagNew ≠ runFlagOld then
    [.sendAo process (commonCmd (names.msg time process runFlagNew))]
  else []

/-- A round of the loop. -/
def ProcWatcher.round (names : AoNames) (s : ProcWatcher) (r : Round) : ProcWatcher :=
  if s.exited then s
  else
    let (recvRunFlagNew, recvProc) :=
      getProcessStatus r.recv.stopSignal r.recv.callRet s.recvProc
    if recvRunFlagNew = .error then
      { s with recvProc, exited := true, actions := s.actions ++ [.exitAbnormal] }
    else
      let actions := s.actions ++ notice names .recv s.recvRunFlagOld recvRunFlagNew r.recvTime
      let (reflRunFlagNew, reflProc) :=
        getProcessStatus r.refl.stopSignal r.refl.callRet s.reflProc
      if reflRunFlagNew = .error then
        { s with recvProc, reflProc, exited := true, actions := actions ++ [.exitAbnormal] }
      else
        let actions := actions ++ notice names .refl s.reflRunFlagOld reflRunFlagNew r.reflTime
        { s with
          recvRunFlagOld := some recvRunFlagNew
          reflRunFlagOld := some reflRunFlagNew
          recvProc
          reflProc
          actions := actions ++
            if some recvRunFlagNew = s.recvRunFlagOld ∧ some reflRunFlagNew = s.reflRunFlagOld then
              [.sleep]
            else [] }

/-- The thread after the rounds. -/
def ProcWatcher.run (names : AoNames) (rounds : List Round) : ProcWatcher :=
  rounds.foldl (ProcWatcher.round names) {}

/-- The files that have been executed about a process. -/
def ProcWatcher.files (s : ProcWatcher) (process : Process) : List Str :=
  s.actions.filterMap fun
    | .sendAo process' aoCmdContainer =>
        if process' = process then some aoCmdContainer.makeTmpAoFile else none
    | _ => none

/-! ### What the processes have done -/

/-- The poll of an answer that is no error. -/
def Answer.poll (answer : Answer) : Poll := ⟨answer.stopSignal, answer.callRet.toNat⟩

/-- The status the poll `p` shows after `past`. -/
def historyStatus (past : List Poll) (p : Poll) : ProcessStatus :=
  if p.pid = 0 then .stopped else if StopSeen (past ++ [p]) p.pid then .stopping else .started

/-- The statuses the polls show, with the times. -/
def history : List Poll → List (Poll × Str) → List (ProcessStatus × Str)
  | _, [] => []
  | past, (p, time) :: polls => (historyStatus past p, time) :: history (past ++ [p]) polls

/-- `fuser` has answered, with a pid or none. -/
def Answer.Known (answer : Answer) : Prop := 0 ≤ answer.callRet

instance (answer : Answer) : Decidable answer.Known := inferInstanceAs (Decidable (0 ≤ _))

/-- The rounds before one that fails. -/
def completed (rounds : List Round) : List Round :=
  rounds.takeWhile fun r => r.recv.Known ∧ r.refl.Known

/-- The round that fails, if the receive process has been polled in it. -/
def halfCompleted (rounds : List Round) : List Round :=
  ((rounds.drop (completed rounds).length).take 1).filter fun r => r.recv.Known

/-- The polls of a process, each with the time a command about it is made. -/
def polls (process : Process) (rounds : List Round) : List (Poll × Str) :=
  match process with
  | .recv => (completed rounds ++ halfCompleted rounds).map fun r => (r.recv.poll, r.recvTime)
  | .refl => (completed rounds).map fun r => (r.refl.poll, r.reflTime)

/-- The file of a command about a process. -/
def noticeFile (names : AoNames) (process : Process) (status : ProcessStatus × Str) : Str :=
  (commonCmd (names.msg status.2 process status.1)).makeTmpAoFile

/-! ### Statuses -/

theorem history_concat (past : List Poll) (polls : List (Poll × Str)) (p : Poll) (time : Str) :
    history past (polls ++ [(p, time)]) =
      history past polls ++ [(historyStatus (past ++ polls.map Prod.fst) p, time)] := by
  induction polls generalizing past with
  | nil => rw [List.map_nil, List.append_nil]; rfl
  | cons q polls ih =>
      rw [List.cons_append, history, ih, history, List.map_cons, List.append_assoc]
      rfl

theorem getProcessStatus_eq_error {stopSignal : Bool} {callRet : Int} {s s' : ProcState}
    {status : ProcessStatus} (h : getProcessStatus stopSignal callRet s = (status, s')) :
    status = .error ↔ callRet = -1 := by
  grind [getProcessStatus]

theorem Answer.Known.ne_error {answer : Answer} (hknown : answer.Known) {s s' : ProcState}
    {status : ProcessStatus}
    (h : getProcessStatus answer.stopSignal answer.callRet s = (status, s')) :
    status ≠ .error := by
  rw [ne_eq, getProcessStatus_eq_error h]
  intro heq
  rw [Answer.Known, heq] at hknown
  exact absurd hknown (by decide)

/-- An answer that is not known is an error, if it is no number below. -/
theorem eq_error_of_not_known {answer : Answer} (hpid : -1 ≤ answer.callRet)
    (hknown : ¬ answer.Known) {s s' : ProcState} {status : ProcessStatus}
    (h : getProcessStatus answer.stopSignal answer.callRet s = (status, s')) :
    status = .error := by
  rw [getProcessStatus_eq_error h]
  rw [Answer.Known] at hknown
  omega

/-- The files among the actions. -/
def filesOf (process : Process) (actions : List WatcherAction) : List Str :=
  actions.filterMap fun
    | .sendAo process' aoCmdContainer =>
        if process' = process then some aoCmdContainer.makeTmpAoFile else none
    | _ => none

section

variable {names : AoNames} {process process' : Process} {runFlagOld : Option ProcessStatus}
  {status : ProcessStatus} {time : Str}

theorem filesOf_append (actions actions' : List WatcherAction) :
    filesOf process (actions ++ actions') = filesOf process actions ++ filesOf process actions' :=
  List.filterMap_append

theorem filesOf_notice :
    filesOf process (notice names process runFlagOld status time) =
      if runFlagOld = some status then [] else [noticeFile names process (status, time)] := by
  rw [notice]
  by_cases h : some status = runFlagOld
  · rw [if_neg (not_not.mpr h), if_pos h.symm]
    rfl
  · rw [if_pos h, if_neg (Ne.symm h)]
    simp [filesOf, noticeFile]

theorem filesOf_notice_of_ne (h : process' ≠ process) :
    filesOf process (notice names process' runFlagOld status time) = [] := by
  rw [notice]
  split <;> simp [filesOf, h]

variable (names process) in
/-- What a process has been polled for is what has been said about it. -/
structure Told (polls : List (Poll × Str)) (runFlagOld : Option ProcessStatus) (proc : ProcState)
    (files : List Str) : Prop where
  records : Records (polls.map Prod.fst) proc
  flag : runFlagOld = (history [] polls).getLast?.map Prod.fst
  files_eq : files = (changes Prod.fst (history [] polls)).map (noticeFile names process)

/-- **A poll more.** -/
theorem Told.poll (time : Str) {polls : List (Poll × Str)} {proc proc' : ProcState}
    {files : List Str} (h : Told names process polls runFlagOld proc files) {answer : Answer}
    (hknown : answer.Known)
    (hpoll : getProcessStatus answer.stopSignal answer.callRet proc = (status, proc')) :
    Told names process (polls ++ [(answer.poll, time)]) (some status) proc'
      (files ++ filesOf process (notice names process runFlagOld status time)) := by
  have hanswer : Monitor.poll proc answer.poll = (status, proc') := by
    rw [Monitor.poll, Answer.poll, Int.toNat_of_nonneg hknown, hpoll]
  obtain ⟨hrecords, hstatus⟩ := h.records.poll answer.poll
  rw [hanswer] at hrecords hstatus
  obtain rfl : status = historyStatus (polls.map Prod.fst) answer.poll := hstatus
  refine ⟨by rwa [List.map_append], ?_, ?_⟩
  · rw [history_concat, List.getLast?_concat]
    rfl
  · rw [history_concat, changes_concat, filesOf_notice, h.files_eq, h.flag, List.map_append,
      List.nil_append]
    split <;> rfl

/-! ### Rounds -/

theorem round_of_exited {s : ProcWatcher} (h : s.exited = true) (rounds : List Round) :
    rounds.foldl (ProcWatcher.round names) s = s := by
  induction rounds with
  | nil => rfl
  | cons r rounds ih => rw [List.foldl_cons, ProcWatcher.round, if_pos h, ih]

/-- What has been said about both processes. -/
structure ToldBoth (names : AoNames) (recvPolls reflPolls : List (Poll × Str)) (s : ProcWatcher) :
    Prop where
  recv : Told names .recv recvPolls s.recvRunFlagOld s.recvProc (s.files .recv)
  refl : Told names .refl reflPolls s.reflRunFlagOld s.reflProc (s.files .refl)
  exited : s.exited = false

theorem files_eq (s : ProcWatcher) : s.files process = filesOf process s.actions := rfl

theorem filesOf_quiet (actions : List WatcherAction) (p : Prop) [Decidable p] :
    filesOf process (actions ++ if p then [.sleep] else []) = filesOf process actions := by
  rw [filesOf_append]
  split <;> exact List.append_nil _

/-- **A round** in which both processes answer. -/
theorem ToldBoth.round {recvPolls reflPolls : List (Poll × Str)} {s : ProcWatcher} {r : Round}
    (h : ToldBoth names recvPolls reflPolls s) (hrecv : r.recv.Known) (hrefl : r.refl.Known) :
    ToldBoth names (recvPolls ++ [(r.recv.poll, r.recvTime)])
      (reflPolls ++ [(r.refl.poll, r.reflTime)]) (s.round names r) := by
  rcases hrecvPoll : getProcessStatus r.recv.stopSignal r.recv.callRet s.recvProc with
    ⟨recvRunFlagNew, recvProc⟩
  rcases hreflPoll : getProcessStatus r.refl.stopSignal r.refl.callRet s.reflProc with
    ⟨reflRunFlagNew, reflProc⟩
  have hrecvOk := hrecv.ne_error hrecvPoll
  have hreflOk := hrefl.ne_error hreflPoll
  simp only [ProcWatcher.round, h.exited, Bool.false_eq_true, if_false, hrecvPoll, hrecvOk,
    hreflPoll, hreflOk]
  refine ⟨?_, ?_, rfl⟩
  · have hfiles := h.recv.poll r.recvTime hrecv hrecvPoll
    rw [files_eq, filesOf_quiet, filesOf_append, filesOf_append,
      filesOf_notice_of_ne (show Process.refl ≠ .recv by decide), List.append_nil]
    exact hfiles
  · have hfiles := h.refl.poll r.reflTime hrefl hreflPoll
    rw [files_eq, filesOf_quiet, filesOf_append, filesOf_append,
      filesOf_notice_of_ne (show Process.recv ≠ .refl by decide), List.append_nil]
    exact hfiles

/-- **A round** in which a process does not answer: the receive process may have been told about. -/
theorem ToldBoth.round_fails {recvPolls reflPolls : List (Poll × Str)} {s : ProcWatcher}
    {r : Round} (h : ToldBoth names recvPolls reflPolls s) (hrecv : -1 ≤ r.recv.callRet)
    (hrefl : -1 ≤ r.refl.callRet) (hfails : ¬ (r.recv.Known ∧ r.refl.Known)) :
    (s.round names r).exited = true ∧
    (s.round names r).files .refl = s.files .refl ∧
    (s.round names r).files .recv =
      (changes Prod.fst (history [] (recvPolls ++
        (([r].filter fun r => r.recv.Known).map fun r => (r.recv.poll, r.recvTime))))).map
        (noticeFile names .recv) := by
  rcases hrecvPoll : getProcessStatus r.recv.stopSignal r.recv.callRet s.recvProc with
    ⟨recvRunFlagNew, recvProc⟩
  by_cases hknown : r.recv.Known
  · have hrecvOk := hknown.ne_error hrecvPoll
    rcases hreflPoll : getProcessStatus r.refl.stopSignal r.refl.callRet s.reflProc with
      ⟨reflRunFlagNew, reflProc⟩
    have hreflError := eq_error_of_not_known hrefl (fun h => hfails ⟨hknown, h⟩) hreflPoll
    have hfiles := h.recv.poll r.recvTime hknown hrecvPoll
    simp only [ProcWatcher.round, h.exited, Bool.false_eq_true, if_false, hrecvPoll, hrecvOk,
      hreflPoll, hreflError, if_true]
    refine ⟨trivial, ?_, ?_⟩
    · rw [files_eq, filesOf_append, filesOf_append,
        filesOf_notice_of_ne (show Process.recv ≠ .refl by decide), List.append_nil]
      exact List.append_nil _
    · rw [List.filter_cons_of_pos (by simpa using hknown), List.filter_nil, files_eq,
        filesOf_append, filesOf_append, List.map_singleton, ← hfiles.files_eq]
      exact List.append_nil _
  · have hrecvError := eq_error_of_not_known hrecv hknown hrecvPoll
    simp only [ProcWatcher.round, h.exited, Bool.false_eq_true, if_false, hrecvPoll, hrecvError,
      if_true]
    refine ⟨trivial, ?_, ?_⟩
    · rw [files_eq, filesOf_append]
      exact List.append_nil _
    · rw [List.filter_cons_of_neg (by simpa using hknown), List.filter_nil, List.map_nil,
        List.append_nil, ← h.recv.files_eq, files_eq, filesOf_append]
      exact List.append_nil _

theorem completed_cons {r : Round} {rounds : List Round} (h : r.recv.Known ∧ r.refl.Known) :
    completed (r :: rounds) = r :: completed rounds :=
  List.takeWhile_cons_of_pos (decide_eq_true h)

theorem completed_cons_of_fails {r : Round} {rounds : List Round}
    (h : ¬ (r.recv.Known ∧ r.refl.Known)) : completed (r :: rounds) = [] :=
  List.takeWhile_cons_of_neg (by simpa using h)

/-- **The rounds** from any of them on. -/
theorem ToldBoth.foldl {rounds : List Round} {recvPolls reflPolls : List (Poll × Str)}
    {s : ProcWatcher} (h : ToldBoth names recvPolls reflPolls s)
    (hpids : ∀ r ∈ rounds, -1 ≤ r.recv.callRet ∧ -1 ≤ r.refl.callRet) :
    ((rounds.foldl (ProcWatcher.round names) s).exited = true ↔
      ∃ r ∈ rounds, ¬ (r.recv.Known ∧ r.refl.Known)) ∧
    (rounds.foldl (ProcWatcher.round names) s).files .recv =
      (changes Prod.fst (history [] (recvPolls ++ polls .recv rounds))).map
        (noticeFile names .recv) ∧
    (rounds.foldl (ProcWatcher.round names) s).files .refl =
      (changes Prod.fst (history [] (reflPolls ++ polls .refl rounds))).map
        (noticeFile names .refl) := by
  induction rounds generalizing s recvPolls reflPolls with
  | nil =>
      refine ⟨by simp [h.exited], ?_, ?_⟩
      · rw [List.foldl_nil, h.recv.files_eq]
        exact congrArg (fun l => (changes Prod.fst (history [] l)).map _) (List.append_nil _).symm
      · rw [List.foldl_nil, h.refl.files_eq]
        exact congrArg (fun l => (changes Prod.fst (history [] l)).map _) (List.append_nil _).symm
  | cons r rounds ih =>
      obtain ⟨⟨hrecv, hrefl⟩, hpids⟩ := List.forall_mem_cons.mp hpids
      rw [List.foldl_cons]
      by_cases hknown : r.recv.Known ∧ r.refl.Known
      · obtain ⟨hexited, hrecvFiles, hreflFiles⟩ := ih (h.round hknown.1 hknown.2) hpids
        have hhalf : halfCompleted (r :: rounds) = halfCompleted rounds := by
          rw [halfCompleted, completed_cons hknown]
          rfl
        refine ⟨by simp [hexited, hknown], ?_, ?_⟩
        · rw [hrecvFiles, polls, polls, completed_cons hknown, hhalf, List.append_assoc]
          rfl
        · rw [hreflFiles, polls, polls, completed_cons hknown, List.append_assoc]
          rfl
      · obtain ⟨hexited, hreflFiles, hrecvFiles⟩ := h.round_fails hrecv hrefl hknown
        rw [round_of_exited hexited]
        refine ⟨iff_of_true hexited ⟨r, List.mem_cons_self, hknown⟩, ?_, ?_⟩
        · rw [hrecvFiles, polls, completed_cons_of_fails hknown, halfCompleted,
            completed_cons_of_fails hknown]
          rfl
        · rw [hreflFiles, polls, completed_cons_of_fails hknown, h.refl.files_eq, List.map_nil,
            List.append_nil]

end

/-- **The notices.**  After any number of rounds, the commands executed about a process are those of
the changes of its status, in the order of the polls, and the last of them tells its status; the
thread has ended exactly if a process could not be polled. -/
theorem files_run (names : AoNames) (rounds : List Round)
    (hpids : ∀ r ∈ rounds, -1 ≤ r.recv.callRet ∧ -1 ≤ r.refl.callRet) :
    ((ProcWatcher.run names rounds).exited = true ↔
      ∃ r ∈ rounds, ¬ (r.recv.Known ∧ r.refl.Known)) ∧
    ∀ process,
      let statuses := history [] (polls process rounds)
      (ProcWatcher.run names rounds).files process =
        (changes Prod.fst statuses).map (noticeFile names process) ∧
      (changes Prod.fst statuses).getLast?.map Prod.fst = statuses.getLast?.map Prod.fst := by
  have hstart : ToldBoth names [] [] {} :=
    ⟨⟨records_afterPolls [], rfl, rfl⟩, ⟨records_afterPolls [], rfl, rfl⟩, rfl⟩
  obtain ⟨hexited, hrecv, hrefl⟩ := hstart.foldl hpids
  refine ⟨hexited, fun process => ⟨?_, map_getLast?_changes _⟩⟩
  cases process with
  | recv => exact hrecv
  | refl => exact hrefl

/-- The receive process runs, is stopped and has gone; the reflect process does not run. -/
def fourRounds : List Round :=
  let gone : Answer := ⟨false, some []⟩
  [⟨⟨false, some (lit "  12\n")⟩, gone, lit "1", lit "1"⟩,
    ⟨⟨false, some (lit "  12\n")⟩, gone, lit "2", lit "2"⟩,
    ⟨⟨true, some (lit "  12\n")⟩, gone, lit "3", lit "3"⟩, ⟨gone, gone, lit "4", lit "4"⟩]

theorem files_run_fourRounds :
    ∃ names, (ProcWatcher.run names fourRounds).files .recv =
      [noticeFile names .recv (.started, lit "1"), noticeFile names .recv (.stopping, lit "3"),
        noticeFile names .recv (.stopped, lit "4")] := by
  refine ⟨⟨lit "oc", lit "1", lit "oc", lit "2"⟩, ?_⟩
  have hchanges : changes Prod.fst (history [] (polls .recv fourRounds)) =
      [(.started, lit "1"), (.stopping, lit "3"), (.stopped, lit "4")] := by decide
  rw [((files_run _ fourRounds (by decide)).2 .recv).1, hchanges]
  rfl

end Realwork.Monitor
