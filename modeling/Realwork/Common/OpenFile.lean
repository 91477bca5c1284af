import Realwork.Common.CheckEnd
import Realwork.Lib.Machine

/-!
# Common — the log of a restarted process

`RTWLog::OpenFile`, which finds the file to go on with from the ends of the two files, and the
position to set the stream to; the size of a file that is not there is what the variable for it
held before.

* `openAt_again`: a restart goes on with the file that is not ended.
* `restarting_keeps`: over writes and restarts in any order the files hold the last messages, and
  a restart goes on with the file that was open, as long as it does not come right after a
  message that `CheckEnd` takes for `[END]` or of which it is shown nothing.
-/

namespace Realwork.Common

open Realwork.Lib

/-! ### `OpenFile` -/

/-- `m_ofs.open( name, ios_base::app)`. -/
def LogFiles.append (files : LogFiles) (now : Nat) (name : LogName) : LogFiles :=
  match files name with
  | some _ => files
  | none => files.truncate now name

/-- A modification time and a size, as `StatFile` gives them and as they are before. -/
structure Stat where
  mtime : Int
  size : Int
  deriving DecidableEq

/-- `StatFile`: whether the file exists, and what its arguments hold after it. -/
def statFile (files : LogFiles) (name : LogName) (stat : Stat) : Bool × Stat :=
  match files name with
  | some file => (true, ⟨file.mtime, file.content.length⟩)
  | none => (false, stat)

/-- The file that is opened, the position in it, and the files after it. -/
structure Opened where
  logName : LogName
  position : Int
  files : LogFiles

/-- `OpenFile` with `m_maxSize > 0`, given what the times and sizes of the two files hold when it
is called; `none` is an error of `CheckEnd`. -/
def openAt (stat1 stat2 : Stat) (now : Nat) (files : LogFiles) : Option Opened := do
  let (exist1, stat1) := statFile files .first stat1
  let end1 ← if exist1 then checkEnd files .first else some false
  let (exist2, stat2) := statFile files .second stat2
  let end2 ← if exist2 then checkEnd files .second else some false
  let (logName, fileSize, openEndFile) :=
    if exist1 && exist2 then
      if end1 && !end2 then (LogName.second, stat2.size, false)
      else if !end1 && end2 then (.first, stat1.size, false)
      else if end1 && end2 then
        if stat1.mtime < stat2.mtime then (.first, stat1.size, true)
        else (.second, stat2.size, true)
      else if stat1.mtime < stat2.mtime then (.second, stat2.size, false)
      else (.first, stat1.size, false)
    else if exist1 && !exist2 then
      if !end1 then (.first, stat1.size, false) else (.second, stat2.size, false)
    else if !exist1 && exist2 then
      if !end2 then (.second, stat2.size, false) else (.first, stat1.size, false)
    else (.first, 0, false)
  if openEndFile then some ⟨logName, 0, files.truncate now logName⟩
  else some ⟨logName, fileSize, files.append now logName⟩

/-- **The file that is not ended is opened again**, at its end, and nothing is changed, when the
other file is ended or not there. -/
theorem openAt_again {stat1 stat2 : Stat} {now : Nat} {files : LogFiles} {name : LogName}
    (hsome : (files name).isSome) (hname : checkEnd files name = some false)
    (hother : files name.other = none ∨ checkEnd files name.other = some true) :
    openAt stat1 stat2 now files = some ⟨name, (files.content name).length, files⟩ := by
  obtain ⟨file, hfile⟩ := Option.isSome_iff_exists.mp hsome
  have happend : files.append now name = files := by rw [LogFiles.append, hfile]
  have hcontent := LogFiles.content_eq hfile
  cases name with
  | first =>
      cases hsecond : files .second with
      | none => simp [openAt, statFile, hfile, hsecond, hname, happend, hcontent]
      | some file2 =>
          have hend : checkEnd files .second = some true :=
            hother.resolve_left fun h => by rw [LogName.other, hsecond] at h; cases h
          simp [openAt, statFile, hfile, hsecond, hname, hend, happend, hcontent]
  | second =>
      cases hfirst : files .first with
      | none => simp [openAt, statFile, hfile, hfirst, hname, happend, hcontent]
      | some file1 =>
          have hend : checkEnd files .first = some true :=
            hother.resolve_left fun h => by rw [LogName.other, hfirst] at h; cases h
          simp [openAt, statFile, hfile, hfirst, hname, hend, happend, hcontent]

/-! ### The machine -/

/-- A whole call of `WriteLog`. -/
def RTWLog.write (maxSize now : Nat) (message : Str) (log : RTWLog) (files : LogFiles) :
    Option (RTWLog × LogFiles) := do
  let (log, files) ← log.writeLog maxSize now message files
  match log.phase with
  | .idle => some (log, files)
  | _ =>
      let (log, files) ← log.goOn now files
      log.goOn now files

/-- A process with its log, over its restarts; a process that `CheckEnd` has ended has none.
`messages` and `written` are not in the program: what has been written, and whether something has
been since the last restart. -/
structure Logger where
  files : LogFiles := fun _ => none
  log : Option RTWLog := none
  messages : List Str := []
  written : Bool := false

inductive LogAction where
  | write (now : Nat) (message : Str)
  /-- The log is destroyed, if there is one, and constructed. -/
  | restart (stat1 stat2 : Stat) (now : Nat)
  deriving DecidableEq

namespace Logger

def step (maxSize : Nat) : LogAction → Logger → Option Logger
  | .write now message, s => do
      let log ← s.log
      if newline ∈ message ∨ message = logFileEnd then none
      else
        let (log, files) ← log.write maxSize now message s.files
        some { files, log := some log, messages := s.messages ++ [message], written := true }
  | .restart stat1 stat2 now, s =>
      if s.log.isSome ∧ s.written = false then none
      else
        match openAt stat1 stat2 now s.files with
        | some opened =>
            some { s with
              files := opened.files, log := some ⟨opened.logName, .idle⟩, written := false }
        | none => some { s with log := none, written := false }

end Logger

/-- Writes of lines other than `[END]` and restarts, with a write between two restarts, from
before the first start on. -/
def restarting (maxSize : Nat) : Machine Logger LogAction where
  start s := 0 < maxSize ∧ s = {}
  step := Logger.step maxSize

/-- A restart does not come right after a message that `CheckEnd` takes for `[END]`, or of which
every piece begins with a NUL. -/
def Shown : LogAction → Logger → Prop
  | .restart .., s => ∀ message ∈ s.messages.getLast?,
      Prints (line newline message) ∧ ¬ TakenForEnd message
  | _, _ => True

instance (a : LogAction) (s : Logger) : Decidable (Shown a s) := by
  cases a <;> simp only [Shown] <;> infer_instance

/-- A message without a NUL is shown as it is. -/
theorem shown_of_no_nul {s : Logger} {stat1 stat2 : Stat} {now : Nat}
    (h : ∀ message ∈ s.messages, 0 ∉ message ∧ message ≠ logFileEnd) :
    Shown (.restart stat1 stat2 now) s := by
  intro message hm
  obtain ⟨hzero, hne⟩ := h message (List.mem_of_getLast? hm)
  exact ⟨prints_of_no_nul hzero, mt (takenForEnd_iff hzero).mp hne⟩

/-! ### The files over writes and restarts -/

/-- The last line of a text of whole lines. -/
def lastLine? (content : Str) : Option Str := (content.splitOn newline).dropLast.getLast?

theorem lastLine?_unlines {ls : List Str} (h : ∀ l ∈ ls, newline ∉ l) :
    lastLine? (unlines newline ls) = ls.getLast? := by
  rw [lastLine?, splitOn_unlines h, List.dropLast_concat]

/-- `cur` are the lines of the open file and `fin` those of the other one, `[END]` left out; they
are the last of the messages. -/
structure RTWLog.Keeps (log : RTWLog) (files : LogFiles) (messages fin cur : List Str) : Prop where
  phase : log.phase = .idle
  there : (files log.logName).isSome
  current : files.content log.logName = unlines newline cur
  other : files log.logName.other = none ∧ fin = [] ∨
    (files log.logName.other).isSome ∧
      files.content log.logName.other = unlines newline (fin ++ [logFileEnd])
  lines : ∀ l ∈ fin ++ cur, newline ∉ l ∧ l ≠ logFileEnd
  kept : fin ++ cur <:+ messages

/-- The invariant: before the first start there is nothing, and after it the files hold the last
messages. -/
def Logger.Inv (s : Logger) : Prop :=
  s = {} ∨ ∃ log fin cur, s.log = some log ∧ log.Keeps s.files s.messages fin cur ∧
    (s.written = true → cur ≠ [])

section

variable {maxSize now : Nat} {message : Str} {log log' : RTWLog} {files files' : LogFiles}
  {s s' : Logger} {messages fin cur : List Str}

/-- **A whole call of `WriteLog`** writes the message, into the other file if this one is full. -/
theorem RTWLog.write_cases (hw : log.write maxSize now message files = some (log', files')) :
    log' = log ∧ files' = files.writeLine now log.logName message ∨
      log' = ⟨log.logName.other, .idle⟩ ∧
        files' = ((files.writeLine now log.logName logFileEnd).truncate now
          log.logName.other).writeLine now log.logName.other message := by
  simp only [write, Option.bind_eq_bind, Option.bind_eq_some_iff] at hw
  obtain ⟨⟨log₁, files₁⟩, hfirst, hw⟩ := hw
  obtain ⟨hphase, ⟨-, rfl, rfl⟩ | ⟨-, rfl, rfl⟩⟩ := writeLog_cases hfirst
  · simp only [goOn, Option.bind_some] at hw
    cases hw
    exact .inr ⟨rfl, rfl⟩
  · simp only [hphase] at hw
    cases hw
    exact .inl ⟨rfl, rfl⟩

namespace RTWLog.Keeps

/-- A message is written into the open file. -/
theorem writeLine (h : log.Keeps files messages fin cur) (hm : newline ∉ message)
    (hne : message ≠ logFileEnd) :
    log.Keeps (files.writeLine now log.logName message) (messages ++ [message]) fin
      (cur ++ [message]) where
  phase := h.phase
  there := by
    rw [LogFiles.writeLine_self]
    rfl
  current := by
    rw [LogFiles.content_writeLine, h.current, unlines_append, unlines_cons, unlines_nil,
      List.append_nil]
  other := by
    rw [LogFiles.content, LogFiles.writeLine_of_ne (LogName.other_ne _)]
    exact h.other
  lines l hl := by
    rw [← List.append_assoc] at hl
    rcases List.mem_append.mp hl with hl | hl
    · exact h.lines l hl
    · rw [List.mem_singleton.mp hl]
      exact ⟨hm, hne⟩
  kept := by
    obtain ⟨before, hbefore⟩ := h.kept
    exact ⟨before, by rw [← hbefore]; simp⟩

/-- **The log turns to the other file**: this one is ended, and that one has only the message. -/
theorem turn (h : log.Keeps files messages fin cur) (hm : newline ∉ message)
    (hne : message ≠ logFileEnd) :
    RTWLog.Keeps ⟨log.logName.other, .idle⟩
      (((files.writeLine now log.logName logFileEnd).truncate now log.logName.other).writeLine now
        log.logName.other message) (messages ++ [message]) cur [message] := by
  set files' := ((files.writeLine now log.logName logFileEnd).truncate now
    log.logName.other).writeLine now log.logName.other message with hfiles'
  have hleft : files' log.logName = some ⟨unlines newline (cur ++ [logFileEnd]), now⟩ := by
    rw [hfiles', LogFiles.writeLine_of_ne (LogName.other_ne _).symm,
      LogFiles.truncate_of_ne (LogName.other_ne _).symm, LogFiles.writeLine_self, h.current,
      unlines_append, unlines_cons, unlines_nil, List.append_nil]
  refine ⟨rfl, ?_, ?_, .inr ?_, ?_, ?_⟩
  · rw [hfiles', LogFiles.writeLine_self]
    rfl
  · rw [hfiles', LogFiles.content_writeLine, LogFiles.content_truncate]
    simp
  · dsimp only
    rw [LogName.other_other, LogFiles.content_eq hleft, hleft]
    exact ⟨rfl, rfl⟩
  · intro l hl
    rcases List.mem_append.mp hl with hl | hl
    · exact h.lines l (List.mem_append_right _ hl)
    · rw [List.mem_singleton.mp hl]
      exact ⟨hm, hne⟩
  · obtain ⟨before, hbefore⟩ := h.kept
    exact ⟨before ++ fin, by rw [← hbefore]; simp⟩

theorem write (h : log.Keeps files messages fin cur) (hm : newline ∉ message)
    (hne : message ≠ logFileEnd) (hw : log.write maxSize now message files = some (log', files')) :
    ∃ fin' cur', cur' ≠ [] ∧ log'.Keeps files' (messages ++ [message]) fin' cur' := by
  obtain ⟨rfl, rfl⟩ | ⟨rfl, rfl⟩ := RTWLog.write_cases hw
  · exact ⟨fin, cur ++ [message], by simp, h.writeLine hm hne⟩
  · exact ⟨cur, [message], by simp, h.turn hm hne⟩

/-- The last message is the last line of the open file. -/
theorem getLast? (h : log.Keeps files messages fin cur) (hcur : cur ≠ []) :
    messages.getLast? = cur.getLast? := by
  obtain ⟨before, hbefore⟩ := h.kept
  rw [← hbefore, ← List.append_assoc, List.getLast?_append_of_ne_nil _ hcur]

/-- **A restart** goes on with the open file. -/
theorem openAt (h : log.Keeps files messages fin cur) (hcur : cur ≠ [])
    (hc : ∀ message ∈ messages.getLast?, Prints (line newline message) ∧ ¬ TakenForEnd message)
    (stat1 stat2 : Stat) :
    Common.openAt stat1 stat2 now files =
      some ⟨log.logName, (files.content log.logName).length, files⟩ := by
  have hlast := h.getLast? hcur
  obtain ⟨init, last, rfl⟩ := (List.eq_nil_or_concat' cur).resolve_left hcur
  rw [List.getLast?_concat] at hlast
  obtain ⟨hprints, hend⟩ := hc last hlast
  refine openAt_again h.there ?_ (h.other.imp And.left fun hother => ?_)
  · rw [checkEnd_unlines (h.lines last (by simp)).1 h.current, if_pos hprints, decide_eq_false hend]
  · rw [checkEnd_unlines logFileEnd_not_mem hother.2, if_pos takenForEnd_logFileEnd.prints,
      decide_eq_true takenForEnd_logFileEnd]

end RTWLog.Keeps

theorem Logger.Inv.step (h : s.Inv) {a : LogAction} (hc : Shown a s)
    (hs : Logger.step maxSize a s = some s') : s'.Inv := by
  cases a with
  | write now message =>
      obtain rfl | ⟨log, fin, cur, hlog, hkeeps, -⟩ := h
      · cases hs
      · simp only [Logger.step, hlog, Option.bind_eq_bind, Option.bind_some] at hs
        split at hs
        · cases hs
        · rename_i hmessage
          obtain ⟨hm, hne⟩ := not_or.mp hmessage
          obtain ⟨⟨log', files'⟩, hw, hs⟩ := Option.bind_eq_some_iff.mp hs
          cases hs
          obtain ⟨fin', cur', hcur, hkeeps⟩ := hkeeps.write hm hne hw
          exact .inr ⟨log', fin', cur', rfl, hkeeps, fun _ => hcur⟩
  | restart stat1 stat2 now =>
      simp only [Logger.step, Option.ite_none_left_eq_some] at hs
      obtain ⟨hwritten, hs⟩ := hs
      obtain rfl | ⟨log, fin, cur, hlog, hkeeps, hcur⟩ := h
      · cases hs
        exact .inr ⟨⟨.first, .idle⟩, [], [], rfl,
          ⟨rfl, rfl, rfl, .inl ⟨rfl, rfl⟩, by simp, by simp⟩, by simp⟩
      · have hne : cur ≠ [] := hcur (by simpa [hlog] using hwritten)
        rw [hkeeps.openAt hne hc] at hs
        cases hs
        exact .inr ⟨⟨log.logName, .idle⟩, fin, cur, rfl, { hkeeps with phase := rfl }, by simp⟩

/-- **The log over restarts.**  After a write the open file does not end with the line `[END]`,
the other one does if it is there, and their lines without `[END]` are the last messages; a
restart opens the same file and changes nothing. -/
theorem restarting_keeps (h : (restarting maxSize).Reach Shown s) (hwritten : s.written = true) :
    ∃ log fin cur, s.log = some log ∧
      (∃ file, s.files log.logName = some file ∧ file.content = unlines newline cur ∧
        lastLine? file.content ≠ some logFileEnd) ∧
      (s.files log.logName.other = none ∧ fin = [] ∨
        ∃ file, s.files log.logName.other = some file ∧
          file.content = unlines newline (fin ++ [logFileEnd]) ∧
          lastLine? file.content = some logFileEnd) ∧
      fin ++ cur <:+ s.messages ∧
      ∀ stat1 stat2 now s', Shown (.restart stat1 stat2 now) s →
        Logger.step maxSize (.restart stat1 stat2 now) s = some s' →
        s'.log = some log ∧ s'.files = s.files := by
  have hinv : s.Inv :=
    h.invariant (fun s hs => .inl hs.2) fun a s s' hs hc hstep => hs.step hc hstep
  obtain rfl | ⟨log, fin, cur, hlog, hkeeps, hcur⟩ := hinv
  · cases hwritten
  have hlines : ∀ l ∈ fin ++ cur, newline ∉ l := fun l hl => (hkeeps.lines l hl).1
  refine ⟨log, fin, cur, hlog, ?_, ?_, hkeeps.kept, fun stat1 stat2 now s' hc hs => ?_⟩
  · obtain ⟨file, hfile⟩ := Option.isSome_iff_exists.mp hkeeps.there
    have hcontent := hkeeps.current
    rw [LogFiles.content_eq hfile] at hcontent
    refine ⟨file, hfile, hcontent, fun hlast => ?_⟩
    rw [hcontent, lastLine?_unlines fun l hl => hlines l (List.mem_append_right _ hl)] at hlast
    exact (hkeeps.lines _ (List.mem_append_right _ (List.mem_of_getLast? hlast))).2 rfl
  · refine hkeeps.other.imp_right ?_
    rintro ⟨hthere, hcontent⟩
    obtain ⟨file, hfile⟩ := Option.isSome_iff_exists.mp hthere
    rw [LogFiles.content_eq hfile] at hcontent
    refine ⟨file, hfile, hcontent, ?_⟩
    rw [hcontent, lastLine?_unlines, List.getLast?_concat]
    intro l hl
    rcases List.mem_append.mp hl with hl | hl
    · exact hlines l (List.mem_append_left _ hl)
    · rw [List.mem_singleton.mp hl]
      exact logFileEnd_not_mem
  · simp only [Logger.step, Option.ite_none_left_eq_some] at hs
    obtain ⟨-, hs⟩ := hs
    rw [hkeeps.openAt (hcur hwritten) hc] at hs
    cases hs
    refine ⟨congrArg some ?_, rfl⟩
    show (⟨log.logName, .idle⟩ : RTWLog) = log
    rw [← hkeeps.phase]

end

/-- With a limit of 4 bytes the third message goes into the second file; a restart after the
fourth one opens that file again. -/
theorem restarting_keeps_turned :
    ∃ s s', (restarting 4).Reach Shown s ∧ Logger.step 4 (.restart ⟨0, 0⟩ ⟨0, 0⟩ 7) s = some s' ∧
      s'.log = s.log ∧ s'.files = s.files ∧ ∃ fin cur, fin ++ cur <:+ s.messages ∧ fin ≠ [] := by
  let run : List LogAction :=
    [.restart ⟨0, 0⟩ ⟨0, 0⟩ 0, .write 1 (lit "ab"), .restart ⟨0, 0⟩ ⟨0, 0⟩ 2,
      .write 3 (lit "cd"), .write 4 (lit "ef"), .restart ⟨0, 0⟩ ⟨0, 0⟩ 5, .write 6 (lit "gh")]
  let s : Logger := ((restarting 4).exec run {}).getD {}
  let s' : Logger := (Logger.step 4 (.restart ⟨0, 0⟩ ⟨0, 0⟩ 7) s).getD {}
  have hs : (restarting 4).Reach Shown s :=
    .of_exec (.start ⟨by decide, rfl⟩) (by decide +kernel)
      (Machine.eq_some_getD (by decide +kernel))
  have hstep : Logger.step 4 (.restart ⟨0, 0⟩ ⟨0, 0⟩ 7) s = some s' :=
    Machine.eq_some_getD (by decide +kernel)
  obtain ⟨log, fin, cur, hlog, -, hother, hkept, hrestart⟩ :=
    restarting_keeps hs (by decide +kernel)
  obtain ⟨hlog', hfiles'⟩ := hrestart ⟨0, 0⟩ ⟨0, 0⟩ 7 s' (by decide +kernel) hstep
  refine ⟨s, s', hs, hstep, hlog'.trans hlog.symm, hfiles', fin, cur, hkept, ?_⟩
  have hname : s.log.map (fun log => log.logName.other) = some .first := by decide +kernel
  rw [hlog, Option.map_some, Option.some.injEq] at hname
  rw [hname] at hother
  -- the first file has lines before `[END]`
  have hfirst : s.files.content .first = lit "ab\ncd\n[END]\n" := by decide +kernel
  rintro rfl
  obtain ⟨hnone, -⟩ | ⟨file, hfile, hcontent, -⟩ := hother
  · rw [LogFiles.content, hnone] at hfirst
    exact absurd hfirst (by decide)
  · rw [LogFiles.content_eq hfile, hcontent] at hfirst
    exact absurd hfirst (by decide)

/-- `tail` gives a line that is `[END]`, another byte and a NUL, and `CheckEnd` sees nothing behind
the NUL: the restart opens the other file.  Of a line that is a NUL it sees nothing at all, and the
process does not start. -/
theorem restarting_takes_for_ended :
    (∃ s s', (restarting 4).Reach Machine.always s ∧ s.written = true ∧
      Logger.step 4 (.restart ⟨0, 0⟩ ⟨0, 0⟩ 2) s = some s' ∧ s'.log ≠ s.log ∧
        s'.files ≠ s.files) ∧
    ∃ s s', (restarting 4).Reach Machine.always s ∧ s.written = true ∧
      Logger.step 4 (.restart ⟨0, 0⟩ ⟨0, 0⟩ 2) s = some s' ∧ s'.log = none := by
  have reached (message : Str) {s : Logger}
      (h : (restarting 4).exec [.restart ⟨0, 0⟩ ⟨0, 0⟩ 0, .write 1 message] {} = some s) :
      (restarting 4).Reach Machine.always s :=
    .of_exec (.start ⟨by decide, rfl⟩) ((restarting 4).meets_always _ {}) h
  constructor
  · let s : Logger := ((restarting 4).exec [.restart ⟨0, 0⟩ ⟨0, 0⟩ 0,
      .write 1 (logFileEnd ++ [0x21, 0x00])] {}).getD {}
    let s' : Logger := (Logger.step 4 (.restart ⟨0, 0⟩ ⟨0, 0⟩ 2) s).getD {}
    have hs := reached (logFileEnd ++ [0x21, 0x00]) (s := s)
      (Machine.eq_some_getD (by decide +kernel))
    refine ⟨s, s', hs, by decide +kernel, Machine.eq_some_getD (by decide +kernel), ?_, fun h => ?_⟩
    · intro h
      exact absurd (congrArg (Option.map RTWLog.logName) h) (by decide +kernel)
    · exact absurd (congrFun h .second) (by decide +kernel)
  · let s : Logger := ((restarting 4).exec [.restart ⟨0, 0⟩ ⟨0, 0⟩ 0, .write 1 [0x00]] {}).getD {}
    let s' : Logger := (Logger.step 4 (.restart ⟨0, 0⟩ ⟨0, 0⟩ 2) s).getD {}
    have hs := reached [0x00] (s := s) (Machine.eq_some_getD (by decide +kernel))
    have hlog : (s'.log.isNone : Bool) = true := by decide +kernel
    exact ⟨s, s', hs, by decide +kernel, Machine.eq_some_getD (by decide +kernel),
      Option.isNone_iff_eq_none.mp hlog⟩

end Realwork.Common
