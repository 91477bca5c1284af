import Realwork.Monitor.LogWatcher

/-!
# Monitor — what the watcher finds

The files of a writer that has written command lines, as the watcher finds them.

* `Watch.Sees`: the invariant of the watcher alone.  `Sees.write`, `Sees.endLine`, `Sees.turn` and
  `Sees.tested` are the steps that keep it.
* `ahead_line`, `ahead_turn`: what the writer's steps are to the commands ahead of the watcher.
* `fgets_cases`: one `fgets`.
-/

namespace Realwork.Monitor

open Realwork.Lib Realwork.Common

/-! ### Lines of a log -/

/-- What is left of a command line that has been taken in part. -/
def Left (l : Str) : Prop := CommandLine l ∨ l = []

theorem CommandLine.not_mem {l : Str} (h : CommandLine l) : newline ∉ l :=
  fun hl => (h.byte _ hl).2 rfl

theorem CommandLine.ne_nil {l : Str} (h : CommandLine l) : l ≠ [] := by
  rintro rfl
  exact absurd h.valid (by decide)

theorem Left.not_mem {l : Str} (h : Left l) : newline ∉ l := by
  rcases h with h | rfl
  · exact h.not_mem
  · exact List.not_mem_nil

theorem command?_nil : command? [] = none := by decide

theorem command?_logFileEnd : command? logFileEnd = none := by decide +kernel

theorem bufferedLine_logFileEnd : bufferedLine (line newline logFileEnd) = logFileEnd := by
  decide +kernel

/-- The commands of a text that is whole lines. -/
theorem commandsIn_unlines {ls : List Str} (h : ∀ l ∈ ls, newline ∉ l) :
    commandsIn (unlines newline ls) = ls.filterMap command? := by
  rw [commandsIn, splitOn_unlines h, List.filterMap_append]
  simp [command?_nil]

theorem commandsIn_nil : commandsIn [] = [] := commandsIn_unlines (List.forall_mem_nil _)

section

variable {P : Str → Prop} {log log' : RTWLog} {files : LogFiles} {now pos : Nat}
  {name : LogName} {message : Str}

/-- A line is written behind the unread part of a file. -/
theorem commandsIn_writeLine (hP : ∀ l, P l → newline ∉ l) (h : log.Holds P files name pos)
    (hm : newline ∉ message) :
    commandsIn (((files.writeLine now name message).content name).drop pos) =
      commandsIn ((files.content name).drop pos) ++ (command? message).toList := by
  obtain ⟨hpos, ls, hls, htext⟩ := h.lines hP
  have hline : unlines newline ls ++ line newline message =
      unlines newline (ls ++ [message]) := by simp
  have hlines : ∀ l ∈ ls ++ [message], newline ∉ l := by
    intro l hl
    rcases List.mem_append.mp hl with hl | hl
    · exact hls l hl
    · rwa [List.mem_singleton.mp hl]
  rw [LogFiles.content_writeLine, List.drop_append_of_le_length hpos, htext, hline,
    commandsIn_unlines hlines, commandsIn_unlines hls, List.filterMap_append]
  cases hc : command? message <;> simp [hc]

end

/-! ### The writer's steps -/

section

variable {sticky : Bool} {log log' : RTWLog} {files : LogFiles} {now : Nat} {message : Str}
  {name : LogName} {pos : Nat}

/-- The writer writes a line, and goes on with its file. -/
theorem unread_line {P : Str → Prop} (hP : ∀ l, P l → newline ∉ l)
    (h : log.Holds P files name pos) (hcurrent : log.Holds P files log.logName 0)
    (hm : newline ∉ message) (hname : log'.logName = log.logName) :
    unread log' (files.writeLine now log.logName message) name pos =
      unread log files name pos ++ (command? message).toList := by
  simp only [unread, hname]
  by_cases hn : name = log.logName
  · subst hn
    rw [if_pos rfl, if_pos rfl, commandsIn_writeLine hP h hm]
    simp
  · rw [if_neg hn, if_neg hn, LogFiles.content, LogFiles.writeLine_of_ne hn, List.append_assoc]
    exact congrArg _ (commandsIn_writeLine hP hcurrent hm)

/-- The writer turns to the other file. -/
theorem unread_turn :
    unread ⟨log.logName.other, .turned message⟩ (files.truncate now log.logName.other)
      log.logName pos = unread log files log.logName pos := by
  simp [unread, LogFiles.content, LogFiles.truncate_of_ne (LogName.other_ne _).symm,
    LogFiles.truncate_self, commandsIn_nil, (LogName.other_ne log.logName).symm]

namespace Watch

/-- The watcher has met the end of its file, and the C library keeps the indicator. -/
def Deaf (sticky : Bool) : Watch → Prop
  | reading _ _ eof _ => (sticky && eof) = true
  | _ => False

instance (sticky : Bool) : (watch : Watch) → Decidable (watch.Deaf sticky)
  | reading _ _ eof _ => inferInstanceAs (Decidable ((sticky && eof) = true))
  | looking .. | comparing _ | chosen .. | ended => .isFalse id

/-- What the watcher has found, or has open. -/
def Sees (log : RTWLog) (files : LogFiles) : Watch → Prop
  | looking branch name test _ =>
      (test = .notEnd → files name = none ∨ log.Holds CommandLine files name 0) ∧
        (branch = .both → name = .second → log.logName = .first ∧ log.phase.isEnded = false)
  | comparing _ => False
  | chosen name _ =>
      log.Holds CommandLine files name 0 ∧ (name ≠ log.logName → log.phase.isEnded = false)
  | reading name pos _ _ =>
      log.Holds Left files name pos ∧ (name ≠ log.logName → log.phase.isEnded = false)
  | ended => False

theorem sees_look {log : RTWLog} {files : LogFiles} {tailFromTopFlag : Bool} :
    (look tailFromTopFlag).Sees log files :=
  ⟨nofun, nofun⟩

variable {watch : Watch}

/-- **A line is written**, and is ahead of the watcher. -/
theorem ahead_line (hsees : watch.Sees log files) (hw : log.Written CommandLine files)
    (hm : newline ∉ message) (hname : log'.logName = log.logName) (hdeaf : ¬ watch.Deaf sticky)
    (hphase : watch.name? = some log.logName ∨
      log.phase.isEnded = false ∧ log'.phase.isEnded = false) :
    watch.ahead sticky log' (files.writeLine now log.logName message) =
      watch.ahead sticky log files ++ (command? message).toList := by
  have hcurrent : log.Holds Left files log.logName 0 := hw.current.mono fun _ => .inl
  cases watch with
  | looking branch name test tailFromTopFlag =>
      obtain ⟨h, h'⟩ := hphase.resolve_left nofun
      simp only [ahead, h, h', hname]
      exact unread_line (fun _ => CommandLine.not_mem) hw.current hw.current hm hname
  | comparing _ => cases hsees
  | chosen name tailFromTopFlag =>
      exact unread_line (fun _ => CommandLine.not_mem) hsees.1 hw.current hm hname
  | reading name pos eof aoCmdContainer =>
      have hdeaf : ¬ (sticky && eof) = true := hdeaf
      rw [ahead, ahead, if_neg hdeaf, if_neg hdeaf]
      exact unread_line (fun _ => Left.not_mem) hsees.1 hcurrent hm hname
  | ended => cases hsees

theorem Sees.write (hsees : watch.Sees log files) (hw : log.Written CommandLine files)
    (hm : CommandLine message) (hphase : log.phase.isEnded = false)
    (hphase' : log'.phase.isEnded = false) (hname : log'.logName = log.logName) :
    watch.Sees log' (files.writeLine now log.logName message) := by
  cases watch with
  | looking branch name test tailFromTopFlag =>
      refine ⟨fun ht => ?_, fun hb hn => ⟨hname.trans (hsees.2 hb hn).1, hphase'⟩⟩
      rcases hsees.1 ht with h | h
      · by_cases hn : name = log.logName
        · subst hn
          exact .inr (hw.current.writeLine hm hphase hphase' hname)
        · exact .inl ((LogFiles.writeLine_of_ne hn).trans h)
      · exact .inr (h.writeLine hm hphase hphase' hname)
  | comparing _ => cases hsees
  | chosen name tailFromTopFlag =>
      exact ⟨hsees.1.writeLine hm hphase hphase' hname, fun _ => hphase'⟩
  | reading name pos eof aoCmdContainer =>
      exact ⟨hsees.1.writeLine (.inl hm) hphase hphase' hname, fun _ => hphase'⟩
  | ended => cases hsees

theorem Sees.endLine (hsees : watch.Sees log files) (hphase : log.phase.isEnded = false)
    (hwatch : watch.name? = some log.logName) :
    watch.Sees ⟨log.logName, .ended message⟩
      (files.writeLine now log.logName logFileEnd) := by
  cases watch with
  | chosen name tailFromTopFlag =>
      exact ⟨hsees.1.endLine hphase, fun hn => absurd (Option.some.inj hwatch) hn⟩
  | reading name pos eof aoCmdContainer =>
      exact ⟨hsees.1.endLine hphase, fun hn => absurd (Option.some.inj hwatch) hn⟩
  | _ => cases hwatch

/-- A watcher that has a file has the writer's, while that is ended. -/
theorem Sees.name_eq (hsees : watch.Sees log files) (hphase : log.phase.isEnded = true)
    (hname : watch.name? = some name) : name = log.logName := by
  by_contra hn
  have hnot : log.phase.isEnded = false := by
    cases watch with
    | chosen | reading =>
        obtain rfl := Option.some.inj hname
        exact hsees.2 hn
    | _ => cases hname
  exact Bool.false_ne_true (hnot.symm.trans hphase)

/-- **The writer turns.**  A file the watcher has is the one the writer has left. -/
theorem Sees.turn (hsees : watch.Sees log files) (hw : log.Written CommandLine files)
    (hphase : log.phase.isEnded = true) :
    watch.Sees ⟨log.logName.other, .turned message⟩ (files.truncate now log.logName.other) := by
  cases watch with
  | looking branch name test tailFromTopFlag =>
      refine ⟨fun _ => .inr ?_, fun hb hn => ?_⟩
      · by_cases hn : name = log.logName
        · subst hn
          exact hw.current.turn hphase
        · rw [LogName.eq_other hn]
          exact RTWLog.holds_truncate rfl rfl
      · exact absurd ((hsees.2 hb hn).2.symm.trans hphase) Bool.false_ne_true
  | comparing _ => cases hsees
  | chosen name tailFromTopFlag =>
      obtain rfl := hsees.name_eq hphase rfl
      exact ⟨hsees.1.turn hphase, fun _ => rfl⟩
  | reading name pos eof aoCmdContainer =>
      obtain rfl := hsees.name_eq hphase rfl
      exact ⟨hsees.1.turn hphase, fun _ => rfl⟩
  | ended => cases hsees

/-- It has not more or less to read. -/
theorem ahead_turn (hsees : watch.Sees log files) (hphase : log.phase.isEnded = true) :
    watch.ahead sticky ⟨log.logName.other, .turned message⟩
        (files.truncate now log.logName.other) = watch.ahead sticky log files := by
  cases watch with
  | looking branch name test tailFromTopFlag =>
      -- the file the writer has turned to is empty
      simp only [ahead, hphase, unread, LogFiles.content_truncate]
      rfl
  | comparing _ => cases hsees
  | chosen name tailFromTopFlag =>
      obtain rfl := hsees.name_eq hphase rfl
      exact unread_turn
  | reading name pos eof aoCmdContainer =>
      obtain rfl := hsees.name_eq hphase rfl
      simp only [ahead, unread_turn]
  | ended => cases hsees

end Watch

end

/-! ### The watcher's steps -/

section

variable {sticky : Bool} {log : RTWLog} {files : LogFiles} {name : LogName} {pos : Nat}

/-- A file whose last line is not `[END]` is the writer's. -/
theorem isEndLogFile_eq_zero (h : log.Holds CommandLine files name 0)
    (hend : isEndLogFile files name = 0) :
    name = log.logName ∧ log.phase.isEnded = false := by
  obtain ⟨file, ls, hfile, -, hls, htext⟩ := h
  by_contra hleft
  have hending : log.ending name = [logFileEnd] :=
    if_pos (by rwa [not_and_or, Bool.not_eq_false] at hleft)
  -- the lines before `[END]` are nothing, or more than one byte
  have hpre : unlines newline ls = [] ∨
      ∃ s, s ≠ [] ∧ unlines newline ls = line newline s := by
    rcases List.eq_nil_or_concat ls with rfl | ⟨init, l, rfl⟩
    · exact .inl rfl
    · have hl := (hls l (by simp)).ne_nil
      exact .inr ⟨unlines newline init ++ l, by simp [hl], by simp [line]⟩
  have hlast : isLogEnd (readLastLineOfFile file.content) = true := by
    rw [List.drop_zero, hending, unlines_append] at htext
    rw [htext]
    simpa using readLastLine_ended hpre
  simp [isEndLogFile, hfile, hlast] at hend

/-- A file that is not empty has been written. -/
theorem holds_of_notEmpty (hw : log.Written CommandLine files)
    (h : isEmptyFile files name = false) :
    files name = none ∨ log.Holds CommandLine files name 0 := by
  by_cases hn : name = log.logName
  · subst hn
    exact .inr hw.current
  · obtain rfl := LogName.eq_other hn
    rcases hw.other with hempty | hother
    · unfold isEmptyFile at h
      unfold LogFiles.content at hempty
      cases hfile : files log.logName.other with
      | none => exact .inl rfl
      | some file =>
          rw [hfile] at h hempty
          exact absurd hempty (by simpa using h)
    · exact .inr hother

namespace Watch

/-- No file is open. -/
def Away : Watch → Prop
  | reading .. => False
  | _ => True

theorem Away.held {watch : Watch} (h : watch.Away) : watch.held = {} := by
  cases watch with
  | reading => cases h
  | _ => rfl

theorem away_tested {branch : Branch} {test : Test} {tailFromTopFlag : Bool} :
    (tested files branch name test tailFromTopFlag).Away := by
  unfold tested
  split
  · cases test with
    | notEnd => cases branch <;> cases name <;> trivial
    | _ => trivial
  · cases branch <;> trivial

theorem away_compared {tailFromTopFlag : Bool} : (compared files tailFromTopFlag).Away := by
  unfold compared
  split <;> trivial

/-- **A test** chooses no file but the writer's. -/
theorem Sees.tested {branch : Branch} {test : Test} {tailFromTopFlag : Bool}
    (hsees : (looking branch name test tailFromTopFlag).Sees log files)
    (hw : log.Written CommandLine files) :
    (Watch.tested files branch name test tailFromTopFlag).Sees log files ∧
      (Watch.tested files branch name test tailFromTopFlag).ahead sticky log files =
        (looking branch name test tailFromTopFlag).ahead sticky log files := by
  unfold Watch.tested
  by_cases hpasses : test.passes files name = true
  · rw [if_pos hpasses]
    cases test with
    | exist => exact ⟨⟨nofun, hsees.2⟩, rfl⟩
    | notEmpty =>
        have hempty : isEmptyFile files name = false := by simpa [Test.passes] using hpasses
        exact ⟨⟨fun _ => holds_of_notEmpty hw hempty, hsees.2⟩, rfl⟩
    | notEnd =>
        have hend : isEndLogFile files name = 0 := of_decide_eq_true hpasses
        have hname : name = log.logName ∧ log.phase.isEnded = false := by
          rcases hsees.1 rfl with hnone | hholds
          · rw [isEndLogFile, hnone] at hend
            cases hend
          · exact isEndLogFile_eq_zero hholds hend
        obtain ⟨rfl, hphase⟩ := hname
        have hchosen : (chosen log.logName tailFromTopFlag).Sees log files ∧
            (chosen log.logName tailFromTopFlag).ahead sticky log files =
              (looking branch log.logName .notEnd tailFromTopFlag).ahead sticky log files :=
          ⟨⟨hw.current, fun hn => absurd rfl hn⟩, by simp [ahead, hphase]⟩
        cases branch with
        | both =>
            cases hn : log.logName with
            | first => exact ⟨⟨nofun, fun _ _ => ⟨hn, hphase⟩⟩, rfl⟩
            | second =>
                have hfirst := (hsees.2 rfl hn).1
                rw [hn] at hfirst
                cases hfirst
        | first => exact hchosen
        | second => exact hchosen
  · rw [if_neg hpasses]
    cases branch with
    | both => exact ⟨⟨nofun, nofun⟩, rfl⟩
    | first => exact ⟨⟨nofun, nofun⟩, rfl⟩
    | second => exact ⟨⟨nofun, nofun⟩, rfl⟩

end Watch

/-- A line comes out of the buffer; of a line as long as the buffer the line feed is left. -/
theorem takeLine_left {l : Str} (hl : Left l) (rest : Str) :
    ∃ taken left, takeLine newline lineBuffSize (line newline l ++ rest) = taken ∧
      taken ≠ [] ∧ bufferedLine taken = l ∧ (left = [] ∨ left = [[]]) ∧
      line newline l ++ rest = taken ++ (unlines newline left ++ rest) := by
  have hbuffered : bufferedLine (line newline l) = l ∧ bufferedLine l = l := by
    rcases hl with hl | rfl
    · refine bufferedLine_line (fun b hb => (hl.byte b hb).1) fun b hb => ?_
      have hnewline := (hl.byte b (List.mem_of_getLast? hb)).2
      simp only [isReturn, Bool.or_eq_false_iff, decide_eq_false_iff_not]
      exact ⟨hnewline, fun hr => hl.last (hr ▸ hb)⟩
    · exact bufferedLine_line (by simp) (by simp)
  have hfits : l.length < lineBuffSize ∨ CommandLine l ∧ l.length = lineBuffSize := by
    rcases hl with hl | rfl
    · exact (Nat.lt_or_eq_of_le hl.fits).imp_right fun h => ⟨hl, h⟩
    · exact .inl (by decide)
  rcases hfits with hfits | ⟨hl', hfits⟩
  · exact ⟨_, [], takeLine_line hl.not_mem hfits rest, by simp [line], hbuffered.1, .inl rfl,
      by simp⟩
  · have htake := takeLine_full hl.not_mem rest
    rw [hfits] at htake
    exact ⟨_, [[]], htake, hl'.ne_nil, hbuffered.2, .inr rfl, by simp [line]⟩

/-- The commands of the unread part of a file; `[END]` is none. -/
theorem commandsIn_left {ls : List Str} {text : Str} (hls : ∀ l ∈ ls, Left l)
    (htext : text = unlines newline (ls ++ log.ending name)) :
    commandsIn text = ls.filterMap command? := by
  have hending : ∀ l ∈ log.ending name, newline ∉ l ∧ command? l = none := by
    intro l hl
    rw [RTWLog.mem_ending hl]
    exact ⟨logFileEnd_not_mem, command?_logFileEnd⟩
  have hnone : (log.ending name).filterMap command? = [] :=
    List.filterMap_eq_nil_iff.mpr fun l hl => (hending l hl).2
  have hlines : ∀ l ∈ ls ++ log.ending name, newline ∉ l := by
    intro l hl
    rcases List.mem_append.mp hl with hl | hl
    · exact (hls l hl).not_mem
    · exact (hending l hl).1
  rw [htext, commandsIn_unlines hlines, List.filterMap_append, hnone, List.append_nil]

/-- `fgets` where a line is unread: the line, or as much of it as fits. -/
theorem fgets_line {content buf l : Str} {ls : List Str} {eof : Bool}
    (hls : ∀ l' ∈ l :: ls, Left l') (hpos : pos ≤ content.length)
    (htext : content.drop pos = unlines newline (l :: ls ++ log.ending name))
    (heof : (sticky && eof) = false) (hbuf : fgets sticky eof content pos = buf) :
    buf ≠ [] ∧ bufferedLine buf = l ∧ pos + buf.length ≤ content.length ∧
      ∃ left, (∀ l' ∈ left, Left l') ∧
        content.drop (pos + buf.length) = unlines newline (left ++ log.ending name) ∧
        left.filterMap command? = ls.filterMap command? := by
  rw [fgets, heof, if_neg Bool.false_ne_true, htext] at hbuf
  obtain ⟨taken, left, htake, hne, hbuffered, hleft, hsplit⟩ :=
    takeLine_left (hls l List.mem_cons_self) (unlines newline (ls ++ log.ending name))
  obtain rfl := htake.symm.trans hbuf
  rw [List.cons_append, unlines_cons, hsplit] at htext
  have hlength : pos + taken.length ≤ content.length := by
    have hlen := congrArg List.length htext
    rw [List.length_drop, List.length_append] at hlen
    omega
  have hrest : content.drop (pos + taken.length) =
      unlines newline ((left ++ ls) ++ log.ending name) := by
    rw [← List.drop_drop, htext, List.drop_left, List.append_assoc, unlines_append left]
  refine ⟨hne, hbuffered, hlength, left ++ ls, fun l' hl' => ?_, hrest, ?_⟩
  · rcases List.mem_append.mp hl' with hl' | hl'
    · obtain rfl | rfl := hleft
      · cases hl'
      · exact .inr (List.mem_singleton.mp hl')
    · exact hls l' (List.mem_cons_of_mem l hl')
  · obtain rfl | rfl := hleft
    · rfl
    · simp [command?_nil]

/-- **One `fgets`**: the end of the writer's file, the line `[END]`, or a line. -/
theorem fgets_cases {eof : Bool} {buf : Str} (h : log.Holds Left files name pos)
    (heof : (sticky && eof) = false)
    (hbuf : fgets sticky eof (files.content name) pos = buf) :
    buf = [] ∧ name = log.logName ∧ unread log files name pos = [] ∨
      buf ≠ [] ∧
        (bufferedLine buf = logFileEnd ∧ (name = log.logName → log.phase.isEnded = true) ∧
            commandsIn ((files.content name).drop pos) = [] ∨
          ∃ l, Left l ∧ bufferedLine buf = l ∧
            log.Holds Left files name (pos + buf.length) ∧
            unread log files name pos =
              (command? l).toList ++ unread log files name (pos + buf.length)) := by
  obtain ⟨file, ls, hfile, hpos, hls, htext⟩ := h
  have hcontent := LogFiles.content_eq hfile
  have hcommands := commandsIn_left hls htext
  rw [hcontent] at hbuf
  cases ls with
  | nil =>
      rw [fgets, heof, if_neg Bool.false_ne_true, htext] at hbuf
      by_cases hleft : name ≠ log.logName ∨ log.phase.isEnded = true
      · have hend : log.ending name = [logFileEnd] := if_pos hleft
        have htake := takeLine_line (n := lineBuffSize) logFileEnd_not_mem (by decide) []
        rw [hend] at hbuf
        obtain rfl := htake.symm.trans hbuf
        refine .inr ⟨by simp [line], .inl ⟨bufferedLine_logFileEnd,
          fun hn => hleft.resolve_left (not_not_intro hn), ?_⟩⟩
        rw [hcontent, hcommands]
        rfl
      · have hend : log.ending name = [] := if_neg hleft
        have hname : name = log.logName := of_not_not fun hn => hleft (.inl hn)
        rw [hend] at hbuf
        refine .inl ⟨hbuf.symm, hname, ?_⟩
        rw [unread, hcontent, hcommands, if_pos hname]
        rfl
  | cons l ls =>
      obtain ⟨hne, hbuffered, hlength, left, hleft, hrest, hfilter⟩ :=
        fgets_line hls hpos htext heof hbuf
      refine .inr ⟨hne, .inr ⟨l, hls l List.mem_cons_self, hbuffered,
        ⟨file, left, hfile, hlength, hleft, hrest⟩, ?_⟩⟩
      rw [unread, unread, hcontent, hcommands, commandsIn_left hleft hrest, hfilter,
        List.filterMap_cons]
      cases command? l <;> simp

end

end Realwork.Monitor
