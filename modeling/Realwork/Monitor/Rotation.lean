import Realwork.Monitor.Watch

/-!
# Monitor — commands over a rotation

The commands that are due to a watcher are in its containers, each once and in the order in which
they were written, or are ahead of it.

* `Follows`: the invariant of a run whose steps are all `Followed`.
* `rotation_delivers`: the commands that are due, in every state of such a run.
* `rotation_lost`: a run that is not, in which the watcher goes to the end of a file that has a
  line already.
-/

namespace Realwork.Monitor

open Realwork.Lib Realwork.Common

/-! ### The conditions -/

namespace Watched

/-- The writer writes command lines, and turns to its other file only while the watcher has its
file. -/
def Attended (maxSize : Nat) : Action → Watched → Prop
  | .write message, s => CommandLine message ∧
      (s.opened → s.log.Over maxSize s.files → s.watch.name? = some s.log.logName)
  | _, _ => True

/-- A file is opened to be read from the top.  Before its first line this may be its end, and the
first time it may be the end of the writer's file. -/
def FromTop (s : Watched) (name : LogName) (tailFromTopFlag : Bool) : Prop :=
  if s.opened then tailFromTopFlag = true ∨ s.files.content name = []
  else if name = s.log.logName then tailFromTopFlag = true ∨ s.log.phase.isEnded = false
  else tailFromTopFlag = true ∧ s.log.phase.isEnded = false ∧ s.files.content name ≠ []

/-- Whatever the watcher opens it opens from the top. -/
def Tops : Action → Watched → Prop
  | .watch, s =>
      match s.watch with
      | .chosen name tailFromTopFlag => s.FromTop name tailFromTopFlag
      | _ => True
  | _, _ => True

/-- Nothing is written behind the end of the file, once the watcher has met it for good. -/
def Hears (sticky : Bool) : Action → Watched → Prop
  | .write _, s => ¬ s.watch.Deaf sticky
  | .goOn, s => ¬ s.watch.Deaf sticky
  | _, _ => True

/-- The writer and the watcher keep in step. -/
structure Followed (maxSize : Nat) (sticky : Bool) (a : Action) (s : Watched) : Prop where
  attended : Attended maxSize a s
  tops : Tops a s
  hears : Hears sticky a s

instance (maxSize : Nat) : (a : Action) → (s : Watched) → Decidable (Attended maxSize a s)
  | .write message, s => inferInstanceAs (Decidable (CommandLine message ∧
      (s.opened → s.log.Over maxSize s.files → s.watch.name? = some s.log.logName)))
  | .goOn, _ | .tick, _ | .watch, _ => .isTrue trivial

instance (s : Watched) (name : LogName) (tailFromTopFlag : Bool) :
    Decidable (s.FromTop name tailFromTopFlag) :=
  inferInstanceAs (Decidable (if s.opened then tailFromTopFlag = true ∨ s.files.content name = []
    else if name = s.log.logName then tailFromTopFlag = true ∨ s.log.phase.isEnded = false
    else tailFromTopFlag = true ∧ s.log.phase.isEnded = false ∧ s.files.content name ≠ []))

instance : (a : Action) → (s : Watched) → Decidable (Tops a s)
  | .watch, s =>
      match h : s.watch with
      | .chosen name tailFromTopFlag =>
          decidable_of_iff (s.FromTop name tailFromTopFlag) (by simp only [Tops, h])
      | .looking .. | .comparing _ | .reading .. | .ended => .isTrue (by simp only [Tops, h])
  | .write _, _ | .goOn, _ | .tick, _ => .isTrue trivial

instance (sticky : Bool) : (a : Action) → (s : Watched) → Decidable (Hears sticky a s)
  | .write _, s => inferInstanceAs (Decidable (¬ s.watch.Deaf sticky))
  | .goOn, s => inferInstanceAs (Decidable (¬ s.watch.Deaf sticky))
  | .tick, _ | .watch, _ => .isTrue trivial

instance (maxSize : Nat) (sticky : Bool) (a : Action) (s : Watched) :
    Decidable (Followed maxSize sticky a s) :=
  decidable_of_iff (Attended maxSize a s ∧ Tops a s ∧ Hears sticky a s)
    ⟨fun ⟨h₁, h₂, h₃⟩ => ⟨h₁, h₂, h₃⟩, fun ⟨h₁, h₂, h₃⟩ => ⟨h₁, h₂, h₃⟩⟩

/-- The commands that have been put into containers. -/
def given (s : Watched) : List Str :=
  s.sent.flatMap AoCommandContainer.contents ++ s.watch.held.contents

/-- The commands that are due are given or ahead, each once and in the order in which they were
written. -/
def Delivered (sticky : Bool) (s : Watched) : Prop :=
  s.due = s.given ++ s.watch.ahead sticky s.log s.files

instance (sticky : Bool) (s : Watched) : Decidable (s.Delivered sticky) :=
  inferInstanceAs (Decidable (s.due = s.given ++ s.watch.ahead sticky s.log s.files))

end Watched

/-! ### The reading of a line -/

/-- A line is put into the container. -/
theorem contents_put {l : Str} (hl : CommandLine l) (aoCmdContainer : AoCommandContainer) :
    (aoCmdContainer.put (getAoCmdFromLine l)).contents =
      aoCmdContainer.contents ++ (command? l).toList := by
  by_cases hcommon : has cmdLogCommonCntFlag l = true
  · obtain ⟨hhc, hwork, hother⟩ := hl.common hcommon
    simp [getAoCmdFromLine, command?, hcommon, hhc, hwork, hother, AoCommandContainer.put,
      AoCommandContainer.contents]
  · -- then it is a counter line
    have hvalid := hl.valid
    simp only [isValidCmdLineBuf, hcommon, Bool.or_false, Bool.or_eq_true] at hvalid
    rw [command?, if_neg hcommon, Option.toList_none, List.append_nil]
    unfold getAoCmdFromLine
    split
    · rfl
    · rename_i hhc
      split
      · rfl
      · rename_i hwork
        rw [if_pos (hvalid.resolve_left (not_or.mpr ⟨hhc, hwork⟩))]
        rfl

namespace Watched

variable {maxSize : Nat} {sticky : Bool} {s : Watched}

/-- A container is sent. -/
theorem flatMap_send (aoCmdContainer : AoCommandContainer) :
    (s.send aoCmdContainer).flatMap AoCommandContainer.contents =
      s.sent.flatMap AoCommandContainer.contents ++ aoCmdContainer.contents := by
  unfold send
  split
  · rename_i hempty
    simp only [AoCommandContainer.isEmpty, Bool.and_eq_true, decide_eq_true_eq] at hempty
    have hvector := List.length_eq_zero_iff.mp hempty.2
    simp [AoCommandContainer.contents, hvector]
  · simp

/-- A container is sent, and no command is held. -/
theorem given_send {watch : Watch} {container : AoCommandContainer} (hheld : watch.held = {}) :
    given { s with watch, sent := s.send container } =
      s.sent.flatMap AoCommandContainer.contents ++ container.contents := by
  rw [given, hheld, flatMap_send]
  exact List.append_nil _

section

variable {name : LogName} {pos : Nat} {eof : Bool} {container : AoCommandContainer} {buf l : Str}

/-- What the watcher does with what it has read. -/
theorem readLine_nil (hbuf : fgets sticky eof (s.files.content name) pos = []) :
    s.readLine sticky name pos eof container =
      { s with watch := .reading name pos true {}, sent := s.send container } := by
  rw [readLine, hbuf]
  exact if_pos rfl

theorem readLine_end (hbuf : fgets sticky eof (s.files.content name) pos = buf) (hne : buf ≠ [])
    (hend : bufferedLine buf = logFileEnd) :
    s.readLine sticky name pos eof container =
      { s with watch := .look false, sent := s.send container } := by
  have hvalid : isValidCmdLineBuf logFileEnd = false := by decide +kernel
  have hlogEnd : isLogEnd logFileEnd = true := by decide +kernel
  simp only [readLine, hbuf, if_neg hne, hend, hvalid, hlogEnd, Bool.false_eq_true, if_false,
    if_true]

/-- A line is put into the container if it is a command line; what is left of one is not. -/
theorem readLine_line (container : AoCommandContainer)
    (hbuf : fgets sticky eof (s.files.content name) pos = buf) (hne : buf ≠ []) (hl : Left l)
    (hline : bufferedLine buf = l) :
    ∃ container', container'.contents = container.contents ++ (command? l).toList ∧
      s.readLine sticky name pos eof container =
        { s with watch := .reading name (pos + buf.length) eof container' } := by
  simp only [readLine, hbuf, if_neg hne, hline]
  rcases hl with hl | rfl
  · rw [if_pos hl.valid]
    exact ⟨_, contents_put hl container, rfl⟩
  · have hvalid : isValidCmdLineBuf [] = false := by decide
    have hlogEnd : isLogEnd [] = false := by decide
    rw [hvalid, hlogEnd]
    exact ⟨container, by simp [command?_nil], rfl⟩

/-- Nothing else is changed. -/
theorem readLine_frame (sticky : Bool) (s : Watched) (name : LogName) (pos : Nat) (eof : Bool)
    (container : AoCommandContainer) : ∃ watch sent,
    s.readLine sticky name pos eof container = { s with watch, sent } := by
  unfold readLine
  dsimp only
  split
  · exact ⟨_, _, rfl⟩
  · split
    · exact ⟨_, _, rfl⟩
    · split
      · exact ⟨_, _, rfl⟩
      · exact ⟨_, _, rfl⟩

/-- The watcher reads on in its file, or has given what was ahead of it there. -/
def ReadsOn (sticky : Bool) (name : LogName) (pos : Nat) (s : Watched) : Prop :=
  (∃ pos' eof container, pos < pos' ∧ s.watch = .reading name pos' eof container) ∨
    s.given = s.sent.flatMap AoCommandContainer.contents ∧
      (name = s.log.logName → s.watch.ahead sticky s.log s.files = [])

/-- The container is sent, and what is ahead stays so. -/
theorem given_stop {watch : Watch} (hwatch : s.watch = .reading name pos eof container)
    (hheld : watch.held = {})
    (hahead : watch.ahead sticky s.log s.files =
      (Watch.reading name pos eof container).ahead sticky s.log s.files)
    (hnone : name = s.log.logName → watch.ahead sticky s.log s.files = []) :
    given { s with watch, sent := s.send container } ++ watch.ahead sticky s.log s.files =
        s.given ++ s.watch.ahead sticky s.log s.files ∧
      ReadsOn sticky name pos { s with watch, sent := s.send container } := by
  have hgiven : s.given =
      s.sent.flatMap AoCommandContainer.contents ++ container.contents := by
    rw [given, hwatch]
    rfl
  refine ⟨?_, .inr ⟨?_, hnone⟩⟩
  · rw [given_send hheld, hgiven, hwatch, hahead]
  · rw [given_send hheld, flatMap_send]

variable (sticky) in
/-- **One line is read**: the commands that are given or ahead are the same as before. -/
theorem readLine_given (hwatch : s.watch = .reading name pos eof container)
    (hsees : s.watch.Sees s.log s.files) :
    (s.readLine sticky name pos eof container).watch.Sees s.log s.files ∧
      (s.readLine sticky name pos eof container).given ++
          (s.readLine sticky name pos eof container).watch.ahead sticky s.log s.files =
        s.given ++ s.watch.ahead sticky s.log s.files ∧
      (s.readLine sticky name pos eof container).ReadsOn sticky name pos := by
  rw [hwatch] at hsees
  by_cases heof : (sticky && eof) = true
  · -- nothing is read any more
    obtain ⟨rfl, rfl⟩ := Bool.and_eq_true_iff.mp heof
    rw [readLine_nil rfl]
    exact ⟨hsees, given_stop hwatch rfl rfl fun _ => rfl⟩
  · have hahead : ∀ pos container, (Watch.reading name pos eof container).ahead sticky s.log
        s.files = unread s.log s.files name pos := fun _ _ => if_neg heof
    obtain ⟨buf, hbuf⟩ : ∃ buf, fgets sticky eof (s.files.content name) pos = buf := ⟨_, rfl⟩
    rcases fgets_cases hsees.1 (Bool.eq_false_iff.mpr heof) hbuf with
      ⟨rfl, hname, hunread⟩ | ⟨hne, ⟨hend, hended, hnone⟩ | ⟨l, hl, hline, hholds, hunread⟩⟩
    · have hnil : (Watch.reading name pos true {}).ahead sticky s.log s.files = [] := by
        rw [Watch.ahead, hunread, ite_self]
      rw [readLine_nil hbuf]
      exact ⟨hsees, given_stop hwatch rfl (by rw [hnil, hahead, hunread]) fun _ => hnil⟩
    · -- what is ahead is in the file the writer has turned to, or the writer has not turned yet
      have hlook : (Watch.look false).ahead sticky s.log s.files =
          unread s.log s.files name pos := by
        rw [unread, hnone]
        by_cases hn : name = s.log.logName
        · rw [if_pos hn]
          exact if_pos (hended hn)
        · rw [if_neg hn]
          simp [Watch.look, Watch.ahead, hsees.2 hn, unread]
      rw [readLine_end hbuf hne hend]
      exact ⟨Watch.sees_look, given_stop hwatch rfl (by rw [hlook, hahead])
        fun hn => if_pos (hended hn)⟩
    · obtain ⟨container', hcontents, hread⟩ := readLine_line container hbuf hne hl hline
      rw [hread]
      refine ⟨⟨hholds, hsees.2⟩, ?_, .inl ⟨_, _, _, ?_, rfl⟩⟩
      · simp only [given, hwatch, Watch.held, hahead, hcontents, hunread, List.append_assoc]
      · exact Nat.lt_add_of_pos_right (List.length_pos_iff.mpr hne)

end

/-! ### The opening of a file -/

section

variable {name : LogName} {tailFromTopFlag : Bool}

theorem openLogFileTail_top {files : LogFiles} (hfile : files name ≠ none)
    (htop : tailFromTopFlag = true ∨ files.content name = []) :
    Watch.openLogFileTail files name tailFromTopFlag = .reading name 0 false {} := by
  unfold Watch.openLogFileTail
  cases h : files name with
  | none => exact absurd h hfile
  | some file =>
      rcases htop with rfl | hempty
      · rfl
      · rw [LogFiles.content_eq h] at hempty
        simp [hempty]

/-- The watcher has a file open, in which it reads from the top or from the end. -/
theorem sees_openLogFileTail (hw : s.log.Written CommandLine s.files)
    (hsees : s.opened = true → s.watch.Sees s.log s.files)
    (hwatch : s.watch = .chosen name tailFromTopFlag) (htop : s.FromTop name tailFromTopFlag) :
    ∃ pos, Watch.openLogFileTail s.files name tailFromTopFlag = .reading name pos false {} ∧
      (Watch.reading name pos false {}).Sees s.log s.files ∧ (s.opened = true → pos = 0) := by
  unfold FromTop at htop
  have hexists : ∀ {name : LogName}, s.log.Holds CommandLine s.files name 0 →
      s.files name ≠ none := by
    rintro name ⟨file, -, hfile, -⟩ hnone
    cases hfile.symm.trans hnone
  have hleft : ∀ {name : LogName}, s.log.Holds CommandLine s.files name 0 →
      s.log.Holds Left s.files name 0 := fun h => h.mono fun _ => .inl
  by_cases hopened : s.opened = true
  · rw [if_pos hopened] at htop
    have hsees := hsees hopened
    rw [hwatch] at hsees
    exact ⟨0, openLogFileTail_top (hexists hsees.1) htop, ⟨hleft hsees.1, hsees.2⟩, fun _ => rfl⟩
  · rw [if_neg hopened] at htop
    by_cases hn : name = s.log.logName
    · subst hn
      rw [if_pos rfl] at htop
      by_cases hflag : tailFromTopFlag = true
      · exact ⟨0, openLogFileTail_top (hexists hw.current) (.inl hflag),
          ⟨hleft hw.current, fun hn => absurd rfl hn⟩, fun _ => rfl⟩
      · -- from the end of the writer's file
        have hphase := htop.resolve_left hflag
        obtain ⟨file, ls, hfile, -⟩ := hw.current
        refine ⟨file.content.length, ?_, ⟨⟨file, [], hfile, Nat.le_refl _, nofun, ?_⟩,
          fun hn => absurd rfl hn⟩, fun h => absurd h hopened⟩
        · rw [Watch.openLogFileTail, hfile, Bool.eq_false_iff.mpr hflag]
          rfl
        · simp [RTWLog.ending, hphase]
    · rw [if_neg hn] at htop
      obtain ⟨hflag, hphase, hne⟩ := htop
      obtain rfl := LogName.eq_other hn
      have hholds := hw.other.resolve_left hne
      exact ⟨0, openLogFileTail_top (hexists hholds) (.inl hflag),
        ⟨hleft hholds, fun _ => hphase⟩, fun _ => rfl⟩

end

/-! ### The invariant -/

/-- The invariant of a run whose steps are all `Followed`. -/
structure Follows (sticky : Bool) (s : Watched) : Prop where
  written : s.log.Written CommandLine s.files
  sees : s.opened = true → s.watch.Sees s.log s.files
  delivered : s.opened = true → s.Delivered sticky
  unopened : s.opened = false → s.sent = [] ∧ s.watch.Away

namespace Follows

theorem opened_of_reading (h : s.Follows sticky) {name : LogName} {pos : Nat} {eof : Bool}
    {container : AoCommandContainer} (hwatch : s.watch = .reading name pos eof container) :
    s.opened = true := by
  by_contra ho
  have haway := (h.unopened (Bool.eq_false_iff.mpr ho)).2
  rw [hwatch] at haway
  exact haway

/-- The writer's step, which the watcher does not see. -/
theorem writer (h : s.Follows sticky) {log : RTWLog} {files : LogFiles} {due : List Str}
    (hw : log.Written CommandLine files)
    (hsees : s.opened = true → s.watch.Sees s.log s.files → s.watch.Sees log files)
    (hahead : s.opened = true → s.watch.Sees s.log s.files →
      ∃ extra, due = s.due ++ extra ∧
        s.watch.ahead sticky log files = s.watch.ahead sticky s.log s.files ++ extra) :
    Follows sticky { s with log, files, due } where
  written := hw
  sees ho := hsees ho (h.sees ho)
  delivered ho := by
    obtain ⟨extra, hdue, hahead⟩ := hahead ho (h.sees ho)
    have hdelivered := h.delivered ho
    rw [Delivered] at hdelivered ⊢
    simp only [hdue, hahead, hdelivered, List.append_assoc]
    rfl
  unopened := h.unopened

theorem write (h : s.Follows sticky) {message : Str}
    (hc : Followed maxSize sticky (.write message) s) {s' : Watched}
    (hs : s.step maxSize sticky (.write message) = some s') : s'.Follows sticky := by
  obtain ⟨hm, hturn⟩ := hc.attended
  have hdeaf : ¬ s.watch.Deaf sticky := hc.hears
  simp only [step, Option.map_eq_some_iff] at hs
  obtain ⟨⟨log', files'⟩, hw, rfl⟩ := hs
  obtain ⟨hphase, hcases⟩ := RTWLog.writeLog_cases hw
  have hlog : s.log.phase.isEnded = false := by rw [hphase]; rfl
  have hwritten := h.written.writeLog hm hw
  rcases hcases with ⟨hover, rfl, rfl⟩ | ⟨hover, rfl, rfl⟩
  · refine h.writer hwritten (fun ho hsees => hsees.endLine hlog (hturn ho hover))
      fun ho hsees => ⟨[], ?_, ?_⟩
    · rw [if_pos hover, List.append_nil]
    · have hname : RTWLog.logName ⟨s.log.logName, .ended message⟩ = s.log.logName := rfl
      refine (Watch.ahead_line hsees h.written logFileEnd_not_mem hname hdeaf
        (.inl (hturn ho hover))).trans ?_
      rw [command?_logFileEnd]
      rfl
  · refine h.writer hwritten (fun _ hsees => hsees.write h.written hm hlog hlog rfl)
      fun ho hsees => ⟨(command? message).toList, ?_, ?_⟩
    · rw [if_neg hover, wrote, if_pos ho]
    · exact Watch.ahead_line hsees h.written hm.not_mem rfl hdeaf (.inr ⟨hlog, hlog⟩)

theorem goOn (h : s.Follows sticky) (hc : Followed maxSize sticky .goOn s) {s' : Watched}
    (hs : s.step maxSize sticky .goOn = some s') : s'.Follows sticky := by
  have hdeaf : ¬ s.watch.Deaf sticky := hc.hears
  simp only [step, Option.map_eq_some_iff] at hs
  obtain ⟨⟨log', files'⟩, hw, rfl⟩ := hs
  have hwritten := h.written.goOn hw
  obtain ⟨message, ⟨hphase, rfl, rfl⟩ | ⟨hphase, rfl, rfl⟩⟩ := RTWLog.goOn_cases hw
  · have hlog : s.log.phase.isEnded = true := by rw [hphase]; rfl
    refine h.writer hwritten (fun _ hsees => hsees.turn h.written hlog) fun _ hsees => ⟨[], ?_, ?_⟩
    · rw [hphase, List.append_nil]
    · rw [List.append_nil]
      exact Watch.ahead_turn hsees hlog
  · have hlog : s.log.phase.isEnded = false := by rw [hphase]; rfl
    have hm := h.written.message message (.inr hphase)
    refine h.writer hwritten (fun _ hsees => hsees.write h.written hm hlog rfl rfl)
      fun ho hsees => ⟨(command? message).toList, ?_, ?_⟩
    · rw [hphase]
      exact if_pos ho
    · exact Watch.ahead_line hsees h.written hm.not_mem rfl hdeaf (.inr ⟨hlog, rfl⟩)

/-- The watcher's step between two files. -/
theorem away (h : s.Follows sticky) {watch : Watch} (hold : s.watch.Away) (haway : watch.Away)
    (hsees : s.watch.Sees s.log s.files → watch.Sees s.log s.files ∧
      watch.ahead sticky s.log s.files = s.watch.ahead sticky s.log s.files) :
    Follows sticky { s with watch } where
  written := h.written
  sees ho := (hsees (h.sees ho)).1
  delivered ho := by
    have hdelivered := h.delivered ho
    rw [Delivered, given, hold.held, ← (hsees (h.sees ho)).2] at hdelivered
    rw [Delivered, given, haway.held]
    exact hdelivered
  unopened ho := ⟨(h.unopened ho).1, haway⟩

/-- **The opening of a file.**  The first time what is ahead is due from here on. -/
theorem openFile (h : s.Follows sticky) {name : LogName} {tailFromTopFlag : Bool}
    (hwatch : s.watch = .chosen name tailFromTopFlag) (htop : s.FromTop name tailFromTopFlag) :
    (s.openFile sticky name tailFromTopFlag).Follows sticky := by
  obtain ⟨pos, hopen, hsees, hpos⟩ := sees_openLogFileTail h.written h.sees hwatch htop
  have hread : ∀ pos, (Watch.reading name pos false {}).ahead sticky s.log s.files =
      unread s.log s.files name pos := by
    intro pos
    rw [Watch.ahead, Bool.and_false, if_neg Bool.false_ne_true]
  rw [Watched.openFile, hopen]
  refine ⟨h.written, fun _ => hsees, fun _ => ?_, fun hc => absurd hc.symm Bool.false_ne_true⟩
  by_cases ho : s.opened = true
  · have hdelivered := h.delivered ho
    rw [Delivered, given, hwatch] at hdelivered
    obtain rfl := hpos ho
    simp only [Delivered, if_pos ho, hread]
    exact hdelivered
  · obtain ⟨hsent, -⟩ := h.unopened (Bool.eq_false_iff.mpr ho)
    simp only [Delivered, if_neg ho, given, hsent]
    rfl

theorem readLine (h : s.Follows sticky) {name : LogName} {pos : Nat} {eof : Bool}
    {container : AoCommandContainer} (hwatch : s.watch = .reading name pos eof container) :
    (s.readLine sticky name pos eof container).Follows sticky := by
  have ho := h.opened_of_reading hwatch
  obtain ⟨hsees, hgiven, -⟩ := readLine_given sticky hwatch (h.sees ho)
  obtain ⟨watch', sent', hframe⟩ := readLine_frame sticky s name pos eof container
  rw [hframe] at hsees hgiven ⊢
  exact ⟨h.written, fun _ => hsees, fun _ => (h.delivered ho).trans hgiven.symm,
    fun hc => absurd ho (ne_true_of_eq_false hc)⟩

theorem watch (h : s.Follows sticky) (hc : Followed maxSize sticky .watch s) {s' : Watched}
    (hs : s.step maxSize sticky .watch = some s') : s'.Follows sticky := by
  simp only [step, watchLog] at hs
  cases hwatch : s.watch with
  | looking branch name test tailFromTopFlag =>
      rw [hwatch] at hs
      obtain rfl := Option.some.inj hs
      refine h.away (by rw [hwatch]; trivial) Watch.away_tested ?_
      rw [hwatch]
      exact fun hsees => hsees.tested h.written
  | comparing tailFromTopFlag =>
      rw [hwatch] at hs
      obtain rfl := Option.some.inj hs
      refine h.away (by rw [hwatch]; trivial) Watch.away_compared ?_
      rw [hwatch]
      exact nofun
  | chosen name tailFromTopFlag =>
      rw [hwatch] at hs
      obtain rfl := Option.some.inj hs
      have htop := hc.tops
      rw [Tops, hwatch] at htop
      exact h.openFile hwatch htop
  | reading name pos eof container =>
      rw [hwatch] at hs
      obtain rfl := Option.some.inj hs
      exact h.readLine hwatch
  | ended => rw [hwatch] at hs; cases hs

theorem step (h : s.Follows sticky) {a : Action} (hc : Followed maxSize sticky a s)
    {s' : Watched} (hs : s.step maxSize sticky a = some s') : s'.Follows sticky := by
  cases a with
  | write message => exact h.write hc hs
  | goOn => exact h.goOn hc hs
  | tick =>
      obtain rfl := Option.some.inj hs
      exact ⟨h.written, h.sees, h.delivered, h.unopened⟩
  | watch => exact h.watch hc hs

/-- **The watcher reads the writer's file to its end**, and then has sent what is due. -/
theorem reads_on (h : s.Follows sticky) {pos : Nat} {eof : Bool} {container : AoCommandContainer}
    (hwatch : s.watch = .reading s.log.logName pos eof container) :
    ∃ n s', (watching maxSize sticky).exec (List.replicate n .watch) s = some s' ∧
      s'.due = s.due ∧ s'.due = s'.sent.flatMap AoCommandContainer.contents := by
  -- by induction on what is left of the file
  induction hk : (s.files.content s.log.logName).length - pos using Nat.strong_induction_on
    generalizing s pos eof container with
  | _ k ih =>
      have hstep : (watching maxSize sticky).step .watch s =
          some (s.readLine sticky s.log.logName pos eof container) := by
        simp only [watching, Watched.step, watchLog, hwatch]
      have hfollowed : Followed maxSize sticky .watch s := by
        refine ⟨trivial, ?_, trivial⟩
        rw [Tops, hwatch]
        trivial
      have h' := h.step hfollowed hstep
      obtain ⟨-, -, hreads⟩ :=
        readLine_given sticky hwatch (h.sees (h.opened_of_reading hwatch))
      obtain ⟨watch', sent', hframe⟩ := readLine_frame sticky s s.log.logName pos eof container
      rw [hframe] at hstep h' hreads
      rcases hreads with ⟨pos', eof', container', hpos, hwatch'⟩ | ⟨hgiven, hahead⟩
      · obtain ⟨⟨file, -, hfile, hle, -⟩, -⟩ : Watch.Sees s.log s.files
            (.reading s.log.logName pos' eof' container') := by
          have hsees := h'.sees (h'.opened_of_reading hwatch')
          rwa [hwatch'] at hsees
        have hlt : (s.files.content s.log.logName).length - pos' < k := by
          rw [LogFiles.content_eq hfile] at hk ⊢
          omega
        obtain ⟨n, s'', hexec, hdue, hsent⟩ := ih _ hlt h' hwatch' rfl
        refine ⟨n + 1, s'', ?_, hdue, hsent⟩
        rw [List.replicate_succ, Machine.exec, hstep]
        exact hexec
      · refine ⟨1, { s with watch := watch', sent := sent' }, ?_, rfl, ?_⟩
        · rw [List.replicate_one, Machine.exec, hstep]
          rfl
        · have hdelivered := h'.delivered (h.opened_of_reading hwatch)
          rw [Delivered, hgiven, hahead rfl, List.append_nil] at hdelivered
          exact hdelivered

end Follows

end Watched

/-- **Rotation.**  From the first opening on the commands that are due are in the containers, each
once and in the order in which they were written, or are ahead of the watcher, in every run whose
steps are all `Followed`; and when the watcher has the writer's file open it reads what is ahead,
and has then sent what is due. -/
theorem rotation_delivers {maxSize : Nat} {sticky : Bool} {s : Watched}
    (h : (watching maxSize sticky).Reach (Watched.Followed maxSize sticky) s)
    (hopened : s.opened = true) :
    s.Delivered sticky ∧ ∀ pos eof container,
      s.watch = .reading s.log.logName pos eof container →
        ∃ n s', (watching maxSize sticky).exec (List.replicate n .watch) s = some s' ∧
          s'.due = s.due ∧ s'.due = s'.sent.flatMap AoCommandContainer.contents := by
  have hfollows : s.Follows sticky := by
    refine h.invariant (fun s hs => ?_) fun a s s' hs hc hstep => hs.step hc hstep
    obtain ⟨-, hw, hwatch, hsent, hopened, -⟩ := hs
    have hclosed : ¬ s.opened = true := by rw [hopened]; exact Bool.false_ne_true
    refine ⟨hw, fun h => absurd h hclosed, fun h => absurd h hclosed, fun _ => ⟨hsent, ?_⟩⟩
    rw [hwatch]
    trivial
  exact ⟨hfollows.delivered hopened, fun pos eof container => hfollows.reads_on⟩

/-- A writer whose first file is empty and may have one byte, and a watcher. -/
def Watched.first : Watched where
  files
    | .first => some ⟨[], 0⟩
    | .second => none
  now := 0
  log := ⟨.first, .idle⟩
  watch := .look false
  sent := []
  opened := false
  due := []

theorem watching_first (sticky : Bool) : (watching 1 sticky).start .first :=
  ⟨Nat.one_pos, ⟨⟨_, [], rfl, Nat.le_refl _, nofun, rfl⟩, .inl rfl, nofun⟩, rfl, rfl, rfl, rfl⟩

/-- A line is written, and the watcher opens the file.  Then the writer ends it. -/
def Watched.opening : List Action :=
  .write (lit "<COMMAND>a") :: List.replicate 8 .watch ++ [.write (lit "<COMMAND>b"), .goOn]

/-- The watcher looks for the next file while that is empty. -/
theorem rotation_delivers_one :
    ∃ n s s', (watching 1 true).Reach (Watched.Followed 1 true) s ∧
      (watching 1 true).exec (List.replicate n .watch) s = some s' ∧
      s.due = [lit "b"] ∧ s'.sent.flatMap AoCommandContainer.contents = [lit "b"] := by
  obtain ⟨s, hr, hopened, hdue, hlog, hwatch⟩ : ∃ s,
      (watching 1 true).Reach (Watched.Followed 1 true) s ∧ s.opened = true ∧
        s.due = [lit "b"] ∧ s.log.logName = .second ∧ s.watch = .reading .second 0 false {} :=
    Machine.Reach.exists_of_exec
      (Watched.opening ++ List.replicate 9 .watch ++ [.goOn] ++ List.replicate 10 .watch) .first
      (watching_first true) (by decide +kernel) (by decide +kernel)
  obtain ⟨n, s', hexec, hdue', hsent⟩ :=
    (rotation_delivers hr hopened).2 0 false {} (by rw [hwatch, hlog])
  exact ⟨n, s, s', hr, hexec, hdue, hsent.symm.trans (hdue'.trans hdue)⟩

/-- The watcher looks for the next file when its first line is there, and opens it at its end: the
line is in no container, and not ahead. -/
theorem rotation_lost :
    ∃ s, (watching 1 false).Reach (Watched.Attended 1) s ∧ s.opened = true ∧
      s.due = [lit "b"] ∧ s.sent = [] ∧
      s.watch = .reading .second (s.files.content .second).length false {} ∧
      ¬ s.Delivered false :=
  Machine.Reach.exists_of_exec (Watched.opening ++ [.goOn] ++ List.replicate 11 .watch) .first
    (watching_first false) (by decide +kernel) (by decide +kernel)

end Realwork.Monitor
