import Mathlib.Logic.Function.Basic
import Realwork.Base.Str
import Realwork.Lib.Lines

/-!
# Common — the log files

`RTWLog`, which writes its lines into two files in turn: when the current one has grown over the
limit, `CheckSize` ends it with a line `[END]` and goes on in the other, which it truncates.  A
line, the line `[END]` and the truncation are a step of the writer each, so that other processes
see the files in between.
-/

namespace Realwork.Common

open Realwork.Lib

/-- `m_baseName` with `.1` or `.2`. -/
inductive LogName where
  | first
  | second
  deriving DecidableEq

def LogName.other : LogName → LogName
  | first => second
  | second => first

/-- A file, with `st_mtime`. -/
structure LogFile where
  content : Str
  mtime : Nat
  deriving DecidableEq

/-- The two files. -/
abbrev LogFiles := LogName → Option LogFile

/-- The bytes of a file; a file that does not exist has none. -/
def LogFiles.content (files : LogFiles) (name : LogName) : Str :=
  match files name with
  | some file => file.content
  | none => []

def newline : UInt8 := 0x0a

/-- `LOG_FILE_END`. -/
def logFileEnd : Str := lit "[END]"

/-- Where `WriteLog` is. -/
inductive Phase where
  | idle
  /-- `[END]` is written, and the other file is not yet truncated. -/
  | ended (message : Str)
  /-- The other file is open, and the message is not yet written. -/
  | turned (message : Str)
  deriving DecidableEq

def Phase.isEnded : Phase → Bool
  | ended _ => true
  | _ => false

/-- `RTWLog`, with the file that is open. -/
structure RTWLog where
  logName : LogName
  phase : Phase

/-- `m_ofs<<message<<endl`. -/
def LogFiles.writeLine (files : LogFiles) (now : Nat) (name : LogName) (message : Str) :
    LogFiles :=
  Function.update files name (some ⟨files.content name ++ line newline message, now⟩)

/-- `m_ofs.open( name, ios_base::trunc)`. -/
def LogFiles.truncate (files : LogFiles) (now : Nat) (name : LogName) : LogFiles :=
  Function.update files name (some ⟨[], now⟩)

/-- `CheckSize` finds the file too large. -/
def RTWLog.Over (maxSize : Nat) (log : RTWLog) (files : LogFiles) : Prop :=
  maxSize > 0 ∧ maxSize < (files.content log.logName).length

instance (maxSize : Nat) (log : RTWLog) (files : LogFiles) : Decidable (log.Over maxSize files) :=
  inferInstanceAs (Decidable (maxSize > 0 ∧ maxSize < (files.content log.logName).length))

/-- A call of `WriteLog`, up to its first line. -/
def RTWLog.writeLog (maxSize now : Nat) (message : Str) (log : RTWLog) (files : LogFiles) :
    Option (RTWLog × LogFiles) :=
  match log.phase with
  | .idle =>
      if log.Over maxSize files then
        some ({ log with phase := .ended message },
          files.writeLine now log.logName logFileEnd)
      else some (log, files.writeLine now log.logName message)
  | _ => none

/-- The rest of a call of `WriteLog` that turns to the other file. -/
def RTWLog.goOn (now : Nat) (log : RTWLog) (files : LogFiles) : Option (RTWLog × LogFiles) :=
  match log.phase with
  | .idle => none
  | .ended message =>
      some (⟨log.logName.other, .turned message⟩, files.truncate now log.logName.other)
  | .turned message =>
      some (⟨log.logName, .idle⟩, files.writeLine now log.logName message)

/-! ### The files -/

section

variable {files : LogFiles} {now : Nat} {name name' : LogName} {message : Str}

@[simp] theorem LogName.other_ne (name : LogName) : name.other ≠ name := by
  cases name <;> decide

@[simp] theorem LogName.other_other (name : LogName) : name.other.other = name := by
  cases name <;> rfl

/-- There are two files. -/
theorem LogName.eq_other (h : name ≠ name') : name = name'.other := by
  cases name <;> cases name' <;> first | rfl | exact absurd rfl h

@[simp] theorem LogFiles.content_writeLine :
    (files.writeLine now name message).content name =
      files.content name ++ line newline message := by
  simp [LogFiles.content, writeLine]

@[simp] theorem LogFiles.content_truncate : (files.truncate now name).content name = [] := by
  simp [LogFiles.content, truncate]

theorem LogFiles.writeLine_of_ne (h : name' ≠ name) :
    files.writeLine now name message name' = files name' := by
  simp [writeLine, h]

theorem LogFiles.truncate_of_ne (h : name' ≠ name) :
    files.truncate now name name' = files name' := by
  simp [truncate, h]

theorem LogFiles.writeLine_self :
    files.writeLine now name message name =
      some ⟨files.content name ++ line newline message, now⟩ :=
  Function.update_self ..

theorem LogFiles.truncate_self : files.truncate now name name = some ⟨[], now⟩ :=
  Function.update_self ..

theorem LogFiles.content_eq {file : LogFile} (h : files name = some file) :
    files.content name = file.content := by
  rw [content, h]

end

/-! ### The lines of the files -/

section

variable {maxSize now : Nat} {message : Str} {log log' : RTWLog} {files files' : LogFiles}

/-- What a call of `WriteLog` does at first: it ends the file, or writes its message. -/
theorem RTWLog.writeLog_cases (h : log.writeLog maxSize now message files = some (log', files')) :
    log.phase = .idle ∧
      (log.Over maxSize files ∧ log' = ⟨log.logName, .ended message⟩ ∧
          files' = files.writeLine now log.logName logFileEnd ∨
        ¬ log.Over maxSize files ∧ log' = log ∧
          files' = files.writeLine now log.logName message) := by
  unfold writeLog at h
  split at h
  · rename_i hphase
    refine ⟨hphase, ?_⟩
    split at h
    · rename_i hover
      cases h
      exact .inl ⟨hover, rfl, rfl⟩
    · rename_i hover
      cases h
      exact .inr ⟨hover, rfl, rfl⟩
  · cases h

/-- What it does then: it turns to the other file, and writes its message there. -/
theorem RTWLog.goOn_cases (h : log.goOn now files = some (log', files')) :
    ∃ message,
      log.phase = .ended message ∧ log' = ⟨log.logName.other, .turned message⟩ ∧
          files' = files.truncate now log.logName.other ∨
        log.phase = .turned message ∧ log' = ⟨log.logName, .idle⟩ ∧
          files' = files.writeLine now log.logName message := by
  unfold goOn at h
  split at h
  · cases h
  · rename_i hphase
    cases h
    exact ⟨_, .inl ⟨hphase, rfl, rfl⟩⟩
  · rename_i hphase
    cases h
    exact ⟨_, .inr ⟨hphase, rfl, rfl⟩⟩

/-- The line `[END]` of a file the writer has left. -/
def RTWLog.ending (log : RTWLog) (name : LogName) : List Str :=
  if name ≠ log.logName ∨ log.phase.isEnded then [logFileEnd] else []

theorem logFileEnd_not_mem : newline ∉ logFileEnd := by decide

theorem RTWLog.mem_ending {name : LogName} {l : Str} (h : l ∈ log.ending name) :
    l = logFileEnd := by
  unfold ending at h
  split at h
  · exact List.mem_singleton.mp h
  · cases h

/-- From `pos` on the file is lines of which `P` holds, and after them `[END]` if the writer has
left it. -/
def RTWLog.Holds (P : Str → Prop) (log : RTWLog) (files : LogFiles) (name : LogName)
    (pos : Nat) : Prop :=
  ∃ file ls, files name = some file ∧ pos ≤ file.content.length ∧ (∀ l ∈ ls, P l) ∧
    file.content.drop pos = unlines newline (ls ++ log.ending name)

/-- The files of a writer that has written lines of which `P` holds. -/
structure RTWLog.Written (P : Str → Prop) (log : RTWLog) (files : LogFiles) : Prop where
  current : log.Holds P files log.logName 0
  other : files.content log.logName.other = [] ∨ log.Holds P files log.logName.other 0
  message : ∀ m, log.phase = .ended m ∨ log.phase = .turned m → P m

variable {P Q : Str → Prop} {name : LogName} {pos : Nat}

namespace RTWLog.Holds

/-- From `pos` on the file is whole lines. -/
theorem lines (hP : ∀ l, P l → newline ∉ l) (h : log.Holds P files name pos) :
    pos ≤ (files.content name).length ∧ ∃ ls, (∀ l ∈ ls, newline ∉ l) ∧
      (files.content name).drop pos = unlines newline ls := by
  obtain ⟨file, ls, hfile, hpos, hls, htext⟩ := h
  rw [LogFiles.content_eq hfile]
  refine ⟨hpos, _, fun l hl => ?_, htext⟩
  rcases List.mem_append.mp hl with hl | hl
  · exact hP l (hls l hl)
  · rw [mem_ending hl]
    exact logFileEnd_not_mem

theorem mono (hPQ : ∀ l, P l → Q l) (h : log.Holds P files name pos) :
    log.Holds Q files name pos := by
  obtain ⟨file, ls, hfile, hpos, hls, htext⟩ := h
  exact ⟨file, ls, hfile, hpos, fun l hl => hPQ l (hls l hl), htext⟩

/-- What the writer does to its other file leaves this one, if it goes on being left or not. -/
theorem congr (h : log.Holds P files name pos) (hfiles : files' name = files name)
    (hending : log'.ending name = log.ending name) : log'.Holds P files' name pos := by
  unfold Holds
  rw [hfiles, hending]
  exact h

/-- A line is written into the file. -/
theorem line (h : log.Holds P files name pos) {extra : List Str} (hextra : ∀ l ∈ extra, P l)
    (hending : log.ending name = []) (hending' : extra ++ log'.ending name = [message]) :
    log'.Holds P (files.writeLine now name message) name pos := by
  obtain ⟨file, ls, hfile, hpos, hls, htext⟩ := h
  refine ⟨_, ls ++ extra, LogFiles.writeLine_self, ?_, ?_, ?_⟩
  · rw [LogFiles.content_eq hfile, List.length_append]
    exact Nat.le_add_right_of_le hpos
  · exact fun l hl => (List.mem_append.mp hl).elim (hls l) (hextra l)
  · rw [LogFiles.content_eq hfile, List.drop_append_of_le_length hpos, htext, hending,
      List.append_assoc, hending', List.append_nil, unlines_append]
    simp

/-- **A message is written.** -/
theorem writeLine (h : log.Holds P files name pos) (hm : P message)
    (hlog : log.phase.isEnded = false) (hlog' : log'.phase.isEnded = false)
    (hname : log'.logName = log.logName) :
    log'.Holds P (files.writeLine now log.logName message) name pos := by
  by_cases hn : name = log.logName
  · subst hn
    refine h.line (List.forall_mem_singleton.mpr hm) ?_ ?_
    · simp [ending, hlog]
    · simp [ending, hname, hlog']
  · refine h.congr (LogFiles.writeLine_of_ne hn) ?_
    simp [ending, hn, hname]

/-- **The file is ended.** -/
theorem endLine (h : log.Holds P files name pos) (hlog : log.phase.isEnded = false) :
    RTWLog.Holds P ⟨log.logName, .ended message⟩ (files.writeLine now log.logName logFileEnd)
      name pos := by
  by_cases hn : name = log.logName
  · subst hn
    refine h.line (List.forall_mem_nil P) ?_ ?_
    · simp [ending, hlog]
    · simp [ending, Phase.isEnded]
  · refine h.congr (LogFiles.writeLine_of_ne hn) ?_
    simp [ending, hn]

/-- **The writer turns** to the other file, and has left this one. -/
theorem turn (h : log.Holds P files log.logName pos) (hlog : log.phase.isEnded = true) :
    RTWLog.Holds P ⟨log.logName.other, .turned message⟩
      (files.truncate now log.logName.other) log.logName pos := by
  refine h.congr (LogFiles.truncate_of_ne (LogName.other_ne _).symm) ?_
  simp [ending, hlog, (LogName.other_ne log.logName).symm]

end RTWLog.Holds

/-- A file the writer has just turned to has no lines. -/
theorem RTWLog.holds_truncate (hname : log.logName = name) (hlog : log.phase.isEnded = false) :
    log.Holds P (files.truncate now name) name 0 :=
  ⟨_, [], LogFiles.truncate_self, Nat.zero_le _, nofun, by simp [ending, hname, hlog]⟩

namespace RTWLog.Written

/-- **The files of the writer.**  What a call of `WriteLog` does at first keeps them. -/
theorem writeLog (h : log.Written P files) (hm : P message)
    (hw : log.writeLog maxSize now message files = some (log', files')) :
    log'.Written P files' := by
  obtain ⟨hphase, hcases⟩ := writeLog_cases hw
  have hlog : log.phase.isEnded = false := by rw [hphase]; rfl
  obtain ⟨-, rfl, rfl⟩ | ⟨-, rfl, rfl⟩ := hcases
  · refine ⟨h.current.endLine hlog, ?_, fun m hp => ?_⟩
    · rw [LogFiles.content, LogFiles.writeLine_of_ne (LogName.other_ne _)]
      exact h.other.imp_right fun h => h.endLine hlog
    · obtain hp | hp := hp <;> cases hp
      exact hm
  · refine ⟨h.current.writeLine hm hlog hlog rfl, ?_, h.message⟩
    rw [LogFiles.content, LogFiles.writeLine_of_ne (LogName.other_ne _)]
    exact h.other.imp_right fun h => h.writeLine hm hlog hlog rfl

/-- **And what it does then.** -/
theorem goOn (h : log.Written P files) (hw : log.goOn now files = some (log', files')) :
    log'.Written P files' := by
  obtain ⟨m, ⟨hphase, rfl, rfl⟩ | ⟨hphase, rfl, rfl⟩⟩ := goOn_cases hw
  · have hlog : log.phase.isEnded = true := by rw [hphase]; rfl
    refine ⟨holds_truncate rfl rfl, .inr ?_, fun m' hp => ?_⟩
    · rw [LogName.other_other]
      exact h.current.turn hlog
    · obtain hp | hp := hp <;> cases hp
      exact h.message m (.inl hphase)
  · have hlog : log.phase.isEnded = false := by rw [hphase]; rfl
    have hm := h.message m (.inr hphase)
    refine ⟨h.current.writeLine hm hlog rfl rfl, ?_, nofun⟩
    rw [LogFiles.content, LogFiles.writeLine_of_ne (LogName.other_ne _)]
    exact h.other.imp_right fun h => h.writeLine hm hlog rfl rfl

end RTWLog.Written

end

end Realwork.Common
