import Realwork.Common.OpenFile

/-!
# Common — the start of the log

`RTWLog::OpenFile` on every state of the two files: what `CheckEnd` does not raise an error on, and
the position the stream is set to.

* `openAt_eq_some`, `openAt_eq_none`: what is opened, and when nothing is.
* `starts_iff`: the states of the files the log can start on.
-/

namespace Realwork.Common

open Realwork.Lib

/-! ### The file that is opened -/

/-- A file that `CheckEnd` finds ended. -/
def ended (files : LogFiles) (name : LogName) : Bool := checkEnd files name = some true

/-- The file `OpenFile` opens, and the files after it, when `CheckEnd` raises nothing. -/
def openFile (now : Nat) (files : LogFiles) : LogName × LogFiles :=
  match files .first, files .second with
  | some file1, some file2 =>
      match ended files .first, ended files .second with
      | true, false => (.second, files.append now .second)
      | false, true => (.first, files.append now .first)
      | true, true =>
          if file1.mtime < file2.mtime then (.first, files.truncate now .first)
          else (.second, files.truncate now .second)
      | false, false =>
          if file1.mtime < file2.mtime then (.second, files.append now .second)
          else (.first, files.append now .first)
  | some _, none =>
      if ended files .first then (.second, files.append now .second)
      else (.first, files.append now .first)
  | none, some _ =>
      if ended files .second then (.first, files.append now .first)
      else (.second, files.append now .second)
  | none, none => (.first, files.append now .first)

/-! ### The start -/

section

variable {files : LogFiles} {now : Nat} {name : LogName} {stat1 stat2 : Stat} {opened : Opened}

theorem LogFiles.content_none (h : files name = none) : files.content name = [] := by
  rw [content, h]

/-- Opening a file to append to it leaves its bytes. -/
theorem LogFiles.content_append : (files.append now name).content name = files.content name := by
  cases h : files name with
  | none => rw [append, h, content_none h, content_truncate]
  | some file => rw [append, h]

theorem collected_ne_nil_iff (content : Str) :
    collected (tailLine content) ≠ [] ↔ Prints (tailLine content) := by
  rw [prints_iff, collected_eq_seen (newline_not_mem_tailLine content)]

theorem checkEnd_eq_some (h : Prints (tailLine (files.content name))) :
    checkEnd files name = some (ended files name) := by
  have hne := mt List.length_eq_zero_iff.mp ((collected_ne_nil_iff _).mpr h)
  rw [ended, checkEnd, if_neg hne]
  simp

theorem checkEnd_eq_none (h : ¬ Prints (tailLine (files.content name))) :
    checkEnd files name = none := by
  have hnil := not_not.mp (mt (collected_ne_nil_iff (files.content name)).mp h)
  rw [checkEnd, hnil]
  rfl

/-- Every file that exists has a last line of which something is collected. -/
def Printing (files : LogFiles) : Prop :=
  ∀ name, (files name).isSome → Prints (tailLine (files.content name))

/-- The file that is opened by `openFile`, and the position in it: the size of the file, or what
the variable for it held before. -/
def positionOf (stat1 stat2 : Stat) (now : Nat) (files : LogFiles) : Int :=
  match files .first, files .second, (openFile now files).1 with
  | some file1, some file2, name =>
      if ended files .first && ended files .second then 0
      else match name with
        | .first => file1.content.length
        | .second => file2.content.length
  | some file1, none, .first => file1.content.length
  | some _, none, .second => stat2.size
  | none, some file2, .second => file2.content.length
  | none, some _, .first => stat1.size
  | none, none, _ => 0

theorem openAt_eq_some (h : Printing files) :
    openAt stat1 stat2 now files = some
      ⟨(openFile now files).1, positionOf stat1 stat2 now files, (openFile now files).2⟩ := by
  cases h₁ : files .first with
  | none =>
      cases h₂ : files .second with
      | none => simp [openAt, statFile, h₁, h₂, openFile, positionOf]
      | some file2 =>
          have hend := checkEnd_eq_some (h .second (by rw [h₂]; rfl))
          cases he₂ : ended files .second <;>
            simp [openAt, statFile, h₁, h₂, hend, he₂, openFile, positionOf]
  | some file1 =>
      have hend1 := checkEnd_eq_some (h .first (by rw [h₁]; rfl))
      cases h₂ : files .second with
      | none =>
          cases he₁ : ended files .first <;>
            simp [openAt, statFile, h₁, h₂, hend1, he₁, openFile, positionOf]
      | some file2 =>
          have hend2 := checkEnd_eq_some (h .second (by rw [h₂]; rfl))
          by_cases htime : file1.mtime < file2.mtime <;>
            cases he₁ : ended files .first <;> cases he₂ : ended files .second <;>
            simp [openAt, statFile, h₁, h₂, hend1, hend2, he₁, he₂, htime, openFile, positionOf]

theorem openAt_eq_none (h : ¬ Printing files) : openAt stat1 stat2 now files = none := by
  simp only [Printing, not_forall] at h
  obtain ⟨name, hsome, hprints⟩ := h
  obtain ⟨file, hfile⟩ := Option.isSome_iff_exists.mp hsome
  have hend := checkEnd_eq_none hprints
  cases name with
  | first => simp [openAt, statFile, hfile, hend]
  | second =>
      -- the first file may have been refused before
      cases h₁ : files .first with
      | none => simp [openAt, statFile, h₁, hfile, hend]
      | some file1 => simp [openAt, statFile, h₁, hfile, hend]

/-- The log can start: no substring is taken outside a string, and the position is the size of the
file that is open, whatever the variables hold before. -/
def Starts (now : Nat) (files : LogFiles) : Prop :=
  ∀ stat1 stat2, ∃ opened, openAt stat1 stat2 now files = some opened ∧
    opened.position = (opened.files.content opened.logName).length

/-- **The position** is not the size of the file when this is the one that is not there. -/
theorem positionOf_eq_iff :
    (∀ stat1 stat2, positionOf stat1 stat2 now files =
      ((openFile now files).2.content (openFile now files).1).length) ↔
    ∀ name, (files name).isSome → files name.other = none → ended files name = false := by
  have names {p : LogName → Prop} : (∀ name, p name) ↔ p .first ∧ p .second :=
    ⟨fun h => ⟨h _, h _⟩, fun h name => by cases name; exacts [h.1, h.2]⟩
  -- a variable may hold another number than the size of an empty file
  have junk : ∃ stat : Stat, stat.size ≠ 0 := ⟨⟨0, 1⟩, by decide⟩
  have : Nonempty Stat := ⟨junk.choose⟩
  rw [names]
  cases h₁ : files .first with
  | none =>
      cases h₂ : files .second with
      | none =>
          simp [positionOf, h₁, h₂, openFile, LogFiles.content_append, LogFiles.content_none h₁]
      | some file2 =>
          cases he₂ : ended files .second with
          | false =>
              simp [positionOf, h₁, h₂, he₂, openFile, LogFiles.content_append,
                LogFiles.content_eq h₂]
          | true =>
              simpa [positionOf, h₁, h₂, he₂, openFile, LogFiles.content_append,
                LogFiles.content_none h₁, LogName.other] using junk
  | some file1 =>
      cases h₂ : files .second with
      | none =>
          cases he₁ : ended files .first with
          | false =>
              simp [positionOf, h₁, h₂, he₁, openFile, LogFiles.content_append,
                LogFiles.content_eq h₁]
          | true =>
              simpa [positionOf, h₁, h₂, he₁, openFile, LogFiles.content_append,
                LogFiles.content_none h₂, LogName.other] using junk
      | some file2 =>
          by_cases htime : file1.mtime < file2.mtime <;>
            cases he₁ : ended files .first <;> cases he₂ : ended files .second <;>
            simp [positionOf, h₁, h₂, he₁, he₂, htime, openFile, LogFiles.content_append,
              LogFiles.content_eq h₁, LogFiles.content_eq h₂, LogName.other]

/-- **The files the log can start on**: of every file that is there something is collected of the
last line, and a file that is there without the other one is not ended. -/
theorem starts_iff (now : Nat) (files : LogFiles) :
    Starts now files ↔
      (∀ name, (files name).isSome → Prints (tailLine (files.content name))) ∧
      ∀ name, (files name).isSome → files name.other = none → checkEnd files name = some false := by
  by_cases hprinting : Printing files
  · refine Iff.trans ?_ (and_iff_right hprinting).symm
    have hended : (∀ name, (files name).isSome → files name.other = none →
          checkEnd files name = some false) ↔
        ∀ name, (files name).isSome → files name.other = none → ended files name = false := by
      refine forall₂_congr fun name hsome => ?_
      rw [checkEnd_eq_some (hprinting name hsome), Option.some.injEq]
    rw [hended, ← @positionOf_eq_iff files now]
    refine forall₂_congr fun stat1 stat2 => ?_
    simp [openAt_eq_some hprinting]
  · refine iff_of_false (fun h => ?_) fun h => hprinting h.1
    obtain ⟨opened, hopened, -⟩ := h ⟨0, 0⟩ ⟨0, 0⟩
    rw [openAt_eq_none hprinting] at hopened
    cases hopened

/-- The log can not start on an empty first file, as the monitor creates it; and beside a first file
that is ended it sets the position to what a variable held before. -/
theorem not_starts_empty :
    ¬ Starts 1 (LogFiles.truncate (fun _ => none) 0 .first) ∧
    ¬ Starts 1 (LogFiles.writeLine (fun _ => none) 0 .first logFileEnd) := by
  constructor
  · intro h
    obtain ⟨opened, hopened, -⟩ := h ⟨0, 0⟩ ⟨0, 0⟩
    cases hopened
  · intro h
    obtain ⟨opened, hopened, hposition⟩ := h ⟨0, 0⟩ ⟨0, 7⟩
    have hat := congrArg (Option.map fun o => (o.position, o.files.content o.logName)) hopened
    have hjunk : (openAt ⟨0, 0⟩ ⟨0, 7⟩ 1 (LogFiles.writeLine (fun _ => none) 0 .first
        logFileEnd)).map (fun o => (o.position, o.files.content o.logName)) =
        some (7, []) := by decide +kernel
    rw [hjunk, Option.map_some, Option.some.injEq, Prod.mk.injEq] at hat
    obtain ⟨hseven, hnil⟩ := hat
    rw [← hseven, ← hnil] at hposition
    cases hposition

end

end Realwork.Common
