import Mathlib.Data.List.Infix
import Realwork.Base.Str
import Realwork.Lib.Machine

/-!
# Snmp — the log files

`common_log.pl`, `OpenLog`: each time a script begins it chooses one of two log files, and all its
lines are appended to that one.  When both have come to the maximum size, the older one is emptied.

* `length_openLog_lt`: a file is chosen while it is below the maximum size.
* `openLog_kept`: over all runs, what the two files have is the end of what has been logged.
-/

namespace Realwork.Snmp

open Lib

/-! ### The functions -/

/-- The log file itself, and those with `.1` and `.2` behind its name. -/
inductive LogName where
  | plain
  | one
  | two
deriving DecidableEq

/-- A log file and its `mtime`.  One that is not there has the size `undef`, which is as 0. -/
structure LogFile where
  text : Str := []
  mtime : Nat := 0

/-- Which file `OpenLog` opens, and whether it has emptied it with `system ">$LOG_FILE"`. -/
def openLog (maxSize : Int) (file1 file2 : LogFile) : LogName × Bool :=
  let size1 := file1.text.length
  let size2 := file2.text.length
  if maxSize > 0 then
    if size1 ≠ 0 ∧ size2 ≠ 0 then
      if size1 < maxSize ∧ size2 ≥ maxSize then (.one, false)
      else if size1 ≥ maxSize ∧ size2 < maxSize then (.two, false)
      else if size1 ≥ maxSize ∧ size2 ≥ maxSize then
        if file1.mtime > file2.mtime then (.two, true) else (.one, true)
      else if file1.mtime < file2.mtime then (.two, false)
      else (.one, false)
    else if size1 = 0 ∧ size2 ≠ 0 then if size2 < maxSize then (.two, false) else (.one, false)
    else if size1 ≠ 0 ∧ size2 = 0 then if size1 < maxSize then (.one, false) else (.two, false)
    else (.one, false)
  else (.plain, false)

/-- The log files; what has been logged, and when it was logged last. -/
structure Logs where
  file : LogName → LogFile := fun _ => {}
  logged : Str := []
  clock : Nat := 0

/-- A script: it opens its log at the time `opened`, and has appended `text` at the time
`written`. -/
structure Session where
  opened : Nat
  text : Str
  written : Nat

/-- The file a script appends to, as `OpenLog` leaves it. -/
def Logs.opened (maxSize : Int) (s : Logs) (time : Nat) : LogFile :=
  let (name, emptied) := openLog maxSize (s.file .one) (s.file .two)
  if emptied then { mtime := time } else s.file name

/-- The files after a script. -/
def Logs.run (maxSize : Int) (script : Session) (s : Logs) : Logs :=
  let name := (openLog maxSize (s.file .one) (s.file .two)).1
  let file := s.opened maxSize script.opened
  let file := { text := file.text ++ script.text
                mtime := if script.text = [] then file.mtime else script.written }
  { file := fun n => if n = name then file else s.file n
    logged := s.logged ++ script.text
    clock := script.written }

def logMachine (maxSize : Int) : Machine Logs Session where
  start := (· = {})
  step script s := some (s.run maxSize script)

/-- A script begins after what has been logged, and logs no more than `most`. -/
def Later (most : Nat) (script : Session) (s : Logs) : Prop :=
  s.clock < script.opened ∧ script.opened ≤ script.written ∧ script.text.length ≤ most

instance (most : Nat) (script : Session) (s : Logs) : Decidable (Later most script s) :=
  inferInstanceAs (Decidable (_ ∧ _ ∧ _))

/-! ### The file that is chosen -/

section

variable {maxSize : Int} {file1 file2 : LogFile} {s : Logs}

/-- **A file is chosen while it is below the maximum size**, or it is emptied. -/
theorem length_openLog_lt (hmax : 0 < maxSize) (s : Logs) (time : Nat) :
    ((s.opened maxSize time).text.length : Int) < maxSize := by
  rw [Logs.opened, openLog]
  grind

/-! ### What is kept -/

/-- What the two files have after any number of scripts: the one that is written has the last that
was logged, and the other one what was logged before, as far as it is there. -/
structure Kept (maxSize : Int) (most : Nat) (newer older : LogName) (s : Logs) : Prop where
  names : newer = .one ∧ older = .two ∨ newer = .two ∧ older = .one
  suffix : (s.file older).text ++ (s.file newer).text <:+ s.logged
  all : (s.file older).text ++ (s.file newer).text = s.logged ∨
    maxSize ≤ (s.file older).text.length
  full : (s.file older).text = [] ∨ maxSize ≤ (s.file older).text.length
  later : maxSize ≤ (s.file newer).text.length → (s.file older).mtime < (s.file newer).mtime
  clock : ∀ n, (s.file n).mtime ≤ s.clock
  size : ((s.file newer).text.length : Int) < maxSize + most ∧
    ((s.file older).text.length : Int) < maxSize + most

variable {newer older : LogName} {most time : Nat} {script : Session}

/-- The newer file is gone on with, or the older one begun anew; then the newer one is full, or
nothing has been logged. -/
theorem Kept.openLog_cases (hmax : 0 < maxSize) (h : Kept maxSize most newer older s) (time : Nat) :
    ((openLog maxSize (s.file .one) (s.file .two)).1 = newer ∧
      s.opened maxSize time = s.file newer) ∨
    ((openLog maxSize (s.file .one) (s.file .two)).1 = older ∧ (s.opened maxSize time).text = [] ∧
      ((s.file newer).text = [] ∧ (s.file older).text = [] ∨
        maxSize ≤ (s.file newer).text.length)) := by
  have hfull := h.full
  have hlater := h.later
  rw [← List.length_eq_zero_iff] at hfull
  simp only [← List.length_eq_zero_iff]
  rcases h.names with ⟨rfl, rfl⟩ | ⟨rfl, rfl⟩
  · simp only [Logs.opened, openLog, hmax, if_true]
    grind
  · simp only [Logs.opened, openLog, hmax, if_true]
    grind

theorem Later.clock (hscript : Later most script s) (hclock : ∀ n, (s.file n).mtime ≤ s.clock)
    (n : LogName) : ((s.run maxSize script).file n).mtime ≤ (s.run maxSize script).clock := by
  obtain ⟨hopened, hwritten, -⟩ := hscript
  have hfile : (s.opened maxSize script.opened).mtime ≤ script.opened := by
    rw [Logs.opened]
    dsimp only
    split
    · exact Nat.le_refl _
    · exact (hclock _).trans hopened.le
  have hn := hclock n
  dsimp only [Logs.run]
  split
  · dsimp only
    split <;> omega
  · omega

/-- The newer file is gone on with. -/
theorem Kept.goOn (hmax : 0 < maxSize) (h : Kept maxSize most newer older s)
    (hscript : Later most script s)
    (hname : (openLog maxSize (s.file .one) (s.file .two)).1 = newer)
    (hfile : s.opened maxSize script.opened = s.file newer) :
    Kept maxSize most newer older (s.run maxSize script) := by
  obtain ⟨hopened, hwritten, hmost⟩ := id hscript
  have hlt := length_openLog_lt hmax s script.opened
  have hne : older ≠ newer := by rcases h.names with ⟨rfl, rfl⟩ | ⟨rfl, rfl⟩ <;> decide
  have hnewer : ((s.run maxSize script).file newer).text =
      (s.file newer).text ++ script.text := by simp [Logs.run, hname, hfile]
  have hmtime : ((s.run maxSize script).file newer).mtime =
      if script.text = [] then (s.file newer).mtime else script.written := by
    simp [Logs.run, hname, hfile]
  have holder : (s.run maxSize script).file older = s.file older := by
    simp [Logs.run, hname, hne]
  have hold := h.clock older
  rw [hfile] at hlt
  refine ⟨h.names, ?_, ?_, holder ▸ h.full, ?_, hscript.clock h.clock, ?_, holder ▸ h.size.2⟩
  · rw [hnewer, holder, ← List.append_assoc]
    exact (List.suffix_append_inj_of_length_eq rfl).mpr ⟨h.suffix, rfl⟩
  · rw [hnewer, holder, ← List.append_assoc]
    exact h.all.imp_left fun hall => congrArg (· ++ script.text) hall
  · intro hfull
    rw [hnewer, List.length_append] at hfull
    rw [hmtime, holder]
    split
    · rename_i htext
      rw [htext, List.length_nil] at hfull
      omega
    · omega
  · rw [hnewer, List.length_append]
    omega

/-- The older file is begun anew. -/
theorem Kept.begin (hmax : 0 < maxSize) (h : Kept maxSize most newer older s)
    (hscript : Later most script s)
    (hname : (openLog maxSize (s.file .one) (s.file .two)).1 = older)
    (hempty : (s.opened maxSize script.opened).text = [])
    (hwhen : (s.file newer).text = [] ∧ (s.file older).text = [] ∨
      maxSize ≤ (s.file newer).text.length) :
    Kept maxSize most older newer (s.run maxSize script) := by
  obtain ⟨hopened, hwritten, hmost⟩ := id hscript
  have hne : newer ≠ older := by rcases h.names with ⟨rfl, rfl⟩ | ⟨rfl, rfl⟩ <;> decide
  have holder : ((s.run maxSize script).file older).text = script.text := by
    simp [Logs.run, hname, hempty]
  have hmtime : ((s.run maxSize script).file older).mtime =
      if script.text = [] then (s.opened maxSize script.opened).mtime else script.written := by
    simp [Logs.run, hname]
  have hnewer : (s.run maxSize script).file newer = s.file newer := by
    simp [Logs.run, hname, hne]
  have hold := h.clock newer
  refine ⟨h.names.symm.imp And.symm And.symm, ?_, ?_, ?_, ?_, hscript.clock h.clock, ?_,
    hnewer ▸ h.size.1⟩
  · rw [holder, hnewer]
    refine (List.suffix_append_inj_of_length_eq rfl).mpr ⟨?_, rfl⟩
    exact (List.suffix_append _ _).trans h.suffix
  · rw [holder, hnewer]
    refine hwhen.imp_left fun ⟨hn, ho⟩ => ?_
    have hall := h.all
    rw [hn, ho] at hall
    rcases hall with hall | hall
    · exact congrArg (· ++ script.text) (hn.trans hall)
    · exact absurd hmax (Int.not_lt.mpr hall)
  · rw [hnewer]
    exact hwhen.imp_left And.left
  · intro hfull
    rw [holder] at hfull
    have htext : script.text ≠ [] := by
      rintro htext
      rw [htext, List.length_nil] at hfull
      omega
    rw [hmtime, if_neg htext, hnewer]
    omega
  · rw [holder]
    omega

theorem Kept.run (hmax : 0 < maxSize) (h : Kept maxSize most newer older s)
    (hscript : Later most script s) :
    ∃ newer older, Kept maxSize most newer older (s.run maxSize script) := by
  rcases h.openLog_cases hmax script.opened with ⟨hname, hfile⟩ | ⟨hname, hempty, hwhen⟩
  · exact ⟨newer, older, h.goOn hmax hscript hname hfile⟩
  · exact ⟨older, newer, h.begin hmax hscript hname hempty hwhen⟩

theorem kept_start (hmax : 0 < maxSize) : Kept maxSize most .one .two {} where
  names := .inl ⟨rfl, rfl⟩
  suffix := List.suffix_rfl
  all := .inl rfl
  full := .inl rfl
  later hfull := absurd hmax (Int.not_lt.mpr hfull)
  clock _ := Nat.le_refl _
  size := by
    constructor <;> exact Int.add_pos_of_pos_of_nonneg hmax (Int.natCast_nonneg most)

/-- **What the log files keep.**  When each script begins after what has been logged, the two files
have the end of it, one after the other: all of it, or no less than the maximum size.  None of them
is longer than the maximum size and what a script logs. -/
theorem openLog_kept (hmax : 0 < maxSize) (hs : (logMachine maxSize).Reach (Later most) s) :
    (∃ newer older, (newer = .one ∧ older = .two ∨ newer = .two ∧ older = .one) ∧
      (s.file older).text ++ (s.file newer).text <:+ s.logged ∧
      ((s.file older).text ++ (s.file newer).text = s.logged ∨
        maxSize ≤ (s.file older).text.length)) ∧
    ∀ name, name = .one ∨ name = .two → ((s.file name).text.length : Int) < maxSize + most := by
  obtain ⟨newer, older, h⟩ : ∃ newer older, Kept maxSize most newer older s := by
    refine hs.invariant (P := fun s => ∃ newer older, Kept maxSize most newer older s)
      (fun s hstart => ?_) fun script s s' ⟨newer, older, h⟩ hscript hstep => ?_
    · cases hstart
      exact ⟨.one, .two, kept_start hmax⟩
    · cases hstep
      exact h.run hmax hscript
  refine ⟨⟨newer, older, h.names, h.suffix, h.all⟩, fun name hname => ?_⟩
  rcases h.names with ⟨rfl, rfl⟩ | ⟨rfl, rfl⟩
  · exact hname.elim (· ▸ h.size.1) (· ▸ h.size.2)
  · exact hname.elim (· ▸ h.size.2) (· ▸ h.size.1)

end

/-- Three scripts; for the third one both files have come to the size 3. -/
def threeScripts : List Session :=
  [⟨1, lit "abcd", 2⟩, ⟨3, lit "efg", 4⟩, ⟨5, lit "hi", 6⟩]

theorem openLog_kept_threeScripts :
    ∃ s, (logMachine 3).exec threeScripts {} = some s ∧ s.logged = lit "abcdefghi" ∧
      (s.file .two).text = lit "efg" ∧ (s.file .one).text = lit "hi" ∧
      (∃ newer older, (newer = .one ∧ older = .two ∨ newer = .two ∧ older = .one) ∧
        (s.file older).text ++ (s.file newer).text <:+ s.logged ∧
        ((s.file older).text ++ (s.file newer).text = s.logged ∨
          3 ≤ (s.file older).text.length)) :=
  ⟨_, rfl, rfl, rfl, rfl, by
    have hmeets : (logMachine 3).Meets (Later 4) threeScripts {} := by decide
    exact_mod_cast (openLog_kept (by decide) (.of_exec (.start rfl) hmeets rfl)).1⟩

end Realwork.Snmp
