import Realwork.Lib.Machine
import Realwork.Monitor.LogAnalyzer

/-!
# Monitor — a writer and a watcher of one log

`LogWatcher`, whose thread calls `WatchLog` again and again beside a process that writes through
`RTWLog`.  Each test of `GetCurrentLogFile`, the opening of the file and each `fgets` is a step
of the watcher, and sees the files as they are then.

* `watching`: the machine of both.  `opened` and `due` are not in the program: they keep whether
  the watcher has opened its first file, and the contents of the commands it has to send from
  there on.
* `Watch.ahead`: the commands the watcher has still to read, if nothing more is written.
-/

namespace Realwork.Monitor

open Realwork.Lib Realwork.Common

/-! ### Commands in their container -/

def AoCommand.isEmpty (aoCmd : AoCommand) : Bool := aoCmd.type = .unknown

structure AoCommandContainer where
  hcCntCmd : AoCommand := {}
  workCntCmd : AoCommand := {}
  otherCntCmd : AoCommand := {}
  commonCmdVector : List AoCommand := []
  deriving DecidableEq

namespace AoCommandContainer

def isEmpty (aoCmdContainer : AoCommandContainer) : Bool :=
  aoCmdContainer.hcCntCmd.isEmpty && aoCmdContainer.workCntCmd.isEmpty &&
    aoCmdContainer.otherCntCmd.isEmpty && aoCmdContainer.commonCmdVector.length = 0

/-- The `switch` over the type of a command. -/
def put (aoCmdContainer : AoCommandContainer) (aoCmd : AoCommand) : AoCommandContainer :=
  match aoCmd.type with
  | .hcCounter => { aoCmdContainer with hcCntCmd := aoCmd }
  | .workCounter => { aoCmdContainer with workCntCmd := aoCmd }
  | .otherCounter => { aoCmdContainer with otherCntCmd := aoCmd }
  | _ => { aoCmdContainer with commonCmdVector := aoCmdContainer.commonCmdVector ++ [aoCmd] }

/-- The contents of the common commands. -/
def contents (aoCmdContainer : AoCommandContainer) : List Str :=
  aoCmdContainer.commonCmdVector.map AoCommand.cmdContent

end AoCommandContainer

/-- The content of a `<COMMAND>` line. -/
def command? (message : Str) : Option Str :=
  if has cmdLogCommonCntFlag message then some (after cmdLogCommonCntFlag message) else none

/-- The contents of the `<COMMAND>` lines of a text. -/
def commandsIn (text : Str) : List Str := (text.splitOn newline).filterMap command?

/-! ### The watcher -/

/-- The branches of `GetCurrentLogFile`. -/
inductive Branch where
  | both
  | first
  | second
  deriving DecidableEq

/-- The tests a branch makes of a file. -/
inductive Test where
  | exist
  | notEmpty
  | notEnd
  deriving DecidableEq

def Test.passes (files : LogFiles) (name : LogName) : Test → Bool
  | exist => isFileExist files name
  | notEmpty => !isEmptyFile files name
  | notEnd => isEndLogFile files name = 0

/-- Where `WatchLog` is. -/
inductive Watch where
  /-- `GetCurrentLogFile`, before a test. -/
  | looking (branch : Branch) (name : LogName) (test : Test) (tailFromTopFlag : Bool)
  /-- Before `GetNewerFile`. -/
  | comparing (tailFromTopFlag : Bool)
  /-- Before `OpenLogFileTail`. -/
  | chosen (name : LogName) (tailFromTopFlag : Bool)
  /-- Before `fgets`; `eof` is the end-of-file indicator. -/
  | reading (name : LogName) (pos : Nat) (eof : Bool) (aoCmdContainer : AoCommandContainer)
  /-- `WatchLog` has returned `false`, and the thread has ended. -/
  | ended
  deriving DecidableEq

namespace Watch

/-- `GetCurrentLogFile` from its first test on. -/
def look (tailFromTopFlag : Bool) : Watch := looking .both .first .exist tailFromTopFlag

/-- The file that is chosen or open. -/
def name? : Watch → Option LogName
  | chosen name _ => some name
  | reading name _ _ _ => some name
  | _ => none

/-- The container that is being filled. -/
def held : Watch → AoCommandContainer
  | reading _ _ _ aoCmdContainer => aoCmdContainer
  | _ => {}

/-- After a test that passes. -/
def pass (branch : Branch) (name : LogName) (tailFromTopFlag : Bool) : Test → Watch
  | .exist => looking branch name .notEmpty tailFromTopFlag
  | .notEmpty => looking branch name .notEnd tailFromTopFlag
  | .notEnd =>
      match branch, name with
      | .both, .first => looking .both .second .exist tailFromTopFlag
      | .both, .second => comparing tailFromTopFlag
      | _, name => chosen name tailFromTopFlag

/-- After a test that fails; the last branch is before the `else`, which makes the flag true. -/
def fail (tailFromTopFlag : Bool) : Branch → Watch
  | .both => looking .first .first .exist tailFromTopFlag
  | .first => looking .second .second .exist tailFromTopFlag
  | .second => look true

def tested (files : LogFiles) (branch : Branch) (name : LogName) (test : Test)
    (tailFromTopFlag : Bool) : Watch :=
  if test.passes files name then pass branch name tailFromTopFlag test
  else fail tailFromTopFlag branch

/-- After `GetNewerFile`; where that fails the loop is taken from its beginning. -/
def compared (files : LogFiles) (tailFromTopFlag : Bool) : Watch :=
  match getNewerFile files with
  | some name => chosen name tailFromTopFlag
  | none => look tailFromTopFlag

/-- `OpenLogFileTail`. -/
def openLogFileTail (files : LogFiles) (name : LogName) (tailFromTopFlag : Bool) : Watch :=
  match files name with
  | some file => reading name (if tailFromTopFlag then 0 else file.content.length) false {}
  | none => ended

end Watch

/-- The commands of a file from `pos` on, and of the file the writer has turned to from it. -/
def unread (log : RTWLog) (files : LogFiles) (name : LogName) (pos : Nat) : List Str :=
  commandsIn ((files.content name).drop pos) ++
    if name = log.logName then [] else commandsIn (files.content log.logName)

/-- The commands the watcher has still to read, if nothing more is written and it opens a further
file from the top. -/
def Watch.ahead (sticky : Bool) (log : RTWLog) (files : LogFiles) : Watch → List Str
  | looking .. | comparing _ => if log.phase.isEnded then [] else unread log files log.logName 0
  | chosen name _ => unread log files name 0
  | reading name pos eof _ => if sticky && eof then [] else unread log files name pos
  | ended => []

/-- What `fgets` takes.  A C library may keep the end-of-file indicator, so that a file that has
grown after its end was met is not read again (`sticky`). -/
def fgets (sticky eof : Bool) (content : Str) (pos : Nat) : Str :=
  if sticky && eof then [] else takeLine newline lineBuffSize (content.drop pos)

/-! ### Both -/

/-- The files, the writer, the watcher and the containers it has passed to `SendAo`. -/
structure Watched where
  files : LogFiles
  now : Nat
  log : RTWLog
  watch : Watch
  sent : List AoCommandContainer
  opened : Bool
  due : List Str

inductive Action where
  | write (message : Str)
  /-- The writer goes on turning to the other file. -/
  | goOn
  /-- `time` advances. -/
  | tick
  | watch
  deriving DecidableEq

namespace Watched

/-- A message is written. -/
def wrote (s : Watched) (message : Str) : List Str :=
  if s.opened then s.due ++ (command? message).toList else s.due

/-- `OpenLogFileTail`; from the first opening on the commands ahead are due. -/
def openFile (sticky : Bool) (s : Watched) (name : LogName) (tailFromTopFlag : Bool) : Watched :=
  let watch := Watch.openLogFileTail s.files name tailFromTopFlag
  { s with
    watch
    opened := true
    due := if s.opened then s.due else watch.ahead sticky s.log s.files }

/-- `SendAo`, for a container that is not empty. -/
def send (s : Watched) (aoCmdContainer : AoCommandContainer) : List AoCommandContainer :=
  if aoCmdContainer.isEmpty then s.sent else s.sent ++ [aoCmdContainer]

/-- One `fgets`, and the handling of its line.  Without a line the container is sent, and the
watcher sleeps before it reads on. -/
def readLine (sticky : Bool) (s : Watched) (name : LogName) (pos : Nat) (eof : Bool)
    (aoCmdContainer : AoCommandContainer) : Watched :=
  let buf := fgets sticky eof (s.files.content name) pos
  let lineString := bufferedLine buf
  if buf = [] then
    { s with watch := .reading name pos true {}, sent := s.send aoCmdContainer }
  else if isValidCmdLineBuf lineString then
    let aoCmd := getAoCmdFromLine lineString
    { s with watch := .reading name (pos + buf.length) eof (aoCmdContainer.put aoCmd) }
  else if isLogEnd lineString then
    { s with watch := .look false, sent := s.send aoCmdContainer }
  else { s with watch := .reading name (pos + buf.length) eof aoCmdContainer }

/-- One step of the watcher. -/
def watchLog (sticky : Bool) (s : Watched) : Option Watched :=
  match s.watch with
  | .looking branch name test tailFromTopFlag =>
      some { s with watch := .tested s.files branch name test tailFromTopFlag }
  | .comparing tailFromTopFlag =>
      some { s with watch := .compared s.files tailFromTopFlag }
  | .chosen name tailFromTopFlag => some (s.openFile sticky name tailFromTopFlag)
  | .reading name pos eof aoCmdContainer => some (s.readLine sticky name pos eof aoCmdContainer)
  | .ended => none

def step (maxSize : Nat) (sticky : Bool) : Action → Watched → Option Watched
  | .write message, s =>
      (s.log.writeLog maxSize s.now message s.files).map fun w =>
        { s with
          log := w.1
          files := w.2
          due := if s.log.Over maxSize s.files then s.due else s.wrote message }
  | .goOn, s =>
      (s.log.goOn s.now s.files).map fun w =>
        { s with
          log := w.1
          files := w.2
          due := match s.log.phase with
            | .turned message => s.wrote message
            | _ => s.due }
  | .tick, s => some { s with now := s.now + 1 }
  | .watch, s => s.watchLog sticky

end Watched

/-- A command line that comes out of the watcher's buffer as it went into the file, and is no
counter line if it is a `<COMMAND>` line. -/
structure CommandLine (message : Str) : Prop where
  byte : ∀ b ∈ message, b ≠ 0 ∧ b ≠ newline
  last : message.getLast? ≠ some 0x0d
  fits : message.length ≤ lineBuffSize
  valid : isValidCmdLineBuf message = true
  common : has cmdLogCommonCntFlag message = true →
    has cmdLogHcCntFlag message = false ∧ has cmdLogWorkCntFlag message = false ∧
      has cmdLogOtherCntFlag message = false

instance (message : Str) : Decidable (CommandLine message) :=
  decidable_of_iff (message.all (fun b => b ≠ 0 ∧ b ≠ newline) = true ∧
      message.getLast? ≠ some 0x0d ∧ message.length ≤ lineBuffSize ∧
      isValidCmdLineBuf message = true ∧ (has cmdLogCommonCntFlag message = true →
        has cmdLogHcCntFlag message = false ∧ has cmdLogWorkCntFlag message = false ∧
          has cmdLogOtherCntFlag message = false))
    ⟨fun ⟨h₁, h₂, h₃, h₄, h₅⟩ => ⟨by simpa using h₁, h₂, h₃, h₄, h₅⟩,
      fun ⟨h₁, h₂, h₃, h₄, h₅⟩ => ⟨by simpa using h₁, h₂, h₃, h₄, h₅⟩⟩

/-- A writer whose files are limited, and which has written command lines, and a watcher that
begins with `GetCurrentLogFile`.  Files of no limit have another name. -/
def watching (maxSize : Nat) (sticky : Bool) : Machine Watched Action where
  start s := 0 < maxSize ∧ s.log.Written CommandLine s.files ∧ s.watch = .look false ∧
    s.sent = [] ∧ s.opened = false ∧ s.due = []
  step := Watched.step maxSize sticky

end Realwork.Monitor
