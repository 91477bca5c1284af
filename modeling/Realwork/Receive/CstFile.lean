import Realwork.Receive.CstNode
import Realwork.Receive.DBConnection

/-!
# Receive — the result file

`CstFile.cxx`.  The file of an attempt is opened in the directory for temporary files when its
first record is written; `writeEnd` renames it into the result directory or removes it.  An
attempt to open, rename or remove is repeated until it succeeds.
-/

namespace Realwork.Receive

open Realwork.Lib

def tmpFileName (env : Env) (time : Str) : Str :=
  env.resultTmpDir ++ lit "/realwork_" ++ time ++ lit ".tmp"

def resultFileName (env : Env) (time : Str) : Str :=
  env.resultDir ++ lit "/realwork_" ++ time ++ lit ".csv"

/-- The line of a record; `none` is the `out_of_range` of a date that is too short. -/
def csvLine (record : RealworkRecord) : Option Str := do
  let sDate ← changeTimeFormat record.sDate
  let eDate ← changeTimeFormat record.eDate
  return (lit ",").intercalate [record.cstNo, record.cstChildNo, record.nodeId, sDate, eDate,
    record.serialno, record.mms, record.rnc, record.bts]

namespace World

/-- `while( !m_ofs.is_open() )`, on the attempts to open that fail. -/
def openLoop (env : Env) : List Bool → World → World
  | true :: fileFails, w =>
      openLoop env fileFails { w with
        ticks := w.ticks + 1
        cstFile := ⟨false, tmpFileName env (env.nowTimeString w.ticks)⟩
        fileFails }
  | fileFails, w =>
      let path := tmpFileName env (env.nowTimeString w.ticks)
      { w with
        ticks := w.ticks + 1
        cstFile := ⟨true, path⟩
        tmpDir := Function.update w.tmpDir path (some [])
        fileFails := fileFails.tail }

/-- The line is added to the open file. -/
def appendLine (line : Str) (w : World) : World :=
  let path := w.cstFile.tmpFilePath
  { w with tmpDir := Function.update w.tmpDir path ((w.tmpDir path).map (· ++ [line])) }

/-- `while( access(tmp) == 0 && rename(tmp, result) < 0 )`, on the attempts to rename that fail;
each attempt has its own name for the result. -/
def renameLoop (env : Env) : List Bool → World → World
  | true :: fileFails, w =>
      match w.tmpDir w.cstFile.tmpFilePath with
      | none => { w with ticks := w.ticks + 1 }
      | some _ => renameLoop env fileFails { w with ticks := w.ticks + 1, fileFails }
  | fileFails, w =>
      match w.tmpDir w.cstFile.tmpFilePath with
      | none => { w with ticks := w.ticks + 1 }
      | some lines =>
          let result := resultFileName env (env.nowTimeString w.ticks)
          { w with
            ticks := w.ticks + 1
            tmpDir := Function.update w.tmpDir w.cstFile.tmpFilePath none
            resultDir := Function.update w.resultDir result (some lines)
            fileFails := fileFails.tail }

/-- `while( access(tmp) == 0 && remove(tmp) < 0 )`, on the attempts to remove that fail. -/
def removeLoop : List Bool → World → World
  | true :: fileFails, w =>
      match w.tmpDir w.cstFile.tmpFilePath with
      | none => w
      | some _ => removeLoop fileFails { w with fileFails }
  | fileFails, w =>
      match w.tmpDir w.cstFile.tmpFilePath with
      | none => w
      | some _ =>
          { w with
            tmpDir := Function.update w.tmpDir w.cstFile.tmpFilePath none
            fileFails := fileFails.tail }

end World

/-- `WriteRecord`. -/
def writeRecord (env : Env) (record : RealworkRecord) : Proc Unit := do
  modify fun w => if w.cstFile.isOpen then w else w.openLoop env w.fileFails
  let line ← Proc.ofOption (csvLine record)
  modify fun w => w.appendLine line

/-- `WriteEnd`. -/
def writeEnd (env : Env) (isOk : Bool) : Proc Unit :=
  modify fun w =>
    if w.cstFile.isOpen then
      let w := { w with cstFile := { w.cstFile with isOpen := false } }
      if isOk then w.renameLoop env w.fileFails else w.removeLoop w.fileFails
    else w

end Realwork.Receive
