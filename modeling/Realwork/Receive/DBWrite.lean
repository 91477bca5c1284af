import Realwork.Receive.CstFile
import Realwork.Receive.CstRecord

/-!
# Receive — the database thread

`DBWrite.cxx` and `WRecord::Run`: the records of a message are collected in `m_xmlMap`, and the
end record of the message reconciles the table with them in one transaction.
-/

namespace Realwork.Receive

open Realwork.Lib

/-- `ClearRecords`. -/
def clearRecords : Proc Unit :=
  modify fun w => { w with xmlMap := ∅, dbMap := ∅ }

/-- The loop of `ReconnectDB`, with `times` tries left. -/
def reconnectLoop : Nat → Proc Unit
  | 0 => modify fun w => { w with skip := true }
  | times + 1 => tryCatch openConnection fun _ => reconnectLoop times

/-- `ReconnectDB`; it makes one try also when the configured number is 0. -/
def reconnectDB (env : Env) : Proc Unit := reconnectLoop (max 1 env.dbRetryNumber)

/-- `AddXmlRecord`; it returns whether the session is alive. -/
def addXmlRecord (env : Env) (record : CstChildRecord) : Proc Bool := do
  if (← get).skip then pure true
  else
    tryCatch
      (do
        modify fun w => { w with cstRecord := record.cst }
        match ← record.fillRealworkRecord env with
        | some newRecord =>
            modify fun w => { w with xmlMap := w.xmlMap.insert newRecord.cstChildNo newRecord }
        | none => pure ()
        pure true)
      fun
        | .dbConnect => pure false
        | _ => pure true

/-- The record cancels the work it is about: it has neither a start nor an end. -/
def RealworkRecord.Cancels (record : RealworkRecord) : Prop :=
  record.sDate = [] ∧ record.eDate = []

instance : DecidablePred RealworkRecord.Cancels := fun record =>
  inferInstanceAs (Decidable (record.sDate = [] ∧ record.eDate = []))

/-- The record of the result file for a row that is cancelled: the work ends when it started. -/
def cancelLine (db xml : RealworkRecord) : Option RealworkRecord :=
  if xml.nodeId = db.nodeId ∧ (db.sDate ≠ [] ∧ db.eDate = []) then
    some { db with eDate := db.sDate }
  else none

/-- The record of the result file for a row whose work has ended. -/
def updateLine (db xml : RealworkRecord) : Option RealworkRecord :=
  if xml.nodeId = db.nodeId ∧ (xml.eDate ≠ [] ∧ xml.eDate ≠ db.eDate) then
    some { db with sDate := xml.sDate, eDate := xml.eDate }
  else none

/-- The body of the loop over `m_dbMap`. -/
def reconcileEntry (env : Env) (dbIter : Str × RealworkRecord) : Proc Unit := do
  match (← get).xmlMap.find? dbIter.1 with
  | some (_, xml) =>
      if xml.Cancels then do
        deleteRealwork dbIter.2
        (cancelLine dbIter.2 xml).forM (writeRecord env)
      else do
        updateRealwork env dbIter.2 xml
        (updateLine dbIter.2 xml).forM (writeRecord env)
  | none => deleteRealwork dbIter.2

/-- The body of the loop over `m_xmlMap`. -/
def insertEntry (env : Env) (xmlIter : Str × RealworkRecord) : Proc Unit := do
  if xmlIter.2.sDate ≠ [] ∧ (← get).dbMap.find? xmlIter.1 = none then
    insertRealwork env xmlIter.2

/-- The body of the `try` of `ExecuteRecords`. -/
def executeBody (env : Env) (cstNo : Str) : Proc Unit := do
  selectRealwork env cstNo
  (← get).dbMap.entries.forM (reconcileEntry env)
  (← get).xmlMap.entries.forM (insertEntry env)
  commit
  writeEnd env true

/-- The handlers of `ExecuteRecords`. -/
def executeHandler (env : Env) : Raised → Proc Bool
  | .dbConnect => do
      writeEnd env false
      pure false
  | _ => do
      rollback
      writeEnd env false
      pure true

/-- `ExecuteRecords`; it returns `false` when the session is lost. -/
def executeRecords (env : Env) : Proc Bool := do
  if (← get).skip then pure true
  else
    let cstNo := (← get).cstRecord.cstNo
    if cstNo = [] then pure true
    else do
      modify fun w => { w with cstFile := {} }
      tryCatch (do executeBody env cstNo; pure true) (executeHandler env)

/-- `while( !body() ) ReconnectDB();`.  A round that does not end the loop takes an outcome from
`World.outcomes`, so the rounds do not run out. -/
def untilAlive (env : Env) (body : Proc Bool) : Nat → Proc Unit
  | 0 => throw .other
  | rounds + 1 => do
      if ← body then pure ()
      else do
        reconnectDB env
        untilAlive env body rounds

/-- `WRecord::Run`. -/
def WRecord.run (env : Env) (record : WRecord) : Proc Unit := do
  let rounds := (← get).outcomes.length + 1
  if record.isEnd then do
    untilAlive env (executeRecords env) rounds
    clearRecords
  else untilAlive env (addXmlRecord env (CstChildRecord.ofWRecord record)) rounds

/-- The thread runs the events of its queue one after the other. -/
def runRecords (env : Env) (records : List WRecord) : Proc Unit :=
  records.forM (WRecord.run env)

end Realwork.Receive
