import Realwork.Receive.Coder
import Realwork.Receive.CstNode
import Realwork.Receive.DBConnection

/-!
# Receive — the record of a construction

`CstRecord.cxx`: what the database thread makes of a record of a message.
-/

namespace Realwork.Receive

open Realwork.Lib

/-- `CstChildRecord`, without its type, which is `WRecord.isEnd`. -/
structure CstChildRecord where
  cst : CstRecord := {}
  cstChildNo : Str := []
  bldName : Str := []
  mType : Str := []
  sDatePre : Str := []
  eDatePre : Str := []
  sDate : Str := []
  eDate : Str := []
  inputRes : Str := []
  neId : Str := []
  subNeId : Str := []

/-- The constructor `CstChildRecord(record)`. -/
def CstChildRecord.ofWRecord (record : WRecord) : CstChildRecord :=
  if record.isEnd then {}
  else {
    cst := {
      cstNo := record.cmngno
      scheduleName := checkChars record.constnm
      mCnt := record.equipCount }
    cstChildNo := record.kono
    bldName := checkChars record.buil_nm
    mType := checkChars record.kaitei_nm
    sDatePre := record.sdate
    eDatePre := record.edate
    sDate := record.jsdate
    eDate := record.jedate
    inputRes := checkChars record.ope_kd_flg
    neId := record.neid
    subNeId := record.sub_neid }

/-- The literal 自動 of the source file, which is Shift_JIS text. -/
def inputResAuto : Str := [0x8e, 0xa9, 0x93, 0xae]

namespace CstChildRecord

/-- The planned dates of a record that is started automatically are a day apart, or more. -/
def preDatePass (env : Env) (r : CstChildRecord) : Option Bool :=
  if r.inputRes = inputResAuto ∧ r.sDatePre ≠ [] ∧ r.eDatePre ≠ [] then do
    let eDatePre ← getStringTime env r.eDatePre
    let sDatePre ← getStringTime env r.sDatePre
    return decide (eDatePre - sDatePre ≥ 24 * 60 * 60)
  else some false

end CstChildRecord

/-- `GetCstSerial`. -/
def CstNode.getCstSerial (env : Env) (node : CstNode) : Proc Str :=
  if node.neType = lit "000a" then do
    let s ← getSectorNo env node.serial node.mms node.rnc node.bts
    if s.errCode ≠ 0 then throw .nodeParse else pure s.sector
  else if node.neType = lit "0006" ∨ node.neType = lit "0010" then pure node.bts
  else pure node.serial

namespace CstChildRecord

/-- The record that is filled in from the child record and its network element. -/
def realwork (env : Env) (r : CstChildRecord) (node : CstNode) (nodeId serialno : Str) :
    RealworkRecord :=
  { cstNo := r.cst.cstNo
    cstChildNo := r.cstChildNo
    nodeId
    neType := node.getCstNeType
    serialno
    mms := node.mms
    rnc := node.rnc
    bts := node.getCstBts
    regionCode := node.getCstRegionCode env
    scheduleName := r.cst.scheduleName
    sDatePre := r.sDatePre
    eDatePre := r.eDatePre
    sDate := r.sDate
    eDate := r.eDate
    mCnt := atoi r.cst.mCnt
    bldName := r.bldName
    mType := r.mType
    inputRes := r.inputRes }

/-- The body of the `try` of `FillRealworkRecord`; `none` is `return false`. -/
def fillBody (env : Env) (r : CstChildRecord) : Proc (Option RealworkRecord) :=
  if r.cst.cstNo = [] then pure none
  else if r.cstChildNo = [] then pure none
  else if r.sDate = [] ∧ r.eDate ≠ [] then pure none
  else do
    let pass ← Proc.ofOption (r.preDatePass env)
    if pass then pure none
    else do
      let node ← Proc.ofExcept (CstNode.ofNeId env r.neId r.subNeId)
      let nodeId ← Proc.ofOption node.getCstNodeId
      let serialno ← node.getCstSerial env
      pure (some (r.realwork env node nodeId serialno))

/-- `FillRealworkRecord`. -/
def fillRealworkRecord (env : Env) (r : CstChildRecord) : Proc (Option RealworkRecord) :=
  tryCatch (r.fillBody env) fun
    | .nodeParse => pure none
    | .otl => do
        modify fun w => { w with refusals := w.refusals + 1 }
        pure none
    | .dbConnect => throw .dbConnect
    | .other => pure none

end CstChildRecord

end Realwork.Receive
