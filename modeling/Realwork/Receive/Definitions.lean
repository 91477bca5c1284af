import Mathlib.Data.Int.Order.Basic
import Realwork.Base.Str
import Realwork.Lib.KeyMap
import Realwork.Lib.Proc

/-!
# Receive — the data of the database thread

The records of `DBConnection.hxx`, `CstRecord.hxx` and `WRecord.hxx`, the rows of the table
`REALWORK`, and the state the database thread works on (`World`): the members of `DBWrite`, the
database and the two directories of the result files.  What the thread takes from outside (its
configuration, the clock, the stored procedure, the date arithmetic) is in `Env`.
-/

namespace Realwork.Receive

open Realwork.Lib

/-- `WRecord`, without its `Dump`. -/
structure WRecord where
  messageType : Str := []
  koujitCount : Str := []
  regkubun : Str := []
  cmngno : Str := []
  constnm : Str := []
  equipCount : Str := []
  kono : Str := []
  buil_nm : Str := []
  kaitei_nm : Str := []
  sdate : Str := []
  edate : Str := []
  jsdate : Str := []
  jedate : Str := []
  ope_kd_flg : Str := []
  neid : Str := []
  sub_neid : Str := []
  isEnd : Bool := false
  deriving DecidableEq

/-- `RealworkRecord`. -/
structure RealworkRecord where
  cstNo : Str
  cstChildNo : Str
  nodeId : Str
  neType : Str
  serialno : Str
  mms : Str
  rnc : Str
  bts : Str
  regionCode : Str
  scheduleName : Str
  sDatePre : Str
  eDatePre : Str
  sDate : Str
  eDate : Str
  mCnt : Int
  bldName : Str
  mType : Str
  inputRes : Str
  deriving DecidableEq

/-- `RealworkMap`: the keys are compared by `atoi` (`RealworkRecordSort`). -/
abbrev RealworkMap := KeyMap atoi RealworkRecord

/-- A row of `REALWORK`.  A date column holds the text `TO_CHAR` gives of it, and the empty
text stands for NULL. -/
structure Row extends RealworkRecord where
  workflag : Int
  deriving DecidableEq

abbrev Table := List Row

/-- What `GET_SECTORNO` puts into its output parameters. -/
structure Sector where
  sector : Str
  errCode : Int

/-- What the database thread takes from outside. -/
structure Env where
  /-- `CstConf::RTWORK_DB_RETRY_NUMBER`; a negative number is as good as 0. -/
  dbRetryNumber : Nat
  /-- `CstConf::RTWORK_RECV_RESULT_TMP_DIR`. -/
  resultTmpDir : Str
  /-- `CstConf::RTWORK_RECV_RESULT_DIR`. -/
  resultDir : Str
  /-- The section `NETYPE` of the configuration file. -/
  readNeType : Str → Str
  /-- What the local variable `tempInt` holds before a number is read into it. -/
  tempInt : Int
  /-- `mktime` of a year, month, day, hour, minute and second. -/
  mktime : Int → Int → Int → Int → Int → Int → Int
  /-- The time string of each call of `GetNowTimeString`. -/
  nowTimeString : Nat → Str
  /-- The stored procedure, on a serial number and the MMS, RNC and BTS numbers. -/
  getSectorno : Str → Str → Str → Str → Sector
  /-- `TO_CHAR(TO_DATE(text, 'yyyymmddhh24miss'), 'yyyymmddhh24miss')`. -/
  toDate : Str → Str
  /-- The rows of the select of `SelectRealwork` when the construction number has a quote in
  it, and so ends the literal it is put into. -/
  injected : Str → Table → List RealworkRecord

/-- What the next call on the database does: it is done, or raises an `otl_exception`, the
session being alive after it or not. -/
inductive Outcome where
  | ok
  | error (alive : Bool)
  deriving DecidableEq

/-- The exceptions of the database thread. -/
inductive Raised where
  | nodeParse
  | otl
  | dbConnect
  | other
  deriving DecidableEq

/-- The files of a directory with their lines. -/
abbrev Dir := Str → Option (List Str)

/-- `CstFile`: whether `m_ofs` is open, and `m_tmpFilePath`. -/
structure CstFile where
  isOpen : Bool := false
  tmpFilePath : Str := []

/-- `CstRecord`. -/
structure CstRecord where
  cstNo : Str := []
  scheduleName : Str := []
  mCnt : Str := []
  deriving DecidableEq

/-- The state of the database thread. -/
structure World where
  /-- The calls on the database to come; those after the end of the list are done. -/
  outcomes : List Outcome := []
  committed : Table := []
  /-- The table as the open transaction sees it. -/
  working : Table := []
  /-- The number of commits done. -/
  commits : Nat := 0
  /-- The number of calls of `GetNowTimeString` made. -/
  ticks : Nat := 0
  /-- Which of the next attempts to open, rename or remove a file fail. -/
  fileFails : List Bool := []
  tmpDir : Dir := fun _ => none
  resultDir : Dir := fun _ => none
  /-- The file of `ExecuteRecords`. -/
  cstFile : CstFile := {}
  skip : Bool := false
  cstRecord : CstRecord := {}
  xmlMap : RealworkMap := ∅
  dbMap : RealworkMap := ∅
  /-- The number of records dropped because their call of `GET_SECTORNO` raised. -/
  refusals : Nat := 0

/-- A procedure of the database thread. -/
abbrev Proc := EStateM Raised World

/-- Go on with a result, or raise. -/
def Proc.ofExcept {α : Type} : Except Raised α → Proc α
  | .ok a => pure a
  | .error e => throw e

/-- Go on with the result of `substr`, or raise `out_of_range`. -/
def Proc.ofOption {α : Type} : Option α → Proc α
  | some a => pure a
  | none => throw .other

/-- The state a procedure has reached. -/
def reached {α : Type} : EStateM.Result Raised World α → World
  | .ok _ w => w
  | .error _ w => w

/-! ### A small receiver -/

/-- The thread before its first message. -/
def idleWorld (table : Table) : World := { committed := table, working := table }

/-- A receiver for which the type `01` of a network element is `0001`, and `0a` is `000a`. -/
def plainEnv : Env where
  dbRetryNumber := 3
  resultTmpDir := lit "/tmp"
  resultDir := lit "/result"
  readNeType key :=
    if key = lit "01" then lit "0001" else if key = lit "0a" then lit "000a" else []
  tempInt := 0
  mktime _ _ _ _ _ _ := 0
  nowTimeString n := decimal n
  getSectorno _ _ _ _ := ⟨lit "7", 0⟩
  toDate date := date
  injected _ _ := []

/-- A record of a construction and a child number, of a network element of the given type. -/
def plainRecord (cmngno kono neType jsdate jedate : Str) : WRecord :=
  { cmngno, kono, jsdate, jedate
    neid := lit "0100000000" ++ neType ++ lit "0001"
    sub_neid := lit "0001000100010001" }

/-- The record that ends a message. -/
def endRecord : WRecord := { isEnd := true }

/-- The live row a record makes. -/
def plainRow (cstNo childNo sDate eDate : Str) : Row :=
  { cstNo := cstNo, cstChildNo := childNo
    nodeId := lit "010002010001" ++ lit "0000" ++ lit "0001" ++ lit "00000001"
    neType := lit "0001", serialno := lit "1", mms := [], rnc := [], bts := []
    regionCode := lit "0001", scheduleName := [], sDatePre := [], eDatePre := []
    sDate := sDate, eDate := eDate, mCnt := 0, bldName := [], mType := [], inputRes := []
    workflag := 0 }

end Realwork.Receive
