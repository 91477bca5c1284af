import Realwork.Receive.Definitions

/-!
# Receive — network elements

`CstUtil.cxx` and `CstNode.cxx`: the numbers, names and times the database thread makes of the
texts of a record.
-/

namespace Realwork.Receive

/-! ### `CstUtil` -/

def isxdigit (b : UInt8) : Bool :=
  isdigit b || (0x41 ≤ b && b ≤ 0x46) || (0x61 ≤ b && b ≤ 0x66)

def xdigitValue (b : UInt8) : Nat :=
  if b ≤ 0x39 then b.toNat - 0x30 else if b ≤ 0x46 then b.toNat - 0x37 else b.toNat - 0x57

/-- The prefix a hexadecimal number may have. -/
def hexPrefix : Str → Str
  | 0x30 :: 0x78 :: s => s
  | 0x30 :: 0x58 :: s => s
  | s => s

/-- `HexStringToString`.  The number is read from and written to one stream, so what the reading
leaves stands before the decimal number. -/
def hexStringToString (env : Env) (hexstr : Str) : Str :=
  let (neg, s) := sign (skipws hexstr)
  let s := hexPrefix s
  let digits := s.takeWhile isxdigit
  let n : Int := digitsValue 16 xdigitValue digits
  let tempInt := if digits = [] then env.tempInt else if neg then -n else n
  firstWord (s.drop digits.length ++ decimal tempInt)

/-- `GetStringTime`; `none` is `out_of_range`. -/
def getStringTime (env : Env) (timestr : Str) : Option Int := do
  let year ← substr timestr 0 4
  let mon ← substr timestr 4 2
  let mday ← substr timestr 6 2
  let hour ← substr timestr 8 2
  let min ← substr timestr 10 2
  let sec ← substr timestr 12 2
  return env.mktime (atoi year - 1900) (atoi mon - 1) (atoi mday) (atoi hour) (atoi min) (atoi sec)

/-- `ChangeTimeFormat`; `none` is `out_of_range`. -/
def changeTimeFormat (timestr : Str) : Option Str := do
  if timestr = [] then return timestr
  let year ← substr timestr 0 4
  let mon ← substr timestr 4 2
  let mday ← substr timestr 6 2
  let hour ← substr timestr 8 2
  let min ← substr timestr 10 2
  let sec ← substr timestr 12 2
  return year ++ lit "/" ++ mon ++ lit "/" ++ mday ++ lit " " ++ hour ++ lit ":" ++ min ++
    lit ":" ++ sec

/-! ### `CstNode` -/

structure CstNode where
  nodeId : Str
  neType : Str
  regionCode : Str
  mms : Str
  rnc : Str
  bts : Str
  serial : Str

namespace CstNode

def getConfigNeType (env : Env) (baseNeType : Str) : Str :=
  let ret := env.readNeType baseNeType
  if ret = [] then lit "0000" else ret

/-- The bytes `neId.substr(pos, n)` of a number of 16 digits. -/
def digitsAt (neId : Str) (pos n : Nat) : Str := (neId.drop pos).take n

/-- The part of the additional number that goes into the node number: MMS, RNC and BTS, as many
of them as the type has. -/
def subNeIdLength (neType : Str) : Nat :=
  if neType ∈ [lit "0002", lit "0003", lit "000b", lit "000c"] then 4
  else if neType ∈ [lit "0004", lit "000d", lit "000e"] then 6
  else if neType ∈ [lit "0005", lit "0006", lit "000a", lit "0010"] then 8
  else 0

/-- The constructor `CstNode(neId, subNeId, record)`. -/
def ofNeId (env : Env) (neId subNeId : Str) : Except Raised CstNode :=
  if neId.length ≠ 16 ∨ subNeId.length ≠ 16 then throw .nodeParse
  else if neId = lit "0000000000000000" ∧ subNeId = lit "0000000000000000" then throw .nodeParse
  else
    let regionCode := lit "00" ++ digitsAt neId 0 2
    let neType := getConfigNeType env (digitsAt neId 10 2)
    if neType = lit "0000" then throw .nodeParse
    else
      let serialNo := lit "0000" ++ digitsAt neId 12 4
      let len := subNeIdLength neType
      let part (pos n : Nat) : Str :=
        if pos < len then hexStringToString env (digitsAt subNeId pos n) else []
      pure {
        nodeId := firstWord (lit "01000201" ++ regionCode ++ lit "0000" ++ neType ++ serialNo ++
          subNeId.take len)
        neType, regionCode
        mms := part 0 4
        rnc := part 4 2
        bts := part 6 2
        serial := hexStringToString env serialNo }

/-- `GetCstNodeId`; `none` is `out_of_range`. -/
def getCstNodeId (node : CstNode) : Option Str :=
  if node.neType = lit "0006" ∨ node.neType = lit "0010" then do
    let head ← substr node.nodeId 0 16
    let bts ← substr node.nodeId 34 2
    let mmsRnc ← substr node.nodeId 28 6
    return head ++ lit "0004" ++ lit "000000" ++ bts ++ mmsRnc
  else node.nodeId

def getCstNeType (node : CstNode) : Str :=
  if node.neType ∈ [lit "0004", lit "0006", lit "000d", lit "0010"] then lit "9904"
  else if node.neType = lit "000a" then lit "9905"
  else node.neType

def getCstBts (node : CstNode) : Str :=
  if node.neType = lit "0004" ∨ node.neType = lit "000d" then node.serial else node.bts

/-- `GetCstRegionCode`: the decimal number with at least four digits. -/
def getCstRegionCode (env : Env) (node : CstNode) : Str :=
  let region := hexStringToString env node.regionCode
  List.replicate (4 - region.length) 0x30 ++ region

end CstNode

end Realwork.Receive
