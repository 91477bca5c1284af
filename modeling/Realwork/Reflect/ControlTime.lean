import Realwork.Lib.Fields
import Realwork.Lib.Lines
import Realwork.Receive.CstFile

/-!
# Reflect — the reader of a result file

The part of `update_control_time.pl` that reads what `CstFile.cxx` has written.  A value Perl has
no definition for is the empty text where it is put into another one.

* `readLine_written`: what the reader makes of the line of a record.
* `givesBack_iff`: it is the record again only for a record without a region code, which is not
  written.
-/

namespace Realwork.Reflect

open Realwork.Lib Realwork.Receive

/-! ### The script -/

/-- An element of `$work_record_hash`. -/
structure WorkRecord where
  cstNo : Str
  nodeId : Str
  controlTime : Str
  serialNo : Str
  neType : Str
  /-- Only the first record of a group has the codes. -/
  areaCode : Option Str := none
  mmsCode : Option Str := none
  deriving DecidableEq

/-- `$work_record_hash`: the groups of records by their managed object. -/
abbrev WorkHash := Str → Option (List WorkRecord)

/-- `push(@$mo_record_set, $work_record)`. -/
def WorkHash.push (hash : WorkHash) (mo : Str) (work : WorkRecord) : WorkHash :=
  Function.update hash mo (some ((hash mo).getD [] ++ [work]))

/-- `while(<FILE>)` and `chomp`: what follows the last newline is a line if there is something. -/
def fileLines (content : Str) : List Str :=
  let pieces := content.splitOn 0x0a
  if pieces.getLast? = some [] then pieces.dropLast else pieces

/-- `/^\s?\#/`. -/
def isComment (l : Str) : Bool :=
  l.head? = some 0x23 || (l.head?.any isspace && l[1]? = some 0x23)

/-- `/^\s?$/`. -/
def isNull (l : Str) : Bool := l.length ≤ 1 && l.all isspace

/-- `substr($_, 16, 4)` of a node number. -/
def neTypeOf (nodeId : Str) : Str := (nodeId.drop 16).take 4

/-- `GetMO`: the managed object and `$mmsNo`. -/
def getMO (fields : List Str) : Str × Str :=
  let field (i : Nat) : Str := fields.getD i []
  let tp := neTypeOf (field 2)
  if tp = lit "0001" then (lit "MMS " ++ field 5, field 5)
  else if tp = lit "0002" then (lit "MMS " ++ field 6 ++ lit " MPE " ++ field 5, field 6)
  else if tp = lit "0003" then (lit "MMS " ++ field 6 ++ lit " RNC " ++ field 5, field 6)
  else if tp = lit "000b" then (lit "MMS " ++ field 6 ++ lit " xGSN " ++ field 5, field 6)
  else if tp = lit "000c" then (lit "MMS " ++ field 6 ++ lit " RNC " ++ field 5, field 6)
  else if tp = lit "000e" then
    (lit "MMS " ++ field 6 ++ lit " RNC " ++ field 7 ++ lit " BS_DTM " ++ field 5, field 6)
  else if tp = [] then (lit "error", lit "error")
  else (lit "MMS " ++ field 6 ++ lit " RNC " ++ field 7 ++ lit " BTS " ++ field 8, field 6)

/-- The body of the loop of `ReadWorkOutputFile`. -/
def readLine (hash : WorkHash) (line : Str) : WorkHash :=
  if isComment line || isNull line then hash
  else
    let fields := (splitFields 0x2c line).map (stripBy isspace)
    let field (i : Nat) : Str := fields.getD i []
    let work : WorkRecord := {
      cstNo := field 0 ++ lit "-" ++ field 1
      nodeId := field 2
      controlTime := field 4
      serialNo := field 5
      neType := neTypeOf (field 2) }
    let (mo, mmsNo) := getMO fields
    match hash mo with
    | some group => Function.update hash mo (some (group ++ [work]))
    | none =>
        Function.update hash mo (some [{ work with
          areaCode := some (lit "98" ++ field 9)
          mmsCode := some (lit "99" ++ mmsNo) }])

/-- `ReadWorkOutputFile`. -/
def readWorkOutputFile (hash : WorkHash) (content : Str) : WorkHash :=
  (fileLines content).foldl readLine hash

/-! ### What the reader is to give back -/

/-- The managed object of a record, named by its own numbers. -/
def managedObject (r : RealworkRecord) : Str :=
  let mms := lit "MMS " ++ r.mms
  let rnc := mms ++ lit " RNC " ++ r.rnc
  let tp := neTypeOf r.nodeId
  if tp = lit "0001" then lit "MMS " ++ r.serialno
  else if tp = lit "0002" then mms ++ lit " MPE " ++ r.serialno
  else if tp = lit "0003" then mms ++ lit " RNC " ++ r.serialno
  else if tp = lit "000b" then mms ++ lit " xGSN " ++ r.serialno
  else if tp = lit "000c" then mms ++ lit " RNC " ++ r.serialno
  else if tp = lit "000e" then rnc ++ lit " BS_DTM " ++ r.serialno
  else if tp = [] then lit "error"
  else rnc ++ lit " BTS " ++ r.bts

/-- The texts `WriteRecord` puts into the line of a record. -/
def writtenFields (r : RealworkRecord) : List Str :=
  [r.cstNo, r.cstChildNo, r.nodeId, (changeTimeFormat r.sDate).getD [],
    (changeTimeFormat r.eDate).getD [], r.serialno, r.mms, r.rnc, r.bts]

/-- A text without comma, newline and surrounding blanks. -/
structure Clean (s : Str) : Prop where
  comma : 0x2c ∉ s
  newline : 0x0a ∉ s
  head : ∀ b ∈ s.head?, isspace b = false
  last : ∀ b ∈ s.getLast?, isspace b = false

/-- Reading has added one work record to `hash`, in the group of the managed object of the
record, and it has the values of the record. -/
def GivesBack (r : RealworkRecord) (hash hash' : WorkHash) : Prop :=
  ∃ work : WorkRecord, hash' = hash.push (managedObject r) work ∧
    work.cstNo = r.cstNo ++ lit "-" ++ r.cstChildNo ∧ work.nodeId = r.nodeId ∧
    some work.controlTime = changeTimeFormat r.eDate ∧ work.serialNo = r.serialno ∧
    work.neType = neTypeOf r.nodeId ∧ work.areaCode = some (lit "98" ++ r.regionCode)

/-! ### The line of a record -/

theorem WorkHash.push_inj {hash : WorkHash} {mo : Str} {work work' : WorkRecord}
    (h : hash.push mo work = hash.push mo work') : work = work' := by
  have hmo := congrFun h mo
  simpa [WorkHash.push] using hmo

theorem WorkHash.push_ne (hash : WorkHash) (mo : Str) (work : WorkRecord) :
    hash.push mo work ≠ hash := by
  intro h
  have hmo := congrFun h mo
  rw [WorkHash.push, Function.update_self] at hmo
  rw [← hmo] at hmo
  simpa using congrArg List.length (Option.some.inj hmo)

theorem fileLines_line {l : Str} (h : 0x0a ∉ l) : fileLines (line 0x0a l) = [l] := by
  have hsplit : (unlines 0x0a [l]).splitOn 0x0a = [l] ++ [[]] := splitOn_unlines (by simpa using h)
  rw [unlines_cons, unlines_nil, List.append_nil] at hsplit
  simp [fileLines, hsplit]

section

variable {r : RealworkRecord} {written : Str}

theorem csvLine_eq (h : csvLine r = some written) :
    written = (lit ",").intercalate (writtenFields r) ∧
      changeTimeFormat r.eDate = some ((changeTimeFormat r.eDate).getD []) := by
  simp only [csvLine, Option.bind_eq_bind, Option.bind_eq_some_iff] at h
  obtain ⟨sDate, hs, eDate, he, hline⟩ := h
  cases hline
  rw [writtenFields, hs, he]
  exact ⟨rfl, rfl⟩

/-- The line of a record starts with its construction number. -/
theorem csvLine_eq_append (h : csvLine r = some written) :
    ∃ rest, written = r.cstNo ++ 0x2c :: rest := by
  rw [(csvLine_eq h).1, writtenFields, List.intercalate_cons_cons, List.append_assoc]
  exact ⟨_, rfl⟩

theorem isNull_written (h : csvLine r = some written) : isNull written = false := by
  obtain ⟨rest, rfl⟩ := csvLine_eq_append h
  simp [isNull, isspace]

theorem isComment_written (h : csvLine r = some written)
    (hclean : ∀ field ∈ writtenFields r, Clean field) :
    isComment written = decide (r.cstNo.head? = some 0x23) := by
  obtain ⟨rest, rfl⟩ := csvLine_eq_append h
  have hhead := (hclean r.cstNo (by simp [writtenFields])).head
  cases hno : r.cstNo with
  | nil => simp [isComment, isspace]
  | cons b s =>
      rw [hno] at hhead
      have hb : isspace b = false := hhead b rfl
      simp [isComment, hb]

/-- The fields of the line, as the reader splits it. -/
theorem getD_fields (h : csvLine r = some written)
    (hclean : ∀ field ∈ writtenFields r, Clean field) (i : Nat) :
    ((splitFields 0x2c written).map (stripBy isspace)).getD i [] = (writtenFields r).getD i [] := by
  have hsplit : (splitFields 0x2c written).getD i [] = (writtenFields r).getD i [] := by
    rw [(csvLine_eq h).1]
    exact getD_splitFields 0x2c (by simp [writtenFields])
      (fun field hf => (hclean field hf).comma) i
  have hmap : ((splitFields 0x2c written).map (stripBy isspace)).getD i [] =
      stripBy isspace ((splitFields 0x2c written).getD i []) :=
    List.getD_map _ [] (stripBy isspace)
  rw [hmap, hsplit]
  by_cases hi : i < (writtenFields r).length
  · have hfield := hclean _ (List.getElem_mem hi)
    rw [List.getD_eq_getElem _ _ hi]
    exact stripBy_of_clean hfield.head hfield.last
  · rw [List.getD_eq_default _ _ (by omega)]
    rfl

/-- The managed object the reader names is that of the record. -/
theorem getMO_written (r : RealworkRecord) : (getMO (writtenFields r)).1 = managedObject r := by
  have hfields : (writtenFields r).getD 2 [] = r.nodeId ∧
      (writtenFields r).getD 5 [] = r.serialno ∧ (writtenFields r).getD 6 [] = r.mms ∧
      (writtenFields r).getD 7 [] = r.rnc ∧ (writtenFields r).getD 8 [] = r.bts :=
    ⟨rfl, rfl, rfl, rfl, rfl⟩
  obtain ⟨h2, h5, h6, h7, h8⟩ := hfields
  simp only [getMO, managedObject, h2, h5, h6, h7, h8, apply_ite Prod.fst]

/-- **What the reader makes of the line of a record** that is no comment: its values, except
that the region code is empty. -/
theorem readLine_written (h : csvLine r = some written)
    (hclean : ∀ field ∈ writtenFields r, Clean field) (hno : r.cstNo.head? ≠ some 0x23)
    (hash : WorkHash) :
    readLine hash written = hash.push (managedObject r) {
      cstNo := r.cstNo ++ lit "-" ++ r.cstChildNo
      nodeId := r.nodeId
      controlTime := (changeTimeFormat r.eDate).getD []
      serialNo := r.serialno
      neType := neTypeOf r.nodeId
      areaCode := if hash (managedObject r) = none then some (lit "98") else none
      mmsCode := if hash (managedObject r) = none then
        some (lit "99" ++ (getMO (writtenFields r)).2)
      else none } := by
  have hfield := getD_fields h hclean
  have hmo : getMO ((splitFields 0x2c written).map (stripBy isspace)) =
      getMO (writtenFields r) := by
    simp only [getMO, hfield]
  rw [readLine, isComment_written h hclean, isNull_written h]
  simp only [hno, decide_false, Bool.or_self, Bool.false_eq_true, if_false, hfield, hmo,
    getMO_written]
  rw [WorkHash.push]
  cases hash (managedObject r) with
  | none => rfl
  | some group => rfl

/-- A line that is a comment to the reader is skipped. -/
theorem readLine_comment (h : csvLine r = some written)
    (hclean : ∀ field ∈ writtenFields r, Clean field) (hno : r.cstNo.head? = some 0x23)
    (hash : WorkHash) : readLine hash written = hash := by
  rw [readLine, isComment_written h hclean, if_pos (by simp [hno])]

theorem newline_not_mem_written (h : csvLine r = some written)
    (hclean : ∀ field ∈ writtenFields r, Clean field) : 0x0a ∉ written := by
  rw [(csvLine_eq h).1]
  exact not_mem_intercalate (by decide) fun field hf => (hclean field hf).newline

/-- **Reading the line of a record gives the record back** exactly if it has no region code, its
construction number does not make the line a comment, and it is the first of its managed
object. -/
theorem givesBack_iff (h : csvLine r = some written)
    (hclean : ∀ field ∈ writtenFields r, Clean field) (hash : WorkHash) :
    GivesBack r hash (readWorkOutputFile hash (line 0x0a written)) ↔
      r.regionCode = [] ∧ r.cstNo.head? ≠ some 0x23 ∧ hash (managedObject r) = none := by
  rw [readWorkOutputFile, fileLines_line (newline_not_mem_written h hclean), List.foldl_cons,
    List.foldl_nil]
  by_cases hno : r.cstNo.head? = some 0x23
  · rw [readLine_comment h hclean hno]
    refine iff_of_false ?_ fun hr => hr.2.1 hno
    rintro ⟨work, hpush, -⟩
    exact hash.push_ne _ work hpush.symm
  · rw [readLine_written h hclean hno]
    constructor
    · rintro ⟨work, hpush, -, -, -, -, -, harea⟩
      rw [← WorkHash.push_inj hpush] at harea
      split at harea
      · rename_i hfirst
        exact ⟨by simpa using harea, hno, hfirst⟩
      · cases harea
    · rintro ⟨hregion, -, hfirst⟩
      refine ⟨_, rfl, rfl, rfl, (csvLine_eq h).2.symm, rfl, rfl, ?_⟩
      rw [hregion]
      exact if_pos hfirst

end

/-- A record whose row has no region code. -/
def regionlessRecord : RealworkRecord :=
  { (plainRow (lit "A") (lit "1") (lit "20090101000000") (lit "20090102000000")).toRealworkRecord with
    regionCode := [] }

instance (s : Str) : Decidable (Clean s) :=
  decidable_of_iff (0x2c ∉ s ∧ 0x0a ∉ s ∧ s.head?.all (fun b => !isspace b) = true ∧
    s.getLast?.all (fun b => !isspace b) = true)
    ⟨fun h => ⟨h.1, h.2.1, by simpa [Option.all_eq_true] using h.2.2.1,
      by simpa [Option.all_eq_true] using h.2.2.2⟩,
      fun h => ⟨h.comma, h.newline, by simpa [Option.all_eq_true] using h.head,
        by simpa [Option.all_eq_true] using h.last⟩⟩

theorem givesBack_iff_regionless :
    GivesBack regionlessRecord (fun _ => none) (readWorkOutputFile (fun _ => none)
      (line 0x0a (lit "A,1,0100020100010000000100000001,2009/01/01 00:00:00,2009/01/02 00:00:00,1,,,"))) :=
  (givesBack_iff (r := regionlessRecord) (by decide +kernel) (by decide +kernel) _).mpr
    ⟨rfl, by decide, rfl⟩

/-- The region code of a record is not in its line, and the reader finds no tenth field. -/
theorem not_givesBack_region :
    ∃ r written, csvLine r = some written ∧ (∀ field ∈ writtenFields r, Clean field) ∧
      r.regionCode = lit "0001" ∧
      ¬ GivesBack r (fun _ => none) (readWorkOutputFile (fun _ => none) (line 0x0a written)) := by
  let r := (plainRow (lit "A") (lit "1") (lit "20090101000000")
    (lit "20090102000000")).toRealworkRecord
  refine ⟨r, lit "A,1,0100020100010000000100000001,2009/01/01 00:00:00,2009/01/02 00:00:00,1,,,",
    by decide +kernel, by decide +kernel, rfl, ?_⟩
  rintro ⟨work, hpush, -, -, -, -, -, harea⟩
  have hmo := congrFun hpush (managedObject r)
  rw [WorkHash.push, Function.update_self] at hmo
  have hread : readWorkOutputFile (fun _ => none) (line 0x0a (lit
      "A,1,0100020100010000000100000001,2009/01/01 00:00:00,2009/01/02 00:00:00,1,,,"))
      (managedObject r) = some [{
        cstNo := lit "A-1", nodeId := lit "0100020100010000000100000001"
        controlTime := lit "2009/01/02 00:00:00", serialNo := lit "1", neType := lit "0001"
        areaCode := some (lit "98"), mmsCode := some (lit "991") }] := by
    decide +kernel
  rw [hread] at hmo
  have harea' := congrArg (Option.map (List.map WorkRecord.areaCode)) hmo
  simp only [Option.map_some, Option.getD_none, List.nil_append, List.map_cons, List.map_nil,
    harea] at harea'
  revert harea'
  decide

end Realwork.Reflect
