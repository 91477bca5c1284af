import Realwork.Receive.Reconcile
import Realwork.Reflect.Summarize

/-!
# Reflect — a result file of the receiver

`CstFile.cxx` writes a line for each record, and `update_control_time.pl` reads them into groups
by their managed object, from which it finds the operation contexts to be summarized.

* `foldl_readLine_written`: what the lines of some records add to the groups.
* `received_groups`: the groups and the contexts for a whole file.
-/

namespace Realwork.Reflect

open Realwork.Lib Realwork.Receive

/-! ### What is to be read -/

/-- The record, as an element of a group. -/
def workOf (r : RealworkRecord) : WorkRecord where
  cstNo := r.cstNo ++ lit "-" ++ r.cstChildNo
  nodeId := r.nodeId
  controlTime := (changeTimeFormat r.eDate).getD []
  serialNo := r.serialno
  neType := neTypeOf r.nodeId

/-- The MMS of a record. -/
def mmsOfRecord (r : RealworkRecord) : Str := (getMO (writtenFields r)).2

/-- The record, as the first element of its group. -/
def firstWorkOf (r : RealworkRecord) : WorkRecord :=
  { workOf r with
    areaCode := some (lit "98")
    mmsCode := some (lit "99" ++ mmsOfRecord r) }

/-- A group with the records behind it. -/
def addRecords : Option (List WorkRecord) → List RealworkRecord → Option (List WorkRecord)
  | none, [] => none
  | none, r :: records => some (firstWorkOf r :: records.map workOf)
  | some group, records => some (group ++ records.map workOf)

/-- The line of the record is not a comment to the reader. -/
def isRead (r : RealworkRecord) : Bool := r.cstNo.head? ≠ some 0x23

/-- The records of a managed object. -/
def recordsOf (mo : Str) (records : List RealworkRecord) : List RealworkRecord :=
  records.filter fun r => isRead r && managedObject r = mo

section

variable {records : List RealworkRecord} {written : List Str} {hash : WorkHash} {mo : Str}

/-- **The lines of some records** add them to the groups of their objects. -/
theorem foldl_readLine_written (h : csvLines records = some written)
    (hclean : ∀ r ∈ records, ∀ field ∈ writtenFields r, Clean field) (hash : WorkHash) (mo : Str) :
    (written.foldl readLine hash) mo = addRecords (hash mo) (recordsOf mo records) := by
  induction records generalizing written hash with
  | nil =>
      rw [csvLines, List.mapM_nil] at h
      cases h
      rw [List.foldl_nil]
      cases hash mo with
      | none => rfl
      | some group => exact congrArg some (List.append_nil group).symm
  | cons r records ih =>
      rw [csvLines, List.mapM_cons] at h
      simp only [Option.bind_eq_bind, Option.bind_eq_some_iff] at h
      obtain ⟨l, hl, written', hwritten, h⟩ := h
      cases h
      rw [List.forall_mem_cons] at hclean
      rw [List.foldl_cons, ih hwritten hclean.2, recordsOf, recordsOf, List.filter_cons]
      by_cases hno : r.cstNo.head? = some 0x23
      · rw [readLine_comment hl hclean.1 hno]
        simp [isRead, hno]
      · rw [readLine_written hl hclean.1 hno, WorkHash.push]
        by_cases hmo : managedObject r = mo
        · subst hmo
          simp only [isRead, hno, decide_true, Bool.and_self, ne_eq, not_false_eq_true, if_true,
            Function.update_self]
          cases hash (managedObject r) with
          | none => rfl
          | some group => simp [addRecords, workOf]
        · rw [Function.update_of_ne (Ne.symm hmo)]
          simp [hmo]

/-- The lines are those the receiver has written. -/
theorem fileLines_written (h : csvLines records = some written)
    (hclean : ∀ r ∈ records, ∀ field ∈ writtenFields r, Clean field) :
    fileLines (unlines 0x0a written) = written := by
  have hlines : ∀ l ∈ written, 0x0a ∉ l := by
    induction records generalizing written with
    | nil =>
        rw [csvLines, List.mapM_nil] at h
        cases h
        simp
    | cons r records ih =>
        rw [csvLines, List.mapM_cons] at h
        simp only [Option.bind_eq_bind, Option.bind_eq_some_iff] at h
        obtain ⟨l, hl, written', hwritten, h⟩ := h
        cases h
        rw [List.forall_mem_cons] at hclean
        exact List.forall_mem_cons.mpr
          ⟨newline_not_mem_written hl hclean.1, ih hwritten hclean.2⟩
  simp [fileLines, splitOn_unlines hlines]

/-- **A result file.**  The groups of its objects have its records, in their order, with their
values; but no area, so a context is summarized for an object only if it has the bare `98` or the
MMS of the first record of the object. -/
theorem received_groups (h : csvLines records = some written)
    (hclean : ∀ r ∈ records, ∀ field ∈ writtenFields r, Clean field) (confContent : Str)
    {mos : List Str}
    (hkeys : ∀ mo, mo ∈ mos ↔
      readWorkOutputFile (fun _ => none) (unlines 0x0a written) mo ≠ none) :
    (∀ mo, readWorkOutputFile (fun _ => none) (unlines 0x0a written) mo =
      addRecords none (recordsOf mo records)) ∧
    ∀ o mo, (o, mo) ∈ summarized (readOCConfFile confContent)
        (readWorkOutputFile (fun _ => none) (unlines 0x0a written)) mos ↔
      ∃ r, (recordsOf mo records).head? = some r ∧
        ∃ l ∈ readLines confContent,
          Gives o (lit "98") l ∨ Gives o (lit "99" ++ mmsOfRecord r) l := by
  have hgroups (mo : Str) : readWorkOutputFile (fun _ => none) (unlines 0x0a written) mo =
      addRecords none (recordsOf mo records) := by
    rw [readWorkOutputFile, fileLines_written h hclean, foldl_readLine_written h hclean]
  refine ⟨hgroups, fun o mo => ?_⟩
  rw [mem_summarized hkeys, hgroups]
  cases recordsOf mo records with
  | nil => simp [addRecords]
  | cons r rest =>
      have hcodes : (addRecords none (r :: rest)).map codesOf =
          some (lit "98", lit "99" ++ mmsOfRecord r) := rfl
      rw [hcodes]
      simp only [Option.some.injEq, exists_eq_left', mem_getOCName, mem_readOCConfFile,
        List.head?_cons]
      rw [← exists_or]
      simp only [and_or_left]

end

/-- A record of the region `0001`, and what the receiver writes of it. -/
def regionRecord : RealworkRecord :=
  (plainRow (lit "A") (lit "1") (lit "20090101000000") (lit "20090102000000")).toRealworkRecord

def regionLine : Str :=
  lit "A,1,0100020100010000000100000001,2009/01/01 00:00:00,2009/01/02 00:00:00,1,,,"

/-- The context of the region is not summarized, that of the MMS is. -/
theorem received_groups_region :
    (lit "oc2", lit "MMS 1") ∈ summarized (readOCConfFile (lit "oc1=980001\noc2=991\n"))
        (readWorkOutputFile (fun _ => none) (line 0x0a regionLine)) [lit "MMS 1"] ∧
      (lit "oc1", lit "MMS 1") ∉ summarized (readOCConfFile (lit "oc1=980001\noc2=991\n"))
        (readWorkOutputFile (fun _ => none) (line 0x0a regionLine)) [lit "MMS 1"] := by
  have hlines : readLines (line 0x0a regionLine) = [regionLine] := by decide +kernel
  have hmo : moOf regionLine = lit "MMS 1" := by decide +kernel
  have hconf : readLines (lit "oc1=980001\noc2=991\n") = [lit "oc1=980001", lit "oc2=991"] := by
    decide +kernel
  have hwritten : csvLines [regionRecord] = some [regionLine] := by decide +kernel
  have hfile : unlines 0x0a [regionLine] = line 0x0a regionLine := by simp
  have hrecords : recordsOf (lit "MMS 1") [regionRecord] = [regionRecord] := by decide +kernel
  have hkeys : ∀ mo, mo ∈ [lit "MMS 1"] ↔
      readWorkOutputFile (fun _ => none) (unlines 0x0a [regionLine]) mo ≠ none := by
    intro mo
    rw [hfile, readWorkOutputFile_ne_none_iff, hlines]
    simp [hmo, eq_comm]
  have h := (received_groups hwritten (by decide +kernel) (lit "oc1=980001\noc2=991\n") hkeys).2
  rw [hfile] at h
  rw [h, h, hrecords, hconf]
  constructor
  · exact ⟨regionRecord, rfl, lit "oc2=991", by simp, .inr (by decide +kernel)⟩
  · rintro ⟨r, hr, hgives⟩
    cases hr
    revert hgives
    decide +kernel

end Realwork.Reflect
