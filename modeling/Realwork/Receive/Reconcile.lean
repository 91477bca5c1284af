import Realwork.Receive.DBWrite

/-!
# Receive — the plan of an attempt

What an attempt of `ExecuteRecords` makes of the table and writes to its file, as functions of
the construction number, `m_xmlMap` and the table the transaction starts with.
-/

namespace Realwork.Receive

open Realwork.Lib

/-- The map records are put into one after the other: the first of each number stays. -/
def mapOf (records : List RealworkRecord) : RealworkMap :=
  KeyMap.ofList atoi (records.map fun r => (r.cstChildNo, r))

theorem mapOf_append (records : List RealworkRecord) (r : RealworkRecord) :
    mapOf (records ++ [r]) = (mapOf records).insert r.cstChildNo r := by
  simp [mapOf, KeyMap.ofList]

/-- What the loop over `m_dbMap` does to the table for one entry. -/
def editTable (env : Env) (xmlMap : RealworkMap) (table : Table) (e : Str × RealworkRecord) :
    Table :=
  match xmlMap.find? e.1 with
  | some (_, xml) =>
      if xml.Cancels then Table.delete e.2 table else Table.update env e.2 xml table
  | none => Table.delete e.2 table

/-- The record the loop over `m_dbMap` writes for one entry. -/
def editLine (xmlMap : RealworkMap) (e : Str × RealworkRecord) : Option RealworkRecord :=
  match xmlMap.find? e.1 with
  | some (_, xml) => if xml.Cancels then cancelLine e.2 xml else updateLine e.2 xml
  | none => none

/-- What the loop over `m_xmlMap` does to the table for one entry. -/
def insertTable (env : Env) (dbMap : RealworkMap) (table : Table) (e : Str × RealworkRecord) :
    Table :=
  if e.2.sDate ≠ [] ∧ dbMap.find? e.1 = none then Table.insert env e.2 table else table

/-- The table after an attempt that is completed. -/
def reconciled (env : Env) (cstNo : Str) (xmlMap : RealworkMap) (table : Table) : Table :=
  let dbMap := mapOf (Table.select env cstNo table)
  xmlMap.entries.foldl (insertTable env dbMap)
    (dbMap.entries.foldl (editTable env xmlMap) table)

/-- The records an attempt writes to its file. -/
def csvRecords (env : Env) (cstNo : Str) (xmlMap : RealworkMap) (table : Table) :
    List RealworkRecord :=
  (mapOf (Table.select env cstNo table)).entries.filterMap (editLine xmlMap)

/-- The lines of records; `none` when a date of one of them is too short. -/
def csvLines (records : List RealworkRecord) : Option (List Str) := records.mapM csvLine

theorem csvLines_append (records : List RealworkRecord) (r : RealworkRecord) :
    csvLines (records ++ [r]) = (csvLines records).bind fun lines =>
      (csvLine r).map fun line => lines ++ [line] := by
  simp only [csvLines, List.mapM_append]
  cases hr : csvLine r <;> cases records.mapM csvLine <;> simp [hr]

theorem csvLines_eq_none {records : List RealworkRecord} {r : RealworkRecord} (h : r ∈ records)
    (hr : csvLine r = none) : csvLines records = none := by
  induction records with
  | nil => cases h
  | cons r' records ih =>
      rw [csvLines, List.mapM_cons]
      rcases List.mem_cons.mp h with rfl | h
      · simp [hr]
      · have : records.mapM csvLine = none := ih h
        simp [this]

end Realwork.Receive
