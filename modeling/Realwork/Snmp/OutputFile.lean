import Realwork.Lib.Columns
import Realwork.Snmp.Dispatch

/-!
# Snmp — the output file

`multi_snmp_mib_collect.pl`, `SnmpGet_CallBack`: a row is printed with
`sprintf("%-14s%-64s%-15s%-16s%-16s%-64s%-300s\n", …)`, which fills the fields up and does not cut
them.

* `readOutputFile_iff`: the rows are read back by the widths of the columns exactly if each of them
  fits.
-/

namespace Realwork.Snmp.Mib

open Lib
open Reflect (fileLines)

/-- The widths of the format. -/
def widths : List Nat := [14, 64, 15, 16, 16, 64, 300]

def Row.fields (row : Row) : List Str :=
  [row.hostname, row.ip, row.slot, row.port, row.oid, row.value]

/-- What is printed of a row. -/
def output (timeNow : Str) (row : Row) : Str :=
  writeColumns 0x20 widths (timeNow :: row.fields) ++ lit "\n"

/-- What is in the file. -/
def outputText (file : List (Str × Row)) : Str :=
  file.flatMap fun (timeNow, row) => output timeNow row

/-- The row a line of the file is read as. -/
def readRow (l : Str) : Str × Row :=
  let columns := readColumns 0x20 widths l
  (columns.getD 0 [],
    { hostname := columns.getD 1 [], ip := columns.getD 2 [], slot := columns.getD 3 []
      port := columns.getD 4 [], oid := columns.getD 5 [], value := columns.getD 6 [] })

/-- Each column is wide enough for its field, none has a blank at its end, and there is no newline
in them. -/
structure Fits (timeNow : Str) (row : Row) : Prop where
  fit : Fit widths (timeNow :: row.fields)
  trimmed : ∀ field ∈ timeNow :: row.fields, field.getLast? ≠ some 0x20
  line : ∀ field ∈ timeNow :: row.fields, 0x0a ∉ field

section

variable {timeNow : Str} {row : Row} {file : List (Str × Row)} {bodies : List Str}

/-- The pieces of a text that consists of lines. -/
theorem fileLines_unlines (bodies : List Str) :
    fileLines (unlines 0x0a bodies) = bodies.flatMap (·.splitOn 0x0a) := by
  have hsplit : (unlines 0x0a bodies).splitOn 0x0a = bodies.flatMap (·.splitOn 0x0a) ++ [[]] := by
    induction bodies with
    | nil => rfl
    | cons body bodies ih =>
        rw [unlines_cons, line, List.append_assoc, List.singleton_append,
          List.splitOn_append_cons_self, ih, List.flatMap_cons, List.append_assoc]
  simp [fileLines, hsplit]

theorem map_eq_self_iff {α : Type} {f : α → α} {l : List α} : l.map f = l ↔ ∀ a ∈ l, f a = a := by
  nth_rewrite 2 [← List.map_id l]
  exact List.map_inj_left

theorem length_le_flatMap_splitOn (bodies : List Str) :
    bodies.length ≤ (bodies.flatMap (·.splitOn 0x0a)).length := by
  induction bodies with
  | nil => exact Nat.le_refl _
  | cons body bodies ih =>
      have hpos := List.length_pos_iff.mpr (List.splitOn_ne_nil 0x0a body)
      rw [List.flatMap_cons, List.length_append, List.length_cons]
      omega

/-- As many lines as texts: none of them has a newline. -/
theorem not_mem_of_length_splitOn
    (hlen : (bodies.flatMap (·.splitOn 0x0a)).length = bodies.length) :
    ∀ body ∈ bodies, 0x0a ∉ body := by
  induction bodies with
  | nil => simp
  | cons body bodies ih =>
      have hpos := List.length_pos_iff.mpr (List.splitOn_ne_nil 0x0a body)
      have hle := length_le_flatMap_splitOn bodies
      rw [List.flatMap_cons, List.length_append, List.length_cons] at hlen
      refine List.forall_mem_cons.mpr ⟨fun hmem => ?_, ih (by omega)⟩
      obtain ⟨u, v, rfl⟩ := List.append_of_mem hmem
      have hv := List.length_pos_iff.mpr (List.splitOn_ne_nil 0x0a v)
      have hu := List.length_pos_iff.mpr (List.splitOn_ne_nil 0x0a u)
      rw [List.splitOn_append_cons_self, List.length_append] at hlen
      omega

/-- The text of a row before the newline. -/
def body (entry : Str × Row) : Str := writeColumns 0x20 widths (entry.1 :: entry.2.fields)

theorem outputText_eq (file : List (Str × Row)) :
    outputText file = unlines 0x0a (file.map body) := by
  rw [outputText, unlines, List.flatMap_map]
  rfl

/-- A row is the one its columns are read as. -/
theorem readRow_eq_iff (l : Str) :
    readRow l = (timeNow, row) ↔ readColumns 0x20 widths l = timeNow :: row.fields := by
  have hlen : (readColumns 0x20 widths l).length = 7 := length_readColumns l
  obtain ⟨hostname, ip, slot, port, oid, value⟩ := row
  match h : readColumns 0x20 widths l, hlen with
  | [_, _, _, _, _, _, _], _ => simp [readRow, h, Row.fields]

theorem not_mem_body :
    0x0a ∉ body (timeNow, row) ↔ ∀ field ∈ timeNow :: row.fields, 0x0a ∉ field := by
  rw [body, mem_writeColumns rfl (by decide)]
  push Not
  rfl

theorem readRow_body_iff :
    readRow (body (timeNow, row)) = (timeNow, row) ∧ 0x0a ∉ body (timeNow, row) ↔
      Fits timeNow row := by
  rw [readRow_eq_iff, not_mem_body, body, readColumns_writeColumns_iff rfl]
  exact ⟨fun ⟨⟨hfit, htrimmed⟩, hline⟩ => ⟨hfit, htrimmed, hline⟩,
    fun h => ⟨⟨h.fit, h.trimmed⟩, h.line⟩⟩

end

/-- **The rows are read back** exactly if each of them fits. -/
theorem readOutputFile_iff (file : List (Str × Row)) :
    (fileLines (outputText file)).map readRow = file ↔
      ∀ timeNow row, (timeNow, row) ∈ file → Fits timeNow row := by
  have hlines := fileLines_unlines (file.map body)
  rw [outputText_eq, hlines]
  constructor
  · intro hread timeNow row hmem
    have hsize : (file.map body).length = file.length := List.length_map _
    have hlen := congrArg List.length hread
    rw [List.length_map, ← hsize] at hlen
    have hnone := not_mem_of_length_splitOn hlen
    have hsplit : (file.map body).flatMap (·.splitOn 0x0a) = file.map body := by
      refine .trans (List.flatMap_congr fun b hb => ?_) (List.flatMap_singleton' _)
      exact List.splitOn_eq_singleton (hnone b hb)
    rw [hsplit, List.map_map, map_eq_self_iff] at hread
    exact readRow_body_iff.mp ⟨hread _ hmem, hnone _ (List.mem_map_of_mem hmem)⟩
  · intro hfits
    have hread : ∀ entry ∈ file, readRow (body entry) = entry ∧ 0x0a ∉ body entry :=
      fun entry hmem => readRow_body_iff.mpr (hfits entry.1 entry.2 hmem)
    have hsplit : (file.map body).flatMap (·.splitOn 0x0a) = file.map body := by
      refine .trans (List.flatMap_congr fun b hb => ?_) (List.flatMap_singleton' _)
      obtain ⟨entry, hmem, rfl⟩ := List.mem_map.mp hb
      exact List.splitOn_eq_singleton (hread entry hmem).2
    rw [hsplit, List.map_map, map_eq_self_iff]
    exact fun entry hmem => (hread entry hmem).1

end Realwork.Snmp.Mib
