import Realwork.Receive.Replay

/-!
# Receive — the row of a rejected record

A record that `FillRealworkRecord` rejects is not put into `m_xmlMap`, and `ExecuteRecords` takes
a row whose number is not in `m_xmlMap` for one that is to be removed.

* `mem_reconciled_iff`: which rows of the table an attempt leaves as they are.
* `rejected_row_iff`: when the row of a rejected record is one of them.
-/

namespace Realwork.Receive

open Realwork.Lib

section

variable {env : Env} {cstNo : Str} {table : Table} {xmlMap : RealworkMap} {row : Row}

/-- A row the select has found meets the record of its number. -/
theorem editBy_of_at {d : Str × RealworkRecord} {row₀ : Row}
    (hd : d ∈ (mapOf (Table.select env cstNo table)).entries) (hat : row.At d.2)
    (hkey : row₀.key = row.key) :
    editBy Row.key
        ((mapOf (Table.select env cstNo table)).entries.map (entryEdit env xmlMap)) row₀ =
      editOf env (xmlMap.find? row.cstChildNo) row₀ := by
  set entries := (mapOf (Table.select env cstNo table)).entries with hentries
  have hdkey : (entryEdit env xmlMap d).1 = row₀.key :=
    ((row.at_iff d.2).mp hat).1.symm.trans hkey.symm
  obtain ⟨x, hfind⟩ : ∃ x, ((entries.map (entryEdit env xmlMap)).find? fun x => x.1 = row₀.key) =
      some x := by
    refine Option.isSome_iff_exists.mp (List.find?_isSome.mpr ?_)
    exact ⟨_, List.mem_map_of_mem hd, by simpa using hdkey⟩
  obtain ⟨d', hd', rfl⟩ := List.mem_map.mp (List.mem_of_find?_eq_some hfind)
  have hkey' : (entryEdit env xmlMap d').1 = row₀.key := by simpa using List.find?_some hfind
  have hno : d'.1 = row.cstChildNo := by
    rw [(mem_mapOf hd').2]
    exact congrArg (fun k => k.2.2) (hkey'.trans hkey)
  rw [editBy, hfind]
  show editOf env (xmlMap.find? d'.1) row₀ = _
  rw [hno]

/-- A row the select has not found is left alone. -/
theorem editBy_of_not_at
    (h : ∀ d ∈ (mapOf (Table.select env cstNo table)).entries, ¬ row.At d.2) :
    editBy Row.key
        ((mapOf (Table.select env cstNo table)).entries.map (entryEdit env xmlMap)) row =
      some row := by
  cases hfind : ((mapOf (Table.select env cstNo table)).entries.map (entryEdit env xmlMap)).find?
      fun x => x.1 = row.key with
  | none => rw [editBy, hfind]
  | some x =>
      -- the select has found it, but a NULL number is the number of no row
      obtain ⟨d, hd, rfl⟩ := List.mem_map.mp (List.mem_of_find?_eq_some hfind)
      have hkey : (entryEdit env xmlMap d).1 = row.key := by simpa using List.find?_some hfind
      have hnum : ¬ row.Numbered := fun hnum => h d hd ((row.at_iff d.2).mpr ⟨hkey.symm, hnum⟩)
      rw [editBy, hfind]
      exact if_neg hnum

theorem key_editOf {xml : Option (Str × RealworkRecord)} {row₀ : Row}
    (h : editOf env xml row₀ = some row) : row.key = row₀.key := by
  obtain ⟨hno, hflag, hch⟩ := editOf_keeps h
  rw [Row.key, Row.key, hno, hflag, hch]

theorem key_editBy {entries : List (Str × RealworkRecord)} {row₀ : Row}
    (h : editBy Row.key (entries.map (entryEdit env xmlMap)) row₀ = some row) :
    row.key = row₀.key := by
  unfold editBy at h
  split at h
  · rename_i x hfind
    obtain ⟨d, -, rfl⟩ := List.mem_map.mp (List.mem_of_find?_eq_some hfind)
    exact key_editOf h
  · cases h
    rfl

/-- A row that has its numbers, and that the edit of a row has made, has the columns of a
record. -/
theorem editOf_eq_some_iff {xml : Option (Str × RealworkRecord)} {row₀ : Row}
    (hnum : row.Numbered) (h : editOf env xml row₀ = some row) :
    ∃ x, xml = some x ∧ ¬ x.2.Cancels ∧ row.update env x.2 = row := by
  unfold editOf at h
  split at h
  · split at h
    · rename_i k xml
      split at h
      · cases h
      · rename_i hc
        cases h
        exact ⟨(k, xml), rfl, hc, rfl⟩
    · cases h
  · rename_i hnum₀
    cases h
    exact absurd hnum hnum₀

/-- **The rows an attempt leaves as they are**: those the select has not found under their own
number, and those that have the columns of the record of their number already. -/
theorem mem_reconciled_iff (hx : ∀ e ∈ xmlMap.entries, e.1 = e.2.cstChildNo)
    (hrow : row ∈ table) :
    row ∈ reconciled env cstNo xmlMap table ↔
      (∀ d ∈ (mapOf (Table.select env cstNo table)).entries, ¬ row.At d.2) ∨
      ∃ x, xmlMap.find? row.cstChildNo = some x ∧ ¬ x.2.Cancels ∧ row.update env x.2 = row := by
  rw [reconciled_edits, List.mem_append, List.mem_filterMap]
  constructor
  · intro h
    by_cases hat : ∀ d ∈ (mapOf (Table.select env cstNo table)).entries, ¬ row.At d.2
    · exact .inl hat
    simp only [not_forall, not_not] at hat
    obtain ⟨d, hd, hat⟩ := hat
    rcases h with ⟨row₀, -, hedit⟩ | hnew
    · rw [editBy_of_at hd hat (key_editBy hedit).symm] at hedit
      exact .inr (editOf_eq_some_iff hat.2.2 hedit)
    · -- a new row has a number the select has not found
      obtain ⟨e, he, rfl⟩ := List.mem_map.mp hnew
      simp only [List.mem_filter, decide_eq_true_eq] at he
      refine absurd ?_ (KeyMap.find?_eq_none_iff.mp he.2.2 d hd)
      rw [(mem_mapOf hd).2, hx e he.1, ← hat.2.1]
      rfl
  · rintro (h | ⟨x, hfind, hc, hup⟩)
    · exact .inl ⟨row, hrow, editBy_of_not_at h⟩
    · by_cases hat : ∀ d ∈ (mapOf (Table.select env cstNo table)).entries, ¬ row.At d.2
      · exact .inl ⟨row, hrow, editBy_of_not_at hat⟩
      simp only [not_forall, not_not] at hat
      obtain ⟨d, hd, hat⟩ := hat
      refine .inl ⟨row, hrow, ?_⟩
      rw [editBy_of_at hd hat rfl, hfind, editOf.eq_def, if_pos hat.2.2]
      exact (if_neg hc).trans (congrArg some hup)

end

/-- `m_xmlMap` holds for a number the first record that has it. -/
theorem find?_mapOf {records : List RealworkRecord} {childNo : Str} {x : Str × RealworkRecord} :
    (mapOf records).find? childNo = some x ↔
      ∃ record, (records.find? fun r => atoi r.cstChildNo = atoi childNo) = some record ∧
        (record.cstChildNo, record) = x := by
  rw [mapOf, KeyMap.find?_ofList, List.find?_map, Option.map_eq_some_iff]
  rfl

/-- The record of place `i` of the batch as a run from `w` takes it, if `FillRealworkRecord`
accepts it. -/
def acceptedAt (env : Env) (batch : List WRecord) (w : World) (i : Nat) : Option RealworkRecord :=
  (effective env batch w)[i]?.bind fun r => (CstChildRecord.ofWRecord r).accept env

/-- The records accepted from the other places of the batch. -/
def acceptedOthers (env : Env) (batch : List WRecord) (w : World) (i : Nat) :
    List RealworkRecord :=
  accepted env ((effective env batch w).eraseIdx i)

theorem acceptedOthers_eq {env : Env} {batch : List WRecord} {w : World} {i : Nat}
    (h : acceptedAt env batch w i = none) :
    acceptedOthers env batch w i = accepted env (effective env batch w) := by
  unfold acceptedOthers accepted
  unfold acceptedAt at h
  generalize effective env batch w = taken at h
  rw [List.eraseIdx_eq_take_drop_succ, List.filterMap_append]
  conv_rhs => rw [← List.take_append_drop i taken, List.filterMap_append]
  congr 1
  cases hget : taken[i]? with
  | none =>
      have hlen := List.getElem?_eq_none_iff.mp hget
      rw [List.drop_eq_nil_of_le hlen, List.drop_eq_nil_of_le (by omega)]
  | some r =>
      obtain ⟨hi, rfl⟩ := List.getElem?_eq_some_iff.mp hget
      rw [List.drop_eq_getElem_cons hi, List.filterMap_cons_none]
      simpa [hget] using h

/-- **The row of a rejected record** stays as it is exactly if the select has not found it under
its own number (which a NULL is not), or another record of the batch stands for the number, has a
start date, and has the columns of the row. -/
theorem rejected_row_iff (env : Env) {cstNo : Str} {batch : List WRecord} (hne : batch ≠ [])
    (hb : ∀ r ∈ batch, r.isEnd = false ∧ r.cmngno = cstNo) {e : WRecord} (he : e.isEnd = true)
    {w w' : World} (hw : w.Idle) (hrun : (runRecords env (batch ++ [e])).run w = .ok () w')
    (hcommit : w'.commits = w.commits + 1) {i : Nat} (hi : i < batch.length)
    (hrejected : acceptedAt env batch w i = none) {row : Row} (hrow : row ∈ w.committed)
    (hnum : atoi row.cstChildNo = atoi batch[i].kono) :
    row ∈ w'.committed ↔
      (∀ d ∈ (mapOf (Table.select env cstNo w.committed)).entries, ¬ row.At d.2) ∨
      ∃ record, ((acceptedOthers env batch w i).find? fun r =>
          atoi r.cstChildNo = atoi batch[i].kono) = some record ∧
        record.sDate ≠ [] ∧ row.update env record = row := by
  obtain ⟨w₁, hrun₁, -, -, htook⟩ := runRecords_takes env hne hb he hw
  obtain rfl : w₁ = w' := by rw [hrun] at hrun₁; cases hrun₁; rfl
  rcases htook with htook | ⟨⟨-, -, hn⟩, -⟩
  · have hx := mapOf_effective env hb w
    rw [htook.committed, mem_reconciled_iff (fun e he => (hx e he).2.1) hrow,
      acceptedOthers_eq hrejected, ← hnum]
    refine or_congr_right ⟨?_, ?_⟩
    · rintro ⟨x, hfind, hc, hup⟩
      have hmem := (KeyMap.find?_eq_some_iff.mp hfind).1
      obtain ⟨record, hrecord, rfl⟩ := find?_mapOf.mp hfind
      exact ⟨record, hrecord, fun hs => hc ⟨hs, (hx _ hmem).2.2.1 hs⟩, hup⟩
    · rintro ⟨record, hrecord, hs, hup⟩
      exact ⟨_, find?_mapOf.mpr ⟨record, hrecord, rfl⟩, fun hc => hs hc.1, hup⟩
  · omega

/-- A record of a network element whose type is not in the configuration. -/
def mistypedRecord : WRecord :=
  plainRecord (lit "A") (lit "1") (lit "zz") (lit "20090101000000") []

/-- The row of its number. -/
def mistypedRow : Row := plainRow (lit "A") (lit "1") (lit "20090101000000") []

/-- The number comes a second time, in a record that has the columns of the row. -/
theorem rejected_row_iff_twice :
    ∃ w', (runRecords plainEnv ([mistypedRecord, startRecord (lit "A")] ++ [endRecord])).run
        (idleWorld [mistypedRow]) = .ok () w' ∧ mistypedRow ∈ w'.committed := by
  have hb : ∀ r ∈ [mistypedRecord, startRecord (lit "A")],
      r.isEnd = false ∧ r.cmngno = lit "A" := by decide
  obtain ⟨w', hrun, -⟩ := runRecords_takes plainEnv (by simp) hb
    (show endRecord.isEnd = true from rfl) (idle_idleWorld [mistypedRow])
  have hw' : reached ((runRecords plainEnv ([mistypedRecord, startRecord (lit "A")] ++
      [endRecord])).run (idleWorld [mistypedRow])) = w' := by rw [hrun, reached]
  refine ⟨w', hrun, (rejected_row_iff plainEnv (i := 0) (by simp) hb rfl (idle_idleWorld _) hrun
    (by rw [← hw']; decide +kernel) (by decide) (by decide +kernel) (List.mem_singleton.mpr rfl)
    rfl).mpr (.inr ⟨mistypedRow.toRealworkRecord, ?_, ?_, ?_⟩)⟩
  · decide +kernel
  · decide
  · rfl

/-- A message that starts the work of child number 2, and has a rejected record for child number
1: the row of child number 1 is deleted. -/
theorem rejected_row_deleted :
    ∃ w', (runRecords plainEnv ([plainRecord (lit "A") (lit "2") (lit "01")
          (lit "20090101000000") [], mistypedRecord] ++ [endRecord])).run
        (idleWorld [mistypedRow]) = .ok () w' ∧ w'.commits = 1 ∧
      (CstChildRecord.ofWRecord mistypedRecord).accept plainEnv = none ∧
      mistypedRow.LiveOf mistypedRecord.cmngno ∧
      mistypedRow.cstChildNo = mistypedRecord.kono ∧ mistypedRow ∉ w'.committed := by
  obtain ⟨w', hrun, -⟩ := runRecords_takes plainEnv (by simp)
    (show ∀ r ∈ [plainRecord (lit "A") (lit "2") (lit "01") (lit "20090101000000") [],
      mistypedRecord], r.isEnd = false ∧ r.cmngno = lit "A" by decide)
    (show endRecord.isEnd = true from rfl) (idle_idleWorld [mistypedRow])
  have hw' : reached ((runRecords plainEnv ([plainRecord (lit "A") (lit "2") (lit "01")
      (lit "20090101000000") [], mistypedRecord] ++ [endRecord])).run
      (idleWorld [mistypedRow])) = w' := by rw [hrun, reached]
  refine ⟨w', hrun, ?_⟩
  rw [← hw']
  decide +kernel

end Realwork.Receive
