import Mathlib.Data.List.Find
import Realwork.Lib.Rows
import Realwork.Receive.Batch

/-!
# Receive — the rows after an attempt

* `reconciled_eq`: the two loops of `ExecuteRecords` are one pass over the rows of the table,
  followed by the new rows.
* `reconciled_live`: where the live rows of a construction have pairwise different numbers and
  all records are of that construction, its live rows are one for each record with a start
  date.
-/

namespace Realwork.Receive

open Realwork.Lib

/-! ### One pass -/

/-- What the statements on `REALWORK` know a row by. -/
def Row.key (row : Row) : Str × Int × Str := (row.cstNo, row.workflag, row.cstChildNo)

theorem Row.at_iff (record : RealworkRecord) (row : Row) :
    row.At record ↔ row.key = (record.cstNo, 0, record.cstChildNo) ∧ row.Numbered := by
  simp [Row.At, Row.LiveOf, Row.key, and_assoc]

/-- The row of a construction and a child number that holds the data columns of a record, each of
the sixteen. -/
def holding (env : Env) (cstNo cstChildNo : Str) (workflag : Int) (record : RealworkRecord) :
    Row where
  cstNo := cstNo
  cstChildNo := cstChildNo
  nodeId := record.nodeId
  neType := record.neType
  serialno := record.serialno
  mms := record.mms
  rnc := record.rnc
  bts := record.bts
  regionCode := record.regionCode
  scheduleName := record.scheduleName
  sDatePre := env.toDate record.sDatePre
  eDatePre := env.toDate record.eDatePre
  sDate := env.toDate record.sDate
  eDate := env.toDate record.eDate
  mCnt := record.mCnt
  bldName := record.bldName
  mType := record.mType
  inputRes := record.inputRes
  workflag := workflag

/-- **The update** sets all data columns. -/
theorem update_eq_holding (env : Env) (record : RealworkRecord) (row : Row) :
    row.update env record = holding env row.cstNo row.cstChildNo row.workflag record := rfl

/-- **The insert** makes a live row with all data columns. -/
theorem row_eq_holding (env : Env) (record : RealworkRecord) :
    record.row env = holding env record.cstNo record.cstChildNo 0 record := rfl

/-- What the loop over `m_dbMap` makes of the row of an entry that has the record `xml`. -/
def editOf (env : Env) (xml : Option (Str × RealworkRecord)) (row : Row) : Option Row :=
  if row.Numbered then
    match xml with
    | some (_, xml) =>
        if xml.Cancels then none
        else some (holding env row.cstNo row.cstChildNo row.workflag xml)
    | none => none
  else some row

theorem editTable_eq (env : Env) (xmlMap : RealworkMap) (table : Table) (e : Str × RealworkRecord) :
    editTable env xmlMap table e =
      editAt Row.key (e.2.cstNo, 0, e.2.cstChildNo) (editOf env (xmlMap.find? e.1)) table := by
  have hdelete : Table.delete e.2 table =
      editAt Row.key (e.2.cstNo, 0, e.2.cstChildNo)
        (fun row => if row.Numbered then none else some row) table := by
    rw [Table.delete, editAt, ← List.filterMap_eq_filter]
    refine List.filterMap_congr fun row _ => ?_
    by_cases h : row.key = (e.2.cstNo, 0, e.2.cstChildNo)
    · by_cases hn : row.Numbered <;> simp [Option.guard, Row.at_iff, h, hn]
    · simp [Option.guard, Row.at_iff, h]
  have hupdate : ∀ xml, Table.update env e.2 xml table =
      editAt Row.key (e.2.cstNo, 0, e.2.cstChildNo)
        (fun row => some (if row.Numbered then row.update env xml else row)) table := by
    intro xml
    rw [Table.update, editAt, ← List.filterMap_eq_map]
    refine List.filterMap_congr fun row _ => ?_
    by_cases h : row.key = (e.2.cstNo, 0, e.2.cstChildNo)
    · by_cases hn : row.Numbered <;> simp [Row.at_iff, h, hn]
    · simp [Row.at_iff, h]
  unfold editTable
  cases hx : xmlMap.find? e.1 with
  | none => exact hdelete
  | some x =>
      obtain ⟨k, xml⟩ := x
      by_cases hc : xml.Cancels
      · simp only [hc, if_true]
        rw [hdelete]
        congr 1
        funext row
        simp [editOf, hc]
      · simp only [hc, if_false]
        rw [hupdate]
        congr 1
        funext row
        by_cases hn : row.Numbered <;> simp [editOf, hc, hn, update_eq_holding]

/-- The update of a row keeps its key. -/
theorem keepsKey_editOf (env : Env) (k : Str × Int × Str) (xml : Option (Str × RealworkRecord)) :
    KeepsKey Row.key (k, editOf env xml) := by
  rintro row row' rfl h
  change editOf env xml row = some row' at h
  unfold editOf at h
  split at h
  · split at h
    · split at h
      · cases h
      · cases h; rfl
    · cases h
  · cases h; rfl

/-- What an attempt for `cstNo` makes of a row.  Only a row whose number is a key of `m_dbMap`
as it is spelled is looked at: of rows with numbers of one value the select keeps the first. -/
def editRow (env : Env) (cstNo : Str) (xmlMap : RealworkMap) (table : Table) (row : Row) :
    Option Row :=
  if row.LiveOf cstNo then
    match (mapOf (Table.select env cstNo table)).find? row.cstChildNo with
    | some (k, _) =>
        if k = row.cstChildNo then editOf env (xmlMap.find? k) row else some row
    | none => some row
  else some row

/-- The rows an attempt adds: the records with a start date whose number the select has not
found. -/
def newRows (env : Env) (cstNo : Str) (xmlMap : RealworkMap) (table : Table) : Table :=
  (xmlMap.entries.filter fun e =>
    e.2.sDate ≠ [] ∧ (mapOf (Table.select env cstNo table)).find? e.1 = none).map
      fun e => holding env e.2.cstNo e.2.cstChildNo 0 e.2

/-- The entries of `m_dbMap` are rows of the select under their numbers. -/
theorem mem_mapOf {records : List RealworkRecord} {e : Str × RealworkRecord}
    (h : e ∈ (mapOf records).entries) : e.2 ∈ records ∧ e.1 = e.2.cstChildNo := by
  have h := KeyMap.mem_ofList.mp h
  obtain ⟨r, hr, rfl⟩ := List.mem_map.mp (List.mem_of_find?_eq_some h)
  exact ⟨hr, rfl⟩

theorem mem_select {env : Env} {cstNo : Str} (hq : 0x27 ∉ cstNo) {table : Table}
    {r : RealworkRecord} :
    r ∈ Table.select env cstNo table ↔ ∃ row ∈ table, row.LiveOf cstNo ∧ row.record = r := by
  simp [Table.select, hq, and_assoc]

theorem foldl_insertTable (env : Env) (dbMap : RealworkMap) (es : List (Str × RealworkRecord))
    (table : Table) :
    es.foldl (insertTable env dbMap) table =
      table ++ (es.filter fun e => e.2.sDate ≠ [] ∧ dbMap.find? e.1 = none).map
        fun e => e.2.row env := by
  induction es generalizing table with
  | nil => simp
  | cons e es ih =>
      rw [List.foldl_cons, ih, insertTable]
      by_cases h : e.2.sDate ≠ [] ∧ dbMap.find? e.1 = none
      · rw [if_pos h, List.filter_cons_of_pos (by simpa using h), Table.insert]
        simp
      · rw [if_neg h, List.filter_cons_of_neg (by simpa using h)]

/-- The edit of the loop over `m_dbMap` for one entry, and the key of the rows it is for. -/
def entryEdit (env : Env) (xmlMap : RealworkMap) (e : Str × RealworkRecord) :
    (Str × Int × Str) × (Row → Option Row) :=
  ((e.2.cstNo, 0, e.2.cstChildNo), editOf env (xmlMap.find? e.1))

/-- The two loops are one pass over the rows, in which each row meets the edit of its key, followed
by the new rows; whatever the select has found. -/
theorem reconciled_edits (env : Env) (cstNo : Str) (xmlMap : RealworkMap) (table : Table) :
    reconciled env cstNo xmlMap table =
      table.filterMap (editBy Row.key
        ((mapOf (Table.select env cstNo table)).entries.map (entryEdit env xmlMap))) ++
      newRows env cstNo xmlMap table := by
  set db := mapOf (Table.select env cstNo table) with hdb
  have hfold : db.entries.foldl (editTable env xmlMap) table =
      table.filterMap (editBy Row.key (db.entries.map (entryEdit env xmlMap))) := by
    have hne : (db.entries.map (entryEdit env xmlMap)).Pairwise fun a b => a.1 ≠ b.1 := by
      refine List.pairwise_map.mpr (db.sorted.imp_of_mem fun {a b} ha hb hlt heq => ?_)
      have : a.1 = b.1 := by
        rw [(mem_mapOf ha).2, (mem_mapOf hb).2]
        exact congrArg (fun k => k.2.2) heq
      exact absurd hlt (by rw [this]; exact lt_irrefl _)
    have hkeep : ∀ x ∈ db.entries.map (entryEdit env xmlMap), KeepsKey Row.key x := fun x hx => by
      obtain ⟨e, -, rfl⟩ := List.mem_map.mp hx
      exact keepsKey_editOf env _ _
    rw [← foldl_editAt hkeep hne, List.foldl_map]
    congr 1
    funext t e
    exact editTable_eq env xmlMap t e
  rw [reconciled, ← hdb, foldl_insertTable, hfold, newRows, ← hdb]
  rfl

/-- **The two loops are one pass** over the rows, followed by the new rows. -/
theorem reconciled_eq (env : Env) {cstNo : Str} (hq : 0x27 ∉ cstNo) (xmlMap : RealworkMap)
    (table : Table) :
    reconciled env cstNo xmlMap table =
      table.filterMap (editRow env cstNo xmlMap table) ++ newRows env cstNo xmlMap table := by
  set db := mapOf (Table.select env cstNo table) with hdb
  have hentry : ∀ e ∈ db.entries, e.2.cstNo = cstNo ∧ e.1 = e.2.cstChildNo := fun e he => by
    obtain ⟨hrec, hkey⟩ := mem_mapOf he
    obtain ⟨row, -, hlive, hrow⟩ := (mem_select hq).mp hrec
    exact ⟨by rw [← hrow]; exact hlive.1, hkey⟩
  rw [reconciled_edits, ← hdb]
  congr 1
  refine List.filterMap_congr fun row _ => ?_
  by_cases hlive : row.LiveOf cstNo
  · have hfind : ((db.entries.map (entryEdit env xmlMap)).find? fun x => x.1 = row.key) =
        ((db.find? row.cstChildNo).filter fun e => e.1 = row.cstChildNo).map
          (entryEdit env xmlMap) := by
      rw [List.find?_map, ← KeyMap.find?_exact]
      congr 1
      refine List.find?_congr fun e he => ?_
      simp [entryEdit, Row.key, hlive.1, hlive.2, (hentry e he).1, (hentry e he).2]
    rw [editRow, if_pos hlive, ← hdb, editBy, hfind]
    cases db.find? row.cstChildNo with
    | none => rfl
    | some e =>
        by_cases hk : e.1 = row.cstChildNo
        · simp [hk, entryEdit, Option.filter]
        · simp [hk, Option.filter]
  · have hnone : ((db.entries.map (entryEdit env xmlMap)).find? fun x => x.1 = row.key) =
        none := by
      simp only [List.find?_eq_none, List.mem_map, decide_eq_true_eq, forall_exists_index, and_imp,
        forall_apply_eq_imp_iff₂]
      intro e he hkey
      refine hlive ⟨?_, (congrArg (fun k => k.2.1) hkey).symm⟩
      exact (congrArg Prod.fst hkey).symm.trans (hentry e he).1
    rw [editRow, if_neg hlive, editBy, hnone]

/-! ### The rows of one construction -/

/-- The numbers of the live rows of the construction have pairwise different values; a NULL has
none. -/
structure KeysDistinct (cstNo : Str) (table : Table) : Prop where
  numbered : ∀ row ∈ table, row.LiveOf cstNo → row.Numbered
  distinct : (table.filter (Row.LiveOf cstNo)).Pairwise fun a b =>
    atoi a.cstChildNo ≠ atoi b.cstChildNo

instance (cstNo : Str) (table : Table) : Decidable (KeysDistinct cstNo table) :=
  decidable_of_iff (_ ∧ _) ⟨fun h => ⟨h.1, h.2⟩, fun h => ⟨h.numbered, h.distinct⟩⟩

/-- The live row of the construction with the number of a record. -/
def rowOf (cstNo : Str) (table : Table) (childNo : Str) : Option Row :=
  table.find? fun row => row.LiveOf cstNo ∧ atoi row.cstChildNo = atoi childNo

/-- The live row a record is to have after an attempt: it holds the data columns of the record,
under the spelling of the number that a live row has already, or the one of the record. -/
def rowFor (env : Env) (cstNo : Str) (table : Table) (e : Str × RealworkRecord) : Row :=
  holding env cstNo (((rowOf cstNo table e.1).map fun row => row.cstChildNo).getD e.1) 0 e.2

/-- The records of `m_xmlMap` are of construction `cstNo`, under their numbers, and none has an
end without a start. -/
def MapOf (cstNo : Str) (xmlMap : RealworkMap) : Prop :=
  ∀ e ∈ xmlMap.entries, e.2.cstNo = cstNo ∧ e.1 = e.2.cstChildNo ∧
    (e.2.sDate = [] → e.2.eDate = []) ∧ e.2.Numbered

section

variable {env : Env} {cstNo : Str} {table : Table} {xmlMap : RealworkMap}

theorem rowFor_of_some {row : Row} {e : Str × RealworkRecord} (hl : row.LiveOf cstNo)
    (h : rowOf cstNo table e.1 = some row) :
    rowFor env cstNo table e = holding env row.cstNo row.cstChildNo row.workflag e.2 := by
  rw [rowFor, h, hl.1, hl.2]
  rfl

theorem rowFor_of_none {e : Str × RealworkRecord} (hno : e.2.cstNo = cstNo)
    (hkey : e.1 = e.2.cstChildNo) (h : rowOf cstNo table e.1 = none) :
    rowFor env cstNo table e = holding env e.2.cstNo e.2.cstChildNo 0 e.2 := by
  rw [rowFor, h, hno, hkey]
  rfl

theorem KeysDistinct.eq (h : KeysDistinct cstNo table) {a b : Row} (ha : a ∈ table)
    (hla : a.LiveOf cstNo) (hb : b ∈ table) (hlb : b.LiveOf cstNo)
    (hab : atoi a.cstChildNo = atoi b.cstChildNo) : a = b := by
  by_contra hne
  have : Std.Symm fun a b : Row => atoi a.cstChildNo ≠ atoi b.cstChildNo := ⟨fun _ _ h => h.symm⟩
  exact h.distinct.forall (List.mem_filter.mpr ⟨ha, by simpa using hla⟩)
    (List.mem_filter.mpr ⟨hb, by simpa using hlb⟩) hne hab

theorem keysDistinct_nil (cstNo : Str) : KeysDistinct cstNo [] where
  numbered _ hrow := absurd hrow List.not_mem_nil
  distinct := .nil

/-- It is a matter of the live rows, and fewer of them keep it. -/
theorem KeysDistinct.of_sublist {table' : Table} (h : KeysDistinct cstNo table)
    (hsub : (table'.filter (Row.LiveOf cstNo)).Sublist (table.filter (Row.LiveOf cstNo))) :
    KeysDistinct cstNo table' where
  numbered row hrow hl := by
    have hmem := hsub.subset (List.mem_filter.mpr ⟨hrow, by simpa using hl⟩)
    exact h.numbered row (List.mem_filter.mp hmem).1 hl
  distinct := h.distinct.sublist hsub

theorem rowOf_eq_some (h : KeysDistinct cstNo table) {row : Row} {childNo : Str} :
    rowOf cstNo table childNo = some row ↔
      row ∈ table ∧ row.LiveOf cstNo ∧ atoi row.cstChildNo = atoi childNo := by
  constructor
  · intro hf
    have hp := List.find?_some hf
    simp only [decide_eq_true_eq] at hp
    exact ⟨List.mem_of_find?_eq_some hf, hp⟩
  · rintro ⟨hm, hl, hk⟩
    cases hf : rowOf cstNo table childNo with
    | none =>
        have hno := List.find?_eq_none.mp hf row hm
        simp only [decide_eq_true_eq] at hno
        exact absurd ⟨hl, hk⟩ hno
    | some row' =>
        have hp := List.find?_some hf
        simp only [decide_eq_true_eq] at hp
        rw [h.eq (List.mem_of_find?_eq_some hf) hp.1 hm hl (hp.2.trans hk.symm)]

theorem rowOf_eq_none {childNo : Str} : rowOf cstNo table childNo = none ↔
    ∀ row ∈ table, row.LiveOf cstNo → atoi row.cstChildNo ≠ atoi childNo := by
  simp [rowOf, List.find?_eq_none]

/-- `m_dbMap` has an entry for exactly the numbers of the live rows. -/
theorem find?_select_eq_none (hq : 0x27 ∉ cstNo) {childNo : Str} :
    (mapOf (Table.select env cstNo table)).find? childNo = none ↔
      rowOf cstNo table childNo = none := by
  rw [mapOf, KeyMap.find?_ofList, List.find?_eq_none, rowOf_eq_none]
  constructor
  · intro h row hm hl
    have := h (row.record.cstChildNo, row.record)
      (List.mem_map.mpr ⟨row.record, (mem_select hq).mpr ⟨row, hm, hl, rfl⟩, rfl⟩)
    rwa [decide_eq_true_eq] at this
  · intro h e he
    obtain ⟨r, hr, rfl⟩ := List.mem_map.mp he
    obtain ⟨row, hm, hl, rfl⟩ := (mem_select hq).mp hr
    rw [decide_eq_true_eq]
    exact h row hm hl

/-- The row of each entry of `m_dbMap` is the one live row of its number. -/
theorem find?_select (hq : 0x27 ∉ cstNo) (h : KeysDistinct cstNo table) {row : Row}
    (hm : row ∈ table) (hl : row.LiveOf cstNo) :
    (mapOf (Table.select env cstNo table)).find? row.cstChildNo =
      some (row.cstChildNo, row.record) := by
  cases hf : (mapOf (Table.select env cstNo table)).find? row.cstChildNo with
  | none =>
      have := rowOf_eq_none.mp ((find?_select_eq_none hq).mp hf) row hm hl
      exact absurd rfl this
  | some e =>
      obtain ⟨he, hr⟩ := KeyMap.find?_eq_some_iff.mp hf
      obtain ⟨hrec, hkey⟩ := mem_mapOf he
      obtain ⟨row', hm', hl', hrow⟩ := (mem_select hq).mp hrec
      have hch : e.1 = row'.cstChildNo := by rw [hkey, ← hrow]; rfl
      obtain rfl := h.eq hm' hl' hm hl (by rw [← hch, hr])
      exact congrArg some (Prod.ext hch hrow.symm)

theorem editRow_live (hq : 0x27 ∉ cstNo) (h : KeysDistinct cstNo table) {row : Row}
    (hm : row ∈ table) (hl : row.LiveOf cstNo) :
    editRow env cstNo xmlMap table row = editOf env (xmlMap.find? row.cstChildNo) row := by
  rw [editRow, if_pos hl, find?_select hq h hm hl]
  exact if_pos rfl

theorem editOf_keeps {xml : Option (Str × RealworkRecord)} {row row' : Row}
    (h : editOf env xml row = some row') :
    row'.cstNo = row.cstNo ∧ row'.workflag = row.workflag ∧ row'.cstChildNo = row.cstChildNo := by
  unfold editOf at h
  split at h
  · split at h
    · split at h
      · cases h
      · cases h; exact ⟨rfl, rfl, rfl⟩
    · cases h
  · cases h; exact ⟨rfl, rfl, rfl⟩

/-- An attempt keeps the construction, the flag and the number of each row. -/
theorem editRow_keeps {row row' : Row} (h : editRow env cstNo xmlMap table row = some row') :
    row'.cstNo = row.cstNo ∧ row'.workflag = row.workflag ∧ row'.cstChildNo = row.cstChildNo := by
  unfold editRow at h
  split at h
  · split at h
    · split at h
      · exact editOf_keeps h
      · cases h; exact ⟨rfl, rfl, rfl⟩
    · cases h; exact ⟨rfl, rfl, rfl⟩
  · cases h; exact ⟨rfl, rfl, rfl⟩

theorem liveOf_congr {row row' : Row} (hno : row'.cstNo = row.cstNo)
    (hflag : row'.workflag = row.workflag) : row'.LiveOf cstNo ↔ row.LiveOf cstNo := by
  rw [Row.LiveOf, Row.LiveOf, hno, hflag]

theorem mem_newRows (hq : 0x27 ∉ cstNo) {row : Row} :
    row ∈ newRows env cstNo xmlMap table ↔ ∃ e ∈ xmlMap.entries, e.2.sDate ≠ [] ∧
      rowOf cstNo table e.1 = none ∧ row = holding env e.2.cstNo e.2.cstChildNo 0 e.2 := by
  simp only [newRows, List.mem_map, List.mem_filter, decide_eq_true_eq, find?_select_eq_none hq,
    and_assoc]
  exact ⟨fun ⟨e, he, hs, hn, h⟩ => ⟨e, he, hs, hn, h.symm⟩,
    fun ⟨e, he, hs, hn, h⟩ => ⟨e, he, hs, hn, h.symm⟩⟩

/-- A live row after the attempt is the row of a record with a start date. -/
theorem mem_reconciled_live (hq : 0x27 ∉ cstNo) (h : KeysDistinct cstNo table)
    (hx : MapOf cstNo xmlMap) {row' : Row} :
    row' ∈ reconciled env cstNo xmlMap table ∧ row'.LiveOf cstNo ↔
      ∃ e ∈ xmlMap.entries, e.2.sDate ≠ [] ∧ rowFor env cstNo table e = row' := by
  rw [reconciled_eq env hq, List.mem_append, List.mem_filterMap, mem_newRows hq]
  constructor
  · rintro ⟨⟨row, hm, hedit⟩ | ⟨e, he, hs, hn, rfl⟩, hl'⟩
    · -- a row that was there: it is edited, its record has a start date
      obtain ⟨hno, hflag, hch⟩ := editRow_keeps hedit
      have hl : row.LiveOf cstNo := (liveOf_congr hno hflag).mp hl'
      rw [editRow_live hq h hm hl, editOf.eq_def, if_pos (h.numbered row hm hl)] at hedit
      split at hedit
      · rename_i k xml hfind
        obtain ⟨he, hk⟩ := KeyMap.find?_eq_some_iff.mp hfind
        split at hedit
        · cases hedit
        · rename_i hc
          cases hedit
          refine ⟨(k, xml), he, fun hs => hc ⟨hs, (hx _ he).2.2.1 hs⟩, ?_⟩
          exact rowFor_of_some hl ((rowOf_eq_some h).mpr ⟨hm, hl, hk.symm⟩)
      · cases hedit
    · exact ⟨e, he, hs, rowFor_of_none (hx e he).1 (hx e he).2.1 hn⟩
  · rintro ⟨e, he, hs, rfl⟩
    refine ⟨?_, rfl, rfl⟩
    cases hrow : rowOf cstNo table e.1 with
    | none => exact .inr ⟨e, he, hs, hrow, rowFor_of_none (hx e he).1 (hx e he).2.1 hrow⟩
    | some row =>
        obtain ⟨hm, hl, hk⟩ := (rowOf_eq_some h).mp hrow
        refine .inl ⟨row, hm, ?_⟩
        rw [editRow_live hq h hm hl, KeyMap.find?_eq_some_iff.mpr ⟨he, hk.symm⟩, editOf.eq_def,
          if_pos (h.numbered row hm hl), rowFor_of_some hl hrow]
        exact if_neg fun hc => hs hc.1

/-- The numbers of the live rows still have pairwise different values after the attempt. -/
theorem keysDistinct_reconciled (env : Env) (hq : 0x27 ∉ cstNo) (h : KeysDistinct cstNo table)
    (hx : MapOf cstNo xmlMap) : KeysDistinct cstNo (reconciled env cstNo xmlMap table) := by
  refine ⟨fun row hrow hl => ?_, ?_⟩
  · obtain ⟨e, he, -, rfl⟩ := (mem_reconciled_live hq h hx).mp ⟨hrow, hl⟩
    refine ⟨(hx e he).1 ▸ (hx e he).2.2.2.1, ?_⟩
    cases hrow : rowOf cstNo table e.1 with
    | none =>
        rw [rowFor_of_none (hx e he).1 (hx e he).2.1 hrow]
        exact (hx e he).2.2.2.2
    | some row =>
        obtain ⟨hm, hl, -⟩ := (rowOf_eq_some h).mp hrow
        rw [rowFor_of_some hl hrow]
        exact (h.numbered row hm hl).2
  rw [reconciled_eq env hq, List.filter_append, List.pairwise_append]
  refine ⟨?_, ?_, ?_⟩
  · rw [List.pairwise_filter, List.pairwise_filterMap]
    refine (List.pairwise_filter.mp h.distinct).imp fun {a b} hab a' ha' b' hb' hla' hlb' => ?_
    obtain ⟨hna, hfa, hca⟩ := editRow_keeps ha'
    obtain ⟨hnb, hfb, hcb⟩ := editRow_keeps hb'
    rw [hca, hcb]
    simp only [decide_eq_true_eq, liveOf_congr hna hfa, liveOf_congr hnb hfb] at hla' hlb' hab
    exact hab hla' hlb'
  · refine List.Pairwise.filter _ (List.pairwise_map.mpr ?_)
    refine (xmlMap.sorted.imp_of_mem fun {a b} ha hb hlt => ?_).filter _
    show atoi a.2.cstChildNo ≠ atoi b.2.cstChildNo
    rw [← (hx a ha).2.1, ← (hx b hb).2.1]
    exact ne_of_lt hlt
  · intro a ha b hb
    obtain ⟨ha, hla⟩ := List.mem_filter.mp ha
    obtain ⟨row, hm, hedit⟩ := List.mem_filterMap.mp ha
    obtain ⟨e, he, -, hn, rfl⟩ := (mem_newRows hq).mp (List.mem_filter.mp hb).1
    obtain ⟨hno, hflag, hch⟩ := editRow_keeps hedit
    rw [hch]
    show atoi row.cstChildNo ≠ atoi e.2.cstChildNo
    rw [← (hx e he).2.1]
    exact rowOf_eq_none.mp hn row hm ((liveOf_congr hno hflag).mp (by simpa using hla))

theorem atoi_rowFor (h : KeysDistinct cstNo table) {e : Str × RealworkRecord} :
    atoi (rowFor env cstNo table e).cstChildNo = atoi e.1 := by
  unfold rowFor
  cases hrow : rowOf cstNo table e.1 with
  | none => rfl
  | some row => exact ((rowOf_eq_some h).mp hrow).2.2

/-- **The live rows of the construction** after an attempt are one for each record with a start
date. -/
theorem reconciled_live (hq : 0x27 ∉ cstNo) (h : KeysDistinct cstNo table)
    (hx : MapOf cstNo xmlMap) :
    ((reconciled env cstNo xmlMap table).filter (Row.LiveOf cstNo)).Perm
      ((xmlMap.entries.filter fun e => e.2.sDate ≠ []).map (rowFor env cstNo table)) := by
  have hleft := keysDistinct_reconciled env hq h hx
  have hright : ((xmlMap.entries.filter fun e => e.2.sDate ≠ []).map
      (rowFor env cstNo table)).Nodup := by
    refine List.pairwise_map.mpr ((xmlMap.sorted.imp_of_mem fun {a b} ha hb hlt heq => ?_).filter _)
    have hatoi := congrArg (fun row : Row => atoi row.cstChildNo) heq
    simp only [atoi_rowFor h] at hatoi
    exact ne_of_lt hlt hatoi
  have hnodup : ((reconciled env cstNo xmlMap table).filter (Row.LiveOf cstNo)).Nodup :=
    hleft.distinct.imp fun hne heq => hne (by rw [heq])
  refine (List.perm_ext_iff_of_nodup hnodup hright).mpr ?_
  intro row
  simp only [List.mem_filter, List.mem_map, decide_eq_true_eq, and_assoc]
  exact mem_reconciled_live hq h hx

/-- The pass over the rows leaves those as they are that are not live rows of its
construction. -/
theorem edited_others {keep : Row → Bool}
    (hcongr : ∀ row row' : Row, row'.cstNo = row.cstNo → row'.workflag = row.workflag →
      keep row' = keep row)
    (hold : ∀ row, row.LiveOf cstNo → keep row = false) :
    (table.filterMap (editRow env cstNo xmlMap table)).filter keep = table.filter keep := by
  rw [List.filter_filterMap, ← List.filterMap_eq_filter]
  refine List.filterMap_congr fun row _ => ?_
  by_cases hl : row.LiveOf cstNo
  · rw [Option.guard, if_neg (by simp [hold row hl])]
    cases hedit : editRow env cstNo xmlMap table row with
    | none => rfl
    | some row' =>
        obtain ⟨hno, hflag, -⟩ := editRow_keeps hedit
        have hkeep : keep row' = false := (hcongr row row' hno hflag).trans (hold row hl)
        simp [Option.filter, hkeep]
  · rw [editRow, if_neg hl]
    rfl

/-- An attempt leaves the rows as they are that are not live rows of its construction and not of
the construction of a record. -/
theorem reconciled_others (hq : 0x27 ∉ cstNo) {keep : Row → Bool}
    (hcongr : ∀ row row' : Row, row'.cstNo = row.cstNo → row'.workflag = row.workflag →
      keep row' = keep row)
    (hold : ∀ row, row.LiveOf cstNo → keep row = false)
    (hnew : ∀ e ∈ xmlMap.entries, keep (e.2.row env) = false) :
    (reconciled env cstNo xmlMap table).filter keep = table.filter keep := by
  have hnone : (newRows env cstNo xmlMap table).filter keep = [] := by
    refine List.filter_eq_nil_iff.mpr fun row hrow => ?_
    obtain ⟨e, he, -, -, rfl⟩ := (mem_newRows hq).mp hrow
    rw [← row_eq_holding, hnew e he]
    exact Bool.false_ne_true
  rw [reconciled_eq env hq, List.filter_append, hnone, List.append_nil, edited_others hcongr hold]

end

end Realwork.Receive
