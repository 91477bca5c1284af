import Realwork.Receive.Rows

/-!
# Receive — what a message does to the table

The runs of a message in which no call on the database raises.

* `executeRecords_reconciles`: the records of one construction replace its live rows.
* `runRecords_reconciles`: in general the records of a message are taken together: the first
  accepted record of each child number stands for the number, whatever its construction, and the
  rows reconciled are those of the construction of the last record.
-/

namespace Realwork.Receive

open Realwork.Lib

/-- The records of a message that `FillRealworkRecord` accepts. -/
def accepted (env : Env) (batch : List WRecord) : List RealworkRecord :=
  batch.filterMap fun r => (CstChildRecord.ofWRecord r).accept env

theorem gather_xmlMap (env : Env) (batch : List WRecord) (s : CstRecord × RealworkMap) :
    (batch.foldl (gatherRecord env) s).2 =
      (accepted env batch).foldl (fun m r => m.insert r.cstChildNo r) s.2 := by
  induction batch generalizing s with
  | nil => rfl
  | cons r batch ih =>
      rw [List.foldl_cons, ih, gatherRecord, addAccepted]
      cases ha : (CstChildRecord.ofWRecord r).accept env <;> simp [accepted, ha]

theorem gather_cst (env : Env) {batch : List WRecord} (hne : batch ≠ [])
    (s : CstRecord × RealworkMap) :
    (batch.foldl (gatherRecord env) s).1 = (CstChildRecord.ofWRecord (batch.getLast hne)).cst := by
  calc (batch.foldl (gatherRecord env) s).1
      = ((batch.dropLast ++ [batch.getLast hne]).foldl (gatherRecord env) s).1 := by
        rw [List.dropLast_append_getLast hne]
    _ = (CstChildRecord.ofWRecord (batch.getLast hne)).cst := by simp [gatherRecord]

theorem mem_accepted {env : Env} {batch : List WRecord} (hb : ∀ r ∈ batch, r.isEnd = false)
    {record : RealworkRecord} (h : record ∈ accepted env batch) :
    ∃ r ∈ batch, record.cstNo = r.cmngno ∧ (record.sDate = [] → record.eDate = []) ∧
      record.Numbered := by
  obtain ⟨r, hr, ha⟩ := List.mem_filterMap.mp h
  obtain ⟨hno, -, -, -, hdates, hnum⟩ := CstChildRecord.accept_fields ha
  exact ⟨r, hr, by simpa [CstChildRecord.ofWRecord, hb r hr] using hno, hdates, hnum⟩

/-- The records of a message whose records are all of one construction. -/
theorem mapOf_accepted {env : Env} {batch : List WRecord} {cstNo : Str}
    (hb : ∀ r ∈ batch, r.isEnd = false) (hc : ∀ r ∈ batch, r.cmngno = cstNo) :
    MapOf cstNo (mapOf (accepted env batch)) := by
  intro e he
  obtain ⟨hrec, hkey⟩ := mem_mapOf he
  obtain ⟨r, hr, hno, hdates, hnum⟩ := mem_accepted hb hrec
  exact ⟨hno.trans (hc r hr), hkey, hdates, hnum⟩

/-- The records of a message are collected when no call raises. -/
theorem Gathered.sound {env : Env} {batch : List WRecord} {w w₁ : World}
    (h : Gathered env batch w w₁) (hne : batch ≠ []) (hb : ∀ r ∈ batch, r.isEnd = false)
    (hw : w.Idle) (hskip : w.skip = false) (hok : w.Sound) :
    w₁.skip = false ∧ w₁.Sound ∧ w₁.cstRecord.cstNo = (batch.getLast hne).cmngno ∧
      w₁.xmlMap = mapOf (accepted env batch) ∧ w₁.working = w.committed := by
  obtain ⟨hq, -, ⟨-, hs | hs⟩ | ⟨hs, -, hstate, heff | hun⟩⟩ := h
  · rw [hskip] at hs; cases hs
  · exact absurd hok hs
  · rw [heff] at hstate
    have hcst : w₁.cstRecord = _ := congrArg Prod.fst hstate
    have hxml : w₁.xmlMap = _ := congrArg Prod.snd hstate
    rw [gather_cst env hne, CstChildRecord.ofWRecord, if_neg (by simp [hb])] at hcst
    rw [gather_xmlMap, hw.xmlMap] at hxml
    refine ⟨hs, hok.suffix hq.outcomes, by rw [hcst], ?_, hq.working hw.working⟩
    rw [hxml, mapOf, KeyMap.ofList, List.foldl_map]
  · exact absurd hok hun

/-- Two live rows of construction A and one of B. -/
def threeRows : Table :=
  [plainRow (lit "A") (lit "01") (lit "20090101000000") [],
    plainRow (lit "A") (lit "3") (lit "20090101000000") [],
    plainRow (lit "B") (lit "1") (lit "20090101000000") []]

/-- A message that ends the work of the first row and starts another one. -/
def endAndStart : List WRecord :=
  [plainRecord (lit "A") (lit "1") (lit "01") (lit "20090101000000") (lit "20090102000000"),
    plainRecord (lit "A") (lit "2") (lit "01") (lit "20090103000000") []]

/-- The table after a message of records of any constructions.  `editRow` looks at the live rows
of the construction of the last record only. -/
theorem runRecords_reconciled (env : Env) {batch : List WRecord} (hne : batch ≠ [])
    (hb : ∀ r ∈ batch, r.isEnd = false) {e : WRecord} (he : e.isEnd = true) {w : World}
    (hw : w.Idle) (hskip : w.skip = false) (hok : w.Sound) :
    ∃ w', (runRecords env (batch ++ [e])).run w = .ok () w' ∧
      (w'.commits = w.commits + 1 → w'.committed =
        reconciled env (batch.getLast hne).cmngno (mapOf (accepted env batch)) w.committed) := by
  obtain ⟨w₁, w', hg, hrun, hset, -, -⟩ := runRecords_settles env hb he hw
  obtain ⟨hs, hok₁, hcst, hxml, hwork⟩ := hg.sound hne hb hw hskip hok
  refine ⟨w', hrun, fun hn => ?_⟩
  rcases hset with ⟨-, -, h⟩ | ⟨-, -, -, -, hn', -, -⟩
  · rw [h.committed, hcst, hxml, hwork]
  · rw [hn', hg.quiet.commits] at hn
    omega

/-- **The records of a message are reconciled together.**  If the message is committed, with
`last` the construction of its last record and `m_xmlMap` the first accepted record of each
child number:

* the live rows of `last` are edited by the record of their number (`editRow`): deleted, or left
  `holding` its sixteen data columns; and each record with a start date whose number no live row
  of `last` has makes a row that holds them (`newRows`), under the record's own construction;
* the rows of another construction stay, its new rows being added;
* the rows of a construction that does not occur in the message stay as they are;
* if all records are of `last`, whose rows have numbers of different values, its live rows are
  one for each record with a start date, holding its columns. -/
theorem runRecords_reconciles (env : Env) {batch : List WRecord} (hne : batch ≠ [])
    (hb : ∀ r ∈ batch, r.isEnd = false) {e : WRecord} (he : e.isEnd = true)
    (hq : 0x27 ∉ (batch.getLast hne).cmngno) {w : World} (hw : w.Idle)
    (hskip : w.skip = false) (hok : w.Sound) :
    let last := (batch.getLast hne).cmngno
    let xmlMap := mapOf (accepted env batch)
    ∃ w', (runRecords env (batch ++ [e])).run w = .ok () w' ∧ (w'.commits = w.commits + 1 →
      w'.committed = w.committed.filterMap (editRow env last xmlMap w.committed) ++
        newRows env last xmlMap w.committed ∧
      (∀ cstNo, cstNo ≠ last → (w'.committed.filter fun row => row.cstNo = cstNo) =
        (w.committed.filter fun row => row.cstNo = cstNo) ++
          (newRows env last xmlMap w.committed).filter fun row => row.cstNo = cstNo) ∧
      (∀ cstNo, (∀ r ∈ batch, r.cmngno ≠ cstNo) →
        (w'.committed.filter fun row => row.cstNo = cstNo) =
          w.committed.filter fun row => row.cstNo = cstNo) ∧
      ((∀ r ∈ batch, r.cmngno = last) → KeysDistinct last w.committed →
        (w'.committed.filter (Row.LiveOf last)).Perm
          ((xmlMap.entries.filter fun e => e.2.sDate ≠ []).map
            (rowFor env last w.committed)))) := by
  intro last xmlMap
  obtain ⟨w', hrun, h⟩ := runRecords_reconciled env hne hb he hw hskip hok
  refine ⟨w', hrun, fun hn => ?_⟩
  have hcommitted := h hn
  rw [hcommitted]
  refine ⟨reconciled_eq env hq _ _, fun cstNo hc => ?_, fun cstNo hc => ?_, fun hc hkeys => ?_⟩
  · rw [reconciled_eq env hq, List.filter_append,
      edited_others (fun row row' h _ => by rw [h]) fun row hl => by simpa [hl.1] using Ne.symm hc]
  · refine reconciled_others hq (fun row row' h _ => by rw [h]) (fun row hl => ?_) fun e he => ?_
    · simpa [hl.1] using hc _ (List.getLast_mem hne)
    · obtain ⟨r, hr, hno, -⟩ := mem_accepted hb (mem_mapOf he).1
      have hrow : (e.2.row env).cstNo = r.cmngno := hno
      simpa [hrow] using hc r hr
  · exact reconciled_live hq hkeys (mapOf_accepted hb hc)

/-- A message of two constructions with the same child number. -/
def twoConstructions : List WRecord :=
  [plainRecord (lit "A") (lit "1") (lit "01") (lit "20090101000000") [],
    plainRecord (lit "B") (lit "1") (lit "01") (lit "20090101000000") []]

theorem runRecords_reconciles_twoConstructions :
    ∃ w', (runRecords plainEnv (twoConstructions ++ [endRecord])).run (idleWorld []) = .ok () w' ∧
      w'.committed = [plainRow (lit "A") (lit "1") (lit "20090101000000") []] := by
  obtain ⟨w', hrun, h⟩ := runRecords_reconciles plainEnv
    (show twoConstructions ≠ [] by decide) (by decide) (show endRecord.isEnd = true from rfl)
    (by decide) (idle_idleWorld []) rfl (fun o ho => nomatch ho)
  have hw' : reached ((runRecords plainEnv (twoConstructions ++ [endRecord])).run
      (idleWorld [])) = w' := by rw [hrun, reached]
  have hcommit : w'.commits = 1 := by
    rw [← hw']
    decide +kernel
  refine ⟨w', hrun, (h hcommit).1.trans ?_⟩
  decide +kernel

/-- The live rows of each construction of the message are one for each of its records with a
start date. -/
def ReconciledApart (env : Env) (batch : List WRecord) (w w' : World) : Prop :=
  ∀ r ∈ batch, (w'.committed.filter (Row.LiveOf r.cmngno)).Perm
    (((mapOf (accepted env (batch.filter fun r' => r'.cmngno = r.cmngno))).entries.filter
      fun e => e.2.sDate ≠ []).map (rowFor env r.cmngno w.committed))

instance (env : Env) (batch : List WRecord) (w w' : World) :
    Decidable (ReconciledApart env batch w w') :=
  inferInstanceAs (Decidable (∀ r ∈ batch, _))

/-- The record of the second construction is not put into `m_xmlMap`, the child number being
there, and makes no row. -/
theorem not_reconciledApart :
    ∃ w', (runRecords plainEnv (twoConstructions ++ [endRecord])).run (idleWorld []) = .ok () w' ∧
      w'.commits = 1 ∧ ¬ ReconciledApart plainEnv twoConstructions (idleWorld []) w' := by
  obtain ⟨-, w', -, hrun, -⟩ := runRecords_settles plainEnv
    (show ∀ r ∈ twoConstructions, r.isEnd = false by decide)
    (show endRecord.isEnd = true from rfl) (idle_idleWorld [])
  have hw' : reached ((runRecords plainEnv (twoConstructions ++ [endRecord])).run
      (idleWorld [])) = w' := by rw [hrun, reached]
  refine ⟨w', hrun, ?_⟩
  rw [← hw']
  decide +kernel

end Realwork.Receive
