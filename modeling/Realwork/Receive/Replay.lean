import Realwork.Receive.Message

/-!
# Receive — a message that is sent again

The peer resends a message it has seen no answer for, so the same batch reaches the database
thread twice.

* `runRecords_takes`: what a run does to the table and the result directory, as a function of
  the records it has taken.
* `reconciled_again`: a table that has been reconciled with records of one construction is left
  as it is by the same records.
* `replaysAlike_iff`: a batch run again changes nothing, unless its construction number has a
  quote in it: the select puts the number into its text, where the other statements bind it.
-/

namespace Realwork.Receive

open Realwork.Lib

/-! ### One run -/

/-- A run has reconciled the table with the records of the batch as it took them. -/
structure Took (env : Env) (cstNo : Str) (batch : List WRecord) (w w' : World) : Prop where
  committed : w'.committed =
    reconciled env cstNo (mapOf (accepted env (effective env batch w))) w.committed
  commits : w'.commits = w.commits + 1
  resultDir : ∃ lines,
    csvLines (csvRecords env cstNo (mapOf (accepted env (effective env batch w))) w.committed) =
      some lines ∧ Published w.resultDir lines w'.resultDir
  skip : w'.skip = false

/-- A record is taken as it is, or discarded. -/
theorem mem_effective {env : Env} {batch : List WRecord} {w : World} {r' : WRecord}
    (h : r' ∈ effective env batch w) : ∃ r ∈ batch, r' = r ∨ r' = r.discarded := by
  induction batch generalizing w with
  | nil => simp [effective] at h
  | cons r batch ih =>
      simp only [effective] at h
      split at h
      · rcases List.mem_cons.mp h with rfl | h
        · refine ⟨r, by simp, ?_⟩
          split
          · exact .inl rfl
          · exact .inr rfl
        · obtain ⟨r₁, hr₁, h⟩ := ih h
          exact ⟨r₁, List.mem_cons_of_mem _ hr₁, h⟩
      · cases h

theorem length_effective (env : Env) {batch : List WRecord}
    (hb : ∀ r ∈ batch, r.isEnd = false) (w : World) :
    (effective env batch w).length = batch.length := by
  induction batch generalizing w with
  | nil => rfl
  | cons r batch ih =>
      obtain ⟨⟨⟩, w₁, hrun, -⟩ := (ends_run_content env (hb r (by simp)) w).returns
      simp only [effective, hrun, List.length_cons]
      rw [ih (fun r hr => hb r (List.mem_cons_of_mem _ hr)) w₁]

section

variable {env : Env} {cstNo : Str} {batch : List WRecord}

/-- The records that are taken are of the construction of the batch, as all its records are. -/
theorem effective_batch (env : Env) (hb : ∀ r ∈ batch, r.isEnd = false ∧ r.cmngno = cstNo)
    (w : World) : ∀ r ∈ effective env batch w, r.isEnd = false ∧ r.cmngno = cstNo := by
  intro r' hr'
  obtain ⟨r, hr, rfl | rfl⟩ := mem_effective hr'
  · exact hb r' hr
  · exact hb r hr

theorem effective_ne_nil (env : Env) (hne : batch ≠ []) (hb : ∀ r ∈ batch, r.isEnd = false)
    (w : World) : effective env batch w ≠ [] := by
  intro hnil
  have hlen := length_effective env hb w
  rw [hnil] at hlen
  exact hne (List.length_eq_zero_iff.mp hlen.symm)

/-- The records a run takes are of its construction, under their numbers. -/
theorem mapOf_effective (env : Env) (hb : ∀ r ∈ batch, r.isEnd = false ∧ r.cmngno = cstNo)
    (w : World) : MapOf cstNo (mapOf (accepted env (effective env batch w))) :=
  mapOf_accepted (fun r hr => (effective_batch env hb w r hr).1)
    fun r hr => (effective_batch env hb w r hr).2

/-- **A run of a batch** takes its records and reconciles the table with them, or does nothing
to the table and the result directory. -/
theorem runRecords_takes (env : Env) (hne : batch ≠ [])
    (hb : ∀ r ∈ batch, r.isEnd = false ∧ r.cmngno = cstNo) {e : WRecord} (he : e.isEnd = true)
    {w : World} (hw : w.Idle) :
    ∃ w', (runRecords env (batch ++ [e])).run w = .ok () w' ∧ w'.Idle ∧
      (w'.refusals = w.refusals → effective env batch w = batch) ∧
      (Took env cstNo batch w w' ∨
        (w'.committed = w.committed ∧ w'.resultDir = w.resultDir ∧ w'.commits = w.commits) ∧
          (w.skip = true ∨ cstNo = [] ∨ ¬ w.Sound ∨ csvLines (csvRecords env cstNo
            (mapOf (accepted env (effective env batch w))) w.committed) = none)) := by
  have hend : ∀ r ∈ batch, r.isEnd = false := fun r hr => (hb r hr).1
  obtain ⟨w₁, w', ⟨hq, ⟨-, hback⟩, hres⟩, hrun, hset, hx, hd⟩ :=
    runRecords_settles env hend he hw
  have hwork : w₁.working = w.committed := hq.working hw.working
  -- the records are taken, or the thread has given up
  have hstate : (w₁.skip = true ∧ (w.skip = true ∨ ¬ w.Sound)) ∨ (w₁.skip = false ∧
      w₁.cstRecord.cstNo = cstNo ∧ w₁.xmlMap = mapOf (accepted env (effective env batch w))) := by
    refine hres.imp_right ?_
    rintro ⟨hs, -, hstate, -⟩
    have hcst : w₁.cstRecord = _ := congrArg Prod.fst hstate
    have hxml : w₁.xmlMap = _ := congrArg Prod.snd hstate
    have hne' := effective_ne_nil env hne hend w
    have hlast := effective_batch env hb w _ (List.getLast_mem hne')
    rw [gather_cst env hne', CstChildRecord.ofWRecord, if_neg (by simp [hlast.1])] at hcst
    refine ⟨hs, by rw [hcst]; exact hlast.2, ?_⟩
    rw [hxml, gather_xmlMap, hw.xmlMap, mapOf, KeyMap.ofList, List.foldl_map]
  refine ⟨w', hrun, ?_⟩
  rcases hset with ⟨hs, -, h⟩ | ⟨hc, hdir, hw', -, hn, href, hwhy⟩
  · refine ⟨⟨h.working, hx, hd⟩, fun href => hback (h.refusals.symm.trans href), .inl ?_⟩
    rcases hstate with ⟨hs', -⟩ | ⟨-, hno, hmap⟩
    · rw [hs] at hs'; cases hs'
    obtain ⟨lines, hlines, hpub⟩ := h.resultDir
    rw [hno, hmap, hwork] at hlines
    exact ⟨by rw [h.committed, hno, hmap, hwork], by rw [h.commits, hq.commits],
      ⟨lines, hlines, hq.resultDir ▸ hpub⟩, h.skip.trans hs⟩
  · refine ⟨⟨(hw' (hwork.trans hq.committed.symm)).trans hc.symm, hx, hd⟩,
      fun href' => hback (href.symm.trans href'), .inr ⟨⟨hc.trans hq.committed,
        hdir.trans hq.resultDir, hn.trans hq.commits⟩, ?_⟩⟩
    rcases hstate with ⟨-, hs | hun⟩ | ⟨hs, hno, hmap⟩
    · exact .inl hs
    · exact .inr (.inr (.inl hun))
    · rw [hs, hno, hmap, hwork] at hwhy
      rcases hwhy with hs | hno | hun | hcsv
      · cases hs
      · exact .inr (.inl hno)
      · exact .inr (.inr (.inl fun hok => hun (hok.suffix hq.outcomes)))
      · exact .inr (.inr (.inr hcsv))

end

/-! ### The same records again -/

section

variable {env : Env} {cstNo : Str} {table : Table} {xmlMap : RealworkMap}

/-- A live row of a reconciled table has the record it is the row of. -/
theorem find?_reconciled (hq : 0x27 ∉ cstNo) (h : KeysDistinct cstNo table)
    (hx : MapOf cstNo xmlMap) {row : Row} (hm : row ∈ reconciled env cstNo xmlMap table)
    (hl : row.LiveOf cstNo) :
    ∃ e, xmlMap.find? row.cstChildNo = some e ∧ e ∈ xmlMap.entries ∧ e.2.sDate ≠ [] ∧
      rowFor env cstNo table e = row := by
  obtain ⟨e, he, hs, rfl⟩ := (mem_reconciled_live hq h hx).mp ⟨hm, hl⟩
  exact ⟨e, KeyMap.find?_eq_some_iff.mpr ⟨he, (atoi_rowFor h).symm⟩, he, hs, rfl⟩

/-- **The same records again** leave the table they have been reconciled with as it is. -/
theorem reconciled_again (hq : 0x27 ∉ cstNo) (h : KeysDistinct cstNo table)
    (hx : MapOf cstNo xmlMap) :
    reconciled env cstNo xmlMap (reconciled env cstNo xmlMap table) =
      reconciled env cstNo xmlMap table := by
  set table' := reconciled env cstNo xmlMap table with htable'
  have h' : KeysDistinct cstNo table' := keysDistinct_reconciled env hq h hx
  -- the rows stay
  have hrows : table'.filterMap (editRow env cstNo xmlMap table') = table' := by
    conv_rhs => rw [← List.filterMap_some (l := table')]
    refine List.filterMap_congr fun row hm => ?_
    by_cases hl : row.LiveOf cstNo
    · obtain ⟨e, hfind, he, hs, hrow⟩ := find?_reconciled hq h hx hm hl
      have hc : ¬ e.2.Cancels := fun hc => hs hc.1
      rw [editRow_live hq h' hm hl, hfind, editOf.eq_def, if_pos (h'.numbered row hm hl), ← hrow]
      exact if_neg hc
    · rw [editRow, if_neg hl]
  -- and there is no new one
  have hnew : newRows env cstNo xmlMap table' = [] := by
    refine List.eq_nil_iff_forall_not_mem.mpr fun row hrow => ?_
    obtain ⟨e, he, hs, hnone, -⟩ := (mem_newRows hq).mp hrow
    obtain ⟨hm, hl⟩ := (mem_reconciled_live hq h hx).mpr ⟨e, he, hs, rfl⟩
    exact rowOf_eq_none.mp hnone _ hm hl (atoi_rowFor h)
  rw [reconciled_eq env hq, hrows, hnew, List.append_nil]

/-- The same records again have nothing to write, if the end dates come back from the table as
they were put into it. -/
theorem csvRecords_again (hq : 0x27 ∉ cstNo) (h : KeysDistinct cstNo table)
    (hx : MapOf cstNo xmlMap) (hcol : ∀ e ∈ xmlMap.entries, env.toDate e.2.eDate = e.2.eDate) :
    csvRecords env cstNo xmlMap (reconciled env cstNo xmlMap table) = [] := by
  refine List.eq_nil_iff_forall_not_mem.mpr fun record hrecord => ?_
  obtain ⟨d, hd, hline⟩ := List.mem_filterMap.mp hrecord
  obtain ⟨hrec, hkey⟩ := mem_mapOf hd
  obtain ⟨row, hm, hl, hrow⟩ := (mem_select hq).mp hrec
  obtain ⟨e, hfind, he, hs, hfor⟩ := find?_reconciled hq h hx hm hl
  have hdate : d.2.eDate = e.2.eDate := by
    rw [← hcol e he, ← hrow, ← hfor]
    show (rowFor env cstNo table e).eDate = env.toDate e.2.eDate
    unfold rowFor
    cases rowOf cstNo table e.1 <;> rfl
  have hfind' : xmlMap.find? d.1 = some e := by rw [hkey, ← hrow]; exact hfind
  have hc : ¬ e.2.Cancels := fun hc => hs hc.1
  rw [editLine, hfind'] at hline
  simp [hc, updateLine, hdate] at hline

end

/-! ### Calls that do not raise -/

/-- No call on the database raises, and `n` records have been lost to calls of `GET_SECTORNO`. -/
def World.Smooth (n : Nat) (w : World) : Prop := w.Sound ∧ w.refusals = n

section

variable {n : Nat}

theorem keeps_call : Keeps (World.Smooth n) call := by
  intro w hs
  refine (ends_call w).mono ?_ ?_
  · rintro - w' ⟨rest, hrest, rfl⟩
    exact ⟨hs.1.suffix hrest, hs.2⟩
  · rintro e w' ⟨rest, ⟨-, ho, -⟩ | ⟨-, ho, -⟩⟩
    · exact absurd hs.1 (World.not_sound ho)
    · exact absurd hs.1 (World.not_sound ho)

theorem keeps_ofOption {α : Type} (o : Option α) : Keeps (World.Smooth n) (Proc.ofOption o) := by
  cases o with
  | none => exact .throw _
  | some a => exact .pure a

theorem keeps_writeRecord (env : Env) (r : RealworkRecord) :
    Keeps (World.Smooth n) (writeRecord env r) := by
  refine (Keeps.modify fun w hs => ?_).bind fun _ => (keeps_ofOption _).bind fun line =>
    .modify fun w hs => hs
  split
  · exact hs
  · obtain ⟨ticks, path, fileFails, ho⟩ := w.openLoop_eq env w.fileFails
    rw [ho]
    exact hs

theorem keeps_forM_writeRecord (env : Env) (o : Option RealworkRecord) :
    Keeps (World.Smooth n) (o.forM (writeRecord env)) := by
  cases o with
  | none => exact .pure _
  | some r => exact keeps_writeRecord env r

theorem smooth_renameLoop (env : Env) (fails : List Bool) {w : World} (h : w.Smooth n) :
    (w.renameLoop env fails).Smooth n := by
  induction fails generalizing w with
  | nil => simp only [World.renameLoop]; split <;> exact h
  | cons b fails ih =>
      cases b with
      | true =>
          simp only [World.renameLoop]
          split
          · exact h
          · exact ih h
      | false => simp only [World.renameLoop]; split <;> exact h

theorem smooth_removeLoop (fails : List Bool) {w : World} (h : w.Smooth n) :
    (w.removeLoop fails).Smooth n := by
  induction fails generalizing w with
  | nil => simp only [World.removeLoop]; split <;> exact h
  | cons b fails ih =>
      cases b with
      | true =>
          simp only [World.removeLoop]
          split
          · exact h
          · exact ih h
      | false => simp only [World.removeLoop]; split <;> exact h

theorem keeps_writeEnd (env : Env) (isOk : Bool) : Keeps (World.Smooth n) (writeEnd env isOk) := by
  refine .modify fun w hs => ?_
  split
  · cases isOk with
    | true => exact smooth_renameLoop env _ hs
    | false => exact smooth_removeLoop _ hs
  · exact hs

theorem keeps_selectRealwork (env : Env) (cstNo : Str) :
    Keeps (World.Smooth n) (selectRealwork env cstNo) := by
  refine Keeps.bind (.modify ?_) fun _ => keeps_call.bind fun _ => Keeps.get.bind fun _ =>
    .forM fun _ => keeps_call.bind fun _ => .modify ?_
  · exact fun _ hs => hs
  · exact fun _ hs => hs

theorem keeps_insertRealwork (env : Env) (r : RealworkRecord) :
    Keeps (World.Smooth n) (insertRealwork env r) :=
  keeps_call.bind fun _ => .modify fun _ hs => hs

theorem keeps_updateRealwork (env : Env) (r r' : RealworkRecord) :
    Keeps (World.Smooth n) (updateRealwork env r r') :=
  keeps_call.bind fun _ => .modify fun _ hs => hs

theorem keeps_deleteRealwork (r : RealworkRecord) : Keeps (World.Smooth n) (deleteRealwork r) :=
  keeps_call.bind fun _ => .modify fun _ hs => hs

theorem keeps_commit : Keeps (World.Smooth n) commit :=
  keeps_call.bind fun _ => .modify fun _ hs => hs

theorem keeps_reconcileEntry (env : Env) (e : Str × RealworkRecord) :
    Keeps (World.Smooth n) (reconcileEntry env e) := by
  refine Keeps.get.bind fun w => ?_
  split
  · refine .ite ?_ ?_
    · exact (keeps_deleteRealwork _).bind fun _ => keeps_forM_writeRecord env _
    · exact (keeps_updateRealwork env _ _).bind fun _ => keeps_forM_writeRecord env _
  · exact keeps_deleteRealwork _

theorem keeps_insertEntry (env : Env) (e : Str × RealworkRecord) :
    Keeps (World.Smooth n) (insertEntry env e) :=
  Keeps.get.bind fun _ => .ite (keeps_insertRealwork env _) (.pure _)

theorem keeps_executeBody (env : Env) (cstNo : Str) :
    Keeps (World.Smooth n) (executeBody env cstNo) :=
  (keeps_selectRealwork env cstNo).bind fun _ => Keeps.get.bind fun _ =>
    (Keeps.forM (keeps_reconcileEntry env)).bind fun _ => Keeps.get.bind fun _ =>
    (Keeps.forM (keeps_insertEntry env)).bind fun _ => keeps_commit.bind fun _ =>
    keeps_writeEnd env true

theorem keeps_executeRecords (env : Env) : Keeps (World.Smooth n) (executeRecords env) := by
  refine Keeps.get.bind fun w => .ite (.pure _) ?_
  refine Keeps.get.bind fun w => .ite (.pure _) ?_
  refine Keeps.bind (.modify ?_) fun _ => .tryCatch ?_ fun e => ?_
  · exact fun _ hs => hs
  · exact (keeps_executeBody env _).bind fun _ => .pure _
  · cases e with
    | dbConnect => exact (keeps_writeEnd env false).bind fun _ => .pure _
    | _ =>
        refine Keeps.bind (.modify ?_) fun _ => (keeps_writeEnd env false).bind fun _ => .pure _
        exact fun _ hs => hs

theorem keeps_addXmlRecord (env : Env) (r : CstChildRecord) :
    Keeps (World.Smooth n) (addXmlRecord env r) := fun w hs =>
  (ends_addXmlRecord env r w).mono
    (fun b w' h => by
      cases h with
      | skipped => exact hs
      | taken _ ho => exact ⟨hs.1.suffix ho, hs.2⟩
      | refused _ ho => exact absurd hs.1 (World.not_sound ho)
      | lost _ ho => exact absurd hs.1 (World.not_sound ho))
    fun _ _ h => h.elim

theorem keeps_untilAlive {env : Env} {body : Proc Bool}
    (hbody : Keeps (World.Smooth n) body) (rounds : Nat) :
    Keeps (World.Smooth n) (untilAlive env body rounds) := by
  induction rounds with
  | zero => exact .throw _
  | succ rounds ih =>
      refine hbody.bind fun b => .ite (.pure _) (Keeps.bind (fun w hs => ?_) fun _ => ih)
      refine (ends_reconnectDB env w).mono ?_ fun _ _ h => h.elim
      rintro - w' ⟨rest, hrest, rfl | ⟨-, rfl⟩⟩
      · exact ⟨hs.1.suffix hrest, hs.2⟩
      · exact ⟨hs.1.suffix hrest, hs.2⟩

/-- **A run in whose state no call raises** leaves a state in which none does. -/
theorem keeps_runRecords (env : Env) (records : List WRecord) :
    Keeps (World.Smooth n) (runRecords env records) := by
  refine .forM fun r => Keeps.get.bind fun w => .ite ?_ ?_
  · refine (keeps_untilAlive (keeps_executeRecords env) _).bind fun _ => .modify ?_
    exact fun _ hs => hs
  · exact keeps_untilAlive (keeps_addXmlRecord env _) _

end

/-! ### The batch again -/

/-- A committed batch of construction `cstNo` run again leaves the table and the result
directory as the first run has left them.  Calls on the database may raise in both runs, except
that no record is lost to a call of `GET_SECTORNO`; the end dates come back from the table as
they were put into it. -/
def ReplaysAlike (env : Env) (cstNo : Str) : Prop :=
  ∀ (batch : List WRecord) (e : WRecord) (w w' w'' : World),
    batch ≠ [] → (∀ r ∈ batch, r.isEnd = false ∧ r.cmngno = cstNo) → e.isEnd = true →
    w.Idle → KeysDistinct cstNo w.committed →
    (∀ record ∈ accepted env batch, env.toDate record.eDate = record.eDate) →
    (runRecords env (batch ++ [e])).run w = .ok () w' → w'.commits = w.commits + 1 →
    w'.refusals = w.refusals →
    (runRecords env (batch ++ [e])).run w' = .ok () w'' → w''.refusals = w'.refusals →
    w''.committed = w'.committed ∧ w''.resultDir = w'.resultDir

theorem replaysAlike (env : Env) {cstNo : Str} (hq : 0x27 ∉ cstNo) : ReplaysAlike env cstNo := by
  intro batch e w w' w'' hne hb he hw hkeys hcol hrun hcommit href hrun' href'
  obtain ⟨w₁, hrun₁, hw', hback, htook⟩ := runRecords_takes env hne hb he hw
  obtain rfl : w₁ = w' := by rw [hrun] at hrun₁; cases hrun₁; rfl
  obtain ⟨w₂, hrun₂, -, hback', htook'⟩ := runRecords_takes env hne hb he hw'
  obtain rfl : w₂ = w'' := by rw [hrun'] at hrun₂; cases hrun₂; rfl
  have hx : MapOf cstNo (mapOf (accepted env batch)) :=
    mapOf_accepted (fun r hr => (hb r hr).1) fun r hr => (hb r hr).2
  have hend : ∀ entry ∈ (mapOf (accepted env batch)).entries,
      env.toDate entry.2.eDate = entry.2.eDate := fun entry hentry => hcol _ (mem_mapOf hentry).1
  rcases htook with htook | ⟨⟨-, -, hn⟩, -⟩
  · have hcommitted := htook.committed
    rw [hback href] at hcommitted
    rcases htook' with htook' | ⟨⟨hc, hd, -⟩, -⟩
    · obtain ⟨lines, hlines, hpub⟩ := htook'.resultDir
      rw [hback' href', hcommitted, csvRecords_again hq hkeys hx hend] at hlines
      cases hlines
      refine ⟨?_, hpub⟩
      rw [htook'.committed, hback' href', hcommitted, reconciled_again hq hkeys hx]
    · exact ⟨hc, hd⟩
  · omega

/-- A record that starts the work of a child number. -/
def startRecord (cstNo : Str) : WRecord :=
  plainRecord cstNo (lit "1") (lit "01") (lit "20090101000000") []

/-- Of the construction number only that it is not empty matters to the checks of a record. -/
theorem CstChildRecord.accept_cstNo (env : Env) (r : CstChildRecord) {cstNo : Str}
    (hr : r.cst.cstNo ≠ []) (hno : cstNo ≠ []) :
    { r with cst := { r.cst with cstNo } }.accept env =
      (r.accept env).map fun record => { record with cstNo } := by
  simp only [accept, hr, hno, false_or]
  split
  · rfl
  · show ((r.preDatePass env).bind _) = _
    cases r.preDatePass env with
    | none => rfl
    | some pass =>
    cases pass with
    | true => rfl
    | false =>
    cases (CstNode.ofNeId env r.neId r.subNeId).toOption with
    | none => rfl
    | some node =>
    cases hid : node.getCstNodeId with
    | none => simp [hid]
    | some nodeId =>
    cases hs : node.serialOf env with
    | none => simp [hid, hs]
    | some serialno => simp [hid, hs, realwork]

theorem accepted_startRecord {cstNo : Str} (hno : cstNo ≠ []) :
    accepted plainEnv [startRecord cstNo] =
      [(plainRow cstNo (lit "1") (lit "20090101000000") []).toRealworkRecord] := by
  have hA : (CstChildRecord.ofWRecord (startRecord (lit "A"))).accept plainEnv =
      some (plainRow (lit "A") (lit "1") (lit "20090101000000") []).toRealworkRecord := by
    decide +kernel
  have h := CstChildRecord.accept_cstNo plainEnv
    (.ofWRecord (startRecord (lit "A"))) (by decide) hno
  rw [hA] at h
  simp only [accepted, List.filterMap_cons, List.filterMap_nil]
  rw [show (CstChildRecord.ofWRecord (startRecord cstNo)).accept plainEnv = _ from h]
  rfl

/-- The row of the record. -/
def startRow (cstNo : Str) : Row := plainRow cstNo (lit "1") (lit "20090101000000") []

/-- Where the select finds no row, the record is inserted, whatever rows there are. -/
theorem reconciled_startRecord {cstNo : Str} (hq : 0x27 ∈ cstNo) (table : Table) :
    reconciled plainEnv cstNo (mapOf [(startRow cstNo).toRealworkRecord]) table =
      table ++ [startRow cstNo] := by
  have hselect : Table.select plainEnv cstNo table = [] := by rw [Table.select, if_pos hq]; rfl
  simp only [reconciled, hselect]
  rfl

theorem csvRecords_quoted {cstNo : Str} (hq : 0x27 ∈ cstNo) (xmlMap : RealworkMap)
    (table : Table) : csvRecords plainEnv cstNo xmlMap table = [] := by
  have hselect : Table.select plainEnv cstNo table = [] := by rw [Table.select, if_pos hq]; rfl
  simp only [csvRecords, hselect]
  rfl

/-- Each run of the record adds its row. -/
theorem runRecords_startRecord {cstNo : Str} (hq : 0x27 ∈ cstNo) {n : Nat} {w : World}
    (hw : w.Idle) (hs : w.Smooth n) (hskip : w.skip = false) :
    ∃ w', (runRecords plainEnv ([startRecord cstNo] ++ [endRecord])).run w = .ok () w' ∧
      w'.Idle ∧ w'.Smooth n ∧ w'.skip = false ∧ w'.commits = w.commits + 1 ∧
      w'.committed = w.committed ++ [startRow cstNo] := by
  have hno : cstNo ≠ [] := List.ne_nil_of_mem hq
  obtain ⟨w', hrun, hw', hback, htook⟩ := runRecords_takes plainEnv
    (show [startRecord cstNo] ≠ [] by simp)
    (show ∀ r ∈ [startRecord cstNo], r.isEnd = false ∧ r.cmngno = cstNo by
      simp [startRecord, plainRecord])
    (show endRecord.isEnd = true from rfl) hw
  have hs' : w'.Smooth n := (keeps_runRecords plainEnv _ w hs).ok hrun
  have hacc : accepted plainEnv (effective plainEnv [startRecord cstNo] w) =
      [(startRow cstNo).toRealworkRecord] := by
    rw [hback (hs'.2.trans hs.2.symm), accepted_startRecord hno]
    rfl
  refine ⟨w', hrun, hw', hs', ?_⟩
  rcases htook with htook | ⟨-, hs'' | hno' | hun | hcsv⟩
  · refine ⟨htook.skip, htook.commits, ?_⟩
    rw [htook.committed, hacc, reconciled_startRecord hq]
  · rw [hskip] at hs''; cases hs''
  · exact absurd hno' hno
  · exact absurd hs.1 hun
  · rw [csvRecords_quoted hq] at hcsv
    cases hcsv

/-- What a literal of SQL stands for: a doubled quote is a quote. -/
def unquoted : Str → Str
  | 0x27 :: 0x27 :: s => 0x27 :: unquoted s
  | b :: s => b :: unquoted s
  | [] => []

/-- A database to which the select with a number of doubled quotes is one for the number the
literal stands for. -/
def literalEnv : Env :=
  { plainEnv with
    injected := fun cstNo table => (table.filter (Row.LiveOf (unquoted cstNo))).map Row.record }

end Realwork.Receive
