import Realwork.Receive.Reconcile

/-!
# Receive — one attempt of `ExecuteRecords`

* `ends_executeBody`: an attempt completes and then has done exactly its plan
  (`Receive/Reconcile.lean`), or raises and then has changed neither the committed table nor the
  result directory.  `Stage` is the invariant of its loops: the transaction and the file hold
  the part of the plan for the entries done so far.
-/

namespace Realwork.Receive

open Realwork.Lib

/-! ### The file -/

namespace World

theorem openLoop_eq (env : Env) (fails : List Bool) (w : World) :
    ∃ ticks path fileFails, w.openLoop env fails = { w with
      ticks, cstFile := ⟨true, path⟩, fileFails,
      tmpDir := Function.update w.tmpDir path (some []) } := by
  induction fails generalizing w with
  | nil => exact ⟨_, _, _, rfl⟩
  | cons b fails ih =>
      cases b with
      | true =>
          obtain ⟨ticks, path, fileFails, h⟩ := ih _
          exact ⟨ticks, path, fileFails, h⟩
      | false => exact ⟨_, _, _, rfl⟩

theorem renameLoop_eq (env : Env) (fails : List Bool) (w : World) {lines : List Str}
    (h : w.tmpDir w.cstFile.tmpFilePath = some lines) :
    ∃ ticks result fileFails, w.renameLoop env fails = { w with
      ticks, fileFails,
      tmpDir := Function.update w.tmpDir w.cstFile.tmpFilePath none,
      resultDir := Function.update w.resultDir result (some lines) } := by
  induction fails generalizing w with
  | nil => exact ⟨_, _, _, by simp only [renameLoop, h]; rfl⟩
  | cons b fails ih =>
      cases b with
      | true =>
          obtain ⟨ticks, result, fileFails, h'⟩ :=
            ih { w with ticks := w.ticks + 1, fileFails := fails } h
          exact ⟨ticks, result, fileFails, by simp only [renameLoop, h]; exact h'⟩
      | false => exact ⟨_, _, _, by simp only [renameLoop, h]; rfl⟩

theorem removeLoop_eq (fails : List Bool) (w : World) {lines : List Str}
    (h : w.tmpDir w.cstFile.tmpFilePath = some lines) :
    ∃ fileFails, w.removeLoop fails = { w with
      fileFails, tmpDir := Function.update w.tmpDir w.cstFile.tmpFilePath none } := by
  induction fails generalizing w with
  | nil => exact ⟨_, by simp only [removeLoop, h]; rfl⟩
  | cons b fails ih =>
      cases b with
      | true =>
          obtain ⟨fileFails, h'⟩ := ih { w with fileFails := fails } h
          exact ⟨fileFails, by simp only [removeLoop, h]; exact h'⟩
      | false => exact ⟨_, by simp only [removeLoop, h]; rfl⟩

/-- The file of an attempt that has written `lines`, `dir` being the directory before it. -/
def FileHolds (dir : Dir) (lines : List Str) (w : World) : Prop :=
  if lines = [] then w.cstFile.isOpen = false ∧ w.tmpDir = dir
  else w.cstFile.isOpen = true ∧
    w.tmpDir = Function.update dir w.cstFile.tmpFilePath (some lines)

/-- The directory is `dir`, with the file of the attempt if that is open. -/
def FileTouched (dir : Dir) (w : World) : Prop :=
  (w.cstFile.isOpen = false ∧ w.tmpDir = dir) ∨ w.cstFile.isOpen = true ∧
    ∃ lines, w.tmpDir = Function.update dir w.cstFile.tmpFilePath (some lines)

theorem FileHolds.touched {dir : Dir} {lines : List Str} {w : World} (h : w.FileHolds dir lines) :
    w.FileTouched dir := by
  unfold FileHolds at h
  split at h
  · exact .inl h
  · exact .inr ⟨h.1, lines, h.2⟩

/-- What an attempt leaves as it is until it is committed. -/
structure Same (w₀ w : World) : Prop where
  committed : w.committed = w₀.committed
  commits : w.commits = w₀.commits
  resultDir : w.resultDir = w₀.resultDir
  skip : w.skip = w₀.skip
  cstRecord : w.cstRecord = w₀.cstRecord
  xmlMap : w.xmlMap = w₀.xmlMap
  refusals : w.refusals = w₀.refusals
  outcomes : w.outcomes <:+ w₀.outcomes

theorem Same.rollback {w₀ w : World} (h : w₀.Same w) :
    w₀.Same { w with working := w.committed } := { h with }

end World

/-! ### The invariant of the attempt -/

/-- The attempt that started in `w₀` has read `db`, made `table` of the table, and written the
lines of `records`. -/
structure Stage (w₀ : World) (db : RealworkMap) (table : Table) (records : List RealworkRecord)
    (w : World) : Prop where
  same : w₀.Same w
  dbMap : w.dbMap = db
  working : w.working = table
  file : ∃ lines, csvLines records = some lines ∧ w.FileHolds w₀.tmpDir lines

/-- The attempt that started in `w₀` and has the lines of `records` to write has raised `e`. -/
structure Broken (w₀ : World) (records : List RealworkRecord) (e : Raised) (w : World) :
    Prop where
  same : w₀.Same w
  file : w.FileTouched w₀.tmpDir
  cause : (e = .otl ∧ ¬ w₀.Sound) ∨
    (e = .dbConnect ∧ ¬ w₀.Sound ∧ w.outcomes.length < w₀.outcomes.length ∧
      w.working = w₀.committed) ∨
    (e = .other ∧ csvLines records = none)

section

variable {w₀ w w' : World} {db : RealworkMap} {table : Table}
  {records done rest : List RealworkRecord} {env : Env}

theorem Stage.called (h : Stage w₀ db table done w) (hc : w.Called w') :
    Stage w₀ db table done w' := by
  obtain ⟨rest, hrest, rfl⟩ := hc
  exact ⟨{ h.same with outcomes := hrest.trans h.same.outcomes }, h.dbMap, h.working, h.file⟩

theorem Stage.failed (h : Stage w₀ db table done w) {e : Raised} (hf : w.Failed e w') :
    Broken w₀ records e w' := by
  obtain ⟨lines, -, hfile⟩ := h.file
  have hlen := h.same.outcomes.length_le
  obtain ⟨rest, ⟨rfl, ho, rfl⟩ | ⟨rfl, ho, rfl⟩⟩ := hf <;>
    have hsuf : rest <:+ w₀.outcomes := (List.suffix_cons _ _).trans (ho ▸ h.same.outcomes) <;>
    have hun : ¬ w₀.Sound := fun hs => World.not_sound ho (hs.suffix h.same.outcomes) <;>
    rw [ho, List.length_cons] at hlen
  · exact ⟨{ h.same with outcomes := hsuf }, hfile.touched, .inl ⟨rfl, hun⟩⟩
  · exact ⟨{ h.same with outcomes := hsuf }, hfile.touched,
      .inr (.inl ⟨rfl, hun, hlen, h.same.committed⟩)⟩

theorem Stage.ends_call (h : Stage w₀ db table done w) :
    Ends call w (fun _ => Stage w₀ db table done) (Broken w₀ records) :=
  (Receive.ends_call w).mono (fun _ _ hc => h.called hc) fun _ _ hf => h.failed hf

/-- A statement that turns the table into `f` of it. -/
theorem Stage.ends_statement (h : Stage w₀ db table done w) (f : Table → Table) :
    Ends (call >>= fun _ => modify fun w => { w with working := f w.working }) w
      (fun _ => Stage w₀ db (f table) done) (Broken w₀ records) := by
  refine (ends_call_modify w _).mono (fun _ w' hw' => ?_) fun _ _ hf => h.failed hf
  obtain ⟨w₁, hc, rfl⟩ := hw'
  have h₁ := h.called hc
  exact ⟨{ h₁.same with }, h₁.dbMap, by rw [← h₁.working], h₁.file⟩

/-- `WriteRecord` adds the line of its record to the file, which it opens if it has to. -/
theorem Stage.ends_writeRecord (h : Stage w₀ db table done w) {r : RealworkRecord}
    (hr : r ∈ records) :
    Ends (writeRecord env r) w (fun _ => Stage w₀ db table (done ++ [r])) (Broken w₀ records) := by
  obtain ⟨lines, hlines, hfile⟩ := h.file
  -- the state once the file is open
  obtain ⟨w₁, hw₁, hsame, hdb, hworking, hisOpen, htmp⟩ : ∃ w₁,
      (if w.cstFile.isOpen then w else w.openLoop env w.fileFails) = w₁ ∧ w₀.Same w₁ ∧
      w₁.dbMap = db ∧ w₁.working = table ∧ w₁.cstFile.isOpen = true ∧
      w₁.tmpDir = Function.update w₀.tmpDir w₁.cstFile.tmpFilePath (some lines) := by
    unfold World.FileHolds at hfile
    split at hfile
    · rename_i hnil
      obtain ⟨ticks, path, fileFails, ho⟩ := w.openLoop_eq env w.fileFails
      refine ⟨_, if_neg (by simp [hfile.1]), ?_⟩
      rw [ho]
      exact ⟨{ h.same with }, h.dbMap, h.working, rfl, by simp [hfile.2, hnil]⟩
    · exact ⟨_, if_pos hfile.1, h.same, h.dbMap, h.working, hfile.1, hfile.2⟩
  refine ends_bind.mpr (ends_modify.mpr (ends_bind.mpr ?_))
  rw [hw₁]
  cases hline : csvLine r with
  | none =>
      exact ends_throw.mpr ⟨hsame, .inr ⟨hisOpen, lines, htmp⟩,
        .inr (.inr ⟨rfl, csvLines_eq_none hr hline⟩)⟩
  | some line =>
      refine ends_pure.mpr
        (ends_modify.mpr ⟨{ hsame with }, hdb, hworking, lines ++ [line], ?_, ?_⟩)
      · rw [csvLines_append, hlines, hline]; rfl
      · rw [World.FileHolds, if_neg (by simp)]
        exact ⟨hisOpen, by simp [World.appendLine, htmp]⟩

/-- Writing the record an entry has, if it has one. -/
theorem Stage.ends_forM_writeRecord (h : Stage w₀ db table done w) {o : Option RealworkRecord}
    (ho : ∀ r ∈ o, r ∈ records) :
    Ends (o.forM (writeRecord env)) w (fun _ => Stage w₀ db table (done ++ o.toList))
      (Broken w₀ records) := by
  cases o with
  | none => exact ends_pure.mpr (by simpa using h)
  | some r => exact h.ends_writeRecord (ho r rfl)

/-! ### The loops -/

/-- The loop over the rows of the select. -/
theorem ends_selectRealwork (h : Stage w₀ db table [] w) (cstNo : Str) :
    Ends (selectRealwork env cstNo) w
      (fun _ => Stage w₀ (mapOf (Table.select env cstNo table)) table []) (Broken w₀ records) := by
  have h₀ : Stage w₀ ∅ table [] { w with dbMap := ∅ } := ⟨{ h.same with }, rfl, h.working, h.file⟩
  refine ends_bind.mpr (ends_modify.mpr (ends_bind.mpr (h₀.ends_call.mono ?_ fun _ _ h => h)))
  intro _ w₁ h₁
  refine ends_bind.mpr (ends_get.mpr ?_)
  rw [h₁.working]
  refine Ends.forM (fun pre => Stage w₀ (mapOf pre) table []) h₁ ?_
  intro pre r post _ w₂ h₂
  refine ends_bind.mpr (h₂.ends_call.mono (fun _ w₃ h₃ => ends_modify.mpr ?_) fun _ _ h => h)
  exact ⟨{ h₃.same with }, by rw [mapOf_append, ← h₃.dbMap], h₃.working, h₃.file⟩

/-- One iteration of the loop over `m_dbMap`. -/
theorem Stage.ends_reconcileEntry (h : Stage w₀ db table done w) {e : Str × RealworkRecord}
    (he : ∀ r ∈ editLine w₀.xmlMap e, r ∈ records) :
    Ends (reconcileEntry env e) w
      (fun _ => Stage w₀ db (editTable env w₀.xmlMap table e)
        (done ++ (editLine w₀.xmlMap e).toList)) (Broken w₀ records) := by
  refine ends_bind.mpr (ends_get.mpr ?_)
  rw [h.same.xmlMap]
  simp only [editTable, editLine] at he ⊢
  cases hx : w₀.xmlMap.find? e.1 with
  | none =>
      simp only [Option.toList_none, List.append_nil]
      exact h.ends_statement (Table.delete e.2)
  | some x =>
      obtain ⟨key, xml⟩ := x
      simp only [hx] at he
      by_cases hc : xml.Cancels
      · simp only [hc, if_true] at he ⊢
        exact ends_bind.mpr ((h.ends_statement (Table.delete e.2)).mono
          (fun _ _ h => h.ends_forM_writeRecord he) fun _ _ h => h)
      · simp only [hc, if_false] at he ⊢
        exact ends_bind.mpr ((h.ends_statement (Table.update env e.2 xml)).mono
          (fun _ _ h => h.ends_forM_writeRecord he) fun _ _ h => h)

/-- The loop over `m_dbMap`. -/
theorem Stage.ends_reconcileEntries (h : Stage w₀ db table [] w)
    (entries : List (Str × RealworkRecord)) :
    Ends (entries.forM (reconcileEntry env)) w
      (fun _ => Stage w₀ db (entries.foldl (editTable env w₀.xmlMap) table)
        (entries.filterMap (editLine w₀.xmlMap)))
      (Broken w₀ (entries.filterMap (editLine w₀.xmlMap))) := by
  refine Ends.forM (fun pre => Stage w₀ db (pre.foldl (editTable env w₀.xmlMap) table)
    (pre.filterMap (editLine w₀.xmlMap))) h fun pre e post hl w h => ?_
  have he : ∀ r ∈ editLine w₀.xmlMap e, r ∈ entries.filterMap (editLine w₀.xmlMap) :=
    fun r hr => List.mem_filterMap.mpr ⟨e, by rw [hl]; simp, hr⟩
  refine (h.ends_reconcileEntry he).mono (fun _ _ h' => ?_) fun _ _ h => h
  rw [List.foldl_append, List.filterMap_append]
  cases hx : editLine w₀.xmlMap e <;> simpa [hx] using h'

/-- One iteration of the loop over `m_xmlMap`. -/
theorem Stage.ends_insertEntry (h : Stage w₀ db table done w) (e : Str × RealworkRecord) :
    Ends (insertEntry env e) w (fun _ => Stage w₀ db (insertTable env db table e) done)
      (Broken w₀ records) := by
  refine ends_bind.mpr (ends_get.mpr ?_)
  rw [h.dbMap, insertTable]
  split
  · exact h.ends_statement (Table.insert env e.2)
  · exact ends_pure.mpr h

/-- The loop over `m_xmlMap`. -/
theorem Stage.ends_insertEntries (h : Stage w₀ db table done w)
    (entries : List (Str × RealworkRecord)) :
    Ends (entries.forM (insertEntry env)) w
      (fun _ => Stage w₀ db (entries.foldl (insertTable env db) table) done)
      (Broken w₀ records) := by
  refine Ends.forM (fun pre => Stage w₀ db (pre.foldl (insertTable env db) table) done) h
    fun pre e post _ w h => ?_
  refine (h.ends_insertEntry e).mono (fun _ _ h' => ?_) fun _ _ h => h
  rw [List.foldl_append]
  exact h'

end

/-! ### The attempt -/

/-- The result directory `dir'` is `dir` with a file of `lines`, if there are lines. -/
def Published (dir : Dir) (lines : List Str) (dir' : Dir) : Prop :=
  if lines = [] then dir' = dir else ∃ path, dir' = Function.update dir path (some lines)

/-- `dir'` has no file that `dir` does not have. -/
def NoNewFile (dir dir' : Dir) : Prop := ∀ path, dir' path = dir path ∨ dir' path = none

theorem NoNewFile.refl (dir : Dir) : NoNewFile dir dir := fun _ => .inl rfl

theorem NoNewFile.trans {dir dir' dir'' : Dir} (h : NoNewFile dir dir')
    (h' : NoNewFile dir' dir'') : NoNewFile dir dir'' := fun path => by
  rcases h' path with h' | h'
  · rw [h']; exact h path
  · exact .inr h'

theorem noNewFile_update {dir : Dir} {path : Str} {lines : List Str} :
    NoNewFile dir (Function.update (Function.update dir path (some lines)) path none) := by
  intro p
  by_cases hp : p = path
  · subst hp; exact .inr (by simp)
  · exact .inl (by simp [hp])

/-- The attempt that started in `w₀` is completed. -/
structure Completed (env : Env) (w₀ w : World) : Prop where
  committed : w.committed = reconciled env w₀.cstRecord.cstNo w₀.xmlMap w₀.working
  working : w.working = w.committed
  commits : w.commits = w₀.commits + 1
  resultDir : ∃ lines,
    csvLines (csvRecords env w₀.cstRecord.cstNo w₀.xmlMap w₀.working) = some lines ∧
      Published w₀.resultDir lines w.resultDir
  tmpDir : NoNewFile w₀.tmpDir w.tmpDir
  skip : w.skip = w₀.skip
  refusals : w.refusals = w₀.refusals

/-- The attempt that started in `w₀` has been taken back. -/
structure Undone (w₀ w : World) : Prop where
  same : w₀.Same w
  working : w.working = w.committed
  tmpDir : NoNewFile w₀.tmpDir w.tmpDir

/-- The commit, and the file that is closed and renamed. -/
theorem Stage.ends_commit {env : Env} {w₀ w : World} {db : RealworkMap}
    {records : List RealworkRecord}
    (h : Stage w₀ db (reconciled env w₀.cstRecord.cstNo w₀.xmlMap w₀.working)
      (csvRecords env w₀.cstRecord.cstNo w₀.xmlMap w₀.working) w) :
    Ends (commit >>= fun _ => writeEnd env true) w (fun _ => Completed env w₀)
      (Broken w₀ records) := by
  refine ends_bind.mpr ((ends_call_modify w _).mono ?_ fun _ _ hf => h.failed hf)
  rintro - w₁ ⟨w', hc, rfl⟩
  have h' := h.called hc
  obtain ⟨lines, hlines, hfile⟩ := h'.file
  refine ends_modify.mpr ?_
  unfold World.FileHolds at hfile
  by_cases hnil : lines = []
  · rw [if_pos hnil] at hfile
    rw [if_neg (by simp [hfile.1])]
    exact ⟨h'.working, rfl, congrArg (· + 1) h'.same.commits,
      ⟨lines, hlines, by rw [Published, if_pos hnil]; exact h'.same.resultDir⟩,
      by rw [hfile.2]; exact .refl _, h'.same.skip, h'.same.refusals⟩
  · rw [if_neg hnil] at hfile
    rw [if_pos hfile.1, if_pos rfl]
    obtain ⟨ticks, result, fails, hren⟩ := World.renameLoop_eq env w'.fileFails
      { w' with
        committed := w'.working, commits := w'.commits + 1
        cstFile := { w'.cstFile with isOpen := false } }
      (show _ = some lines by simp [hfile.2])
    rw [hren]
    refine ⟨h'.working, rfl, congrArg (· + 1) h'.same.commits, ⟨lines, hlines, ?_⟩, ?_,
      h'.same.skip, h'.same.refusals⟩
    · rw [Published, if_neg hnil]
      exact ⟨result, by rw [← h'.same.resultDir]⟩
    · rw [hfile.2]
      exact noNewFile_update

/-- **An attempt** completes and has done its plan, or raises. -/
theorem ends_executeBody (env : Env) (w₀ : World) (hclosed : w₀.cstFile.isOpen = false) :
    Ends (executeBody env w₀.cstRecord.cstNo) w₀ (fun _ => Completed env w₀)
      (Broken w₀ (csvRecords env w₀.cstRecord.cstNo w₀.xmlMap w₀.working)) := by
  have h₀ : Stage w₀ w₀.dbMap w₀.working [] w₀ :=
    ⟨⟨rfl, rfl, rfl, rfl, rfl, rfl, rfl, List.suffix_refl _⟩, rfl, rfl, [], rfl, hclosed, rfl⟩
  refine ends_bind.mpr ((ends_selectRealwork h₀ _).mono (fun _ w₁ h₁ => ?_) fun _ _ h => h)
  refine ends_bind.mpr (ends_get.mpr (ends_bind.mpr ?_))
  rw [h₁.dbMap]
  refine (h₁.ends_reconcileEntries _).mono (fun _ w₂ h₂ => ?_) fun _ _ h => h
  refine ends_bind.mpr (ends_get.mpr (ends_bind.mpr ?_))
  rw [h₂.same.xmlMap]
  refine (h₂.ends_insertEntries _).mono (fun _ w₃ h₃ => ?_) fun _ _ h => h
  exact h₃.ends_commit

/-- What a call of `ExecuteRecords` from `w` returns, and in which state. -/
inductive Executed (env : Env) (w : World) : Bool → World → Prop where
  | skipped (h : w.skip = true ∨ w.cstRecord.cstNo = []) : Executed env w true w
  | completed {w' : World} (hs : w.skip = false) (hno : w.cstRecord.cstNo ≠ [])
      (h : Completed env w w') : Executed env w true w'
  /-- An attempt that cannot be completed: a call has raised, or a date is too short. -/
  | undone {w' : World} (h : Undone w w')
      (hc : ¬ w.Sound ∨
        csvLines (csvRecords env w.cstRecord.cstNo w.xmlMap w.working) = none) :
      Executed env w true w'
  | lost {w' : World} (h : Undone w w') (hc : ¬ w.Sound)
      (hlt : w'.outcomes.length < w.outcomes.length) :
      Executed env w false w'

/-- `WriteEnd(false)` removes the file of an attempt. -/
theorem ends_writeEnd_false {env : Env} {w₀ w : World} {E : Raised → World → Prop}
    (hs : w₀.Same w) (hf : w.FileTouched w₀.tmpDir) (hw : w.working = w.committed) :
    Ends (writeEnd env false) w (fun _ w' => Undone w₀ w' ∧ w'.outcomes = w.outcomes) E := by
  refine ends_modify.mpr ?_
  rcases hf with ⟨hclosed, hf⟩ | ⟨hopen, lines, hf⟩
  · rw [if_neg (by simp [hclosed])]
    exact ⟨⟨hs, hw, by rw [hf]; exact .refl _⟩, rfl⟩
  · rw [if_pos hopen, if_neg (by simp)]
    obtain ⟨fails, hrem⟩ := World.removeLoop_eq w.fileFails
      { w with cstFile := { w.cstFile with isOpen := false } } (show _ = some lines by simp [hf])
    rw [hrem]
    exact ⟨⟨{ hs with }, hw, by rw [hf]; exact noNewFile_update⟩, rfl⟩

/-- **A call of `ExecuteRecords`** never raises. -/
theorem ends_executeRecords (env : Env) (w : World) :
    Ends (executeRecords env) w (Executed env w) fun _ _ => False := by
  refine ends_bind.mpr (ends_get.mpr ?_)
  by_cases hskip : w.skip
  · rw [if_pos hskip]
    exact .skipped (.inl hskip)
  rw [if_neg hskip]
  refine ends_bind.mpr (ends_get.mpr ?_)
  by_cases hno : w.cstRecord.cstNo = []
  · rw [if_pos hno]
    exact .skipped (.inr hno)
  rw [if_neg hno]
  refine ends_bind.mpr (ends_modify.mpr (ends_tryCatch.mpr (ends_bind.mpr ?_)))
  set w₀ : World := { w with cstFile := {} }
  refine (ends_executeBody env w₀ rfl).mono
    (fun _ w' h => ends_pure.mpr (.completed (by simpa using hskip) hno { h with }))
    fun e w' h => ?_
  have hundone : ∀ w'', Undone w₀ w'' → Undone w w'' := fun w'' h =>
    ⟨{ h.same with }, h.working, h.tmpDir⟩
  -- the handler of a lost session, and the two that roll back
  obtain ⟨rfl, hun⟩ | ⟨rfl, hun, hlt, hlost⟩ | ⟨rfl, hcsv⟩ := h.cause
  · refine ends_bind.mpr (ends_modify.mpr (ends_bind.mpr ?_))
    refine (ends_writeEnd_false h.same.rollback h.file rfl).mono (fun _ w'' h'' => ?_)
      fun _ _ h => h
    exact .undone (hundone _ h''.1) (.inl hun)
  · refine ends_bind.mpr ((ends_writeEnd_false h.same h.file ?_).mono (fun _ w'' h'' => ?_)
      fun _ _ h => h)
    · rw [hlost, h.same.committed]
    · exact .lost (hundone _ h''.1) hun (h''.2 ▸ hlt)
  · refine ends_bind.mpr (ends_modify.mpr (ends_bind.mpr ?_))
    refine (ends_writeEnd_false h.same.rollback h.file rfl).mono (fun _ w'' h'' => ?_)
      fun _ _ h => h
    exact .undone (hundone _ h''.1) (.inr hcsv)

end Realwork.Receive
