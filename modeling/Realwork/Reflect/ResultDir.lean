import Realwork.Lib.Machine
import Realwork.Receive.Attempt

/-!
# Reflect — the directory between the processes

The receive process publishes the file of each committed batch in the result directory, under a
name made from the time, and the reflect process polls the directory and moves the files it has
polled out of it.

* `exchanging`: the machine of both.
* `ends_publishBatch`: where the file of a batch goes, and what is in it.
* `exchanging_keeps`: no line is lost as long as no file is published under the name of a file
  that is still there; `rename` replaces such a file.
-/

namespace Realwork.Reflect

open Realwork.Lib Realwork.Receive

/-! ### The machine -/

/-- What `ExecuteRecords` does to the files for a batch it commits. -/
def publishBatch (env : Env) (records : List RealworkRecord) : Proc Unit := do
  records.forM (writeRecord env)
  writeEnd env true

/-- The directories with the two processes.  `written` and `seen` are not in the program: the
lines of the committed batches, and the lines there were when they were polled. -/
structure Exchange where
  world : World
  /-- The files of the last poll that have not been moved yet. -/
  polled : List Str := []
  written : List Str := []
  seen : List Str := []

inductive Deal where
  /-- A batch with these records for its file is committed; the file system fails `opens` times
  to open and `renames` times to rename the file. -/
  | batch (records : List RealworkRecord) (opens renames : Nat)
  /-- `PollCsvFile` takes files that are there. -/
  | poll (paths : List Str)
  /-- A polled file is moved into the backup directory. -/
  | move (path : Str)

namespace Exchange

variable (env : Env)

/-- The state a batch finds: a new `CstFile`, and the results of the calls it is to make. -/
def before (s : Exchange) (opens renames : Nat) : World :=
  { s.world with
    cstFile := {}
    fileFails := List.replicate opens true ++ false :: List.replicate renames true }

/-- The name the file of a batch is published under: that of the first rename that is done. -/
def resultPath (s : Exchange) (opens renames : Nat) : Str :=
  resultFileName env (env.nowTimeString (s.world.ticks + opens + 1 + renames))

def step : Deal → Exchange → Option Exchange
  | .batch records opens renames, s =>
      match (publishBatch env records).run (s.before opens renames) with
      | .ok _ world => some { s with world, written := s.written ++ (csvLines records).getD [] }
      | .error _ _ => none
  | .poll paths, s =>
      if paths.all fun path => (s.world.resultDir path).isSome then
        let lines := paths.flatMap fun path => (s.world.resultDir path).getD []
        some { s with polled := paths, seen := s.seen ++ lines }
      else none
  | .move path, s =>
      if s.polled.contains path then
        let resultDir := Function.update s.world.resultDir path none
        some { s with
          world := { s.world with resultDir }, polled := s.polled.filter fun p => p ≠ path }
      else none

end Exchange

/-- The result directory, whatever is in it before the first batch. -/
def exchanging (env : Env) : Machine Exchange Deal where
  start s := s.polled = [] ∧ s.written = []
  step := Exchange.step env

/-- The file of a batch gets a name no file of the result directory has. -/
def Fresh (env : Env) : Deal → Exchange → Prop
  | .batch records opens renames, s =>
      records = [] ∨ s.world.resultDir (s.resultPath env opens renames) = none
  | _, _ => True

instance (env : Env) (d : Deal) (s : Exchange) : Decidable (Fresh env d s) := by
  cases d <;> simp only [Fresh] <;> infer_instance

/-! ### The file of a batch -/

section

variable {env : Env}

theorem openLoop_replicate (opens : Nat) (rest : List Bool) (w : World) :
    w.openLoop env (List.replicate opens true ++ false :: rest) =
      { w with
        ticks := w.ticks + opens + 1
        cstFile := ⟨true, tmpFileName env (env.nowTimeString (w.ticks + opens))⟩
        tmpDir := Function.update w.tmpDir
          (tmpFileName env (env.nowTimeString (w.ticks + opens))) (some [])
        fileFails := rest } := by
  induction opens generalizing w with
  | zero => rfl
  | succ opens ih =>
      rw [List.replicate_succ, List.cons_append, World.openLoop, ih]
      simp only [Nat.add_assoc, Nat.add_comm 1]

theorem renameLoop_replicate (renames : Nat) {w : World} {lines : List Str}
    (h : w.tmpDir w.cstFile.tmpFilePath = some lines) :
    w.renameLoop env (List.replicate renames true) =
      { w with
        ticks := w.ticks + renames + 1
        tmpDir := Function.update w.tmpDir w.cstFile.tmpFilePath none
        resultDir := Function.update w.resultDir
          (resultFileName env (env.nowTimeString (w.ticks + renames))) (some lines)
        fileFails := [] } := by
  induction renames generalizing w with
  | zero => simp only [List.replicate_zero, World.renameLoop, h]; rfl
  | succ renames ih =>
      rw [List.replicate_succ, World.renameLoop, h]
      refine (ih (w := { w with
        ticks := w.ticks + 1, fileFails := List.replicate renames true }) h).trans ?_
      simp only [Nat.add_assoc, Nat.add_comm 1]

/-- The world once `lines` are in the file of the batch. -/
def Exchange.writing (env : Env) (s : Exchange) (opens renames : Nat) (lines : List Str) : World :=
  let w := s.before opens renames
  let path := tmpFileName env (env.nowTimeString (w.ticks + opens))
  { w with
    ticks := w.ticks + opens + 1
    cstFile := ⟨true, path⟩
    tmpDir := Function.update w.tmpDir path (some lines)
    fileFails := List.replicate renames true }

/-- The loop over the records: the first one of them opens the file. -/
theorem ends_writeRecords (s : Exchange) (records : List RealworkRecord) (opens renames : Nat) :
    Ends (records.forM (writeRecord env)) (s.before opens renames)
      (fun _ w => ∃ lines, csvLines records = some lines ∧
        w = if records = [] then s.before opens renames else s.writing env opens renames lines)
      fun _ _ => True := by
  refine Ends.forM (fun pre w => ∃ lines, csvLines pre = some lines ∧
    w = if pre = [] then s.before opens renames else s.writing env opens renames lines)
    ⟨[], rfl, rfl⟩ ?_
  rintro pre r post - w ⟨lines, hlines, hw⟩
  have hopen : (if w.cstFile.isOpen then w else w.openLoop env w.fileFails) =
      s.writing env opens renames lines := by
    by_cases hpre : pre = []
    · subst hpre
      cases hlines
      rw [hw]
      exact openLoop_replicate opens _ (s.before opens renames)
    · rw [hw, if_neg hpre]
      rfl
  refine ends_bind.mpr (ends_modify.mpr ?_)
  rw [hopen]
  cases hline : csvLine r with
  | none => exact ends_bind.mpr (ends_throw.mpr trivial)
  | some line =>
      refine ends_bind.mpr (ends_pure.mpr (ends_modify.mpr ⟨lines ++ [line], ?_, ?_⟩))
      · rw [csvLines_append, hlines, hline]
        rfl
      · rw [if_neg (by simp)]
        simp [Exchange.writing, World.appendLine]

/-- **The file of a batch** has the lines of the records, and takes the place of the file of its
name; a batch without records has no file. -/
theorem ends_publishBatch (s : Exchange) (records : List RealworkRecord) (opens renames : Nat) :
    Ends (publishBatch env records) (s.before opens renames)
      (fun _ w => ∃ lines, csvLines records = some lines ∧
        w.resultDir = if records = [] then s.world.resultDir
          else Function.update s.world.resultDir (s.resultPath env opens renames) (some lines))
      fun _ _ => True := by
  refine ends_bind.mpr ((ends_writeRecords s records opens renames).mono ?_ fun _ _ _ => trivial)
  rintro - w ⟨lines, hlines, rfl⟩
  refine ends_modify.mpr ⟨lines, hlines, ?_⟩
  by_cases hnil : records = []
  · rw [if_pos hnil, if_pos hnil]
    rfl
  · rw [if_neg hnil, if_neg hnil]
    let w := s.writing env opens renames lines
    have hren : World.renameLoop env (List.replicate renames true)
        { w with cstFile := ⟨false, w.cstFile.tmpFilePath⟩ } = _ :=
      renameLoop_replicate renames (Function.update_self ..)
    exact congrArg World.resultDir hren

/-! ### The invariant -/

namespace Exchange

/-- The line is in a file of the result directory. -/
def There (s : Exchange) (l : Str) : Prop :=
  ∃ path lines, s.world.resultDir path = some lines ∧ l ∈ lines

/-- What holds in every state of a run in which each file gets a new name. -/
structure Inv (s : Exchange) : Prop where
  /-- A polled file is still the one that was polled. -/
  polled : ∀ path ∈ s.polled, ∃ lines, s.world.resultDir path = some lines ∧ lines ⊆ s.seen
  kept : ∀ l ∈ s.written, l ∈ s.seen ∨ s.There l

/-- A batch publishes its file, or, without records, none. -/
theorem batch_inv {s s' : Exchange} {records : List RealworkRecord} {opens renames : Nat}
    (h : s.step env (.batch records opens renames) = some s') :
    ∃ lines, csvLines records = some lines ∧ s'.polled = s.polled ∧ s'.seen = s.seen ∧
      s'.written = s.written ++ lines ∧
      s'.world.resultDir = if records = [] then s.world.resultDir
        else Function.update s.world.resultDir (s.resultPath env opens renames) (some lines) := by
  simp only [step] at h
  cases hrun : (publishBatch env records).run (s.before opens renames) with
  | error e w => rw [hrun] at h; cases h
  | ok u w =>
      obtain ⟨lines, hlines, hdir⟩ := (ends_publishBatch s records opens renames).ok hrun
      rw [hrun] at h
      cases h
      exact ⟨lines, hlines, rfl, rfl, by rw [hlines]; rfl, hdir⟩

/-- **A file that is there stays there** when a batch is published under a new name. -/
theorem batch_keeps {s s' : Exchange} {records : List RealworkRecord} {opens renames : Nat}
    (hc : Fresh env (.batch records opens renames) s)
    (h : s.step env (.batch records opens renames) = some s') {path : Str} {lines : List Str}
    (hpath : s.world.resultDir path = some lines) : s'.world.resultDir path = some lines := by
  obtain ⟨lines', -, -, -, -, hdir⟩ := batch_inv h
  rw [hdir]
  split
  · exact hpath
  · rename_i hne
    have hnone := hc.resolve_left hne
    rw [Function.update_of_ne, hpath]
    rintro rfl
    rw [hnone] at hpath
    cases hpath

theorem Inv.batch {s s' : Exchange} (hs : s.Inv) {records : List RealworkRecord}
    {opens renames : Nat} (hc : Fresh env (.batch records opens renames) s)
    (h : s.step env (.batch records opens renames) = some s') : s'.Inv := by
  obtain ⟨lines, hlines, hpolled, hseen, hwritten, hdir⟩ := batch_inv h
  constructor
  · intro path hpath
    rw [hpolled] at hpath
    obtain ⟨old, hold, hsub⟩ := hs.polled path hpath
    exact ⟨old, batch_keeps hc h hold, hseen ▸ hsub⟩
  · intro l hl
    rw [hwritten] at hl
    rw [hseen]
    rcases List.mem_append.mp hl with hl | hl
    · refine (hs.kept l hl).imp_right ?_
      rintro ⟨path, old, hold, hmem⟩
      exact ⟨path, old, batch_keeps hc h hold, hmem⟩
    · have hne : records ≠ [] := by
        rintro rfl
        cases hlines
        cases hl
      refine .inr ⟨s.resultPath env opens renames, lines, ?_, hl⟩
      rw [hdir, if_neg hne, Function.update_self]

theorem Inv.poll {s s' : Exchange} (hs : s.Inv) {paths : List Str}
    (h : s.step env (.poll paths) = some s') : s'.Inv := by
  simp only [step] at h
  split at h
  · rename_i hall
    cases h
    constructor
    · intro path hpath
      obtain ⟨lines, hlines⟩ := Option.isSome_iff_exists.mp (List.all_eq_true.mp hall path hpath)
      refine ⟨lines, hlines, fun l hl => List.mem_append_right _ ?_⟩
      exact List.mem_flatMap.mpr ⟨path, hpath, by rw [hlines]; exact hl⟩
    · intro l hl
      exact (hs.kept l hl).imp_left (List.mem_append_left _)
  · cases h

/-- The lines of a file that is moved were seen. -/
theorem Inv.move {s s' : Exchange} (hs : s.Inv) {path : Str}
    (h : s.step env (.move path) = some s') : s'.Inv := by
  simp only [step] at h
  split at h
  · rename_i hpath
    cases h
    obtain ⟨gone, hgone, hsub⟩ := hs.polled path (List.contains_iff_mem.mp hpath)
    constructor
    · intro other hother
      obtain ⟨hother, hne⟩ := List.mem_filter.mp hother
      obtain ⟨lines, hlines, hsub⟩ := hs.polled other hother
      exact ⟨lines, by rw [← hlines]; exact Function.update_of_ne (by simpa using hne) _ _, hsub⟩
    · intro l hl
      rcases hs.kept l hl with hseen | ⟨other, lines, hlines, hmem⟩
      · exact .inl hseen
      · by_cases heq : other = path
        · subst heq
          rw [hgone] at hlines
          cases hlines
          exact .inl (hsub hmem)
        · exact .inr ⟨other, lines, by rw [← hlines]; exact Function.update_of_ne heq _ _, hmem⟩
  · cases h

theorem Inv.step {s s' : Exchange} (hs : s.Inv) {d : Deal} (hc : Fresh env d s)
    (h : s.step env d = some s') : s'.Inv := by
  cases d with
  | batch records opens renames => exact hs.batch hc h
  | poll paths => exact hs.poll h
  | move path => exact hs.move h

theorem Inv.reach {s : Exchange} (h : (exchanging env).Reach (Fresh env) s) : s.Inv := by
  refine h.invariant (fun s hs => ?_) fun d s s' hs hc hstep => hs.step hc hstep
  obtain ⟨hpolled, hwritten⟩ := hs
  exact ⟨by rw [hpolled]; simp, by rw [hwritten]; simp⟩

end Exchange

/-! ### No line is lost -/

/-- **A line of a committed batch is in the result directory until it has been polled**, and no
batch changes a file that is there, when each file is published under a new name. -/
theorem exchanging_keeps {s : Exchange} (h : (exchanging env).Reach (Fresh env) s) :
    (∀ l ∈ s.written, l ∈ s.seen ∨ s.There l) ∧
      ∀ records opens renames s', Fresh env (.batch records opens renames) s →
        s.step env (.batch records opens renames) = some s' →
        ∀ path lines, s.world.resultDir path = some lines → s'.world.resultDir path = some lines :=
  ⟨(Exchange.Inv.reach h).kept, fun _ _ _ _ hc hstep _ _ => Exchange.batch_keeps hc hstep⟩

end

/-! ### Two batches -/

/-- The record of a child number of the construction `A`. -/
def childRecord (childNo : Str) : RealworkRecord :=
  (plainRow (lit "A") childNo (lit "20240101000000") (lit "20240102000000")).toRealworkRecord

/-- Two batches, and a clock that has moved on between them. -/
theorem exchanging_keeps_two :
    ∃ s, (exchanging plainEnv).Reach (Fresh plainEnv) s ∧ s.written.length = 2 ∧
      (∀ l ∈ s.written, l ∈ s.seen ∨ s.There l) ∧
      ∃ s', s.step plainEnv (.batch [childRecord (lit "3")] 0 0) = some s' ∧
        s'.world.resultDir (lit "/result/realwork_5.csv") =
          s.world.resultDir (lit "/result/realwork_5.csv") ∧
        (s.world.resultDir (lit "/result/realwork_5.csv")).isSome := by
  let run : List Deal :=
    [.batch [childRecord (lit "1")] 1 0, .poll [lit "/result/realwork_2.csv"],
      .batch [childRecord (lit "2")] 0 1, .move (lit "/result/realwork_2.csv")]
  let s : Exchange := ((exchanging plainEnv).exec run { world := {} }).getD { world := {} }
  let s' : Exchange := (s.step plainEnv (.batch [childRecord (lit "3")] 0 0)).getD { world := {} }
  have hexec : (exchanging plainEnv).exec run { world := {} } = some s := by rfl
  have hs : (exchanging plainEnv).Reach (Fresh plainEnv) s :=
    .of_exec (.start ⟨rfl, rfl⟩) (by decide +kernel) hexec
  have hstep : s.step plainEnv (.batch [childRecord (lit "3")] 0 0) = some s' := by rfl
  have hthere : (s.world.resultDir (lit "/result/realwork_5.csv")).isSome := by decide +kernel
  obtain ⟨lines, hlines⟩ := Option.isSome_iff_exists.mp hthere
  have h := exchanging_keeps hs
  refine ⟨s, hs, by decide +kernel, h.1, s', hstep, ?_, hthere⟩
  rw [h.2 _ 0 0 s' (by decide +kernel) hstep _ lines hlines, hlines]

/-- The clock gives the same time for two batches: the file of the second one replaces that of
the first, which has not been polled. -/
theorem exchanging_replaces_unseen :
    ∃ env s, (exchanging env).Reach Machine.always s ∧
      ∃ l ∈ s.written, l ∉ s.seen ∧ ¬ s.There l := by
  let env : Env := { plainEnv with nowTimeString := fun _ => lit "20240101000000000" }
  let path : Str := lit "/result/realwork_20240101000000000.csv"
  let first : Str := (csvLine (childRecord (lit "1"))).getD []
  let second : Str := (csvLine (childRecord (lit "2"))).getD []
  let run : List Deal := [.batch [childRecord (lit "1")] 0 0, .batch [childRecord (lit "2")] 0 0]
  let s : Exchange := ((exchanging env).exec run { world := {} }).getD { world := {} }
  have hexec : (exchanging env).exec run { world := {} } = some s := by rfl
  refine ⟨env, s, .of_exec (.start ⟨rfl, rfl⟩) ((exchanging env).meets_always run _) hexec, first,
    by decide +kernel, by decide +kernel, ?_⟩
  rintro ⟨other, lines, hlines, hmem⟩
  have hdir : s.world.resultDir = Function.update (Function.update (fun _ => none) path
      (some [first])) path (some [second]) := by rfl
  rw [hdir, Function.update_idem] at hlines
  by_cases hother : other = path
  · subst hother
    rw [Function.update_self] at hlines
    cases hlines
    exact absurd hmem (by decide +kernel)
  · rw [Function.update_of_ne hother] at hlines
    cases hlines

end Realwork.Reflect
