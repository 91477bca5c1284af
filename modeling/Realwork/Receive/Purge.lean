import Realwork.Receive.Rows

/-!
# Receive — the daily purge

`realwork_del.sh`, `CleanWorkInfo`: the `DELETE` takes the rows whose end is before a date; of a
construction the live rows only all together, when the end of each of them is.  The messages go on
editing the table between the purges.

* `cleanWorkInfo_later`: a purge before is not to be seen after a later one.
* `live_run`: whatever the messages and the purges are, the live rows of a construction go their own
  way.
* `live_run_spares`: purges that find an end that is not before their date change nothing.
-/

namespace Realwork.Receive

/-! ### The statement -/

/-- `S.EDATE IS NULL OR S.EDATE >= valdate`; the texts of dates are in the order of the dates. -/
def Row.Unended (valdate : Str) (row : Row) : Prop := row.eDate = [] ∨ valdate ≤ row.eDate

/-- `B.EDATE IS NOT NULL AND B.EDATE < valdate` -/
def Row.Ended (valdate : Str) (row : Row) : Prop := row.eDate ≠ [] ∧ row.eDate < valdate

instance (valdate : Str) : DecidablePred (Row.Unended valdate) := fun row =>
  inferInstanceAs (Decidable (row.eDate = [] ∨ valdate ≤ row.eDate))

instance (valdate : Str) : DecidablePred (Row.Ended valdate) := fun row =>
  inferInstanceAs (Decidable (row.eDate ≠ [] ∧ row.eDate < valdate))

/-- The condition of the `DELETE`; a construction number that is NULL is equal to none. -/
def Row.Purged (valdate : Str) (table : Table) (row : Row) : Prop :=
  (row.Ended valdate ∧ row.workflag ≠ 0) ∨
    (¬ (∃ s ∈ table, s.Unended valdate ∧ s.workflag = 0 ∧ row.cstNo = s.cstNo ∧ row.cstNo ≠ []) ∧
      row.workflag = 0)

instance (valdate : Str) (table : Table) : DecidablePred (Row.Purged valdate table) := fun _ =>
  inferInstanceAs (Decidable (_ ∨ _))

/-- `CleanWorkInfo` -/
def cleanWorkInfo (valdate : Str) (table : Table) : Table :=
  table.filter fun row => ¬ row.Purged valdate table

/-! ### What is left -/

section

variable {valdate valdate' : Str} {table : Table} {row : Row} {cstNo : Str}

theorem not_ended_iff : ¬ row.Ended valdate ↔ row.Unended valdate := by
  rw [Row.Ended, Row.Unended, not_and_or, not_not, List.not_lt]

theorem Row.Ended.mono (hle : valdate ≤ valdate') (h : row.Ended valdate) :
    row.Ended valdate' := by
  refine ⟨h.1, ?_⟩
  by_contra hnot
  exact hle (List.lt_of_le_of_lt (List.not_lt.mp hnot) h.2)

/-- When a row is taken. -/
theorem purged_iff : row.Purged valdate table ↔
    if row.workflag = 0 then
      row.cstNo = [] ∨ ∀ s ∈ table, s.LiveOf row.cstNo → s.Ended valdate
    else row.Ended valdate := by
  rw [Row.Purged]
  split
  · rename_i hlive
    rw [or_iff_right (fun h => h.2 hlive), and_iff_left hlive, not_exists]
    constructor
    · intro h
      refine or_iff_not_imp_left.mpr fun hno s hs hs' => ?_
      by_contra hended
      exact h s ⟨hs, not_ended_iff.mp hended, hs'.2, hs'.1.symm, hno⟩
    · rintro h s ⟨hs, hunended, hflag, heq, hno⟩
      exact not_ended_iff.mpr hunended (h.resolve_left hno s hs ⟨heq.symm, hflag⟩)
  · rename_i hlive
    rw [or_iff_left (fun h => hlive h.2), and_iff_left hlive]

/-- The live rows of a construction. -/
def live (cstNo : Str) (table : Table) : Table := table.filter (Row.LiveOf cstNo)

theorem mem_live : row ∈ live cstNo table ↔ row ∈ table ∧ row.LiveOf cstNo := by
  simp [live]

theorem purged_iff_of_mem_live (hno : cstNo ≠ []) (hrow : row ∈ live cstNo table) :
    row.Purged valdate table ↔ ∀ s ∈ live cstNo table, s.Ended valdate := by
  obtain ⟨-, hcst, hflag⟩ := mem_live.mp hrow
  rw [purged_iff, if_pos hflag, hcst, or_iff_right hno]
  exact forall_congr' fun s => by rw [mem_live, and_imp]

/-- **The live rows of a construction** are kept, or taken, all together. -/
theorem live_cleanWorkInfo (hno : cstNo ≠ []) :
    live cstNo (cleanWorkInfo valdate table) =
      if ∀ s ∈ live cstNo table, s.Ended valdate then [] else live cstNo table := by
  have hcomm : live cstNo (cleanWorkInfo valdate table) =
      (live cstNo table).filter fun row => ¬ row.Purged valdate table :=
    List.filter_comm _ _ _
  rw [hcomm]
  split
  · rename_i hall
    refine List.filter_eq_nil_iff.mpr fun row hrow => ?_
    simpa [purged_iff_of_mem_live hno hrow] using hall
  · rename_i hnot
    refine List.filter_eq_self.mpr fun row hrow => ?_
    simpa [purged_iff_of_mem_live hno hrow] using hnot

theorem mem_cleanWorkInfo :
    row ∈ cleanWorkInfo valdate table ↔ row ∈ table ∧ ¬ row.Purged valdate table := by
  simp [cleanWorkInfo]

/-- What is kept until a later date was kept before. -/
theorem Row.Purged.mono (hle : valdate ≤ valdate') (h : row.Purged valdate table) :
    row.Purged valdate' table := by
  rw [purged_iff] at h ⊢
  split at h
  · rename_i hlive
    rw [if_pos hlive]
    exact h.imp_right fun hall s hs hs' => (hall s hs hs').mono hle
  · rename_i hlive
    rw [if_neg hlive]
    exact h.mono hle

/-- **A purge before** a later one is not to be seen after it. -/
theorem cleanWorkInfo_later (hle : valdate ≤ valdate') (table : Table) :
    cleanWorkInfo valdate' (cleanWorkInfo valdate table) = cleanWorkInfo valdate' table := by
  rw [cleanWorkInfo, cleanWorkInfo, cleanWorkInfo, List.filter_filter]
  refine List.filter_congr fun row hrow => ?_
  rw [← Bool.decide_and, decide_eq_decide, ← cleanWorkInfo]
  constructor
  · rintro ⟨hkept, hbefore⟩ hpurged
    refine hkept ?_
    rw [purged_iff] at hpurged ⊢
    split at hpurged
    · rename_i hlive
      rw [if_pos hlive]
      exact hpurged.imp_right fun hall s hs => hall s (mem_cleanWorkInfo.mp hs).1
    · rename_i hlive
      rwa [if_neg hlive]
  · intro hkept
    have hbefore : ¬ row.Purged valdate table := fun h => hkept (h.mono hle)
    refine ⟨fun hpurged => hkept ?_, hbefore⟩
    rw [purged_iff] at hpurged hbefore ⊢
    split at hpurged
    · rename_i hlive
      rw [if_pos hlive] at hbefore ⊢
      refine hpurged.imp_right fun hall s hs hs' => hall s (mem_cleanWorkInfo.mpr ⟨hs, ?_⟩) hs'
      -- the live rows of the construction have all been kept before
      rw [purged_iff, if_pos hs'.2, hs'.1]
      exact hbefore
    · rename_i hlive
      rwa [if_neg hlive]

end

/-- Of two constructions the purges take the one that has ended; the other one is left with the row
of its that has. -/
theorem cleanWorkInfo_later_threeRows :
    let rows := [plainRow (lit "A") (lit "1") (lit "20090101000000") (lit "20090102000000"),
      plainRow (lit "B") (lit "1") (lit "20090101000000") (lit "20090102000000"),
      plainRow (lit "B") (lit "2") (lit "20090101000000") (lit "20090109000000")]
    cleanWorkInfo (lit "20090105000000") (cleanWorkInfo (lit "20090101000000") rows) =
      [plainRow (lit "B") (lit "1") (lit "20090101000000") (lit "20090102000000"),
        plainRow (lit "B") (lit "2") (lit "20090101000000") (lit "20090109000000")] :=
  (cleanWorkInfo_later (by decide) _).trans (by decide)

/-! ### Messages and purges -/

/-- What happens to the table: an attempt with the records of a construction is completed, or the
purge is run. -/
inductive Job where
  | attempt (cstNo : Str) (xmlMap : RealworkMap)
  | purge (valdate : Str)

/-- The table after a job. -/
def Job.run (env : Env) (table : Table) : Job → Table
  | attempt cstNo xmlMap => reconciled env cstNo xmlMap table
  | purge valdate => cleanWorkInfo valdate table

/-- The records of an attempt are of its construction, whose number ends no literal. -/
def Job.Own : Job → Prop
  | attempt cstNo xmlMap => 0x27 ∉ cstNo ∧ MapOf cstNo xmlMap
  | purge _ => True

/-- What a job makes of the live rows of a construction, when no other rows are known. -/
def Job.runLive (env : Env) (cstNo : Str) (rows : Table) : Job → Table
  | attempt cstNo' xmlMap => if cstNo' = cstNo then reconciled env cstNo xmlMap rows else rows
  | purge valdate => if ∀ s ∈ rows, s.Ended valdate then [] else rows

section

variable {env : Env} {cstNo cstNo' : Str} {xmlMap : RealworkMap} {table : Table}

/-- An attempt sees the live rows of its construction only, and makes live rows of it only. -/
theorem live_reconciled (hq : 0x27 ∉ cstNo) (hx : MapOf cstNo xmlMap) (table : Table) :
    live cstNo (reconciled env cstNo xmlMap table) =
      reconciled env cstNo xmlMap (live cstNo table) := by
  have hselect : Table.select env cstNo (live cstNo table) = Table.select env cstNo table := by
    simp [Table.select, hq, live]
  have hedit : editRow env cstNo xmlMap (live cstNo table) = editRow env cstNo xmlMap table := by
    funext row
    rw [editRow, editRow, hselect]
  have hnew : newRows env cstNo xmlMap (live cstNo table) = newRows env cstNo xmlMap table := by
    rw [newRows, newRows, hselect]
  rw [reconciled_eq env hq, reconciled_eq env hq, hedit, hnew, live, List.filter_append]
  congr 1
  · rw [List.filter_filterMap, live, List.filterMap_filter]
    refine List.filterMap_congr fun row _ => ?_
    cases hrow : editRow env cstNo xmlMap table row with
    | none => simp
    | some row' =>
        obtain ⟨hno, hflag, -⟩ := editRow_keeps hrow
        by_cases hlive : row.LiveOf cstNo
        · simp [Option.filter, liveOf_congr hno hflag, hlive]
        · simp [Option.filter, liveOf_congr hno hflag, hlive]
  · refine List.filter_eq_self.mpr fun row hrow => ?_
    obtain ⟨e, he, -, -, rfl⟩ := (mem_newRows hq).mp hrow
    exact decide_eq_true ⟨(hx e he).1, rfl⟩

/-- An attempt leaves the live rows of the other constructions as they are. -/
theorem live_reconciled_of_ne (hne : cstNo' ≠ cstNo) (hq : 0x27 ∉ cstNo') (hx : MapOf cstNo' xmlMap)
    (table : Table) : live cstNo (reconciled env cstNo' xmlMap table) = live cstNo table := by
  refine reconciled_others hq (fun row row' hno hflag => ?_) (fun row hrow => ?_) fun e he => ?_
  · exact decide_eq_decide.mpr (liveOf_congr hno hflag)
  · exact decide_eq_false fun hlive => hne (hrow.1.symm.trans hlive.1)
  · exact decide_eq_false fun hlive => hne ((hx e he).1.symm.trans hlive.1)

/-- **A job** does to the live rows of a construction what it does when there are no other rows. -/
theorem live_job (hno : cstNo ≠ []) {job : Job} (hown : job.Own) (table : Table) :
    live cstNo (job.run env table) = job.runLive env cstNo (live cstNo table) := by
  cases job with
  | attempt cstNo' xmlMap =>
      rw [Job.run, Job.runLive]
      split
      · rename_i heq
        cases heq
        exact live_reconciled hown.1 hown.2 table
      · rename_i hne
        exact live_reconciled_of_ne hne hown.1 hown.2 table
  | purge valdate => exact live_cleanWorkInfo hno

/-- **Each construction goes its own way.**  After any messages and purges, its live rows are those
it has when there are no other rows in the table. -/
theorem live_run (hno : cstNo ≠ []) {jobs : List Job} (hown : ∀ job ∈ jobs, job.Own)
    (table : Table) :
    live cstNo (jobs.foldl (Job.run env) table) =
      jobs.foldl (Job.runLive env cstNo) (live cstNo table) := by
  induction jobs generalizing table with
  | nil => rfl
  | cons job jobs ih =>
      rw [List.forall_mem_cons] at hown
      rw [List.foldl_cons, List.foldl_cons, ih hown.2, live_job hno hown.1]

/-! ### Purges that are not to be seen -/

def Job.isPurge : Job → Bool
  | purge _ => true
  | attempt _ _ => false

/-- Each purge of the run finds an end of the construction that is not before its date, or none of
its live rows. -/
def Spares (env : Env) (cstNo : Str) : List Job → Table → Prop
  | [], _ => True
  | job :: jobs, rows =>
      (match job with
        | .purge valdate => rows = [] ∨ ∃ s ∈ rows, s.Unended valdate
        | .attempt _ _ => True) ∧
      Spares env cstNo jobs (job.runLive env cstNo rows)

/-- **Without the purges** the live rows of such a construction are the same. -/
theorem runLive_spares {jobs : List Job} {rows : Table} (h : Spares env cstNo jobs rows) :
    jobs.foldl (Job.runLive env cstNo) rows =
      (jobs.filter fun job => !job.isPurge).foldl (Job.runLive env cstNo) rows := by
  induction jobs generalizing rows with
  | nil => rfl
  | cons job jobs ih =>
      rw [List.foldl_cons, ih h.2]
      cases job with
      | attempt cstNo' xmlMap => rfl
      | purge valdate =>
          have hrows : (Job.purge valdate).runLive env cstNo rows = rows := by
            rw [Job.runLive]
            split
            · rename_i hall
              rcases h.1 with rfl | ⟨s, hs, hunended⟩
              · rfl
              · exact absurd (hall s hs) (not_ended_iff.mpr hunended)
            · rfl
          rw [hrows]
          rfl

/-- **The purge and the messages.**  The live rows of a construction depend on its own messages and
the purges only; and on the purges only when one finds that all of them have ended. -/
theorem live_run_spares (hno : cstNo ≠ []) {jobs : List Job} (hown : ∀ job ∈ jobs, job.Own)
    (table : Table) :
    live cstNo (jobs.foldl (Job.run env) table) =
      jobs.foldl (Job.runLive env cstNo) (live cstNo table) ∧
    (Spares env cstNo jobs (live cstNo table) →
      live cstNo (jobs.foldl (Job.run env) table) =
        live cstNo ((jobs.filter fun job => !job.isPurge).foldl (Job.run env) table)) := by
  have hrun := @live_run env cstNo hno jobs hown table
  refine ⟨hrun, fun hspares => ?_⟩
  have hown' : ∀ job ∈ jobs.filter fun job => !job.isPurge, job.Own :=
    fun job hjob => hown job (List.mem_filter.mp hjob).1
  rw [hrun, runLive_spares hspares, live_run hno hown']

end

/-- The record of the construction `cstNo` that ends at `eDate`. -/
def workOf (cstNo eDate : Str) : RealworkMap :=
  mapOf [(plainRow cstNo (lit "1") (lit "20090101000000") eDate).toRealworkRecord]

/-- A construction, of which a purge finds that it has not ended, and another one that has. -/
def fourJobs : List Job :=
  [.attempt (lit "A") (workOf (lit "A") (lit "20090105000000")),
    .attempt (lit "B") (workOf (lit "B") (lit "20090102000000")),
    .purge (lit "20090103000000"), .attempt (lit "A") (workOf (lit "A") (lit "20090106000000"))]

theorem mapOf_workOf {cstNo : Str} (hno : cstNo ≠ []) (eDate : Str) :
    MapOf cstNo (workOf cstNo eDate) := by
  intro e he
  cases List.mem_singleton.mp he
  exact ⟨rfl, rfl, fun h => absurd h (List.cons_ne_nil _ _), hno, List.cons_ne_nil _ _⟩

theorem live_run_spares_fourJobs :
    live (lit "A") (fourJobs.foldl (Job.run plainEnv) []) =
        [plainRow (lit "A") (lit "1") (lit "20090101000000") (lit "20090106000000")] ∧
      live (lit "A") (fourJobs.foldl (Job.run plainEnv) []) =
        live (lit "A") ((fourJobs.filter fun job => !job.isPurge).foldl (Job.run plainEnv) []) := by
  have hown : ∀ job ∈ fourJobs, job.Own := by
    simp only [fourJobs, List.forall_mem_cons, Job.Own]
    exact ⟨⟨by decide, mapOf_workOf (by decide) _⟩, ⟨by decide, mapOf_workOf (by decide) _⟩,
      trivial, ⟨by decide, mapOf_workOf (by decide) _⟩, by simp⟩
  obtain ⟨hrun, hspares⟩ := @live_run_spares plainEnv (lit "A") (by decide) fourJobs hown []
  refine ⟨hrun.trans (by decide), hspares ?_⟩
  refine ⟨trivial, trivial, .inr ⟨_, List.mem_cons_self, ?_⟩, trivial, trivial⟩
  decide

section

variable {env : Env}

/-- No two live rows of a construction have numbers of one value, whatever is done. -/
theorem keysDistinct_run {jobs : List Job} (hown : ∀ job ∈ jobs, job.Own) {table : Table}
    (h : ∀ cstNo, KeysDistinct cstNo table) (cstNo : Str) :
    KeysDistinct cstNo (jobs.foldl (Job.run env) table) := by
  induction jobs generalizing table with
  | nil => exact h cstNo
  | cons job jobs ih =>
      rw [List.forall_mem_cons] at hown
      refine ih hown.2 fun cstNo => ?_
      cases job with
      | attempt cstNo' xmlMap =>
          by_cases heq : cstNo' = cstNo
          · cases heq
            exact keysDistinct_reconciled env hown.1.1 (h _) hown.1.2
          · have hlive := @live_reconciled_of_ne env cstNo cstNo' xmlMap heq hown.1.1 hown.1.2 table
            refine (h cstNo).of_sublist ?_
            show (live cstNo (reconciled env cstNo' xmlMap table)).Sublist (live cstNo table)
            rw [hlive]
      | purge valdate => exact (h cstNo).of_sublist ((List.filter_sublist).filter _)

end

end Realwork.Receive
