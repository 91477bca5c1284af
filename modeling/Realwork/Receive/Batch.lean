import Realwork.Receive.Attempt
import Realwork.Receive.Collect

/-!
# Receive — a batch under failures

`WRecord::Run` repeats its call after a lost session, having reconnected, until the call gets
through or `ReconnectDB` gives up and sets `m_skip`.

* `ends_untilAlive`: the rule for such a loop.
* `ends_run_content`, `ends_run_end`: one event of the thread.
* `runRecords_allOrNothing`: a batch takes effect as a whole or not at all.
-/

namespace Realwork.Receive

open Realwork.Lib

/-! ### The retries -/

/-- `w'` is `w` after `ReconnectDB`. -/
def Reconnected (w w' : World) : Prop :=
  ∃ rest, rest <:+ w.outcomes ∧ (w' = { w with outcomes := rest } ∨
    ¬ w.Sound ∧ w' = { w with outcomes := rest, skip := true })

theorem ends_openConnection (w : World) :
    Ends openConnection w (fun _ => w.Called) fun _ w' =>
      ∃ rest, rest <:+ w.outcomes ∧ ¬ w.Sound ∧ w' = { w with outcomes := rest } := by
  refine ends_bind.mpr (ends_get.mpr ?_)
  rcases ho : w.outcomes with _ | ⟨(_ | _), rest⟩
  · exact ends_pure.mpr ⟨[], by simp, by rw [← ho]⟩
  · exact ends_modify.mpr ⟨rest, by simp [ho], rfl⟩
  · exact ends_bind.mpr (ends_modify.mpr (ends_throw.mpr
      ⟨rest, by simp, World.not_sound ho, rfl⟩))

theorem ends_reconnectLoop (times : Nat) (w : World) :
    Ends (reconnectLoop times) w (fun _ w' => ∃ rest, rest <:+ w.outcomes ∧
      (w' = { w with outcomes := rest } ∨ (0 < times → ¬ w.Sound) ∧
        w' = { w with outcomes := rest, skip := true })) fun _ _ => False := by
  induction times generalizing w with
  | zero =>
      exact ends_modify.mpr
        ⟨_, List.suffix_refl _, .inr ⟨fun h => absurd h (Nat.lt_irrefl 0), rfl⟩⟩
  | succ times ih =>
      refine ends_tryCatch.mpr ((ends_openConnection w).mono ?_ ?_)
      · rintro - w' ⟨rest, hrest, rfl⟩
        exact ⟨rest, hrest, .inl rfl⟩
      · rintro - w' ⟨rest, hrest, hun, rfl⟩
        refine (ih _).mono ?_ fun _ _ h => h
        rintro - w'' ⟨rest', hrest', rfl | ⟨-, rfl⟩⟩
        · exact ⟨rest', hrest'.trans hrest, .inl rfl⟩
        · exact ⟨rest', hrest'.trans hrest, .inr ⟨fun _ => hun, rfl⟩⟩

theorem ends_reconnectDB (env : Env) (w : World) :
    Ends (reconnectDB env) w (fun _ => Reconnected w) fun _ _ => False := by
  refine (ends_reconnectLoop _ w).mono ?_ fun _ _ h => h
  rintro - w' ⟨rest, hrest, rfl | ⟨hun, rfl⟩⟩
  · exact ⟨rest, hrest, .inl rfl⟩
  · exact ⟨rest, hrest, .inr ⟨hun (Nat.lt_of_lt_of_le Nat.one_pos (Nat.le_max_left _ _)), rfl⟩⟩

/-- **The rule for the retries** of a call that ends in `R`, or in `L` with the session lost. -/
theorem ends_untilAlive {env : Env} {body : Proc Bool} (R L : World → World → Prop)
    (hbody : ∀ w, Ends body w (fun b w' => if b then R w w' else L w w') fun _ _ => False)
    (hlost : ∀ w w₁, L w w₁ → w₁.outcomes.length < w.outcomes.length)
    (htrans : ∀ w w₁ w₂ w', L w w₁ → Reconnected w₁ w₂ → R w₂ w' → R w w')
    (rounds : Nat) {w : World} (hrounds : w.outcomes.length < rounds) :
    Ends (untilAlive env body rounds) w (fun _ => R w) fun _ _ => False := by
  induction rounds generalizing w with
  | zero => exact absurd hrounds (Nat.not_lt_zero _)
  | succ rounds ih =>
      refine ends_bind.mpr ((hbody w).mono ?_ fun _ _ h => h)
      rintro (_ | _) w₁ h₁
      · have hlt := hlost w w₁ h₁
        refine ends_bind.mpr ((ends_reconnectDB env w₁).mono ?_ fun _ _ h => h)
        rintro - w₂ h₂
        have hle : w₂.outcomes.length ≤ w₁.outcomes.length := by
          obtain ⟨rest, hrest, rfl | ⟨-, rfl⟩⟩ := h₂ <;> exact hrest.length_le
        exact (ih (by omega)).mono (fun _ w' h' => htrans w w₁ w₂ w' h₁ h₂ h') fun _ _ h => h
      · exact ends_pure.mpr h₁

/-! ### One event -/

/-- Collecting a record changes neither the tables nor the directories. -/
structure Quiet (w w' : World) : Prop where
  committed : w'.committed = w.committed
  working : w.working = w.committed → w'.working = w.committed
  commits : w'.commits = w.commits
  resultDir : w'.resultDir = w.resultDir
  tmpDir : w'.tmpDir = w.tmpDir
  dbMap : w'.dbMap = w.dbMap
  outcomes : w'.outcomes <:+ w.outcomes

theorem Quiet.trans {w w₁ w₂ : World} (h : Quiet w w₁) (h' : Quiet w₁ w₂) : Quiet w w₂ where
  committed := h'.committed.trans h.committed
  working hw := (h'.working ((h.working hw).trans h.committed.symm)).trans h.committed
  commits := h'.commits.trans h.commits
  resultDir := h'.resultDir.trans h.resultDir
  tmpDir := h'.tmpDir.trans h.tmpDir
  dbMap := h'.dbMap.trans h.dbMap
  outcomes := h'.outcomes.trans h.outcomes

/-- What the run of a content record does: the record is taken or refused, or the thread gives
up and skips it and all records after it. -/
inductive Collected (env : Env) (r : CstChildRecord) (w w' : World) : Prop where
  | taken (h : Quiet w w') (hs : w.skip = false) (hs' : w'.skip = false)
      (hcst : w'.cstRecord = r.cst) (hxml : w'.xmlMap = addAccepted env r w.xmlMap)
      (href : w'.refusals = w.refusals)
  | refused (h : Quiet w w') (hs : w.skip = false) (hs' : w'.skip = false)
      (hcst : w'.cstRecord = r.cst) (hxml : w'.xmlMap = w.xmlMap)
      (href : w'.refusals = w.refusals + 1) (hun : ¬ w.Sound)
  | skipped (h : Quiet w w') (hs' : w'.skip = true) (href : w'.refusals = w.refusals)
      (hs : w.skip = true ∨ ¬ w.Sound)

/-- A call of `AddXmlRecord` that has lost its session. -/
structure LostAdd (w w' : World) : Prop where
  quiet : Quiet w w'
  skip : w.skip = false
  skip' : w'.skip = false
  xmlMap : w'.xmlMap = w.xmlMap
  refusals : w'.refusals = w.refusals
  unsound : ¬ w.Sound
  lt : w'.outcomes.length < w.outcomes.length

/-- `WRecord::Run` on a content record. -/
theorem ends_run_content (env : Env) {r : WRecord} (hr : r.isEnd = false) (w : World) :
    Ends (r.run env) w (fun _ => Collected env (.ofWRecord r) w) fun _ _ => False := by
  refine ends_bind.mpr (ends_get.mpr ?_)
  rw [if_neg (by simp [hr])]
  set c := CstChildRecord.ofWRecord r
  refine ends_untilAlive (Collected env c) LostAdd (fun w => ?_) (fun _ _ h => h.lt) ?_ _
    (Nat.lt_succ_self _)
  · refine (ends_addXmlRecord env c w).mono ?_ fun _ _ h => h
    rintro b w' (hs | ⟨hs, ho⟩ | ⟨hs, ho⟩ | ⟨hs, ho⟩)
    · exact .skipped ⟨rfl, id, rfl, rfl, rfl, rfl, List.suffix_refl _⟩ hs rfl (.inl hs)
    · exact .taken ⟨rfl, id, rfl, rfl, rfl, rfl, ho⟩ hs hs rfl rfl rfl
    · exact .refused ⟨rfl, id, rfl, rfl, rfl, rfl, ho ▸ List.suffix_cons _ _⟩ hs hs rfl rfl rfl
        (World.not_sound ho)
    · exact ⟨⟨rfl, fun _ => rfl, rfl, rfl, rfl, rfl, ho ▸ List.suffix_cons _ _⟩, hs, hs, rfl, rfl,
        World.not_sound ho, by simp [ho]⟩
  · rintro w w₁ w₂ w' hl ⟨rest, hrest, hw₂⟩ hc
    have hq : Quiet w₁ w₂ := by
      obtain rfl | ⟨-, rfl⟩ := hw₂ <;> exact ⟨rfl, id, rfl, rfl, rfl, rfl, hrest⟩
    have hq' := hl.quiet.trans hq
    have hsame : w₂.xmlMap = w.xmlMap ∧ w₂.refusals = w.refusals := by
      obtain rfl | ⟨-, rfl⟩ := hw₂ <;> exact ⟨hl.xmlMap, hl.refusals⟩
    rcases hc with ⟨h, -, hs', hcst, hxml, href⟩ | ⟨h, -, hs', hcst, hxml, href, -⟩ |
      ⟨h, hs', href, -⟩
    · exact .taken (hq'.trans h) hl.skip hs' hcst (by rw [hxml, hsame.1]) (by rw [href, hsame.2])
    · exact .refused (hq'.trans h) hl.skip hs' hcst (by rw [hxml, hsame.1])
        (by rw [href, hsame.2]) hl.unsound
    · exact .skipped (hq'.trans h) hs' (by rw [href, hsame.2]) (.inr hl.unsound)

/-- What the run of an end record does to the tables and the directories. -/
inductive Settled (env : Env) (w w' : World) : Prop where
  | completed (hs : w.skip = false) (hno : w.cstRecord.cstNo ≠ []) (h : Completed env w w')
  | undone (hc : w'.committed = w.committed) (hd : w'.resultDir = w.resultDir)
      (hw : w.working = w.committed → w'.working = w.committed)
      (ht : NoNewFile w.tmpDir w'.tmpDir) (hn : w'.commits = w.commits)
      (href : w'.refusals = w.refusals)
      (hwhy : w.skip = true ∨ w.cstRecord.cstNo = [] ∨ ¬ w.Sound ∨
        csvLines (csvRecords env w.cstRecord.cstNo w.xmlMap w.working) = none)

/-- A call of `ExecuteRecords` that has lost its session. -/
def LostExecute (w w' : World) : Prop :=
  Undone w w' ∧ ¬ w.Sound ∧ w'.outcomes.length < w.outcomes.length

/-- The retries of `ExecuteRecords`. -/
theorem ends_until_executed (env : Env) (rounds : Nat) {w : World}
    (hrounds : w.outcomes.length < rounds) :
    Ends (untilAlive env (executeRecords env) rounds) w
      (fun _ w' => w.working = w.committed → Settled env w w') fun _ _ => False := by
  refine ends_untilAlive (fun w w' => w.working = w.committed → Settled env w w') LostExecute
    (fun w => ?_) (fun _ _ h => h.2.2) ?_ rounds hrounds
  · refine (ends_executeRecords env w).mono ?_ fun _ _ h => h
    rintro b w' (h | ⟨hs, hno, h⟩ | ⟨h, hc⟩ | ⟨h, hun, hlt⟩)
    · intro hw
      exact .undone rfl rfl (fun _ => hw) (.refl _) rfl rfl
        (h.elim .inl fun h => .inr (.inl h))
    · exact fun _ => .completed hs hno h
    · exact fun _ => .undone h.same.committed h.same.resultDir
        (fun _ => h.working.trans h.same.committed) h.tmpDir h.same.commits
        h.same.refusals (.inr (.inr hc))
    · exact ⟨h, hun, hlt⟩
  · rintro w w₁ w₂ w' ⟨hu, hun, -⟩ ⟨rest, hrest, hw₂⟩ hset hw
    -- after the lost attempt and the reconnection the next attempt starts as this one did
    have hstart : w₂.committed = w.committed ∧ w₂.working = w.working ∧ w₂.commits = w.commits ∧
        w₂.resultDir = w.resultDir ∧ w₂.xmlMap = w.xmlMap ∧ w₂.cstRecord = w.cstRecord ∧
        w₂.refusals = w.refusals ∧ NoNewFile w.tmpDir w₂.tmpDir := by
      have hwork : w₁.working = w.working := by rw [hu.working, hu.same.committed, hw]
      obtain rfl | ⟨-, rfl⟩ := hw₂ <;>
        exact ⟨hu.same.committed, hwork, hu.same.commits, hu.same.resultDir, hu.same.xmlMap,
          hu.same.cstRecord, hu.same.refusals, hu.tmpDir⟩
    obtain ⟨hcom, hwork, hn, hd, hxml, hcst, href, ht⟩ := hstart
    obtain ⟨hs, hno, h⟩ | ⟨hc, hd', hw', ht', hn', href', -⟩ :=
      hset (by rw [hwork, hcom, hw])
    · have hskip : w.skip = false ∧ w₂.skip = w.skip := by
        obtain rfl | ⟨-, rfl⟩ := hw₂
        · exact ⟨by rw [← hu.same.skip]; exact hs, hu.same.skip⟩
        · cases hs
      obtain ⟨lines, hlines, hpub⟩ := h.resultDir
      rw [hcst, hxml, hwork] at hlines
      rw [hd] at hpub
      exact .completed hskip.1 (hcst ▸ hno)
        ⟨by rw [h.committed, hcst, hxml, hwork], h.working, by rw [h.commits, hn],
          ⟨lines, hlines, hpub⟩, ht.trans h.tmpDir, h.skip.trans hskip.2, h.refusals.trans href⟩
    · exact .undone (hc.trans hcom) (hd'.trans hd)
        (fun _ => (hw' (by rw [hwork, hcom, hw])).trans hcom) (ht.trans ht') (hn'.trans hn)
        (href'.trans href) (.inr (.inr (.inl hun)))

/-- `WRecord::Run` on an end record. -/
theorem ends_run_end (env : Env) {e : WRecord} (he : e.isEnd = true) {w : World}
    (hw : w.working = w.committed) :
    Ends (e.run env) w
      (fun _ w' => Settled env w w' ∧ w'.xmlMap = ∅ ∧ w'.dbMap = ∅) fun _ _ => False := by
  refine ends_bind.mpr (ends_get.mpr ?_)
  rw [if_pos he]
  refine ends_bind.mpr ((ends_until_executed env _ (Nat.lt_succ_self _)).mono ?_ fun _ _ h => h)
  intro _ w' hset
  refine ends_modify.mpr ⟨?_, rfl, rfl⟩
  obtain ⟨hs, hno, h⟩ | ⟨hc, hd, hw', ht, hn, href, hwhy⟩ := hset hw
  · exact .completed hs hno { h with }
  · exact .undone hc hd hw' ht hn href hwhy

/-! ### A batch -/

/-- The thread between two batches. -/
structure World.Idle (w : World) : Prop where
  working : w.working = w.committed
  xmlMap : w.xmlMap = ∅
  dbMap : w.dbMap = ∅

theorem idle_idleWorld (table : Table) : (idleWorld table).Idle := ⟨rfl, rfl, rfl⟩

/-- The state in which no call on the database will raise. -/
def World.faultless (w : World) : World := { w with outcomes := [] }

/-- The record without its child number, which `FillRealworkRecord` rejects. -/
def WRecord.discarded (r : WRecord) : WRecord := { r with kono := [] }

/-- The records of a batch as the thread takes them: a record whose call of `GET_SECTORNO` raised
with the session alive is discarded. -/
def effective (env : Env) : List WRecord → World → List WRecord
  | [], _ => []
  | r :: batch, w =>
      match (r.run env).run w with
      | .ok _ w' =>
          (if w'.refusals = w.refusals then r else r.discarded) :: effective env batch w'
      | .error _ _ => []

/-- `m_cstRecord` and `m_xmlMap` after one more record. -/
def gatherRecord (env : Env) (s : CstRecord × RealworkMap) (r : WRecord) :
    CstRecord × RealworkMap :=
  ((CstChildRecord.ofWRecord r).cst, addAccepted env (.ofWRecord r) s.2)

theorem gatherRecord_discarded (env : Env) (s : CstRecord × RealworkMap) {r : WRecord}
    (hr : r.isEnd = false) :
    gatherRecord env s r.discarded = ((CstChildRecord.ofWRecord r).cst, s.2) := by
  simp [gatherRecord, WRecord.discarded, addAccepted, CstChildRecord.ofWRecord,
    CstChildRecord.accept, hr]

/-- What the content records of a batch do. -/
structure Gathered (env : Env) (batch : List WRecord) (w w' : World) : Prop where
  quiet : Quiet w w'
  refusals : w.refusals ≤ w'.refusals ∧
    (w'.refusals = w.refusals → effective env batch w = batch)
  result : (w'.skip = true ∧ (w.skip = true ∨ ¬ w.Sound)) ∨
    (w'.skip = false ∧ w.skip = false ∧
      (w'.cstRecord, w'.xmlMap) =
        (effective env batch w).foldl (gatherRecord env) (w.cstRecord, w.xmlMap) ∧
      (effective env batch w = batch ∨ ¬ w.Sound))

theorem runRecords_gathers (env : Env) {batch : List WRecord}
    (hb : ∀ r ∈ batch, r.isEnd = false) (w : World) :
    ∃ w', (runRecords env batch).run w = .ok () w' ∧ Gathered env batch w w' := by
  induction batch generalizing w with
  | nil =>
      refine ⟨w, rfl, ⟨rfl, id, rfl, rfl, rfl, rfl, List.suffix_refl _⟩,
        ⟨Nat.le_refl _, fun _ => rfl⟩, ?_⟩
      cases hs : w.skip with
      | true => exact .inl ⟨rfl, .inl rfl⟩
      | false => exact .inr ⟨rfl, rfl, rfl, .inl rfl⟩
  | cons r batch ih =>
      have hr : r.isEnd = false := hb r (by simp)
      obtain ⟨⟨⟩, w₁, hrun, h₁⟩ := (ends_run_content env hr w).returns
      obtain ⟨w', hrun', hq', ⟨hle', hback'⟩, hres⟩ :=
        ih (fun r hr => hb r (List.mem_cons_of_mem _ hr)) w₁
      have hruns : (runRecords env (r :: batch)).run w = .ok () w' :=
        (run_bind_of_ok hrun).trans hrun'
      have heff : effective env (r :: batch) w =
          (if w₁.refusals = w.refusals then r else r.discarded) :: effective env batch w₁ := by
        simp only [effective, hrun]
      have hle := hq'.outcomes.length_le
      refine ⟨w', hruns, ?_⟩
      rcases h₁ with ⟨hq, hs, hs₁, hcst, hxml, href⟩ | ⟨hq, hs, hs₁, hcst, hxml, href, hun⟩ |
        ⟨hq, hs₁, href, hs⟩
      · have hun : ¬ w₁.Sound → ¬ w.Sound := fun h hs => h (hs.suffix hq.outcomes)
        rw [if_pos href] at heff
        refine ⟨hq.trans hq', ⟨by omega, fun h => by rw [heff, hback' (by omega)]⟩, ?_⟩
        rw [heff, List.foldl_cons, gatherRecord, ← hcst, ← hxml]
        rcases hres with ⟨hs', hwhy⟩ | ⟨hs', -, hstate, hwhy⟩
        · exact .inl ⟨hs', hwhy.imp (by simp [hs₁]) hun⟩
        · exact .inr ⟨hs', hs, hstate, hwhy.imp (by rw [·]) hun⟩
      · rw [if_neg (by omega)] at heff
        refine ⟨hq.trans hq', ⟨by omega, fun h => by omega⟩, ?_⟩
        rw [heff, List.foldl_cons, gatherRecord_discarded env _ hr, ← hcst, ← hxml]
        rcases hres with ⟨hs', -⟩ | ⟨hs', -, hstate, -⟩
        · exact .inl ⟨hs', .inr hun⟩
        · exact .inr ⟨hs', hs, hstate, .inr hun⟩
      · rw [if_pos href] at heff
        refine ⟨hq.trans hq', ⟨by omega, fun h => by rw [heff, hback' (by omega)]⟩, .inl ?_⟩
        rcases hres with ⟨hs', -⟩ | ⟨-, hs₁', -⟩
        · exact ⟨hs', hs⟩
        · rw [hs₁] at hs₁'; cases hs₁'

/-- The state a batch ends in, compared with the state before it: nothing has happened to the
table and the result directory, or all that happens when no call raises on the `reference`
batch. -/
def AllOrNothing (env : Env) (reference : List WRecord) (e : WRecord) (w w' : World) : Prop :=
  (w'.committed = w.committed ∧ w'.resultDir = w.resultDir) ∨
    ∃ w'' lines, (runRecords env (reference ++ [e])).run w.faultless = .ok () w'' ∧
      w'.committed = w''.committed ∧ Published w.resultDir lines w'.resultDir ∧
      Published w.resultDir lines w''.resultDir

theorem effective_isEnd (env : Env) {batch : List WRecord} (hb : ∀ r ∈ batch, r.isEnd = false)
    (w : World) : ∀ r ∈ effective env batch w, r.isEnd = false := by
  induction batch generalizing w with
  | nil => simp [effective]
  | cons r batch ih =>
      intro r' hr'
      simp only [effective] at hr'
      split at hr'
      · rcases List.mem_cons.mp hr' with rfl | hr'
        · split <;> exact hb r (by simp)
        · exact ih (fun r hr => hb r (List.mem_cons_of_mem _ hr)) _ r' hr'
      · cases hr'

/-- The content records of a batch, and then its end record. -/
theorem runRecords_settles (env : Env) {batch : List WRecord} {e : WRecord}
    (hb : ∀ r ∈ batch, r.isEnd = false) (he : e.isEnd = true) {w : World} (hw : w.Idle) :
    ∃ w₁ w', Gathered env batch w w₁ ∧ (runRecords env (batch ++ [e])).run w = .ok () w' ∧
      Settled env w₁ w' ∧ w'.xmlMap = ∅ ∧ w'.dbMap = ∅ := by
  obtain ⟨w₁, hrun, hg⟩ := runRecords_gathers env hb w
  have hw₁ : w₁.working = w₁.committed :=
    (hg.quiet.working hw.working).trans hg.quiet.committed.symm
  obtain ⟨⟨⟩, w', hrun', hset, hx, hd⟩ := (ends_run_end env he hw₁).returns
  exact ⟨w₁, w', hg, (run_forM_append hrun).trans (run_bind_of_ok hrun'), hset, hx, hd⟩

/-- **A batch takes effect as a whole or not at all**, whatever calls on the database raise: the
table and the result directory are as before, or as after a batch in which no call raises,
except that the records whose call of `GET_SECTORNO` raised with the session alive are
discarded; `refusals` counts these.  No temporary file stays behind, and the thread is ready for
the next batch. -/
theorem runRecords_allOrNothing (env : Env) {batch : List WRecord} {e : WRecord}
    (hb : ∀ r ∈ batch, r.isEnd = false) (he : e.isEnd = true) {w : World} (hw : w.Idle) :
    ∃ w', (runRecords env (batch ++ [e])).run w = .ok () w' ∧ w'.Idle ∧
      NoNewFile w.tmpDir w'.tmpDir ∧
      (w'.refusals = w.refusals → effective env batch w = batch) ∧
      AllOrNothing env (effective env batch w) e w w' := by
  obtain ⟨w₁, w', ⟨hq, ⟨-, hback⟩, hres⟩, hrun, hset, hx, hd⟩ := runRecords_settles env hb he hw
  have hwork : w₁.working = w.working := (hq.working hw.working).trans hw.working.symm
  refine ⟨w', hrun, ?_⟩
  rcases hset with ⟨hs, hno, h⟩ | ⟨hc, hdir, hw', ht, -, href, -⟩
  · refine ⟨⟨h.working, hx, hd⟩, hq.tmpDir ▸ h.tmpDir,
      fun href => hback (h.refusals.symm.trans href), .inr ?_⟩
    obtain ⟨hskip, hstate⟩ : w.skip = false ∧ (w₁.cstRecord, w₁.xmlMap) =
        (effective env batch w).foldl (gatherRecord env) (w.cstRecord, w.xmlMap) := by
      rcases hres with ⟨hs', -⟩ | ⟨-, hs', hstate, -⟩
      · rw [hs] at hs'; cases hs'
      · exact ⟨hs', hstate⟩
    -- the run in which no call raises gathers the same records
    have hw₀ : w.faultless.Idle := ⟨hw.working, hw.xmlMap, hw.dbMap⟩
    obtain ⟨w₂, w'', ⟨hq₂, -, hres₂⟩, hrun₂, hset₂, -, -⟩ :=
      runRecords_settles env (effective_isEnd env hb w) he hw₀
    have hsound : w.faultless.Sound := fun _ ho => nomatch ho
    have hsound₂ := hsound.suffix hq₂.outcomes
    obtain ⟨hs₂, hstate₂⟩ : w₂.skip = false ∧
        (w₂.cstRecord, w₂.xmlMap) = (w₁.cstRecord, w₁.xmlMap) := by
      rcases hres₂ with ⟨-, hs' | hun⟩ | ⟨hs₂, -, hstate₂, heff | hun⟩
      · exact absurd (hskip.symm.trans hs') (by simp)
      · exact absurd hsound hun
      · exact ⟨hs₂, by rw [hstate₂, heff, hstate]; rfl⟩
      · exact absurd hsound hun
    obtain ⟨hcst, hxml⟩ := Prod.mk.inj hstate₂
    have hwork₂ : w₂.working = w₁.working := by
      rw [hwork, hq₂.working hw₀.working, hw.working]; rfl
    obtain ⟨lines, hlines, hpub⟩ := h.resultDir
    rcases hset₂ with ⟨-, -, h₂⟩ | ⟨-, -, -, -, -, -, hwhy⟩
    · obtain ⟨lines₂, hlines₂, hpub₂⟩ := h₂.resultDir
      rw [hcst, hxml, hwork₂, hlines] at hlines₂
      cases hlines₂
      refine ⟨w'', lines, hrun₂, ?_, hq.resultDir ▸ hpub, ?_⟩
      · rw [h.committed, h₂.committed, hcst, hxml, hwork₂]
      · have := hq₂.resultDir
        rw [this] at hpub₂
        exact hpub₂
    · rw [hs₂, hcst, hxml, hwork₂, hlines] at hwhy
      simp [hno, hsound₂] at hwhy
  · refine ⟨⟨?_, hx, hd⟩, hq.tmpDir ▸ ht, fun href' => hback (href.symm.trans href'),
      .inl ⟨hc.trans hq.committed, hdir.trans hq.resultDir⟩⟩
    exact (hw' (by rw [hwork, hw.working, hq.committed])).trans hc.symm

/-- A record of a network element whose serial number is asked of `GET_SECTORNO`. -/
def sectorRecord : WRecord :=
  plainRecord (lit "A") (lit "1") (lit "0a") (lit "20090101000000") (lit "20090102000000")

/-- A live row for the number of the record. -/
def sectorRows : Table := [plainRow (lit "A") (lit "1") (lit "20090101000000") []]

/-- The session is lost in the call of `GET_SECTORNO`, and again in the update of the row. -/
theorem runRecords_allOrNothing_lost :
    ∃ w', (runRecords plainEnv ([sectorRecord] ++ [endRecord])).run
        { idleWorld sectorRows with
          outcomes := [.error false, .ok, .ok, .ok, .ok, .error false] } = .ok () w' ∧
      w'.Idle ∧ NoNewFile (fun _ => none) w'.tmpDir ∧ w'.commits = 1 := by
  obtain ⟨w', hrun, hidle, htmp, -, -⟩ := runRecords_allOrNothing plainEnv
    (show ∀ r ∈ [sectorRecord], r.isEnd = false by decide)
    (show endRecord.isEnd = true from rfl)
    (show World.Idle { idleWorld sectorRows with
      outcomes := [.error false, .ok, .ok, .ok, .ok, .error false] } from ⟨rfl, rfl, rfl⟩)
  refine ⟨w', hrun, hidle, htmp, ?_⟩
  have hw' := congrArg reached hrun
  rw [reached] at hw'
  rw [← hw']
  decide +kernel

/-- With the session alive after the failing call, the record is discarded and the row of its
number deleted: this is neither the table before the batch nor the one after a batch in which no
call raises. -/
theorem not_allOrNothing_sectorRecord :
    ∃ w', (runRecords plainEnv ([sectorRecord] ++ [endRecord])).run
        { idleWorld sectorRows with outcomes := [.error true] } = .ok () w' ∧
      ¬ AllOrNothing plainEnv [sectorRecord] endRecord
        { idleWorld sectorRows with outcomes := [.error true] } w' := by
  obtain ⟨-, w', -, hrun, -⟩ := runRecords_settles plainEnv
    (show ∀ r ∈ [sectorRecord], r.isEnd = false by decide)
    (show endRecord.isEnd = true from rfl)
    (show World.Idle { idleWorld sectorRows with outcomes := [.error true] } from ⟨rfl, rfl, rfl⟩)
  refine ⟨w', hrun, ?_⟩
  have hw' := congrArg reached hrun
  rw [reached] at hw'
  have hnil : w'.committed = [] := by
    rw [← hw']
    decide +kernel
  rintro (⟨hc, -⟩ | ⟨w'', lines, hrun'', hc, -⟩)
  · rw [hnil] at hc
    exact absurd hc (by decide)
  · have hw'' := congrArg reached hrun''
    rw [reached] at hw''
    rw [hnil, ← hw''] at hc
    revert hc
    decide +kernel

end Realwork.Receive
