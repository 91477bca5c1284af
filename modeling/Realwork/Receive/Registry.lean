import Realwork.Lib.Lines
import Realwork.Lib.Refine
import Realwork.Receive.Groups
import Realwork.Receive.Replay

/-!
# Receive — the registry of the constructions

What the threads do together to the database, as it is to be seen from outside: a table and a
directory of result files, into which messages are entered one after the other, each of them as a
whole or not at all.

* `registry`: the registry as a machine that takes one message in a step.
* `follows_registry`: the threads, in any interleaving, follow the registry; it sees the end record
  of a message, and no other step.
* `receiving_registers`: the table and the result files in every state of the program.
-/

namespace Realwork.Receive

open Realwork.Lib

/-! ### The registry -/

/-- The construction a message is reconciled with: that of its last record. -/
def lastCstNo (records : List WRecord) : Str :=
  (records.getLast?.map WRecord.cmngno).getD []

/-- The lines of the result file of a message; `none` when a date is too short for one. -/
def resultLines (env : Env) (records : List WRecord) (table : Table) : Option (List Str) :=
  csvLines (csvRecords env (lastCstNo records) (mapOf (accepted env records)) table)

/-- The records of a message, of which some have been discarded. -/
def Thinned (message records : List WRecord) : Prop :=
  message.Forall₂ (fun r r' => r' = r ∨ r' = r.discarded) records

instance decidableThinned (message records : List WRecord) : Decidable (Thinned message records) :=
  inferInstanceAs (Decidable (message.Forall₂ _ records))

/-- The table, the result files, and the messages that have been entered. -/
structure Registry where
  table : Table
  results : Dir
  messages : List (List WRecord)

/-- A message, with the records of it that have an effect and the path of its result file, if it
has an effect. -/
structure Entry where
  message : List WRecord
  effect : Option (List WRecord × Str)

/-- Enter a message: its records are reconciled with the live rows of its construction. -/
def Registry.enter (env : Env) (e : Entry) (t : Registry) : Option Registry :=
  match e.effect with
  | none => some { t with messages := t.messages ++ [e.message] }
  | some (records, path) =>
      if Thinned e.message records ∧ lastCstNo records ≠ [] then
        (resultLines env records t.table).map fun lines =>
          { table := reconciled env (lastCstNo records) (mapOf (accepted env records)) t.table
            results := if lines = [] then t.results else Function.update t.results path (some lines)
            messages := t.messages ++ [e.message] }
      else none

theorem Registry.enter_effect {env : Env} {message records : List WRecord} {t : Registry}
    {lines : List Str} (path : Str) (hthinned : Thinned message records)
    (hno : lastCstNo records ≠ []) (hlines : resultLines env records t.table = some lines) :
    t.enter env ⟨message, some (records, path)⟩ = some
      ⟨reconciled env (lastCstNo records) (mapOf (accepted env records)) t.table,
        if lines = [] then t.results else Function.update t.results path (some lines),
        t.messages ++ [message]⟩ := by
  simp only [enter, if_pos (And.intro hthinned hno), hlines, Option.map_some]

/-- The message has its effect with all its records; it has none only if it names no construction,
or has a date that is too short for the result file. -/
def Entry.Whole (env : Env) (e : Entry) (t : Registry) : Prop :=
  match e.effect with
  | none => lastCstNo e.message = [] ∨ resultLines env e.message t.table = none
  | some (records, _) => records = e.message

/-- The registry, from a table and a directory on. -/
def registry (env : Env) (table : Table) (results : Dir) : Machine Registry Entry where
  start t := t = ⟨table, results, []⟩
  step := Registry.enter env

/-! ### One message -/

section

variable {env : Env} {batch : List WRecord}

theorem lastCstNo_of_ne_nil (hne : batch ≠ []) : lastCstNo batch = (batch.getLast hne).cmngno := by
  rw [lastCstNo, List.getLast?_eq_some_getLast hne]
  rfl

theorem thinned_effective (env : Env) (hb : ∀ r ∈ batch, r.isEnd = false) (w : World) :
    Thinned batch (effective env batch w) := by
  induction batch generalizing w with
  | nil => exact .nil
  | cons r batch ih =>
      obtain ⟨⟨⟩, w₁, hrun, -⟩ := (ends_run_content env (hb r (by simp)) w).returns
      simp only [effective, hrun]
      refine .cons ?_ (ih (fun r hr => hb r (List.mem_cons_of_mem _ hr)) w₁)
      split
      · exact .inl rfl
      · exact .inr rfl

/-- The end record of a message does not make the thread give up when no call raises. -/
theorem skip_run_end (env : Env) {e : WRecord} (he : e.isEnd = true) {w w' : World}
    (hok : w.Sound) (hrun : (e.run env).run w = .ok () w') : w'.skip = w.skip := by
  have hends : Ends (e.run env) w (fun _ w' => w.Sound → w'.skip = w.skip)
      fun _ _ => False := by
    refine ends_bind.mpr (ends_get.mpr ?_)
    rw [if_pos he]
    refine ends_bind.mpr ((ends_untilAlive (fun w w' => w.Sound → w'.skip = w.skip)
      (fun w w' => ¬ w.Sound ∧ w'.outcomes.length < w.outcomes.length) (fun w => ?_)
      (fun _ _ h => h.2) (fun _ _ _ _ h _ _ hs => absurd hs h.1) _ (Nat.lt_succ_self _)).mono
      (fun _ w' h => ends_modify.mpr h) fun _ _ h => h)
    refine (ends_executeRecords env w).mono ?_ fun _ _ h => h
    rintro b w' (h | ⟨-, -, h⟩ | ⟨h, -⟩ | ⟨-, hun, hlt⟩)
    · exact fun _ => rfl
    · exact fun _ => h.skip
    · exact fun _ => h.same.skip
    · exact ⟨hun, hlt⟩
  exact hends.ok hrun hok

theorem runRecords_singleton (env : Env) (r : WRecord) : runRecords env [r] = r.run env := by
  simp [runRecords]

/-- What the records of a message leave in the maps, if the thread has not given up. -/
theorem Gathered.taken {w w₁ : World} (hg : Gathered env batch w w₁) (hne : batch ≠ [])
    (hb : ∀ r ∈ batch, r.isEnd = false) (hw : w.Idle) (hskip : w₁.skip = false) :
    w₁.cstRecord.cstNo = lastCstNo (effective env batch w) ∧
      w₁.xmlMap = mapOf (accepted env (effective env batch w)) ∧
      (effective env batch w = batch ∨ ¬ w.Sound) := by
  obtain ⟨-, -, ⟨hs, -⟩ | ⟨-, -, hstate, heff⟩⟩ := hg
  · rw [hskip] at hs
    cases hs
  · have hne' := effective_ne_nil env hne hb w
    have hcst : w₁.cstRecord = _ := congrArg Prod.fst hstate
    have hxml : w₁.xmlMap = _ := congrArg Prod.snd hstate
    have hend := effective_isEnd env hb w _ (List.getLast_mem hne')
    rw [gather_cst env hne', CstChildRecord.ofWRecord, if_neg (by simp [hend])] at hcst
    rw [gather_xmlMap, hw.xmlMap] at hxml
    refine ⟨by rw [hcst, lastCstNo_of_ne_nil hne'], ?_, heff⟩
    rw [hxml, mapOf, KeyMap.ofList, List.foldl_map]

/-- **A message is entered** by the run of its records and its end record. -/
theorem runRecords_enters (env : Env) (hne : batch ≠ []) (hb : ∀ r ∈ batch, r.isEnd = false)
    {w : World} (hw : w.Idle) (messages : List (List WRecord)) :
    ∃ w', (runRecords env (batch ++ [endRecord])).run w = .ok () w' ∧ w'.Idle ∧
      (w.Sound ∧ w.skip = false → w'.Sound ∧ w'.skip = false) ∧
      ∃ e : Entry, (w.Sound ∧ w.skip = false →
          e.Whole env ⟨w.committed, w.resultDir, messages⟩) ∧
        Registry.enter env e ⟨w.committed, w.resultDir, messages⟩ =
          some ⟨w'.committed, w'.resultDir, messages ++ [batch]⟩ := by
  obtain ⟨w₁, hrun, hg⟩ := runRecords_gathers env hb w
  have hq := hg.quiet
  have hwork : w₁.working = w.committed := hq.working hw.working
  obtain ⟨⟨⟩, w', hend, hset, hx, hd⟩ :=
    (ends_run_end env (e := endRecord) rfl (hwork.trans hq.committed.symm)).returns
  have hboth : (runRecords env (batch ++ [endRecord])).run w = .ok () w' :=
    (run_forM_append hrun).trans (run_bind_of_ok hend)
  have hgoes (hs : w.Sound ∧ w.skip = false) : w₁.Sound ∧ w₁.skip = false := by
    refine ⟨hs.1.suffix hq.outcomes, ?_⟩
    rcases hg.result with ⟨-, hs' | hun⟩ | ⟨hs', -⟩
    · rw [hs.2] at hs'
      cases hs'
    · exact absurd hs.1 hun
    · exact hs'
  refine ⟨w', hboth, ?_, fun hs => ⟨?_, ?_⟩, ?_⟩
  · rcases hset with ⟨-, -, h⟩ | ⟨hc, -, hwork', -⟩
    · exact ⟨h.working, hx, hd⟩
    · exact ⟨(hwork' (hwork.trans hq.committed.symm)).trans hc.symm, hx, hd⟩
  · exact ((keeps_runRecords env (batch ++ [endRecord]) w ⟨hs.1, rfl⟩).ok hboth).1
  · exact (skip_run_end env rfl (hgoes hs).1 hend).trans (hgoes hs).2
  rcases hset with ⟨hskip, hno, h⟩ | ⟨hc, hdir, -, -, -, -, hwhy⟩
  · -- the message has an effect, with the records that the thread has taken
    obtain ⟨hcst, hxml, heff⟩ := hg.taken hne hb hw hskip
    obtain ⟨lines, hlines, hpub⟩ := h.resultDir
    rw [hcst, hxml, hwork] at hlines
    rw [hcst] at hno
    have hcommitted := h.committed
    rw [hcst, hxml, hwork] at hcommitted
    rw [hq.resultDir] at hpub
    obtain ⟨path, hpath⟩ : ∃ path, w'.resultDir =
        if lines = [] then w.resultDir else Function.update w.resultDir path (some lines) := by
      by_cases hnil : lines = []
      · rw [Published, if_pos hnil] at hpub
        exact ⟨[], by rw [if_pos hnil, hpub]⟩
      · rw [Published, if_neg hnil] at hpub
        obtain ⟨path, hpath⟩ := hpub
        exact ⟨path, by rw [if_neg hnil, hpath]⟩
    refine ⟨⟨batch, some (effective env batch w, path)⟩, fun hs => ?_, ?_⟩
    · exact heff.resolve_right (not_not_intro hs.1)
    · rw [hcommitted, hpath]
      exact Registry.enter_effect path (thinned_effective env hb w) hno hlines
  · refine ⟨⟨batch, none⟩, fun hs => ?_, ?_⟩
    · obtain ⟨hok, hskip⟩ := hgoes hs
      obtain ⟨hcst, hxml, heff⟩ := hg.taken hne hb hw hskip
      rw [heff.resolve_right (not_not_intro hs.1)] at hcst hxml
      rw [hcst, hxml, hwork] at hwhy
      rcases hwhy with hs' | hno | hun | hcsv
      · rw [hskip] at hs'
        cases hs'
      · exact .inl hno
      · exact absurd hok hun
      · exact .inr hcsv
    · rw [Registry.enter, hc, hdir, hq.committed, hq.resultDir]

end

/-! ### The threads -/

/-- The program before its first connection, with the database thread in the state `world`. -/
def Receiver.begun (conns : List Conn) (world : World) : Receiver :=
  ⟨.first conns, false, [], .waiting, [], [], none, [], [], ⟨[], [], world⟩, false, false⟩

/-- The bytes of the connection that are not read yet. -/
def Receiver.unread (s : Receiver) : Str := (s.reader.conns.head?.map Conn.unread).getD []

/-- The runs of the program from there on. -/
def receivingFrom (order : ByteOrder) (xerces : Nat → Xerces) (env : Env) (conns : List Conn)
    (world : World) : Machine Receiver Thread :=
  { receiving order xerces env with start := fun s => s = .begun conns world }

/-- The groups of records of the messages the work thread has parsed. -/
def goodMessages (xerces : Nat → Xerces) (handled : List Handled) : List (List WRecord) :=
  (handled.filter (Handled.Good xerces)).map (Handled.records xerces)

section

variable {order : ByteOrder} {xerces : Nat → Xerces} {env : Env} {conns : List Conn}
  {world : World} {s s' : Receiver}

theorem Work.idle {work : Work} (h : work.xml? = none) : work.open? = none ∧ work.pending = [] := by
  cases work with
  | waiting => exact ⟨rfl, rfl⟩
  | ended => exact ⟨rfl, rfl⟩
  | parsing xml handler events => cases h
  | notifying xml records hasRecord => cases h
  | answering xml => cases h

theorem groups_eq_unlines (handled : List Handled) :
    groups xerces handled = unlines endRecord (goodMessages xerces handled) := rfl

theorem mem_goodMessages {handled : List Handled} {batch : List WRecord}
    (h : batch ∈ goodMessages xerces handled) :
    batch ≠ [] ∧ ∀ r ∈ batch, r.isEnd = false := by
  obtain ⟨d, hd, rfl⟩ := List.mem_map.mp h
  obtain ⟨-, hgood⟩ := List.mem_filter.mp hd
  obtain ⟨-, hlen, hcontent⟩ := (of_decide_eq_true hgood).records
  exact ⟨List.length_pos_iff.mp hlen, hcontent⟩

theorem endRecord_notMem {batch : List WRecord} (h : ∀ r ∈ batch, r.isEnd = false) :
    endRecord ∉ batch := fun hmem => Bool.noConfusion (h endRecord hmem)

namespace Receiver

/-- What the database thread is at: it has entered `messages`, which has left its state `w`, and
has run the records `part` of the next one. -/
structure Enters (xerces : Nat → Xerces) (env : Env) (sound : Prop) (s : Receiver) (t : Registry)
    (w : World) (part : List WRecord) : Prop where
  grouped : s.Grouped xerces
  idle : w.Idle
  sound : sound → w.Sound ∧ w.skip = false
  ran : s.db.ran = unlines endRecord t.messages ++ part
  messages : ∀ batch ∈ t.messages, ∀ r ∈ batch, r.isEnd = false
  content : ∀ r ∈ part, r.isEnd = false
  run : (runRecords env part).run w = .ok () s.db.world
  table : t.table = w.committed
  results : t.results = w.resultDir

/-- The other threads leave the state of the database thread. -/
theorem db_of_step {thread : Thread} (hthread : thread ≠ .db)
    (hs : (receiving order xerces env).step thread s = some s') :
    s'.db.ran = s.db.ran ∧ s'.db.world = s.db.world := by
  cases thread with
  | main =>
      rcases mainStep_cases hs with ⟨-, rfl⟩ | ⟨-, -, reader, -, rfl⟩ |
        ⟨-, reader, new, -, -, -, rfl⟩ <;> exact ⟨rfl, rfl⟩
  | stop =>
      obtain ⟨-, rfl⟩ := stopStep_cases hs
      exact ⟨rfl, rfl⟩
  | work => cases workStep_cases hs <;> exact ⟨rfl, rfl⟩
  | workEnd =>
      obtain ⟨-, -, rfl⟩ := endStep_cases hs
      exact ⟨rfl, rfl⟩
  | hc =>
      rcases hcStep_cases hs with ⟨request, hcQueue, -, -, rfl⟩ | ⟨request, -, rfl⟩
      · exact ⟨rfl, rfl⟩
      · exact ⟨rfl, rfl⟩
  | hcEnd =>
      obtain ⟨-, rfl⟩ := hcEndStep_cases hs
      exact ⟨rfl, rfl⟩
  | db => exact absurd rfl hthread
  | dbEnd =>
      obtain rfl := dbEndStep_cases hs
      exact ⟨rfl, rfl⟩

/-- What has been run is the beginning of the groups of the good messages. -/
theorem Grouped.ran_prefix (h : s.Grouped xerces) :
    s.db.ran <+: unlines endRecord (goodMessages xerces s.handled) := by
  rw [← groups_eq_unlines, ← h.notified, h.queue, List.append_assoc]
  exact List.prefix_append _ _

section

variable {sound : Prop} {t : Registry} {w : World} {part : List WRecord}

/-- The messages that have been entered are the first ones of the good ones. -/
theorem Enters.messages_prefix (h : s.Enters xerces env sound t w part) :
    t.messages <+: goodMessages xerces s.handled := by
  refine prefix_of_unlines (fun batch hbatch => endRecord_notMem (h.messages batch hbatch))
    (fun batch hbatch => endRecord_notMem (mem_goodMessages hbatch).2) ?_
  refine List.IsPrefix.trans ?_ h.grouped.ran_prefix
  rw [h.ran]
  exact List.prefix_append _ _

/-- All of them have been entered when the threads have nothing left to pass on or to run. -/
theorem Enters.messages_eq (h : s.Enters xerces env sound t w part) (hqueue : s.db.queue = [])
    (hpending : s.work.pending = []) : t.messages = goodMessages xerces s.handled := by
  obtain ⟨more, hmore⟩ := h.messages_prefix
  have hran : s.db.ran = unlines endRecord (goodMessages xerces s.handled) := by
    rw [← groups_eq_unlines, ← h.grouped.notified, h.grouped.queue, hqueue, hpending,
      List.append_nil, List.append_nil]
  rw [h.ran, ← hmore, unlines_append, List.append_cancel_left_eq] at hran
  cases more with
  | nil => rw [← hmore, List.append_nil]
  | cons batch more =>
      -- the records after the last group have no end record
      refine absurd ?_ (endRecord_notMem h.content)
      rw [hran, unlines_cons, line]
      simp

/-- An end record is that of the message the thread is at. -/
theorem Enters.of_end (h : s.Enters xerces env sound t w part) {r : WRecord}
    (hr : r.isEnd = true)
    (hran : s.db.ran ++ [r] <+: unlines endRecord (goodMessages xerces s.handled)) :
    part ∈ goodMessages xerces s.handled ∧ r = endRecord := by
  obtain ⟨more, hmore⟩ := h.messages_prefix
  rw [h.ran, List.append_assoc, ← hmore, unlines_append, List.prefix_append_right_inj] at hran
  cases more with
  | nil => simp at hran
  | cons batch more =>
      have hbatch : batch ∈ goodMessages xerces s.handled := by
        rw [← hmore]
        simp
      obtain ⟨rfl, rfl⟩ := eq_of_prefix_line (p := WRecord.isEnd) (mem_goodMessages hbatch).2 rfl
        h.content hr hran
      exact ⟨hbatch, rfl⟩

/-- A content record is no step of the registry. -/
theorem Enters.content_step (h : s.Enters xerces env sound t w part) {r : WRecord}
    (hr : r.isEnd = false) {db : DbThread} (hgrouped : Receiver.Grouped xerces { s with db })
    (hran : db.ran = s.db.ran ++ [r]) (hworld : db.world = reached ((r.run env).run s.db.world)) :
    Receiver.Enters xerces env sound { s with db } t w (part ++ [r]) := by
  obtain ⟨⟨⟩, w', hrun, -⟩ := (ends_run_content env hr s.db.world).returns
  rw [hrun] at hworld
  refine { h with grouped := hgrouped, ran := ?_, content := ?_, run := ?_ }
  · rw [hran, h.ran, List.append_assoc]
  · intro r' hr'
    rcases List.mem_append.mp hr' with hr' | hr'
    · exact h.content r' hr'
    · rw [List.mem_singleton.mp hr', hr]
  · rw [hworld]
    exact (run_forM_append h.run).trans (run_bind_of_ok hrun)

/-- The end record enters the message. -/
theorem Enters.end_step (h : s.Enters xerces env sound t w part) (hne : part ≠ [])
    {db : DbThread} (hgrouped : Receiver.Grouped xerces { s with db })
    (hran : db.ran = s.db.ran ++ [endRecord])
    (hworld : db.world = reached ((endRecord.run env).run s.db.world)) :
    ∃ (e : Entry) (t' : Registry), (sound → e.Whole env t) ∧ t.enter env e = some t' ∧
      Receiver.Enters xerces env sound { s with db } t' db.world [] := by
  obtain ⟨w', hrun, hidle, hsound, e, hwhole, henter⟩ :=
    runRecords_enters env hne h.content h.idle t.messages
  have ht : t = ⟨w.committed, w.resultDir, t.messages⟩ := by rw [← h.table, ← h.results]
  have hdb : db.world = w' := by
    have hlast : (runRecords env [endRecord]).run s.db.world = .ok () w' :=
      (run_forM_append h.run).symm.trans hrun
    rw [runRecords_singleton] at hlast
    rw [hworld, hlast]
    rfl
  subst hdb
  rw [← ht] at hwhole henter
  refine ⟨e, _, fun hs => hwhole (h.sound hs), henter, ?_⟩
  exact {
    grouped := hgrouped
    idle := hidle
    sound := fun hs => hsound (h.sound hs)
    ran := by rw [hran, h.ran, unlines_append]; simp [line]
    messages := fun batch hbatch => by
      rcases List.mem_append.mp hbatch with hbatch | hbatch
      · exact h.messages batch hbatch
      · rw [List.mem_singleton.mp hbatch]
        exact h.content
    content := fun r hr => nomatch hr
    run := rfl
    table := rfl
    results := rfl }

end

end Receiver

/-- **The program follows the registry.**  A message is entered when the database thread runs its
end record; the other steps, and those of the other threads, are not seen. -/
theorem follows_registry (sound : Prop) (hworld : world.Idle)
    (hsound : sound → world.Sound ∧ world.skip = false) :
    (receivingFrom order xerces env conns world).Follows Machine.always
      (registry env world.committed world.resultDir) (fun e t => sound → e.Whole env t)
      (fun s t => ∃ w part, s.Enters xerces env sound t w part) where
  start s hs := by
    cases hs
    have hgrouped : (Receiver.begun conns world).Grouped xerces :=
      ⟨rfl, nofun, rfl, fun _ => ⟨hworld.xmlMap, hworld.dbMap⟩, rfl⟩
    exact ⟨_, rfl, world, [], hgrouped, hworld, hsound, rfl, nofun, nofun, rfl, rfl, rfl⟩
  step thread s s' t hR _ hs := by
    obtain ⟨w, part, h⟩ := hR
    have hgrouped : s'.Grouped xerces := h.grouped.step hs
    by_cases hthread : thread = .db
    · subst hthread
      obtain ⟨record, queue, -, rfl⟩ := Receiver.dbStep_cases hs
      cases hr : record.isEnd with
      | false => exact .inl ⟨w, part ++ [record], h.content_step hr hgrouped rfl rfl⟩
      | true =>
          obtain ⟨hpart, rfl⟩ := h.of_end hr hgrouped.ran_prefix
          obtain ⟨e, t', hwhole, henter, h'⟩ :=
            h.end_step (mem_goodMessages hpart).1 hgrouped rfl rfl
          exact .inr ⟨e, t', hwhole, henter, _, [], h'⟩
    · obtain ⟨hran, hdb⟩ := Receiver.db_of_step hthread hs
      exact .inl ⟨w, part, { h with
        grouped := hgrouped
        ran := hran.trans h.ran
        run := hdb ▸ h.run }⟩

/-- The registry the program has followed so far. -/
theorem exists_registry (hworld : world.Idle)
    (h : (receivingFrom order xerces env conns world).Reach Machine.always s) :
    ∃ t w part, (registry env world.committed world.resultDir).Reach
        (fun e t => world.Sound ∧ world.skip = false → e.Whole env t) t ∧
      s.Enters xerces env (world.Sound ∧ world.skip = false) t w part ∧
      s.db.world.committed = t.table ∧ s.db.world.resultDir = t.results := by
  obtain ⟨t, ht, w, part, henters⟩ := (follows_registry _ hworld id).reach h
  obtain ⟨w', hrun, hg⟩ := runRecords_gathers env henters.content w
  rw [henters.run] at hrun
  cases hrun
  exact ⟨t, w, part, ht, henters, hg.quiet.committed.trans henters.table.symm,
    hg.quiet.resultDir.trans henters.results.symm⟩

/-- **What the program does to the database.**  In every run, whatever calls on the database raise:
the table and the result directory are those of a registry into which the first ones of the good
messages have been entered in their order, each as a whole, less records that have been discarded,
or not at all; and all of them when the threads have nothing left to pass on or to run.  If no call
raises, every message has its whole effect. -/
theorem receiving_registers (hworld : world.Idle)
    (h : (receivingFrom order xerces env conns world).Reach Machine.always s) :
    ∃ t, (registry env world.committed world.resultDir).Reach
        (fun e t => world.Sound ∧ world.skip = false → e.Whole env t) t ∧
      s.db.world.committed = t.table ∧ s.db.world.resultDir = t.results ∧
      t.messages <+: goodMessages xerces s.handled ∧
      (s.db.queue = [] → s.work.pending = [] → t.messages = goodMessages xerces s.handled) := by
  obtain ⟨t, w, part, ht, henters, htable, hresults⟩ := exists_registry hworld h
  exact ⟨t, ht, htable, hresults, henters.messages_prefix, henters.messages_eq⟩

end

/-- A message is read, parsed and run, and nothing is left to do. -/
theorem workMessage_run :
    ∃ s, (receivingFrom .big oneEquipInfo plainEnv [⟨[workMessage], .eof⟩] (idleWorld [])).Reach
        Machine.always s ∧
      (s.connected = true ∧ s.reader.conn = 0 ∧ s.unread = []) ∧
      (s.workQueue = [] ∧ s.work.xml? = none ∧ s.db.queue = []) ∧
      (s.hc = none ∧ s.hcQueue = []) ∧
      s.db.ran.length = 2 ∧ (goodMessages oneEquipInfo s.handled).length = 1 :=
  Machine.Reach.exists_of_exec ([.main, .main] ++ List.replicate 22 .work ++ [.db, .db])
    (.begun [⟨[workMessage], .eof⟩] (idleWorld [])) rfl (Machine.meets_always _ _ _)
    (by decide +kernel)

/-- A message is read, parsed and run: it has been entered. -/
theorem receiving_registers_workMessage :
    ∃ s, (receivingFrom .big oneEquipInfo plainEnv [⟨[workMessage], .eof⟩] (idleWorld [])).Reach
        Machine.always s ∧ s.db.ran.length = 2 ∧
      ∃ t, (registry plainEnv [] fun _ => none).Reach (fun e t => e.Whole plainEnv t) t ∧
        t.messages.length = 1 ∧ s.db.world.committed = t.table := by
  obtain ⟨s, hs, -, ⟨-, hwork, hqueue⟩, -, hran, hlen⟩ := workMessage_run
  obtain ⟨t, ht, htable, -, -, hall⟩ := receiving_registers (idle_idleWorld []) hs
  have hsound : (idleWorld []).Sound ∧ (idleWorld []).skip = false := ⟨nofun, rfl⟩
  refine ⟨s, hs, hran, t, ht.mono fun e t h => h hsound, ?_, htable⟩
  rw [hall hqueue (Work.idle hwork).2, hlen]

end Realwork.Receive
