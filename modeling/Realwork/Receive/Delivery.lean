import Mathlib.Data.Prod.Lex
import Realwork.Receive.Frames
import Realwork.Receive.Registry

/-!
# Receive — from the bytes to the rows

While the first connection lasts, what the program has done to the table is a function of the
frames on it: neither the segments their bytes arrive in nor the order of the threads changes it.

* `Receiver.Online`: the invariant of the first connection.
* `receiving_rows`: the table is that of the first messages on the connection, and of all of them
  when nothing is left to do.
* `receiving_finishes`: the threads come to an end, and then nothing is left to do.
-/

namespace Realwork.Receive

open Realwork.Lib

/-! ### The table after a message -/

section

variable {env : Env}

/-- The table after a message, when no call on the database raises. -/
def tableAfter (env : Env) (table : Table) (message : List WRecord) : Table :=
  if lastCstNo message = [] ∨ resultLines env message table = none then table
  else reconciled env (lastCstNo message) (mapOf (accepted env message)) table

theorem Registry.enter_whole {e : Entry} {t t' : Registry} (h : t.enter env e = some t')
    (hwhole : e.Whole env t) :
    t'.table = tableAfter env t.table e.message ∧ t'.messages = t.messages ++ [e.message] := by
  obtain ⟨message, _ | ⟨records, path⟩⟩ := e
  · cases h
    exact ⟨(if_pos hwhole).symm, rfl⟩
  · obtain rfl : records = message := hwhole
    simp only [Registry.enter, Option.ite_none_right_eq_some, Option.map_eq_some_iff] at h
    obtain ⟨⟨-, hno⟩, lines, hlines, rfl⟩ := h
    refine ⟨(if_neg ?_).symm, rfl⟩
    rintro (hno' | hnone)
    · exact hno hno'
    · rw [hlines] at hnone
      cases hnone

/-- The table of a registry in which every message has its whole effect. -/
theorem registry_table {table : Table} {results : Dir} {t : Registry}
    (h : (registry env table results).Reach (fun e t => e.Whole env t) t) :
    t.table = t.messages.foldl (tableAfter env) table := by
  refine h.invariant (P := fun t => t.table = t.messages.foldl (tableAfter env) table)
    (fun t ht => ?_) fun e t t' ht hwhole hstep => ?_
  · cases ht
    rfl
  · obtain ⟨htable, hmessages⟩ := Registry.enter_whole hstep hwhole
    rw [htable, hmessages, List.foldl_append, ht]
    rfl

end

/-! ### The requests on a connection -/

section

variable {order : ByteOrder} {xerces : Nat → Xerces}

/-- The requests of the messages on the first connection. -/
def requests (frames : List (Frame order)) : List WSaxXml :=
  (messages [] (frames.filter fun f => f.IsWork)).map fun m => ⟨0, m.text, m.last.whead⟩

/-- The request, parsed while the connection is up. -/
def WSaxXml.online (xml : WSaxXml) : Handled := ⟨xml, true, true⟩

/-- The messages on the first connection, as the records they are parsed to. -/
def delivered (xerces : Nat → Xerces) (frames : List (Frame order)) : List (List WRecord) :=
  goodMessages xerces ((requests frames).map WSaxXml.online)

theorem saxXml_reassembly (frames : List (Frame order)) :
    (reassembly 0 [] frames).filterMap Event.saxXml? = requests frames := by
  have hsax (e : Event) (he : e ∈ reassembly 0 [] frames) :
      e.saxXml? = e.effect.work?.map fun request => ⟨0, request.1, request.2⟩ := by
    rw [Event.saxXml?, conn_of_mem_reassembly he]
    cases e.effect <;> rfl
  have hstart : ([] : List (Nat × Str)).flatMap Prod.snd =
      ([] : List (Frame order)).flatMap Frame.body := rfl
  rw [List.filterMap_congr hsax, ← List.map_filterMap, work_reassembly 0 frames hstart,
    List.map_map]
  rfl

theorem requests_mono {past frames : List (Frame order)} (h : past <+: frames) :
    requests past <+: requests frames :=
  (messages_mono [] (h.filter _)).map _

theorem goodMessages_mono {handled handled' : List Handled} (h : handled <+: handled') :
    goodMessages xerces handled <+: goodMessages xerces handled' :=
  (h.filter _).map _

end

/-! ### The first connection -/

section

variable {order : ByteOrder} {xerces : Nat → Xerces} {env : Env} {frames : List (Frame order)}
  {c : Conn} {later : List Conn} {world : World} {s s' : Receiver}

/-- The first connection is up: some of its frames have been read, and the work thread has found
it up whenever it has tested for it. -/
structure Receiver.During (frames : List (Frame order)) (later : List Conn) (s : Receiver) :
    Prop where
  up : s.connected = true
  read : ∃ past rest, ∃ c : Conn, past ++ rest = frames ∧ c.unread = rest.flatMap Frame.bytes ∧
    s.reader = ⟨0, c :: later, buffered 0 [] past, reassembly 0 [] past, false⟩
  handled : ∀ d ∈ s.handled, d = d.xml.online

/-- The first connection has not been made, or lasts, or is over. -/
inductive Receiver.Online (frames : List (Frame order)) (later : List Conn) (s : Receiver) :
    Prop where
  | before (hup : s.connected = false)
      (hreader : ∃ c : Conn, c.unread = frames.flatMap Frame.bytes ∧
        s.reader = .first (c :: later))
      (hhandled : s.handled = []) (hqueue : s.workQueue = []) (hwork : s.work.xml? = none)
  | during (h : s.During frames later)
  | after (h : s.reader.conn ≠ 0 ∨ s.connected = false ∧ s.reader.gone = true)

/-- Nothing is left to read, to parse, to pass on or to run. -/
structure Receiver.Finished (s : Receiver) : Prop where
  read : s.unread = []
  workQueue : s.workQueue = []
  work : s.work.xml? = none
  queue : s.db.queue = []

/-- The main thread goes on only while the program does, and leaves no connection but for the
next one. -/
theorem Receiver.mainStep_conn (hs : s.mainStep order = some s') :
    s.reader.gone = false ∧
      (s'.reader.conn = s.reader.conn ∨ s'.reader.conn = s.reader.conn + 1) := by
  unfold mainStep at hs
  split at hs
  · cases hs
  · cases hs
  · rename_i hgone _ _
    cases hs
    exact ⟨hgone, .inl rfl⟩
  · rename_i hgone _
    obtain ⟨reader, hr, rfl⟩ := Option.map_eq_some_iff.mp hs
    refine ⟨hgone, ?_⟩
    split
    · rename_i hsame
      exact .inl hsame
    · rename_i hother
      exact .inr ((readWork_conn hr).resolve_right fun h => hother h.1).1

/-- The work thread leaves the connection, and tests for it when it is done with a message. -/
theorem WorkStep.handled (h : WorkStep xerces s s') :
    s'.reader = s.reader ∧ s'.connected = s.connected ∧
      (s.connected = true → ∀ d ∈ s'.handled, d ∈ s.handled ∨ d = d.xml.online) := by
  have hended (xml : WSaxXml) (work : Work) (hup : s.connected = true) (d : Handled)
      (hd : d ∈ (s.parseEnded xml work).handled) : d ∈ s.handled ∨ d = d.xml.online := by
    rcases List.mem_append.mp hd with hd | hd
    · exact .inl hd
    · rw [List.mem_singleton.mp hd, hup]
      exact .inr rfl
  cases h with
  | begin hw hq hc => exact ⟨rfl, rfl, fun _ d hd => .inl hd⟩
  | drop hw hq hc =>
      refine ⟨rfl, rfl, fun hup => ?_⟩
      rw [hc] at hup
      cases hup
  | event hw he => exact ⟨rfl, rfl, fun _ d hd => .inl hd⟩
  | raise hw he => exact ⟨rfl, rfl, hended _ _⟩
  | endDocument hw hc hup => exact ⟨rfl, rfl, hended _ _⟩
  | skip hw hc => exact ⟨rfl, rfl, hended _ _⟩
  | record hw => exact ⟨rfl, rfl, fun _ d hd => .inl hd⟩
  | last hw => exact ⟨rfl, rfl, fun _ d hd => .inl hd⟩
  | none hw => exact ⟨rfl, rfl, fun _ d hd => .inl hd⟩
  | answer hw => exact ⟨rfl, rfl, fun _ d hd => .inl hd⟩

/-- A thread that has no message and is given none has nothing to do. -/
theorem Receiver.workStep_idle (hqueue : s.workQueue = []) (hwork : s.work.xml? = none) :
    s.workStep xerces = none := by
  unfold workStep
  cases hw : s.work with
  | waiting => simp only [hqueue]
  | ended => rfl
  | parsing xml handler events =>
      rw [hw] at hwork
      cases hwork
  | notifying xml records hasRecord =>
      rw [hw] at hwork
      cases hwork
  | answering xml =>
      rw [hw] at hwork
      cases hwork

/-- The main thread reads the next frame of its connection. -/
theorem Receiver.mainStep_frame (f : Frame order) (rest : Str) (hup : s.connected = true)
    (hgone : s.reader.gone = false) (hconns : s.reader.conns = c :: later)
    (hc : c.unread = f.bytes ++ rest) :
    ∃ c' : Conn, c'.unread = rest ∧ s.mainStep order = some (s.enqueue
      (s.reader.done c' later f.head f.body (f.effects s.reader.conn s.reader.xmlBuff).1
        (f.effects s.reader.conn s.reader.xmlBuff).2)) := by
  obtain ⟨c', hc', hread⟩ := readWork_frame f rest hgone hconns hc
  refine ⟨c', hc', ?_⟩
  unfold mainStep
  rw [hgone, hup]
  dsimp only
  rw [hread]
  exact congrArg some (if_pos rfl)

namespace Receiver.During

/-- **The main thread** reads the next frame, or finds the connection at its end. -/
theorem main (h : s.During frames later) (hs : s.mainStep order = some s') :
    (s'.During frames later ∧ s'.unread.length < s.unread.length) ∨
      s'.reader.conn = s.reader.conn + 1 := by
  obtain ⟨past, rest, c, hframes, hc, hreader⟩ := h.read
  cases rest with
  | nil =>
      unfold mainStep at hs
      rw [hreader, h.up] at hs
      dsimp only at hs
      rw [readWork_of_unread_nil rfl rfl hc] at hs
      cases hs
      rw [hreader]
      exact .inr rfl
  | cons f rest =>
      have hgone : s.reader.gone = false := by rw [hreader]
      have hconns : s.reader.conns = c :: later := by rw [hreader]
      obtain ⟨c', hc', hstep⟩ :=
        mainStep_frame f (rest.flatMap Frame.bytes) h.up hgone hconns hc
      rw [hstep] at hs
      cases hs
      refine .inl ⟨⟨h.up, ⟨past ++ [f], rest, c', ?_, hc', ?_⟩, h.handled⟩, ?_⟩
      · rw [List.append_assoc]
        exact hframes
      · rw [buffered_concat, reassembly_concat, hreader]
        rfl
      · have hunread : s.unread = f.bytes ++ rest.flatMap Frame.bytes := by
          rw [unread, hreader]
          exact hc
        rw [hunread, List.length_append]
        change c'.unread.length < _
        rw [hc']
        exact Nat.lt_add_of_pos_left f.length_bytes_pos

theorem work (h : s.During frames later) (hs : s.workStep xerces = some s') :
    s'.During frames later := by
  obtain ⟨hreader, hup, hhandled⟩ := (workStep_cases hs).handled
  refine ⟨hup.trans h.up, by rw [hreader]; exact h.read, fun d hd => ?_⟩
  exact (hhandled h.up d hd).elim (h.handled d) id

/-- A step that leaves the connection and what the work thread has done. -/
theorem quiet (h : s.During frames later) (hreader : s'.reader = s.reader)
    (hup : s'.connected = s.connected) (hhandled : s'.handled = s.handled) :
    s'.During frames later := by
  refine ⟨hup.trans h.up, ?_, hhandled ▸ h.handled⟩
  rw [hreader]
  exact h.read

end Receiver.During

namespace Receiver.Online

theorem main (h : s.Online frames later) (hs : s.mainStep order = some s') :
    s'.Online frames later := by
  cases h with
  | before hup hreader hhandled hqueue hwork =>
      obtain ⟨c, hc, hreader⟩ := hreader
      unfold mainStep at hs
      rw [hreader, hup] at hs
      cases hs
      exact .during ⟨rfl, ⟨[], frames, c, rfl, hc, rfl⟩, by rw [hhandled]; exact nofun⟩
  | during h =>
      rcases h.main hs with ⟨h', -⟩ | hconn
      · exact .during h'
      · exact .after (.inl (by rw [hconn]; exact Nat.succ_ne_zero _))
  | after h =>
      obtain ⟨hgone, hconn⟩ := mainStep_conn hs
      have hne : s.reader.conn ≠ 0 := h.resolve_right fun h => by
        rw [hgone] at h
        cases h.2
      refine .after (.inl ?_)
      rcases hconn with hconn | hconn
      · rwa [hconn]
      · rw [hconn]
        exact Nat.succ_ne_zero _

theorem work (h : s.Online frames later) (hs : s.workStep xerces = some s') :
    s'.Online frames later := by
  cases h with
  | before _ _ _ hqueue hwork =>
      rw [workStep_idle hqueue hwork] at hs
      cases hs
  | during h => exact .during (h.work hs)
  | after h =>
      obtain ⟨hreader, hup, -⟩ := (workStep_cases hs).handled
      rw [← hreader, ← hup] at h
      exact .after h

theorem quiet (h : s.Online frames later) (hreader : s'.reader = s.reader)
    (hup : s'.connected = s.connected) (hhandled : s'.handled = s.handled)
    (hqueue : s'.workQueue = s.workQueue) (hwork : s'.work.xml? = s.work.xml?) :
    s'.Online frames later := by
  cases h with
  | before hup' hreader' hhandled' hqueue' hwork' =>
      rw [← hreader] at hreader'
      exact .before (hup.trans hup') hreader' (hhandled.trans hhandled') (hqueue.trans hqueue')
        (hwork.trans hwork')
  | during h => exact .during (h.quiet hreader hup hhandled)
  | after h =>
      rw [← hreader, ← hup] at h
      exact .after h

theorem hc (h : s.Online frames later) (hs : s.hcStep = some s') : s'.Online frames later := by
  rcases hcStep_cases hs with ⟨request, hcQueue, -, -, rfl⟩ | ⟨request, -, rfl⟩
  · exact h.quiet rfl rfl rfl rfl rfl
  · exact h.quiet rfl rfl rfl rfl rfl

theorem db (h : s.Online frames later) (hs : s.dbStep env = some s') : s'.Online frames later := by
  obtain ⟨record, queue, -, rfl⟩ := dbStep_cases hs
  exact h.quiet rfl rfl rfl rfl rfl

theorem step (h : s.Online frames later) {thread : Thread}
    (hs : (receiving order xerces env).step thread s = some s') : s'.Online frames later := by
  cases thread with
  | main => exact h.main hs
  | stop =>
      obtain ⟨-, rfl⟩ := stopStep_cases hs
      exact .after (.inr ⟨rfl, rfl⟩)
  | work => exact h.work hs
  | workEnd =>
      obtain ⟨hw, -, rfl⟩ := endStep_cases hs
      exact h.quiet rfl rfl rfl rfl (by rw [hw]; rfl)
  | hc => exact h.hc hs
  | hcEnd =>
      obtain ⟨-, rfl⟩ := hcEndStep_cases hs
      exact h.quiet rfl rfl rfl rfl rfl
  | db => exact h.db hs
  | dbEnd =>
      obtain rfl := dbEndStep_cases hs
      exact h.quiet rfl rfl rfl rfl rfl

end Receiver.Online

theorem online_begun (hc : c.unread = frames.flatMap Frame.bytes) (world : World) :
    (Receiver.begun (c :: later) world).Online frames later :=
  .before rfl ⟨c, hc, rfl⟩ rfl rfl rfl

theorem online_of_reach (hc : c.unread = frames.flatMap Frame.bytes)
    (h : (receivingFrom order xerces env (c :: later) world).Reach Machine.always s) :
    s.Online frames later :=
  h.invariant (P := fun s => s.Online frames later) (fun _ hs => hs ▸ online_begun hc world)
    fun _ _ _ h _ hs => h.step hs

namespace Receiver.During

theorem handled_map (h : s.During frames later) :
    (s.handled.map Handled.xml).map WSaxXml.online = s.handled := by
  rw [List.map_map]
  exact (List.map_congr_left fun d hd => (h.handled d hd).symm).trans (List.map_id _)

/-- The frames that have been read. -/
theorem exists_past (h : s.During frames later) :
    ∃ past, past <+: frames ∧ (s.Finished → past = frames) ∧
      s.reader.events = reassembly 0 [] past := by
  obtain ⟨past, rest, c, hframes, hc, hreader⟩ := h.read
  refine ⟨past, hframes ▸ List.prefix_append past rest, fun hfinished => ?_, ?_⟩
  · have hunread : s.unread = c.unread := by rw [unread, hreader]; rfl
    rw [← hunread, hfinished.read] at hc
    cases rest with
    | nil => rw [← hframes, List.append_nil]
    | cons f rest =>
        have hpos := f.length_bytes_pos
        rw [(List.append_eq_nil_iff.mp hc.symm).1] at hpos
        exact absurd hpos (Nat.lt_irrefl 0)
  · rw [hreader]

/-- The requests the work thread is done with are the first ones on the connection. -/
theorem handled_isPrefix (h : s.During frames later) (hgrouped : s.Grouped xerces) :
    s.handled <+: (requests frames).map WSaxXml.online := by
  obtain ⟨past, hpast, -, hevents⟩ := h.exists_past
  rw [← h.handled_map]
  refine List.IsPrefix.map _ (List.IsPrefix.trans ?_ (requests_mono hpast))
  rw [← saxXml_reassembly, ← hevents, hgrouped.messages, List.append_assoc]
  exact List.prefix_append _ _

/-- They are all of them when nothing is left to do. -/
theorem handled_eq (h : s.During frames later) (hgrouped : s.Grouped xerces)
    (hfinished : s.Finished) : s.handled = (requests frames).map WSaxXml.online := by
  obtain ⟨past, -, hall, hevents⟩ := h.exists_past
  have hmessages := hgrouped.messages
  rw [hevents, saxXml_reassembly, hall hfinished, (Work.idle hfinished.work).1,
    hfinished.workQueue, List.append_nil, Option.toList_none, List.append_nil] at hmessages
  rw [hmessages, h.handled_map]

end Receiver.During

theorem during_of_reach (hc : c.unread = frames.flatMap Frame.bytes)
    (h : (receivingFrom order xerces env (c :: later) world).Reach Machine.always s)
    (hup : s.connected = true) (hconn : s.reader.conn = 0) : s.During frames later := by
  cases online_of_reach hc h with
  | before hup' =>
      rw [hup] at hup'
      cases hup'
  | during h => exact h
  | after h =>
      rcases h with h | ⟨hup', -⟩
      · exact absurd hconn h
      · rw [hup] at hup'
        cases hup'

/-- **From the bytes to the rows.**  While the first connection is up and no call on the database
raises, the table is that of the first messages on the connection, in whatever segments the bytes
arrive and whatever the order of the threads; and of all of them when nothing is left to do. -/
theorem receiving_rows (hc : c.unread = frames.flatMap Frame.bytes) (hworld : world.Idle)
    (hsound : world.Sound ∧ world.skip = false)
    (h : (receivingFrom order xerces env (c :: later) world).Reach Machine.always s)
    (hup : s.connected = true) (hconn : s.reader.conn = 0) :
    ∃ entered, entered <+: delivered xerces frames ∧
      s.db.world.committed = entered.foldl (tableAfter env) world.committed ∧
      (s.Finished → entered = delivered xerces frames) := by
  have hduring := during_of_reach hc h hup hconn
  obtain ⟨t, w, part, ht, henters, htable, -⟩ := exists_registry hworld h
  have hwhole := ht.mono (D := fun e t => e.Whole env t) fun e t h => h hsound
  refine ⟨t.messages, ?_, ?_, fun hfinished => ?_⟩
  · exact henters.messages_prefix.trans
      (goodMessages_mono (hduring.handled_isPrefix henters.grouped))
  · rw [htable, registry_table hwhole]
  · rw [henters.messages_eq hfinished.queue (Work.idle hfinished.work).2,
      hduring.handled_eq henters.grouped hfinished]
    rfl

end

theorem unread_workMessage :
    Conn.unread ⟨[workMessage], .eof⟩ = [workFrame].flatMap Frame.bytes := by decide

/-- A message is read, parsed and run. -/
theorem receiving_rows_workMessage :
    ∃ s, (receivingFrom .big oneEquipInfo plainEnv [⟨[workMessage], .eof⟩] (idleWorld [])).Reach
        Machine.always s ∧ s.Finished ∧
      s.db.world.committed =
        (delivered oneEquipInfo [workFrame]).foldl (tableAfter plainEnv) [] := by
  obtain ⟨s, hs, ⟨hup, hconn, hread⟩, ⟨hworkQueue, hwork, hqueue⟩, -, -, -⟩ := workMessage_run
  have hfinished : s.Finished := ⟨hread, hworkQueue, hwork, hqueue⟩
  obtain ⟨entered, -, htable, hall⟩ :=
    receiving_rows unread_workMessage (idle_idleWorld []) ⟨nofun, rfl⟩ hs hup hconn
  rw [hall hfinished] at htable
  exact ⟨s, hs, hfinished, htable⟩

/-! ### The end of the work -/

section

variable {order : ByteOrder} {xerces : Nat → Xerces} {env : Env} {frames : List (Frame order)}
  {dbMax : Nat} {c : Conn} {later : List Conn} {world : World} {s s' : Receiver}

/-- The steps with which the threads go on; the other ones leave a loop. -/
def Thread.goesOn : Thread → Bool
  | main | work | hc | db => true
  | stop | workEnd | hcEnd | dbEnd => false

/-- `Put` waits: the queue of the database thread, which takes `dbMax` records if that is not `0`,
is full. -/
def Receiver.Full (dbMax : Nat) (s : Receiver) : Prop :=
  dbMax ≠ 0 ∧ s.db.queue.length = dbMax ∧ s.work.pending ≠ []

/-- A step with which a thread goes on, and which does not break the connection off. -/
def Receiver.Goes (order : ByteOrder) (xerces : Nat → Xerces) (env : Env) (dbMax : Nat)
    (s s' : Receiver) : Prop :=
  (∃ thread : Thread, thread.goesOn = true ∧ (thread = .work → ¬ s.Full dbMax) ∧
    (receiving order xerces env).step thread s = some s') ∧ s'.reader.conn = s.reader.conn

/-- What the work thread has still to do with its message: the phase, and the steps in it. -/
def Work.rank : Work → Nat ×ₗ Nat
  | parsing _ _ events => toLex (3, events.length)
  | notifying _ records _ => toLex (2, records.length)
  | answering _ => toLex (1, 0)
  | waiting | ended => toLex (0, 0)

/-- What the threads have still to do: to read, to parse and pass on, and to run or answer.  Each
of them makes work for the later ones only. -/
def Receiver.left (s : Receiver) : Nat ×ₗ (Nat ×ₗ (Nat ×ₗ Nat)) ×ₗ Nat :=
  toLex (s.unread.length, toLex (toLex (s.workQueue.length, s.work.rank),
    s.db.queue.length + 2 * s.hcQueue.length + s.hc.toList.length))

theorem WorkStep.lowers (h : WorkStep xerces s s') :
    toLex (s'.workQueue.length, s'.work.rank) < toLex (s.workQueue.length, s.work.rank) := by
  have hphase {a a' n n' : Nat} {workQueue : List WSaxXml} (ha : a < a') :
      toLex (workQueue.length, toLex (a, n)) < toLex (workQueue.length, toLex (a', n')) :=
    .right _ (.left _ _ ha)
  have hcount {a n : Nat} {workQueue : List WSaxXml} :
      toLex (workQueue.length, toLex (a, n)) < toLex (workQueue.length, toLex (a, n + 1)) :=
    .right _ (.right _ (Nat.lt_succ_self n))
  cases h with
  | begin hw hq hc =>
      rw [hq]
      exact .left _ _ (Nat.lt_succ_self _)
  | drop hw hq hc =>
      rw [hq]
      exact .left _ _ (Nat.lt_succ_self _)
  | event hw he =>
      rw [hw]
      exact hcount
  | raise hw he =>
      rw [hw]
      exact hphase (by decide)
  | endDocument hw hc hup =>
      rw [hw]
      exact hphase (by decide)
  | skip hw hc =>
      rw [hw]
      exact hphase (by decide)
  | record hw =>
      rw [hw]
      exact hcount
  | last hw =>
      rw [hw]
      exact hphase (by decide)
  | none hw =>
      rw [hw]
      exact hphase (by decide)
  | answer hw =>
      rw [hw]
      exact hphase (by decide)

/-- **A step** stays within the connection, and leaves less to do. -/
theorem Receiver.During.goes (h : s.During frames later) (hs : s.Goes order xerces env dbMax s') :
    s'.During frames later ∧ s'.left < s.left := by
  obtain ⟨⟨thread, hgoes, -, hs⟩, hconn⟩ := hs
  cases thread with
  | main =>
      rcases h.main hs with ⟨h', hless⟩ | hnext
      · exact ⟨h', .left _ _ hless⟩
      · rw [hconn] at hnext
        exact absurd hnext (Nat.succ_ne_self _).symm
  | work =>
      have hcases := workStep_cases hs
      have hunread : s'.unread = s.unread := by rw [unread, hcases.handled.1, unread]
      refine ⟨h.work hs, ?_⟩
      rw [left, hunread]
      exact .right _ (.left _ _ hcases.lowers)
  | hc =>
      rcases hcStep_cases hs with ⟨request, hcQueue, -, hq, rfl⟩ | ⟨request, hhc, rfl⟩
      · refine ⟨h.quiet rfl rfl rfl, .right _ (.right _ ?_)⟩
        rw [hq, List.length_cons, Option.toList_some, List.length_singleton]
        dsimp only
        omega
      · refine ⟨h.quiet rfl rfl rfl, .right _ (.right _ ?_)⟩
        rw [hhc]
        exact Nat.lt_succ_self _
  | db =>
      obtain ⟨record, queue, hq, rfl⟩ := dbStep_cases hs
      refine ⟨h.quiet rfl rfl rfl, .right _ (.right _ ?_)⟩
      rw [hq, List.length_cons]
      dsimp only
      omega
  | stop | workEnd | hcEnd | dbEnd => cases hgoes

/-- A work thread that has nothing to do waits for a message. -/
theorem Receiver.workStep_eq_none (h : s.workStep xerces = none) (hwork : s.work ≠ .ended) :
    s.work = .waiting ∧ s.workQueue = [] := by
  unfold workStep at h
  cases hw : s.work with
  | waiting =>
      rw [hw] at h
      cases hq : s.workQueue with
      | nil => exact ⟨rfl, rfl⟩
      | cons xml workQueue =>
          rw [hq] at h
          dsimp only at h
          split at h <;> cases h
  | parsing xml handler events =>
      rw [hw] at h
      cases events <;> dsimp only at h <;> split at h <;> cases h
  | notifying xml records hasRecord =>
      rw [hw] at h
      cases records <;> cases hasRecord <;> cases h
  | answering xml =>
      rw [hw] at h
      cases h
  | ended => exact absurd hw hwork

/-- **No thread waits for another one**: if none can go on, nothing is left to do. -/
theorem Receiver.During.finished (h : s.During frames later) (hwork : s.work ≠ .ended)
    (hhcEnded : s.hcEnded = false) (hdbEnded : s.dbEnded = false)
    (hstuck : ∀ s', ¬ s.Goes order xerces env dbMax s') :
    s.Finished ∧ s.hc = none ∧ s.hcQueue = [] := by
  have hnone (thread : Thread) (hgoes : thread.goesOn = true)
      (hfull : thread = .work → ¬ s.Full dbMax)
      (hconn : ∀ s' ∈ (receiving order xerces env).step thread s, s'.reader.conn = s.reader.conn) :
      (receiving order xerces env).step thread s = none := by
    refine Option.eq_none_iff_forall_ne_some.mpr fun s' hs => ?_
    exact hstuck s' ⟨⟨thread, hgoes, hfull, hs⟩, hconn s' hs⟩
  have hhc : s.hcStep = none := hnone .hc rfl nofun fun s' hs => by
    rcases hcStep_cases hs with ⟨request, hcQueue, -, -, rfl⟩ | ⟨request, -, rfl⟩
    · rfl
    · rfl
  have hdb : s.dbStep env = none := hnone .db rfl nofun fun s' hs => by
    obtain ⟨record, queue, -, rfl⟩ := dbStep_cases hs
    rfl
  have hran : s.db.queue = [] := by
    rw [dbStep, hdbEnded] at hdb
    cases hq : s.db.queue with
    | nil => rfl
    | cons record queue =>
        rw [hq] at hdb
        cases hdb
  have hroom : ¬ s.Full dbMax := fun ⟨hmax, hfull, _⟩ => by
    rw [hran] at hfull
    exact hmax hfull.symm
  obtain ⟨hwaiting, hqueue⟩ := workStep_eq_none (hnone .work rfl (fun _ => hroom) fun s' hs =>
    congrArg Reader.conn (workStep_cases hs).handled.1) hwork
  have hread : s.unread = [] := by
    obtain ⟨past, rest, c, hframes, hc, hreader⟩ := h.read
    cases rest with
    | nil =>
        rw [unread, hreader]
        exact hc
    | cons f rest =>
        have hgone : s.reader.gone = false := by rw [hreader]
        have hconns : s.reader.conns = c :: later := by rw [hreader]
        obtain ⟨c', -, hstep⟩ :=
          mainStep_frame f (rest.flatMap Frame.bytes) h.up hgone hconns hc
        exact absurd ⟨⟨.main, rfl, nofun, hstep⟩, rfl⟩ (hstuck _)
  have hidle : s.hc = none ∧ s.hcQueue = [] := by
    unfold hcStep at hhc
    split at hhc
    · rename_i hended
      rw [hhcEnded] at hended
      cases hended
    · rename_i hnone hempty
      exact ⟨hnone, hempty⟩
    · cases hhc
    · cases hhc
  exact ⟨⟨hread, hqueue, by rw [hwaiting]; rfl, hran⟩, hidle⟩

/-- **The threads come to an end.**  From any state of the first connection in which no thread has
left its loop, the threads go on for finitely many steps only, in any order, until the connection
breaks off; and if they cannot go on, nothing is left to do, whatever number of records the queue of
the database thread takes. -/
theorem receiving_finishes (hc : c.unread = frames.flatMap Frame.bytes)
    (h : (receivingFrom order xerces env (c :: later) world).Reach Machine.always s)
    (hup : s.connected = true) (hconn : s.reader.conn = 0) (hwork : s.work ≠ .ended)
    (hhcEnded : s.hcEnded = false) (hdbEnded : s.dbEnded = false) :
    (¬ ∃ run : Nat → Receiver, run 0 = s ∧
        ∀ n, (run n).Goes order xerces env dbMax (run (n + 1))) ∧
      ((∀ s', ¬ s.Goes order xerces env dbMax s') →
        s.Finished ∧ s.hc = none ∧ s.hcQueue = []) := by
  have hduring := during_of_reach hc h hup hconn
  exact ⟨Machine.not_exists_run Receiver.left (fun _ _ h hs => h.goes hs) hduring,
    hduring.finished hwork hhcEnded hdbEnded⟩

end

/-- The frame of the message is to be read. -/
theorem receiving_finishes_workMessage :
    ∃ s, (receivingFrom .big oneEquipInfo plainEnv [⟨[workMessage], .eof⟩] (idleWorld [])).Reach
        Machine.always s ∧ s.unread = workFrame.bytes ∧
      ¬ ∃ run : Nat → Receiver, run 0 = s ∧
        ∀ n, (run n).Goes .big oneEquipInfo plainEnv 1 (run (n + 1)) := by
  let s : Receiver := .begun [⟨[workMessage], .eof⟩] (idleWorld [])
  have hs : (receivingFrom .big oneEquipInfo plainEnv [⟨[workMessage], .eof⟩]
      (idleWorld [])).Reach Machine.always { s with connected := true } :=
    (Machine.Reach.start rfl).step (a := .main) trivial rfl
  exact ⟨_, hs, rfl, (receiving_finishes unread_workMessage hs rfl rfl nofun rfl rfl).1⟩

end Realwork.Receive
