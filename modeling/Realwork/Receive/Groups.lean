import Realwork.Receive.Threads

/-!
# Receive — what the database thread sees

The records of a message reach the database thread as a group: the records of all its
`equipInfo`s, and one end record.

* `Receiver.Grouped`: the invariant of the notified records.
* `receiving_groups`: they are a concatenation of groups, one for each message that is parsed to
  its end, and the maps of the database thread are empty before each of them.
-/

namespace Realwork.Receive

open Realwork.Lib Receiver

namespace Handled

variable (xerces : Nat → Xerces)

/-- The calls the parser has for the message. -/
def events (d : Handled) : List Sax := (d.xml.parsed xerces).events

/-- The message is parsed to its end while there is a connection, with every tag present, and
has an `equipInfo`. -/
def Good (d : Handled) : Prop :=
  (d.begun = true ∧ d.up = true) ∧ (d.xml.parsed xerces).complete = true ∧
    Tagged (closed (d.events xerces)) ∧ lit "equipInfo" ∈ closed (d.events xerces)

instance : DecidablePred (Good xerces) := fun d =>
  inferInstanceAs (Decidable ((d.begun = true ∧ d.up = true) ∧
    (d.xml.parsed xerces).complete = true ∧ Tagged (closed (d.events xerces)) ∧
    lit "equipInfo" ∈ closed (d.events xerces)))

/-- The records of the message. -/
def records (d : Handled) : List WRecord :=
  match WSax2Handler.run {} (d.events xerces) with
  | .ok handler => handler.tmpRecordList
  | .error _ => []

variable {xerces : Nat → Xerces}

theorem records_of_run {d : Handled} {handler : WSax2Handler}
    (h : WSax2Handler.run {} (d.events xerces) = .ok handler) :
    d.records xerces = handler.tmpRecordList := by
  unfold records
  rw [h]

/-- A message whose document the handler gets through is good if it has records, and there is a
connection before and after. -/
theorem good_iff_of_run {d : Handled} {handler : WSax2Handler}
    (h : WSax2Handler.run {} (d.events xerces) = .ok handler) :
    d.Good xerces ↔ (d.begun = true ∧ d.up = true) ∧ (d.xml.parsed xerces).complete = true ∧
      handler.tmpRecordList ≠ [] := by
  have htagged : Tagged (closed (d.events xerces)) := (run_ok_iff _).mp ⟨handler, h⟩
  have hequip : lit "equipInfo" ∈ closed (d.events xerces) ↔ handler.tmpRecordList ≠ [] := by
    rw [← List.count_pos_iff, ← (run_records h).1, List.length_pos_iff]
  unfold Good
  rw [hequip]
  exact and_congr_right fun _ => and_congr_right fun _ => and_iff_right htagged

theorem not_good_of_raise {d : Handled} {message : Str}
    (h : WSax2Handler.run {} (d.events xerces) = .error message) : ¬ d.Good xerces := by
  rintro ⟨-, -, htagged, -⟩
  obtain ⟨handler, hok⟩ := (run_ok_iff _).mpr htagged
  rw [h] at hok
  cases hok

/-- The records of a good message are content records, one for each `equipInfo`. -/
theorem Good.records {d : Handled} (h : d.Good xerces) :
    (d.records xerces).length = (closed (d.events xerces)).count (lit "equipInfo") ∧
      0 < (d.records xerces).length ∧ ∀ r ∈ d.records xerces, r.isEnd = false := by
  obtain ⟨-, -, htagged, hequip⟩ := h
  obtain ⟨handler, hrun⟩ := (run_ok_iff _).mpr htagged
  obtain ⟨hlen, hcontent⟩ := run_records hrun
  rw [records_of_run hrun]
  exact ⟨hlen, hlen ▸ List.count_pos_iff.mpr hequip, hcontent⟩

end Handled

/-- The groups of the good messages, one after the other. -/
def groups (xerces : Nat → Xerces) (handled : List Handled) : List WRecord :=
  ((handled.filter (Handled.Good xerces)).map (Handled.records xerces)).flatMap (· ++ [endRecord])

section

variable {xerces : Nat → Xerces} {handled : List Handled} {d : Handled}

theorem groups_append_good (h : d.Good xerces) :
    groups xerces (handled ++ [d]) =
      groups xerces handled ++ (d.records xerces ++ [endRecord]) := by
  simp [groups, List.filter_append, h]

theorem groups_append_other (h : ¬ d.Good xerces) :
    groups xerces (handled ++ [d]) = groups xerces handled := by
  simp [groups, List.filter_append, h]

end

/-- The next event of the database thread is the first of a group. -/
def DbThread.AtGroup (db : DbThread) : Prop := ∀ r ∈ db.ran.getLast?, r.isEnd = true

/-- The invariant of the notified records. -/
structure Receiver.Grouped (xerces : Nat → Xerces) (s : Receiver) : Prop where
  notified : s.notified.map Notified.record ++ s.work.pending = groups xerces s.handled
  parsing : ∀ xml handler events, s.work = .parsing xml handler events →
    ∃ past, (xml.parsed xerces).events = past ++ events ∧
      WSax2Handler.run {} past = .ok handler
  queue : s.notified.map Notified.record = s.db.ran ++ s.db.queue
  maps : s.db.AtGroup → s.db.world.xmlMap = ∅ ∧ s.db.world.dbMap = ∅
  messages : s.reader.events.filterMap Event.saxXml? =
    s.handled.map Handled.xml ++ s.work.open?.toList ++ s.workQueue

/-- The end record clears the maps, whatever becomes of its transaction. -/
theorem reached_run_end (env : Env) {e : WRecord} (he : e.isEnd = true) (w : World) :
    (reached ((e.run env).run w)).xmlMap = ∅ ∧ (reached ((e.run env).run w)).dbMap = ∅ := by
  have hends : Ends (e.run env) w (fun _ w' => w'.xmlMap = ∅ ∧ w'.dbMap = ∅)
      fun _ _ => False := by
    refine ends_bind.mpr (ends_get.mpr ?_)
    rw [if_pos he]
    refine ends_bind.mpr
      ((ends_until_executed env _ (Nat.lt_succ_self _)).mono ?_ fun _ _ h => h)
    rintro - w' -
    exact ends_modify.mpr ⟨rfl, rfl⟩
  obtain ⟨⟨⟩, w', hrun, hmaps⟩ := hends.returns
  rw [hrun]
  exact hmaps

namespace Receiver.Grouped

variable {order : ByteOrder} {xerces : Nat → Xerces} {env : Env} {s s' : Receiver}

theorem main (h : s.Grouped xerces) (hs : s.mainStep order = some s') : s'.Grouped xerces := by
  rcases mainStep_cases hs with ⟨-, rfl⟩ | ⟨-, -, reader, hevents, rfl⟩ |
    ⟨-, reader, new, -, hevents, -, rfl⟩
  · exact { h with }
  · exact { h with messages := by rw [hevents]; exact h.messages }
  · refine { h with messages := ?_ }
    rw [hevents, List.filterMap_append, h.messages, List.append_assoc]

theorem hc (h : s.Grouped xerces) (hs : s.hcStep = some s') : s'.Grouped xerces := by
  rcases hcStep_cases hs with ⟨request, hcQueue, -, -, rfl⟩ | ⟨request, -, rfl⟩
  · exact { h with }
  · exact { h with }

theorem db (h : s.Grouped xerces) (hs : s.dbStep env = some s') : s'.Grouped xerces := by
  obtain ⟨record, queue, hq, rfl⟩ := dbStep_cases hs
  refine { h with queue := ?_, maps := fun hat => ?_ }
  · rw [h.queue, hq, List.append_assoc]
    rfl
  · exact reached_run_end env (hat record (by simp)) s.db.world

/-- The work thread goes on without a notification. -/
theorem quiet (h : s.Grouped xerces) {work : Work} {handled : List Handled}
    {workQueue : List WSaxXml} (hp : s.notified.map Notified.record ++ work.pending =
      groups xerces handled)
    (hparsing : ∀ xml handler events, work = .parsing xml handler events →
      ∃ past, (xml.parsed xerces).events = past ++ events ∧
        WSax2Handler.run {} past = .ok handler)
    (hm : handled.map Handled.xml ++ work.open?.toList ++ workQueue =
      s.handled.map Handled.xml ++ s.work.open?.toList ++ s.workQueue) :
    Receiver.Grouped xerces { s with work, handled, workQueue } where
  notified := hp
  parsing := hparsing
  queue := h.queue
  maps := h.maps
  messages := h.messages.trans hm.symm

/-- The work thread notifies a record. -/
theorem notify (h : s.Grouped xerces) {work : Work} {record : WRecord} (xml : WSaxXml)
    (hp : s.work.pending = record :: work.pending) (ho : s.work.open? = none)
    (ho' : work.open? = none) : (s.notifyDb xml record work).Grouped xerces where
  notified := by
    simpa [notifyDb, hp] using h.notified
  parsing xml handler events hw := by
    subst hw
    cases ho'
  queue := by
    simp [notifyDb, h.queue]
  maps := h.maps
  messages := by
    simpa [notifyDb, ho, ho'] using h.messages

/-- The parse of a message ends: its group is what the thread goes on to notify. -/
theorem ended (h : s.Grouped xerces) {xml : WSaxXml} {handler : WSax2Handler} {rest : List Sax}
    (hw : s.work = .parsing xml handler rest) {work : Work} (ho : work.open? = none)
    (hgroup : work.pending = if Handled.Good xerces ⟨xml, true, s.connected⟩ then
      Handled.records xerces ⟨xml, true, s.connected⟩ ++ [endRecord] else []) :
    (s.parseEnded xml work).Grouped xerces := by
  have hnotified := h.notified
  rw [hw] at hnotified
  refine h.quiet ?_ ?_ ?_
  · rw [hgroup]
    split
    · rename_i hgood
      rw [groups_append_good hgood, ← hnotified]
      simp [Work.pending]
    · rename_i hgood
      rw [groups_append_other hgood, ← hnotified]
      simp [Work.pending]
  · rintro xml handler events rfl
    cases ho
  · rw [hw, ho]
    simp [Work.open?]

theorem work (h : s.Grouped xerces) (hs : s.workStep xerces = some s') : s'.Grouped xerces := by
  cases workStep_cases hs with
  | @begin xml workQueue hw hq hc =>
      refine h.quiet ?_ ?_ ?_
      · rw [← h.notified, hw]
        rfl
      · rintro xml handler events ⟨⟩
        exact ⟨[], rfl, rfl⟩
      · rw [hw, hq]
        simp [Work.open?]
  | @drop xml workQueue hw hq hc =>
      have hgood : ¬ Handled.Good xerces ⟨xml, false, false⟩ := fun hg => Bool.false_ne_true hg.1.1
      refine h.quiet ?_ ?_ ?_
      · rw [groups_append_other hgood, ← h.notified, hw]
        rfl
      · rintro xml handler events ⟨⟩
      · rw [hw, hq]
        simp [Work.open?]
  | @event xml handler event events handler' hw he =>
      refine h.quiet ?_ ?_ ?_
      · rw [← h.notified, hw]
        rfl
      · rintro xml handler events ⟨⟩
        obtain ⟨past, hevents, hrun⟩ := h.parsing _ _ _ hw
        refine ⟨past ++ [event], by simp [hevents], ?_⟩
        rw [WSax2Handler.run_append, hrun]
        exact (WSax2Handler.run_cons _ _ _).trans (by rw [he]; rfl)
      · rw [hw]
        rfl
  | @raise xml handler event events message hw he =>
      obtain ⟨past, hevents, hrun⟩ := h.parsing _ _ _ hw
      have hraise : WSax2Handler.run {} (Handled.events xerces ⟨xml, true, s.connected⟩) =
          .error message := by
        rw [Handled.events, hevents, WSax2Handler.run_append, hrun]
        exact (WSax2Handler.run_cons _ _ _).trans (by rw [he]; rfl)
      exact h.ended hw rfl (if_neg (Handled.not_good_of_raise hraise)).symm
  | @endDocument xml handler hw hc hup =>
      obtain ⟨past, hevents, hrun⟩ := h.parsing _ _ _ hw
      have hwhole : WSax2Handler.run {} (Handled.events xerces ⟨xml, true, s.connected⟩) =
          .ok handler := by
        rw [Handled.events, hevents, List.append_nil]
        exact hrun
      refine h.ended hw rfl ?_
      have hgood := Handled.good_iff_of_run hwhole
      rw [Handled.records_of_run hwhole]
      cases hl : handler.tmpRecordList with
      | nil => rw [if_neg fun hg => (hgood.mp hg).2.2 hl]; rfl
      | cons r rs => rw [if_pos (hgood.mpr ⟨⟨rfl, hup⟩, hc, by simp [hl]⟩)]; rfl
  | @skip xml handler hw hc =>
      refine h.ended hw rfl (if_neg fun hgood => hc ?_).symm
      exact ⟨hgood.2.1, hgood.1.2⟩
  | @record xml record records hasRecord hw =>
      exact h.notify xml (by rw [hw]; cases records <;> rfl) (by rw [hw]; rfl) rfl
  | @last xml hw =>
      exact h.notify xml (by rw [hw]; rfl) (by rw [hw]; rfl) rfl
  | @none xml hw =>
      refine h.quiet ?_ ?_ ?_
      · rw [← h.notified, hw]
        rfl
      · rintro xml handler events ⟨⟩
      · rw [hw]
        rfl
  | @answer xml hw =>
      have hquiet : Receiver.Grouped xerces { s with work := .waiting } := by
        refine h.quiet ?_ ?_ ?_
        · rw [← h.notified, hw]
          rfl
        · rintro xml handler events ⟨⟩
        · rw [hw]
          rfl
      exact { hquiet with }

theorem step (h : s.Grouped xerces) {thread : Thread}
    (hs : (receiving order xerces env).step thread s = some s') : s'.Grouped xerces := by
  cases thread with
  | main => exact h.main hs
  | stop =>
      obtain ⟨-, rfl⟩ := stopStep_cases hs
      exact { h with }
  | work => exact h.work hs
  | workEnd =>
      obtain ⟨hw, -, rfl⟩ := endStep_cases hs
      refine h.quiet ?_ ?_ ?_
      · rw [← h.notified, hw]
        rfl
      · rintro xml handler events ⟨⟩
      · rw [hw]
        rfl
  | hc => exact h.hc hs
  | hcEnd =>
      obtain ⟨-, rfl⟩ := hcEndStep_cases hs
      exact { h with }
  | db => exact h.db hs
  | dbEnd =>
      obtain rfl := dbEndStep_cases hs
      exact { h with }

end Receiver.Grouped

/-- **The database thread sees complete groups.**  In every run the notified records are the
groups of the messages that are parsed to their end while there is a connection, with every tag
present, except for those of the last group that the work thread has still to notify; no other
message notifies a record.  The database thread runs them in this order, and before the first
record of a group its maps are empty. -/
theorem receiving_groups {order : ByteOrder} {xerces : Nat → Xerces} {env : Env} {s : Receiver}
    (h : (receiving order xerces env).Reach Machine.always s) :
    s.notified.map Notified.record ++ s.work.pending = groups xerces s.handled ∧
      (∀ d ∈ s.handled, d.Good xerces → 0 < (d.records xerces).length ∧
        ∀ r ∈ d.records xerces, r.isEnd = false) ∧
      s.reader.events.filterMap Event.saxXml? =
        s.handled.map Handled.xml ++ s.work.open?.toList ++ s.workQueue ∧
      s.notified.map Notified.record = s.db.ran ++ s.db.queue ∧
      (s.db.AtGroup → s.db.world.xmlMap = ∅ ∧ s.db.world.dbMap = ∅) := by
  have hgrouped : s.Grouped xerces := by
    refine h.invariant (fun s hs => ?_) fun t s s' hs _ hstep => hs.step hstep
    obtain ⟨conns, world, hidle, rfl⟩ := hs
    refine ⟨rfl, ?_, rfl, fun _ => ⟨hidle.xmlMap, hidle.dbMap⟩, rfl⟩
    rintro xml handler events ⟨⟩
  exact ⟨hgrouped.notified, fun d _ hd => hd.records.2, hgrouped.messages, hgrouped.queue,
    hgrouped.maps⟩

/-- The program before its first connection. -/
def Receiver.idle (conns : List Conn) : Receiver :=
  ⟨.first conns, false, [], .waiting, [], [], none, [], [], ⟨[], [], idleWorld []⟩, false, false⟩

theorem start_idle {order : ByteOrder} {xerces : Nat → Xerces} {env : Env} (conns : List Conn) :
    (receiving order xerces env).start (.idle conns) :=
  ⟨conns, idleWorld [], idle_idleWorld [], rfl⟩

/-- A parser that finds one `equipInfo` with its tags in every text. -/
def oneEquipInfo : Nat → Xerces := fun _ _ =>
  ⟨(elements headFields ++ elements recordFields ++ [lit "equipInfo"]).map Sax.endElement, true⟩

/-- A message of one `equipInfo`, on a host of byte order `big`. -/
def workMessage : Str := [0, 31, 0, 0, 0x21, 0x01] ++ List.replicate 26 0 ++ [60]

/-- A message is read, parsed and answered, and its group is run. -/
theorem receiving_groups_workMessage :
    ∃ s, (receiving .big oneEquipInfo plainEnv).Reach Machine.always s ∧ s.db.ran.length = 2 ∧
      s.notified.map Notified.record ++ s.work.pending = groups oneEquipInfo s.handled := by
  obtain ⟨s, hs, hran⟩ := Machine.Reach.exists_of_exec (M := receiving .big oneEquipInfo plainEnv)
    (C := Machine.always) (P := fun s => s.db.ran.length = 2)
    ([.main, .main] ++ List.replicate 22 .work ++ [.db, .db])
    (.idle [⟨[workMessage], .eof⟩]) (start_idle _) (Machine.meets_always _ _ _)
    (by decide +kernel)
  exact ⟨s, hs, hran, (receiving_groups hs).1⟩

end Realwork.Receive
