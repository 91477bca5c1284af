import Mathlib.Data.List.Perm.Subperm
import Realwork.Receive.Delivery

/-!
# Receive — the responses

Every request on the first connection is answered once: by the work thread when it is done with a
message, by the HC thread for a frame that is not of a message.

* `Receiver.Answered`: the invariant of the responses.
* `receiving_answers`: no request is answered twice, and each is answered when nothing is left to
  do.
-/

namespace Realwork.Receive

open Realwork.Lib

/-- The response to a message, on the first connection. -/
def WSaxXml.reply (xml : WSaxXml) : Reply := ⟨xml.head, xml.conn, 0⟩

/-- The response to another request, on the first connection. -/
def HcRequest.reply (request : HcRequest) : Reply := ⟨request.head, request.conn, 0⟩

/-- The message the work thread has parsed and not answered yet. -/
def Work.owed : Work → List WSaxXml
  | notifying xml _ _ => [xml]
  | answering xml => [xml]
  | parsing _ _ _ | waiting | ended => []

theorem Work.owed_of_xml {work : Work} (h : work.xml? = none) : work.owed = [] := by
  cases work with
  | waiting => rfl
  | ended => rfl
  | parsing xml handler events => rfl
  | notifying xml records hasRecord => cases h
  | answering xml => cases h

namespace Receiver

/-- The responses to what the work thread has parsed and what the HC thread has been passed. -/
def due (s : Receiver) : List Reply :=
  (s.handled.map fun d => d.xml.reply) ++
    (s.reader.events.filterMap Event.hcRequest?).map HcRequest.reply

/-- Those of them that have not been written. -/
def owed (s : Receiver) : List Reply :=
  s.work.owed.map WSaxXml.reply ++ (s.hc.toList ++ s.hcQueue).map HcRequest.reply

/-- Each response that is due has been written, or is owed. -/
def Answered (s : Receiver) : Prop := s.due.Perm (s.replies ++ s.owed)

end Receiver

/-! ### One step -/

section

variable {order : ByteOrder} {xerces : Nat → Xerces} {env : Env} {frames : List (Frame order)}
  {c : Conn} {later : List Conn} {world : World} {s s' : Receiver}

namespace Receiver.Answered

/-- The parse of a message ends: its response is due, and owed. -/
theorem ended (h : s.Answered) {xml : WSaxXml} {work : Work} {workQueue : List WSaxXml}
    (begun up : Bool) (hw : s.work.owed = []) (hw' : work.owed = [xml]) :
    Receiver.Answered { s with
      workQueue, work, handled := s.handled ++ [⟨xml, begun, up⟩] } := by
  have hdue : Receiver.due { s with workQueue, work, handled := s.handled ++ [⟨xml, begun, up⟩] } =
      (s.handled.map fun d => d.xml.reply) ++
        xml.reply :: (s.reader.events.filterMap Event.hcRequest?).map HcRequest.reply := by
    simp [due]
  have howed : Receiver.owed { s with
      workQueue, work, handled := s.handled ++ [⟨xml, begun, up⟩] } = xml.reply :: s.owed := by
    simp [owed, hw, hw']
  rw [Answered, hdue, howed]
  exact List.perm_middle.trans ((List.Perm.cons _ h).trans List.perm_middle.symm)

theorem goOn (h : s.Answered) (hdue : s'.due = s.due) (hreplies : s'.replies = s.replies)
    (howed : s'.owed = s.owed) : s'.Answered := by
  rw [Answered, hdue, hreplies, howed]
  exact h

theorem main (h : s.Answered) (hs : s.mainStep order = some s') : s'.Answered := by
  rcases mainStep_cases hs with ⟨-, rfl⟩ | ⟨-, -, reader, hevents, rfl⟩ |
    ⟨-, reader, new, -, hevents, -, rfl⟩
  · exact h
  · exact h.goOn (by rw [due, due, hevents]) rfl rfl
  · have happend := List.Perm.append_right
      ((new.filterMap Event.hcRequest?).map HcRequest.reply) h
    simpa [Answered, due, owed, hevents] using happend

theorem work (h : s.Answered) (hup : s.owed ≠ [] → s.connected = true) (hconn : s.reader.conn = 0)
    (hs : s.workStep xerces = some s') : s'.Answered := by
  cases workStep_cases hs with
  | begin hw hq hc => exact h.goOn rfl rfl (by rw [owed, owed, hw]; rfl)
  | drop hw hq hc => exact h.ended false false (by rw [hw]; rfl) rfl
  | event hw he => exact h.goOn rfl rfl (by rw [owed, owed, hw]; rfl)
  | raise hw he => exact h.ended true _ (by rw [hw]; rfl) rfl
  | endDocument hw hc hup => exact h.ended true _ (by rw [hw]; rfl) rfl
  | skip hw hc => exact h.ended true _ (by rw [hw]; rfl) rfl
  | record hw => exact h.goOn rfl rfl (by rw [owed, owed, hw]; rfl)
  | last hw => exact h.goOn rfl rfl (by rw [owed, owed, hw]; rfl)
  | none hw => exact h.goOn rfl rfl (by rw [owed, owed, hw]; rfl)
  | @answer xml hw =>
      have howed : s.owed = xml.reply :: Receiver.owed { s with work := .waiting } := by
        rw [owed, hw]
        rfl
      have hwrite : s.connected = true := hup (by rw [howed]; exact List.cons_ne_nil _ _)
      have hreply : (s.writeResponse xml.conn xml.head).replies = s.replies ++ [xml.reply] := by
        rw [writeResponse, if_pos hwrite, hconn]
        rfl
      change s.due.Perm ((s.writeResponse xml.conn xml.head).replies ++
        Receiver.owed { s with work := .waiting })
      rw [hreply, List.append_assoc, List.singleton_append, ← howed]
      exact h

theorem hc (h : s.Answered) (hup : s.owed ≠ [] → s.connected = true) (hconn : s.reader.conn = 0)
    (hs : s.hcStep = some s') : s'.Answered := by
  rcases hcStep_cases hs with ⟨request, hcQueue, hhc, hq, rfl⟩ | ⟨request, hhc, rfl⟩
  · exact h.goOn rfl rfl (by rw [owed, owed, hhc, hq]; rfl)
  · have howed : s.owed = s.work.owed.map WSaxXml.reply ++
        request.reply :: s.hcQueue.map HcRequest.reply := by
      rw [owed, hhc]
      rfl
    have hwrite : s.connected = true := hup (by rw [howed]; simp)
    have hreply : (s.writeResponse request.conn request.head).replies =
        s.replies ++ [request.reply] := by
      rw [writeResponse, if_pos hwrite, hconn]
      rfl
    change s.due.Perm ((s.writeResponse request.conn request.head).replies ++
      (s.work.owed.map WSaxXml.reply ++ s.hcQueue.map HcRequest.reply))
    rw [hreply, List.append_assoc, List.singleton_append]
    have hmiddle : s.owed.Perm (request.reply :: (s.work.owed.map WSaxXml.reply ++
        s.hcQueue.map HcRequest.reply)) := howed ▸ List.perm_middle
    exact List.Perm.trans h (hmiddle.append_left _)

/-- **A step**, of any thread, while a response that is owed can be written. -/
theorem step (h : s.Answered) (hup : s.owed ≠ [] → s.connected = true) (hconn : s.reader.conn = 0)
    {thread : Thread} (hs : (receiving order xerces env).step thread s = some s') :
    s'.Answered := by
  cases thread with
  | main => exact h.main hs
  | stop =>
      obtain ⟨-, rfl⟩ := stopStep_cases hs
      exact h
  | work => exact h.work hup hconn hs
  | workEnd =>
      obtain ⟨hw, -, rfl⟩ := endStep_cases hs
      exact h.goOn rfl rfl (by rw [owed, owed, hw]; rfl)
  | hc => exact h.hc hup hconn hs
  | hcEnd =>
      obtain ⟨-, rfl⟩ := hcEndStep_cases hs
      exact h
  | db =>
      obtain ⟨record, queue, -, rfl⟩ := dbStep_cases hs
      exact h
  | dbEnd =>
      obtain rfl := dbEndStep_cases hs
      exact h

end Receiver.Answered

/-! ### The first connection -/

/-- The program does not come back to its first connection. -/
theorem Receiver.first_of_step {thread : Thread}
    (hs : (receiving order xerces env).step thread s = some s') (hconn : s'.reader.conn = 0)
    (hgone : s'.reader.gone = false) : s.reader.conn = 0 ∧ s.reader.gone = false := by
  cases thread with
  | main =>
      obtain ⟨hgone, hnext | hnext⟩ := mainStep_conn hs
      · exact ⟨hnext.symm.trans hconn, hgone⟩
      · rw [hconn] at hnext
        cases hnext
  | stop =>
      obtain ⟨-, rfl⟩ := stopStep_cases hs
      cases hgone
  | work =>
      rw [(workStep_cases hs).handled.1] at hconn hgone
      exact ⟨hconn, hgone⟩
  | workEnd =>
      obtain ⟨-, -, rfl⟩ := endStep_cases hs
      exact ⟨hconn, hgone⟩
  | hc =>
      rcases hcStep_cases hs with ⟨request, hcQueue, -, -, rfl⟩ | ⟨request, -, rfl⟩
      · exact ⟨hconn, hgone⟩
      · exact ⟨hconn, hgone⟩
  | hcEnd =>
      obtain ⟨-, rfl⟩ := hcEndStep_cases hs
      exact ⟨hconn, hgone⟩
  | db =>
      obtain ⟨record, queue, -, rfl⟩ := dbStep_cases hs
      exact ⟨hconn, hgone⟩
  | dbEnd =>
      obtain rfl := dbEndStep_cases hs
      exact ⟨hconn, hgone⟩

/-- Before the first connection nothing is owed. -/
theorem Receiver.Online.connected (h : s.Online frames later) (hanswered : s.Answered)
    (hconn : s.reader.conn = 0) (hgone : s.reader.gone = false) (howed : s.owed ≠ []) :
    s.connected = true := by
  cases h with
  | before _ hreader hhandled _ _ =>
      obtain ⟨c, -, hreader⟩ := hreader
      have hdue : s.due = [] := by
        rw [due, hhandled, hreader]
        rfl
      have hnil : [].Perm (s.replies ++ s.owed) := hdue ▸ hanswered
      exact absurd (List.append_eq_nil_iff.mp hnil.nil_eq.symm).2 howed
  | during h => exact h.up
  | after h =>
      rcases h with h | ⟨-, hgone'⟩
      · exact absurd hconn h
      · rw [hgone] at hgone'
        cases hgone'

theorem answered_of_reach (hc : c.unread = frames.flatMap Frame.bytes)
    (h : (receivingFrom order xerces env (c :: later) world).Reach Machine.always s)
    (hconn : s.reader.conn = 0) (hgone : s.reader.gone = false) : s.Answered := by
  have hboth : s.Online frames later ∧
      (s.reader.conn = 0 → s.reader.gone = false → s.Answered) := by
    refine h.invariant (P := fun s => s.Online frames later ∧
      (s.reader.conn = 0 → s.reader.gone = false → s.Answered)) (fun s hs => ?_)
      fun thread s s' hP _ hs => ?_
    · cases hs
      exact ⟨online_begun hc world, fun _ _ => List.Perm.refl _⟩
    · obtain ⟨honline, hanswered⟩ := hP
      refine ⟨honline.step hs, fun hconn hgone => ?_⟩
      obtain ⟨hconn, hgone⟩ := Receiver.first_of_step hs hconn hgone
      have h := hanswered hconn hgone
      exact h.step (honline.connected h hconn hgone) hconn hs
  exact hboth.2 hconn hgone

/-- The requests of the frames that are not of a message. -/
def hcRequests (frames : List (Frame order)) : List HcRequest :=
  (frames.filter fun f => ¬ f.IsWork).map fun f => ⟨0, f.whead⟩

/-- The responses to all requests on the first connection. -/
def responses (frames : List (Frame order)) : List Reply :=
  (requests frames).map WSaxXml.reply ++ (hcRequests frames).map HcRequest.reply

theorem hcRequest_reassembly (frames : List (Frame order)) :
    (reassembly 0 [] frames).filterMap Event.hcRequest? = hcRequests frames := by
  have hhc (e : Event) (he : e ∈ reassembly 0 [] frames) :
      e.hcRequest? = e.effect.hc?.map fun head => ⟨0, head⟩ := by
    rw [Event.hcRequest?, conn_of_mem_reassembly he]
    cases e.effect <;> rfl
  rw [List.filterMap_congr hhc, ← List.map_filterMap, hc_reassembly, List.map_map]
  rfl

theorem hcRequests_mono {past frames : List (Frame order)} (h : past <+: frames) :
    hcRequests past <+: hcRequests frames :=
  (h.filter _).map _

theorem map_reply_online (frames : List (Frame order)) :
    ((requests frames).map WSaxXml.online).map (fun d => d.xml.reply) =
      (requests frames).map WSaxXml.reply := List.map_map

/-- What is due are responses to requests on the connection, and to all of them when nothing is
left to do. -/
theorem Receiver.During.due (h : s.During frames later) (hgrouped : s.Grouped xerces) :
    s.due.Sublist (responses frames) ∧ (s.Finished → s.due = responses frames) := by
  obtain ⟨past, hpast, hall, hevents⟩ := h.exists_past
  refine ⟨?_, fun hfinished => ?_⟩
  · rw [Receiver.due, responses, ← map_reply_online, hevents, hcRequest_reassembly]
    exact ((h.handled_isPrefix hgrouped).map _).sublist.append
      ((hcRequests_mono hpast).map _).sublist
  · rw [Receiver.due, responses, ← map_reply_online, hevents, hcRequest_reassembly,
      hall hfinished, h.handled_eq hgrouped hfinished]

/-- **Every request is answered once.**  While the first connection is up, the responses written
are responses to requests on it, to no request twice, in whatever segments the bytes arrive and
whatever the order of the threads; and every request has been answered when nothing is left to
do. -/
theorem receiving_answers (hc : c.unread = frames.flatMap Frame.bytes) (hworld : world.Idle)
    (h : (receivingFrom order xerces env (c :: later) world).Reach Machine.always s)
    (hup : s.connected = true) (hconn : s.reader.conn = 0) :
    s.replies.Subperm (responses frames) ∧
      (s.Finished → s.hc = none → s.hcQueue = [] → s.replies.Perm (responses frames)) := by
  have hduring := during_of_reach hc h hup hconn
  have hgone : s.reader.gone = false := by
    obtain ⟨past, rest, c, -, -, hreader⟩ := hduring.read
    rw [hreader]
  have hanswered : s.due.Perm (s.replies ++ s.owed) := answered_of_reach hc h hconn hgone
  obtain ⟨t, w, part, -, henters, -⟩ := exists_registry hworld h
  obtain ⟨hsublist, hall⟩ := hduring.due henters.grouped
  refine ⟨?_, fun hfinished hhc hqueue => ?_⟩
  · have hwritten : s.replies.Subperm s.due :=
      (List.sublist_append_left s.replies s.owed).subperm.trans hanswered.symm.subperm
    exact hwritten.trans hsublist.subperm
  · have howed : s.owed = [] := by
      rw [Receiver.owed, hhc, hqueue, Work.owed_of_xml hfinished.work]
      rfl
    rw [howed, List.append_nil, hall hfinished] at hanswered
    exact hanswered.symm

end

/-- A message is read, parsed and answered. -/
theorem receiving_answers_workMessage :
    ∃ s, (receivingFrom .big oneEquipInfo plainEnv [⟨[workMessage], .eof⟩] (idleWorld [])).Reach
        Machine.always s ∧ s.Finished ∧ s.replies = [⟨workFrame.whead, 0, 0⟩] := by
  obtain ⟨s, hs, ⟨hup, hconn, hread⟩, ⟨hworkQueue, hwork, hqueue⟩, ⟨hhc, hhcQueue⟩, -, -⟩ :=
    workMessage_run
  have hfinished : s.Finished := ⟨hread, hworkQueue, hwork, hqueue⟩
  have hperm := (receiving_answers unread_workMessage (idle_idleWorld []) hs hup hconn).2
    hfinished hhc hhcQueue
  exact ⟨s, hs, hfinished, List.perm_singleton.mp hperm⟩

end Realwork.Receive
