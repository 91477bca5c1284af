import Realwork.Receive.Groups

/-!
# Receive — the current connection

The threads that answer requests and notify records test whether there is a connection, and not
which one it is.

* `Receiver.Kept`: what waits or is run belongs to the connection that is up.
* `receiving_current`: it stays so as long as the program is `Steady`.
* `receiving_otherConnection`: a request is answered on the connection after its own.
-/

namespace Realwork.Receive

open Realwork.Lib Receiver

/-- No request waits, and none is run. -/
structure Receiver.Clear (s : Receiver) : Prop where
  workQueue : s.workQueue = []
  work : s.work.xml? = none
  hcQueue : s.hcQueue = []
  hc : s.hc = none

instance (s : Receiver) : Decidable s.Clear :=
  decidable_of_iff (s.workQueue = [] ∧ s.work.xml? = none ∧ s.hcQueue = [] ∧ s.hc = none)
    ⟨fun ⟨h₁, h₂, h₃, h₄⟩ => ⟨h₁, h₂, h₃, h₄⟩, fun ⟨h₁, h₂, h₃, h₄⟩ => ⟨h₁, h₂, h₃, h₄⟩⟩

/-- The main thread connects only when no request of an earlier connection waits or is run, and
does not break the connection off while the work thread notifies the records of a message. -/
def Receiver.Steady (order : ByteOrder) (t : Thread) (s : Receiver) : Prop :=
  t = .main →
    (s.connected = false → s.Clear) ∧
      (s.connected = true → s.Broken order → s.work.pending = [])

instance (order : ByteOrder) (t : Thread) (s : Receiver) : Decidable (s.Steady order t) :=
  inferInstanceAs (Decidable (t = .main → _))

/-- What waits or is run is of the connection that is up, and there is one while records are
notified. -/
structure Receiver.Kept (s : Receiver) : Prop where
  workQueue : s.connected = true → ∀ xml ∈ s.workQueue, xml.conn = s.reader.conn
  work : s.connected = true → ∀ xml ∈ s.work.xml?, xml.conn = s.reader.conn
  hcQueue : s.connected = true → ∀ request ∈ s.hcQueue, request.conn = s.reader.conn
  hc : s.connected = true → ∀ request ∈ s.hc, request.conn = s.reader.conn
  pending : s.work.pending ≠ [] → s.connected = true
  replies : ∀ reply ∈ s.replies, reply.writtenOn = reply.conn
  notified : ∀ n ∈ s.notified, n.current = some n.conn

theorem Event.conn_of_saxXml? {e : Event} {xml : WSaxXml} (h : e.saxXml? = some xml) :
    xml.conn = e.conn := by
  unfold saxXml? at h
  split at h
  · cases h
    rfl
  · cases h

theorem Event.conn_of_hcRequest? {e : Event} {request : HcRequest}
    (h : e.hcRequest? = some request) : request.conn = e.conn := by
  unfold hcRequest? at h
  split at h
  · cases h
    rfl
  · cases h

namespace Receiver.Kept

variable {order : ByteOrder} {xerces : Nat → Xerces} {env : Env} {s s' : Receiver}

theorem stepMain (h : s.Kept) (hc : s.Steady order .main) (hs : s.mainStep order = some s') :
    s'.Kept := by
  rcases mainStep_cases hs with ⟨hdown, rfl⟩ | ⟨hup, hbroken, reader, -, rfl⟩ |
    ⟨hup, reader, new, hconn, -, hnew, rfl⟩
  · obtain ⟨hq, hw, hhq, hhc⟩ := (hc rfl).1 hdown
    exact ⟨by simp [hq], by simp [hw], by simp [hhq], by simp [hhc], fun _ => rfl, h.replies,
      h.notified⟩
  · have hpending := (hc rfl).2 hup hbroken
    exact ⟨nofun, nofun, nofun, nofun, fun hne => absurd hpending hne, h.replies, h.notified⟩
  · refine ⟨fun _ xml hxml => ?_, fun _ xml hxml => ?_, fun _ request hr => ?_,
      fun _ request hr => ?_, fun _ => hup, h.replies, h.notified⟩
    · rcases List.mem_append.mp hxml with hxml | hxml
      · exact (h.workQueue hup xml hxml).trans hconn.symm
      · obtain ⟨e, he, hxml⟩ := List.mem_filterMap.mp hxml
        exact ((Event.conn_of_saxXml? hxml).trans (hnew e he)).trans hconn.symm
    · exact (h.work hup xml hxml).trans hconn.symm
    · rcases List.mem_append.mp hr with hr | hr
      · exact (h.hcQueue hup request hr).trans hconn.symm
      · obtain ⟨e, he, hr⟩ := List.mem_filterMap.mp hr
        exact ((Event.conn_of_hcRequest? hr).trans (hnew e he)).trans hconn.symm
    · exact (h.hc hup request hr).trans hconn.symm

/-- A response to a request of the connection that is up. -/
theorem respond (h : s.Kept) {conn : Nat} (head : WHead)
    (hconn : s.connected = true → conn = s.reader.conn) :
    (s.writeResponse conn head).Kept := by
  refine { h with replies := fun reply hr => ?_ }
  unfold writeResponse at hr
  dsimp only at hr
  split at hr
  · rename_i hup
    rcases List.mem_append.mp hr with hr | hr
    · exact h.replies reply hr
    · rw [List.mem_singleton.mp hr]
      exact (hconn hup).symm
  · exact h.replies reply hr

/-- The work thread goes on with the same message, or with none. -/
theorem goOn (h : s.Kept) {work : Work} {handled : List Handled}
    (hxml : ∀ xml ∈ work.xml?, xml ∈ s.work.xml?) (hp : work.pending ≠ [] → s.connected = true) :
    Receiver.Kept { s with work, handled } :=
  { h with work := fun hup xml hx => h.work hup xml (hxml xml hx), pending := hp }

/-- The work thread notifies a record. -/
theorem notify (h : s.Kept) {xml : WSaxXml} {record : WRecord} {work : Work}
    (hxml : s.work.xml? = some xml) (hp : s.work.pending ≠ []) (hxml' : work.xml? = some xml) :
    (s.notifyDb xml record work).Kept := by
  have hup := h.pending hp
  have hconn : xml.conn = s.reader.conn := h.work hup xml hxml
  refine { h with work := fun _ xml' hx => ?_, pending := fun _ => hup, notified := fun n hn => ?_ }
  · have hx' : work.xml? = some xml' := hx
    rw [hxml', Option.some.injEq] at hx'
    exact hx' ▸ hconn
  · rcases List.mem_append.mp hn with hn | hn
    · exact h.notified n hn
    · rw [List.mem_singleton.mp hn, current, if_pos hup, hconn]

/-- The work thread takes a message from its queue. -/
theorem takeWork (h : s.Kept) {xml : WSaxXml} {workQueue : List WSaxXml} {work : Work}
    {handled : List Handled} (hq : s.workQueue = xml :: workQueue) (hxml : work.xml? = some xml)
    (hp : work.pending = []) : Receiver.Kept { s with workQueue, work, handled } := by
  refine { h with
    workQueue := fun hup x hx => ?_
    work := fun hup x hx => ?_
    pending := fun hne => absurd hp hne }
  · exact h.workQueue hup x (by rw [hq]; exact List.mem_cons_of_mem _ hx)
  · have hx' : work.xml? = some x := hx
    rw [hxml, Option.some.injEq] at hx'
    exact h.workQueue hup x (by rw [hq, hx']; exact List.mem_cons_self)

theorem stepWork (h : s.Kept) (hs : s.workStep xerces = some s') : s'.Kept := by
  cases workStep_cases hs with
  | begin hw hq hc => exact h.takeWork hq rfl rfl
  | drop hw hq hc => exact h.takeWork hq rfl rfl
  | event hw he => exact h.goOn (by rw [hw]; exact fun _ hx => hx) fun hp => absurd rfl hp
  | raise hw he => exact h.goOn (by rw [hw]; exact fun _ hx => hx) fun hp => absurd rfl hp
  | endDocument hw hc hup => exact h.goOn (by rw [hw]; exact fun _ hx => hx) fun _ => hup
  | skip hw hc => exact h.goOn (by rw [hw]; exact fun _ hx => hx) fun hp => absurd rfl hp
  | record hw => exact h.notify (by rw [hw]; rfl) (by rw [hw]; simp [Work.pending]) rfl
  | last hw => exact h.notify (by rw [hw]; rfl) (by rw [hw]; simp [Work.pending]) rfl
  | none hw => exact h.goOn (by rw [hw]; exact fun _ hx => hx) fun hp => absurd rfl hp
  | @answer xml hw =>
      exact (h.respond xml.head fun hup => h.work hup xml (by rw [hw]; rfl)).goOn
        (fun x hx => (Option.not_mem_none x hx).elim) fun hp => absurd rfl hp

theorem stepHc (h : s.Kept) (hs : s.hcStep = some s') : s'.Kept := by
  rcases hcStep_cases hs with ⟨request, hcQueue, -, hq, rfl⟩ | ⟨request, hc, rfl⟩
  · refine { h with hcQueue := fun hup q hr => ?_, hc := fun hup q hr => ?_ }
    · exact h.hcQueue hup q (by rw [hq]; exact List.mem_cons_of_mem _ hr)
    · cases hr
      exact h.hcQueue hup request (by rw [hq]; exact List.mem_cons_self)
  · have hresp := h.respond request.head fun hup => h.hc hup request (by rw [hc]; rfl)
    exact { hresp with hc := nofun }

theorem stepDb (h : s.Kept) (hs : s.dbStep env = some s') : s'.Kept := by
  obtain ⟨record, queue, -, rfl⟩ := dbStep_cases hs
  exact { h with }

end Receiver.Kept

/-- **Responses and records stay with their connection** in every run in which the main thread
connects only when no request of an earlier connection waits or is run, and does not break the
connection off while records are notified. -/
theorem receiving_current {order : ByteOrder} {xerces : Nat → Xerces} {env : Env} {s : Receiver}
    (h : (receiving order xerces env).Reach (fun t s => s.Steady order t) s) :
    (∀ reply ∈ s.replies, reply.writtenOn = reply.conn) ∧
      ∀ n ∈ s.notified, n.current = some n.conn := by
  have hkept : s.Kept := by
    refine h.invariant (fun s hs => ?_) fun t s s' hs hc hstep => ?_
    · obtain ⟨conns, world, -, rfl⟩ := hs
      exact ⟨nofun, nofun, nofun, nofun, fun hne => absurd rfl hne, nofun, nofun⟩
    · cases t with
      | main => exact hs.stepMain hc hstep
      | stop =>
          obtain ⟨hw, rfl⟩ := stopStep_cases hstep
          exact ⟨nofun, nofun, nofun, nofun, fun hne => absurd (by rw [hw]; rfl) hne, hs.replies,
            hs.notified⟩
      | work => exact hs.stepWork hstep
      | workEnd =>
          obtain ⟨-, -, rfl⟩ := endStep_cases hstep
          exact hs.goOn nofun nofun
      | hc => exact hs.stepHc hstep
      | hcEnd =>
          obtain ⟨-, rfl⟩ := hcEndStep_cases hstep
          exact { hs with }
      | db => exact hs.stepDb hstep
      | dbEnd =>
          obtain rfl := dbEndStep_cases hstep
          exact { hs with }
  exact ⟨hkept.replies, hkept.notified⟩

/-- A message on each of two connections: it is answered, and its records are notified, before its
connection ends. -/
theorem receiving_current_twoConnections :
    ∃ s, (receiving .big oneEquipInfo plainEnv).Reach (fun t s => s.Steady .big t) s ∧
      s.replies.length = 2 ∧ s.notified.length = 4 ∧
      ∀ reply ∈ s.replies, reply.writtenOn = reply.conn := by
  obtain ⟨s, hs, hlen⟩ := Machine.Reach.exists_of_exec (M := receiving .big oneEquipInfo plainEnv)
    (C := fun t s => s.Steady .big t)
    (P := fun s => s.replies.length = 2 ∧ s.notified.length = 4)
    ([.main, .main] ++ List.replicate 22 .work ++ [.main, .main, .main] ++
      List.replicate 22 .work)
    (.idle [⟨[workMessage], .eof⟩, ⟨[workMessage], .eof⟩]) (start_idle _) (by decide +kernel)
    (by decide +kernel)
  exact ⟨s, hs, hlen.1, hlen.2, (receiving_current hs).1⟩

/-- An HC request waits while its connection is broken off and the next one is made: its
response is written to the next one. -/
theorem receiving_otherConnection :
    ∃ s, (receiving .big oneEquipInfo plainEnv).Reach Machine.always s ∧
      ∃ reply ∈ s.replies, reply.writtenOn ≠ reply.conn := by
  refine Machine.Reach.exists_of_exec (M := receiving .big oneEquipInfo plainEnv)
    (C := Machine.always) (P := fun s => ∃ reply ∈ s.replies, reply.writtenOn ≠ reply.conn)
    [.main, .main, .main, .main, .hc, .hc]
    (.idle [⟨[hcHead 30], .eof⟩, ⟨[], .eof⟩]) (start_idle _) (Machine.meets_always _ _ _)
    (by decide +kernel)

end Realwork.Receive
