import Realwork.Base.Str
import Realwork.Lib.Machine
import Realwork.Lib.Segments

/-!
# Receive — the reading loop

`WSocket::ReadWork`, the loop of the main thread: it reads a head of 32 bytes and the body the
head announces, hands the frame to the work, HC and HC-check threads, and waits for the next
connection when one is broken.  `reading` is the loop as a machine, one step for an iteration.

Each event carries, beside what the code hands over, the connection and the bytes it comes from;
the buffer `xmlBuff` is a list of pieces with their connections.
-/

namespace Realwork.Receive

open Realwork.Lib

/-! ### `WHead` -/

/-- The byte order of the host. -/
inductive ByteOrder where
  | big
  | little
  deriving DecidableEq

/-- An `unsigned short` at an offset of the head. -/
def ByteOrder.short (order : ByteOrder) (data : Str) (offset : Nat) : Nat :=
  let b₀ := (data.getD offset 0).toNat
  let b₁ := (data.getD (offset + 1) 0).toNat
  match order with
  | .big => 256 * b₀ + b₁
  | .little => b₀ + 256 * b₁

/-- `HEAD_SIZE`. -/
def headSize : Nat := 32

/-- `WHead`, with the fields the loop reads. -/
structure WHead where
  totalSize : Nat
  handleId : Nat
  replyKindId : Nat
  data : Str
  deriving DecidableEq

/-- The constructor `WHead(pHead)`. -/
def WHead.ofBytes (order : ByteOrder) (data : Str) : WHead where
  totalSize := order.short data 0
  handleId := order.short data 4
  replyKindId := order.short data 10
  data := data

def handleIdHcRequest : Nat := 0x2001
def handleIdWorkRequest : Nat := 0x2101
def replyKindIdContinue : Nat := 0x4000
def replyKindIdEnd : Nat := 0x0000

/-! ### The connection -/

/-- What ends a connection: the end of the file, or an error of `read`. -/
inductive Cut where
  | eof
  | error
  deriving DecidableEq

/-- What the connection has for `read`: the results of the calls to come, an empty one being a
call that a signal interrupts, and what ends it. -/
structure Conn where
  segs : List Str
  cut : Cut

/-- The bytes that are not read yet. -/
def Conn.unread (c : Conn) : Str := c.segs.flatten

/-- The end of the connection is reached within the next `n` bytes, and is not an error: `Readn`
then returns the number of bytes there are. -/
def Conn.EndsIn (c : Conn) (n : Nat) : Prop := c.unread.length < n ∧ c.cut = .eof

instance (c : Conn) (n : Nat) : Decidable (c.EndsIn n) :=
  inferInstanceAs (Decidable (c.unread.length < n ∧ c.cut = .eof))

/-- What `Readn` returns, what it has put into the buffer, and the connection after it. -/
structure Read where
  count : Int
  got : Str
  conn : Conn

/-- `Readn`. -/
def Conn.readn (c : Conn) (n : Nat) : Read :=
  let (got, segs) := Lib.readn n c.segs
  { count := if got.length < n ∧ c.cut = .error then -1 else got.length
    got
    conn := { c with segs } }

/-- A buffer of `n` bytes, all 0, into which `got` has been read. -/
def padded (n : Nat) (got : Str) : Str := got ++ List.replicate (n - got.length) 0

/-! ### `ReadWork` -/

/-- What an iteration does with a frame. -/
inductive Effect where
  /-- `m_pWorkThread->Notify( new WSaxXml( xmlBuff.c_str(), *pHead) )`. -/
  | work (text : List (Nat × Str)) (head : WHead)
  /-- `m_pHcThread->Notify( pHead )`. -/
  | hc (head : WHead)
  /-- `m_pHcCheckThread->Notify( new WTimeOut() )`. -/
  | hcCheck
  /-- `xmlBuff += buff`. -/
  | append (text : Str)
  deriving DecidableEq

/-- An effect, with the connection and the received bytes of the head and the body it is for. -/
structure Event where
  conn : Nat
  head : Str
  body : Str
  effect : Effect
  deriving DecidableEq

/-- The state of the loop. -/
structure Reader where
  /-- The number of the current connection. -/
  conn : Nat
  /-- The current connection and those to come. -/
  conns : List Conn
  xmlBuff : List (Nat × Str)
  events : List Event
  /-- An exception has left the loop. -/
  gone : Bool

namespace Reader

/-- `Disconnect(); xmlBuff=""; Connect();`. -/
def broken (r : Reader) (later : List Conn) : Reader :=
  { r with conn := r.conn + 1, conns := later, xmlBuff := [] }

/-- The frame is done with: its effects, and `xmlBuff` after it. -/
def done (r : Reader) (c : Conn) (later : List Conn) (head body : Str)
    (xmlBuff : List (Nat × Str)) (effects : List Effect) : Reader :=
  { r with
    conns := c :: later
    xmlBuff
    events := r.events ++ effects.map fun effect => ⟨r.conn, head, body, effect⟩ }

end Reader

/-- A frame without data: `xmlBuff` after it, and its effects. -/
def withoutData (xmlBuff : List (Nat × Str)) (head : WHead) : List (Nat × Str) × List Effect :=
  if head.handleId = handleIdHcRequest then (xmlBuff, [.hc head, .hcCheck])
  else if head.handleId = handleIdWorkRequest then
    if head.replyKindId = replyKindIdEnd then ([], [.work xmlBuff head])
    else (xmlBuff, [])
  else (xmlBuff, [.hc head])

/-- A frame with data, on connection `conn`. -/
def withData (conn : Nat) (xmlBuff : List (Nat × Str)) (head : WHead) (buff : Str) :
    List (Nat × Str) × List Effect :=
  let text := cstr buff
  if head.handleId = handleIdWorkRequest then
    if head.replyKindId = replyKindIdEnd then
      ([], [.append text, .work (xmlBuff ++ [(conn, text)]) head])
    else if head.replyKindId = replyKindIdContinue then
      (xmlBuff ++ [(conn, text)], [.append text])
    else (xmlBuff, [])
  else if head.handleId = handleIdHcRequest then (xmlBuff, [.hc head, .hcCheck])
  else (xmlBuff, [.hc head])

/-- The frame whose head is `got`: its body is read from `c`. -/
def readBody (order : ByteOrder) (r : Reader) (c : Conn) (later : List Conn) (got : Str) : Reader :=
  let head := WHead.ofBytes order (padded headSize got)
  let dataSize : Int := head.totalSize - 30
  if dataSize = 0 then
    let (xmlBuff, effects) := withoutData r.xmlBuff head
    r.done c later got [] xmlBuff effects
  else if dataSize < -1 then
    -- `new char[dataSize+1]` throws `bad_alloc`
    { r with gone := true }
  else if dataSize = -1 then
    -- the size is the largest one as an unsigned number, for which `read` returns -1
    r.broken later
  else
    let read := c.readn dataSize.toNat
    if read.count ≤ 0 then r.broken later
    else
      let (xmlBuff, effects) := withData r.conn r.xmlBuff head (padded dataSize.toNat read.got)
      r.done read.conn later got read.got xmlBuff effects

/-- One iteration of the loop of `ReadWork`; there is none while it waits for a connection. -/
def readWork (order : ByteOrder) (r : Reader) : Option Reader :=
  match r.gone, r.conns with
  | true, _ => none
  | false, [] => none
  | false, c :: later =>
      let read := c.readn headSize
      if read.count ≤ 0 then some (r.broken later)
      else some (readBody order r read.conn later read.got)

/-- The loop, from the first connection on. -/
def reading (order : ByteOrder) : Machine Reader Unit where
  start r := r.conn = 0 ∧ r.xmlBuff = [] ∧ r.events = [] ∧ r.gone = false
  step _ r := readWork order r

/-! ### What is read -/

theorem ByteOrder.short_take (order : ByteOrder) (data : Str) {n offset : Nat}
    (h : offset + 1 < n) : order.short (data.take n) offset = order.short data offset := by
  have h₀ : offset < n := Nat.lt_of_succ_lt h
  simp [ByteOrder.short, List.getD_eq_getElem?_getD, List.getElem?_take_of_lt, h, h₀]

theorem padded_of_length {n : Nat} {got : Str} (h : got.length = n) : padded n got = got := by
  simp [padded, h]

@[simp] theorem Conn.got_readn (c : Conn) (n : Nat) : (c.readn n).got = c.unread.take n :=
  readn_fst n c.segs

@[simp] theorem Conn.unread_readn (c : Conn) (n : Nat) :
    (c.readn n).conn.unread = c.unread.drop n :=
  readn_snd n c.segs

@[simp] theorem Conn.cut_readn (c : Conn) (n : Nat) : (c.readn n).conn.cut = c.cut := rfl

theorem Conn.count_readn (c : Conn) (n : Nat) :
    (c.readn n).count = if c.unread.length < n ∧ c.cut = .error then -1
      else ((c.unread.take n).length : Int) := by
  have hlt : (c.unread.take n).length < n ↔ c.unread.length < n := by
    rw [List.length_take]
    omega
  simp only [← hlt, ← c.got_readn]
  rfl

/-- Where there are `n` bytes, `Readn` reads them. -/
theorem Conn.count_of_le {c : Conn} {n : Nat} (h : n ≤ c.unread.length) :
    (c.readn n).count = n := by
  rw [c.count_readn, if_neg fun h' => absurd h'.1 (Nat.not_lt.mpr h), List.length_take_of_le h]

/-- Where there are less, the connection is broken, unless it ends after a part of them. -/
theorem Conn.count_of_lt {c : Conn} {n : Nat} (h : c.unread.length < n)
    (hends : c.EndsIn n → c.unread = []) : (c.readn n).count ≤ 0 := by
  rw [c.count_readn]
  split
  · decide
  · rename_i hcut
    have heof : c.cut = .eof := by
      cases hc : c.cut with
      | eof => rfl
      | error => exact absurd ⟨h, hc⟩ hcut
    simp [hends ⟨h, heof⟩]

/-- The connection does not end inside a head, or inside a body, of which bytes have been read. -/
def Reader.Intact (order : ByteOrder) (r : Reader) : Prop :=
  ∀ c ∈ r.conns.head?,
    (c.EndsIn headSize → c.unread = []) ∧
    (headSize < c.unread.length → ¬ c.EndsIn (order.short c.unread 0 + 2))

instance (order : ByteOrder) (r : Reader) : Decidable (r.Intact order) :=
  inferInstanceAs (Decidable (∀ c ∈ r.conns.head?, _))

/-- **The body of a frame.**  The connection is broken, the loop is left, or the frame is taken
with a body of the announced size. -/
theorem readBody_cases {order : ByteOrder} {r : Reader} {c : Conn} {later : List Conn} {got : Str}
    (hgot : got.length = headSize)
    (hbody : c.unread ≠ [] → ¬ c.EndsIn (order.short got 0 - 30)) :
    readBody order r c later got = r.broken later ∨
      readBody order r c later got = { r with gone := true } ∨
      ∃ c' body xmlBuff effects,
        readBody order r c later got = r.done c' later got body xmlBuff effects ∧
        order.short got 0 = 30 + body.length ∧
        (withoutData r.xmlBuff (WHead.ofBytes order got) = (xmlBuff, effects) ∨
          withData r.conn r.xmlBuff (WHead.ofBytes order got) body = (xmlBuff, effects)) := by
  have hhead : WHead.ofBytes order (padded headSize got) = WHead.ofBytes order got := by
    rw [padded_of_length hgot]
  set size := order.short got 0 with hsize
  have hdata : ((WHead.ofBytes order got).totalSize : Int) = size := rfl
  simp only [readBody, hhead, hdata]
  by_cases h₀ : (size : Int) - 30 = 0
  · rw [if_pos h₀]
    exact .inr (.inr ⟨c, [], _, _, rfl, by simp; omega, .inl rfl⟩)
  rw [if_neg h₀]
  by_cases h₁ : (size : Int) - 30 < -1
  · rw [if_pos h₁]
    exact .inr (.inl rfl)
  rw [if_neg h₁]
  by_cases h₂ : (size : Int) - 30 = -1
  · rw [if_pos h₂]
    exact .inl rfl
  rw [if_neg h₂]
  have hn : ((size : Int) - 30).toNat = size - 30 := by omega
  rw [hn]
  by_cases hfull : size - 30 ≤ c.unread.length
  · have hlen : (c.unread.take (size - 30)).length = size - 30 := List.length_take_of_le hfull
    rw [if_neg (by rw [Conn.count_of_le hfull]; omega), Conn.got_readn, padded_of_length hlen]
    exact .inr (.inr ⟨_, c.unread.take (size - 30), _, _, rfl, by rw [hlen]; omega, .inr rfl⟩)
  · refine .inl (if_pos (Conn.count_of_lt (Nat.not_le.mp hfull) fun hends => ?_))
    by_contra hu
    exact hbody hu hends

/-- **An iteration** breaks the connection off, leaves the loop, or takes a frame that has been
received as a whole. -/
theorem readWork_cases {order : ByteOrder} {r r' : Reader} (hi : r.Intact order)
    (h : readWork order r = some r') :
    (∃ later, r' = r.broken later) ∨ r' = { r with gone := true } ∨
      ∃ c later head body xmlBuff effects, r' = r.done c later head body xmlBuff effects ∧
        head.length = headSize ∧ order.short head 0 = 30 + body.length ∧
        (withoutData r.xmlBuff (WHead.ofBytes order head) = (xmlBuff, effects) ∨
          withData r.conn r.xmlBuff (WHead.ofBytes order head) body = (xmlBuff, effects)) := by
  unfold readWork at h
  split at h
  · cases h
  · cases h
  · rename_i c later hgone hconns
    obtain ⟨hhead, hbody⟩ := hi c (by simp [hconns])
    by_cases hfull : headSize ≤ c.unread.length
    · have hlen : (c.readn headSize).got.length = headSize := by
        rw [c.got_readn, List.length_take_of_le hfull]
      have hsize : order.short (c.readn headSize).got 0 = order.short c.unread 0 := by
        rw [c.got_readn]
        exact order.short_take _ (by decide)
      dsimp only at h
      rw [if_neg (by rw [Conn.count_of_le hfull]; decide), Option.some.injEq] at h
      have hbody' : (c.readn headSize).conn.unread ≠ [] →
          ¬ (c.readn headSize).conn.EndsIn (order.short (c.readn headSize).got 0 - 30) := by
        intro hu
        rw [hsize]
        rw [c.unread_readn, ne_eq, List.drop_eq_nil_iff, Nat.not_le] at hu
        refine fun ⟨hlt, hcut⟩ => hbody hu ⟨?_, hcut⟩
        rw [c.unread_readn, List.length_drop] at hlt
        simp only [headSize] at hlt hu ⊢
        omega
      rcases readBody_cases hlen hbody' with hr | hr | ⟨c', body, xmlBuff, effects, hr, hs, he⟩
      · exact .inl ⟨later, h.symm.trans hr⟩
      · exact .inr (.inl (h.symm.trans hr))
      · exact .inr (.inr ⟨c', later, _, body, xmlBuff, effects, h.symm.trans hr, hlen, hs, he⟩)
    · -- the head is not received as a whole
      dsimp only at h
      rw [if_pos (Conn.count_of_lt (Nat.not_le.mp hfull) hhead)] at h
      exact .inl ⟨later, (Option.some.inj h).symm⟩

/-! ### Whole frames -/

/-- The event is for a frame that has been received as a whole, and the text of a message is
from its connection only. -/
structure Event.Whole (order : ByteOrder) (e : Event) : Prop where
  head : e.head.length = headSize
  body : order.short e.head 0 = 30 + e.body.length
  text : ∀ text head, e.effect = .work text head → ∀ piece ∈ text, piece.1 = e.conn

/-- The invariant of the loop. -/
structure Reader.Clean (order : ByteOrder) (r : Reader) : Prop where
  events : ∀ e ∈ r.events, e.Whole order
  xmlBuff : ∀ piece ∈ r.xmlBuff, piece.1 = r.conn

/-- The pieces of `xmlBuff` and of the texts are from connection `conn`. -/
def PiecesOf (conn : Nat) (p : List (Nat × Str) × List Effect) : Prop :=
  (∀ piece ∈ p.1, piece.1 = conn) ∧
    ∀ text head, .work text head ∈ p.2 → ∀ piece ∈ text, piece.1 = conn

theorem piecesOf_withoutData {conn : Nat} {xmlBuff : List (Nat × Str)}
    (h : ∀ piece ∈ xmlBuff, piece.1 = conn) (head : WHead) :
    PiecesOf conn (withoutData xmlBuff head) := by
  unfold withoutData
  split
  · exact ⟨h, by simp⟩
  · split
    · split
      · refine ⟨by simp, fun text head ht => ?_⟩
        cases List.mem_singleton.mp ht
        exact h
      · exact ⟨h, by simp⟩
    · exact ⟨h, by simp⟩

theorem piecesOf_withData {conn : Nat} {xmlBuff : List (Nat × Str)}
    (h : ∀ piece ∈ xmlBuff, piece.1 = conn) (head : WHead) (buff : Str) :
    PiecesOf conn (withData conn xmlBuff head buff) := by
  have happ : ∀ piece ∈ xmlBuff ++ [(conn, cstr buff)], piece.1 = conn := fun piece hp => by
    rcases List.mem_append.mp hp with hp | hp
    · exact h piece hp
    · rw [List.mem_singleton.mp hp]
  unfold withData
  dsimp only
  split
  · split
    · refine ⟨by simp, fun text head ht => ?_⟩
      rcases List.mem_cons.mp ht with ht | ht
      · cases ht
      · cases List.mem_singleton.mp ht
        exact happ
    · split
      · exact ⟨happ, by simp⟩
      · exact ⟨h, by simp⟩
  · split
    · exact ⟨h, by simp⟩
    · exact ⟨h, by simp⟩

/-- A step from a state in which the connection is intact keeps the invariant. -/
theorem Reader.Clean.step {order : ByteOrder} {r r' : Reader} (h : r.Clean order)
    (hi : r.Intact order) (hs : readWork order r = some r') : r'.Clean order := by
  rcases readWork_cases hi hs with ⟨later, rfl⟩ | rfl |
    ⟨c, later, head, body, xmlBuff, effects, rfl, hhead, hbody, heff⟩
  · exact ⟨h.events, by simp [Reader.broken]⟩
  · exact ⟨h.events, h.xmlBuff⟩
  · have hp : PiecesOf r.conn (xmlBuff, effects) := by
      rcases heff with heff | heff <;> rw [← heff]
      · exact piecesOf_withoutData h.xmlBuff _
      · exact piecesOf_withData h.xmlBuff _ _
    refine ⟨fun e he => ?_, hp.1⟩
    rcases List.mem_append.mp he with he | he
    · exact h.events e he
    · obtain ⟨effect, heffect, rfl⟩ := List.mem_map.mp he
      exact ⟨hhead, hbody, fun text head' ht => hp.2 text head' (ht ▸ heffect)⟩

/-- **Every event is for a whole frame**, in every run in which no connection ends inside a head
or a body of which bytes have been read. -/
theorem reading_whole (order : ByteOrder) {r : Reader}
    (h : (reading order).Reach (fun _ r => r.Intact order) r) :
    ∀ e ∈ r.events, e.Whole order := by
  have hclean : r.Clean order := by
    refine h.invariant (fun r hr => ?_) fun _ r r' hr hi hs => hr.step hi hs
    obtain ⟨-, hbuff, hevents, -⟩ := hr
    exact ⟨by simp [hevents], by simp [hbuff]⟩
  exact hclean.events

/-- The loop before its first iteration. -/
def Reader.first (conns : List Conn) : Reader := ⟨0, conns, [], [], false⟩

/-- The head of an HC request with the given size, on a host of byte order `big`. -/
def hcHead (size : UInt8) : Str := [0, size, 0, 0, 0x20, 0x01] ++ List.replicate 26 0

/-- A request, a part of another one in two segments, and an error. -/
theorem reading_whole_request :
    ∃ r, (reading .big).Reach (fun _ r => r.Intact .big) r ∧ r.events.length = 2 ∧
      ∀ e ∈ r.events, e.Whole .big := by
  obtain ⟨r, hr, hlen⟩ := Machine.Reach.exists_of_exec (M := reading .big)
    (C := fun _ r => r.Intact .big) (P := fun r => r.events.length = 2) [(), ()]
    (.first [⟨[hcHead 30, [0, 30], [0]], .error⟩]) ⟨rfl, rfl, rfl, rfl⟩ (by decide) (by decide)
  exact ⟨r, hr, hlen, reading_whole .big hr⟩

/-- The connection ends in the head of a request after 6 bytes: it is answered as if the other
26 bytes were 0. -/
theorem reading_partial_head :
    ∃ r, (reading .big).Reach Machine.always r ∧ ∃ e ∈ r.events, ¬ e.Whole .big := by
  obtain ⟨r, hr, e, he, hlen⟩ := Machine.Reach.exists_of_exec (M := reading .big)
    (C := Machine.always) (P := fun r => ∃ e ∈ r.events, e.head.length = 6) [()]
    (.first [⟨[(hcHead 30).take 6], .eof⟩]) ⟨rfl, rfl, rfl, rfl⟩
    (Machine.meets_always _ _ _) (by decide)
  exact ⟨r, hr, e, he, fun hw => absurd (hw.head.symm.trans hlen) (by decide)⟩

end Realwork.Receive
