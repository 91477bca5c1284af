import Mathlib.Data.List.TakeWhile
import Realwork.Receive.Socket

/-!
# Receive — reassembly

Complete frames on one connection.  `Frame` carries what makes a frame complete; `reassembly`
says what the reading loop hands over for a sequence of them, whatever the segments the bytes
arrive in.

* `exec_frames`: the loop takes one frame in an iteration.
* `reading_reassembles`: the events, the texts of the messages and the heads for the HC thread
  are functions of the frames, and the texts are functions of the work frames.
-/

namespace Realwork.Receive

open Realwork.Lib

/-- A complete frame: its size is that of its body, which has no NUL, and a work frame
continues or ends a message. -/
structure Frame (order : ByteOrder) where
  head : Str
  body : Str
  length : head.length = headSize
  size : order.short head 0 = 30 + body.length
  noNul : 0 ∉ body
  kind : order.short head 4 = handleIdWorkRequest →
    order.short head 10 = replyKindIdEnd ∨ order.short head 10 = replyKindIdContinue

namespace Frame

variable {order : ByteOrder}

def bytes (f : Frame order) : Str := f.head ++ f.body

theorem length_bytes_pos (f : Frame order) : 0 < f.bytes.length := by
  rw [bytes, List.length_append, f.length]
  exact Nat.add_pos_left (by decide) _

def whead (f : Frame order) : WHead := .ofBytes order f.head

/-- A frame of a message. -/
def IsWork (f : Frame order) : Prop := f.whead.handleId = handleIdWorkRequest

/-- The last frame of a message. -/
def IsEnd (f : Frame order) : Prop := f.whead.replyKindId = replyKindIdEnd

instance (f : Frame order) : Decidable f.IsWork :=
  inferInstanceAs (Decidable (f.whead.handleId = handleIdWorkRequest))

instance (f : Frame order) : Decidable f.IsEnd :=
  inferInstanceAs (Decidable (f.whead.replyKindId = replyKindIdEnd))

/-- `xmlBuff` after the frame, and its effects, on connection `conn`. -/
def effects (conn : Nat) (xmlBuff : List (Nat × Str)) (f : Frame order) :
    List (Nat × Str) × List Effect :=
  if f.body = [] then withoutData xmlBuff f.whead else withData conn xmlBuff f.whead f.body

end Frame

variable {order : ByteOrder}

/-- What the loop hands over for the frames, from the contents `xmlBuff` of the buffer on. -/
def reassembly (conn : Nat) : List (Nat × Str) → List (Frame order) → List Event
  | _, [] => []
  | xmlBuff, f :: fs =>
      ((f.effects conn xmlBuff).2.map fun effect => ⟨conn, f.head, f.body, effect⟩) ++
        reassembly conn (f.effects conn xmlBuff).1 fs

/-- The contents of the buffer after the frames. -/
def buffered (conn : Nat) (xmlBuff : List (Nat × Str)) (fs : List (Frame order)) :
    List (Nat × Str) :=
  fs.foldl (fun xmlBuff f => (f.effects conn xmlBuff).1) xmlBuff

theorem conn_of_mem_reassembly {conn : Nat} {xmlBuff : List (Nat × Str)}
    {frames : List (Frame order)} {e : Event} (h : e ∈ reassembly conn xmlBuff frames) :
    e.conn = conn := by
  induction frames generalizing xmlBuff with
  | nil => cases h
  | cons f frames ih =>
      rcases List.mem_append.mp h with h | h
      · obtain ⟨effect, -, rfl⟩ := List.mem_map.mp h
        rfl
      · exact ih h

theorem reassembly_concat (conn : Nat) (xmlBuff : List (Nat × Str)) (frames : List (Frame order))
    (f : Frame order) :
    reassembly conn xmlBuff (frames ++ [f]) = reassembly conn xmlBuff frames ++
      (f.effects conn (buffered conn xmlBuff frames)).2.map
        fun effect => ⟨conn, f.head, f.body, effect⟩ := by
  induction frames generalizing xmlBuff with
  | nil => simp [reassembly, buffered]
  | cons g frames ih =>
      rw [List.cons_append, reassembly, ih, reassembly, List.append_assoc]
      rfl

theorem buffered_concat (conn : Nat) (xmlBuff : List (Nat × Str)) (frames : List (Frame order))
    (f : Frame order) :
    buffered conn xmlBuff (frames ++ [f]) = (f.effects conn (buffered conn xmlBuff frames)).1 := by
  rw [buffered, List.foldl_append]
  rfl

/-- A connection that has come to its end is broken off. -/
theorem readWork_of_unread_nil {r : Reader} {c : Conn} {later : List Conn} (hgone : r.gone = false)
    (hconns : r.conns = c :: later) (hc : c.unread = []) :
    readWork order r = some (r.broken later) := by
  have hcount : (c.readn headSize).count ≤ 0 :=
    Conn.count_of_lt (by rw [hc]; decide) fun _ => hc
  unfold readWork
  simp only [hgone, hconns, if_pos hcount]

/-- **One frame** is taken in one iteration, in whatever segments it arrives. -/
theorem readWork_frame (f : Frame order) (rest : Str) {r : Reader} {c : Conn} {later : List Conn}
    (hgone : r.gone = false) (hconns : r.conns = c :: later) (hc : c.unread = f.bytes ++ rest) :
    ∃ c' : Conn, c'.unread = rest ∧ readWork order r =
      some (r.done c' later f.head f.body (f.effects r.conn r.xmlBuff).1
        (f.effects r.conn r.xmlBuff).2) := by
  have hread : c.unread = f.head ++ (f.body ++ rest) := by
    rw [hc, Frame.bytes, List.append_assoc]
  have hfull : headSize ≤ c.unread.length := by
    rw [hread, List.length_append, f.length]
    exact Nat.le_add_right _ _
  have hgot : (c.readn headSize).got = f.head := by
    rw [c.got_readn, hread, ← f.length, List.take_left]
  have hleft : (c.readn headSize).conn.unread = f.body ++ rest := by
    rw [c.unread_readn, hread, ← f.length, List.drop_left]
  have hstep : readWork order r =
      some (readBody order r (c.readn headSize).conn later f.head) := by
    unfold readWork
    rw [hgone, hconns]
    dsimp only
    rw [if_neg (by rw [Conn.count_of_le hfull]; decide), hgot]
  rw [hstep]
  set c₁ := (c.readn headSize).conn
  have hdata : ((WHead.ofBytes order f.head).totalSize : Int) - 30 = f.body.length := by
    have : (WHead.ofBytes order f.head).totalSize = 30 + f.body.length := f.size
    omega
  simp only [readBody, padded_of_length f.length, hdata, Int.toNat_natCast]
  by_cases hb : f.body = []
  · refine ⟨c₁, by rw [hleft, hb, List.nil_append], ?_⟩
    rw [if_pos (by simp [hb]), Frame.effects, if_pos hb, hb]
    rfl
  · have hpos : 0 < f.body.length := List.length_pos_iff.mpr hb
    have hfull₁ : f.body.length ≤ c₁.unread.length := by
      rw [hleft, List.length_append]
      exact Nat.le_add_right _ _
    have hgot₁ : (c₁.readn f.body.length).got = f.body := by
      rw [c₁.got_readn, hleft, List.take_left]
    refine ⟨(c₁.readn f.body.length).conn, by rw [c₁.unread_readn, hleft, List.drop_left], ?_⟩
    rw [if_neg (by omega), if_neg (by omega), if_neg (by omega),
      if_neg (by rw [Conn.count_of_le hfull₁]; omega), hgot₁, padded_of_length rfl,
      Frame.effects, if_neg hb]
    rfl

/-- The iterations for a sequence of frames. -/
theorem exec_frames (frames : List (Frame order)) (rest : Str) {r : Reader} {c : Conn}
    {later : List Conn} (hgone : r.gone = false) (hconns : r.conns = c :: later)
    (hc : c.unread = frames.flatMap Frame.bytes ++ rest) :
    ∃ c' : Conn, c'.unread = rest ∧
      (reading order).exec (List.replicate frames.length ()) r = some { r with
        conns := c' :: later
        xmlBuff := buffered r.conn r.xmlBuff frames
        events := r.events ++ reassembly r.conn r.xmlBuff frames } := by
  induction frames generalizing r c with
  | nil => exact ⟨c, by simpa using hc, by rw [← hconns]; simp [Machine.exec, buffered, reassembly]⟩
  | cons f frames ih =>
      rw [List.flatMap_cons, List.append_assoc] at hc
      obtain ⟨c₁, hc₁, hstep⟩ := readWork_frame f _ hgone hconns hc
      obtain ⟨c', hc', hexec⟩ := ih (r := r.done c₁ later f.head f.body
        (f.effects r.conn r.xmlBuff).1 (f.effects r.conn r.xmlBuff).2) hgone rfl hc₁
      have hstep' : (reading order).step () r = _ := hstep
      refine ⟨c', hc', ?_⟩
      rw [List.length_cons, List.replicate_succ, Machine.exec, hstep', Option.bind_some, hexec]
      simp [Reader.done, reassembly, buffered]

/-! ### Messages -/

/-- The frames of a message: the pieces that continue it, and its last frame. -/
structure Message (order : ByteOrder) where
  pieces : List (Frame order)
  last : Frame order

/-- The text of a message: the bodies of its frames, one after the other. -/
def Message.text (m : Message order) : Str := (m.pieces ++ [m.last]).flatMap Frame.body

/-- The messages of a sequence of work frames, `pending` being the frames since the last end. -/
def messages (pending : List (Frame order)) : List (Frame order) → List (Message order)
  | [] => []
  | f :: fs => if f.IsEnd then ⟨pending, f⟩ :: messages [] fs else messages (pending ++ [f]) fs

/-- The messages of the first frames are the first messages. -/
theorem messages_mono (pending : List (Frame order)) {fs gs : List (Frame order)}
    (h : fs <+: gs) : messages pending fs <+: messages pending gs := by
  obtain ⟨rest, rfl⟩ := h
  induction fs generalizing pending with
  | nil => exact List.nil_prefix
  | cons f fs ih =>
      rw [List.cons_append, messages, messages]
      split
      · exact List.prefix_cons_inj _ |>.mpr (ih [])
      · exact ih _

/-- The text and the head the work thread gets. -/
def Effect.work? : Effect → Option (Str × WHead)
  | .work text head => some (text.flatMap Prod.snd, head)
  | _ => none

/-- The head the HC thread gets. -/
def Effect.hc? : Effect → Option WHead
  | .hc head => some head
  | _ => none

theorem cstr_of_noNul {s : Str} (h : 0 ∉ s) : cstr s = s := by
  rw [cstr, List.takeWhile_eq_self_iff]
  intro b hb
  simpa using fun e : b = 0 => h (e ▸ hb)

namespace Frame

variable (conn : Nat) (xmlBuff : List (Nat × Str))

/-- A frame that is not of a message leaves the buffer. -/
theorem effects_of_not_isWork (f : Frame order) (h : ¬ f.IsWork) :
    (f.effects conn xmlBuff).1 = xmlBuff ∧
      (f.effects conn xmlBuff).2.filterMap Effect.work? = [] ∧
      (f.effects conn xmlBuff).2.filterMap Effect.hc? = [f.whead] := by
  have h' : ¬ f.whead.handleId = handleIdWorkRequest := h
  unfold effects
  split
  · unfold withoutData
    rw [if_neg h']
    split <;> exact ⟨rfl, rfl, rfl⟩
  · unfold withData
    rw [if_neg h']
    split <;> exact ⟨rfl, rfl, rfl⟩

/-- The last frame of a message hands over the buffer, with its own body. -/
theorem effects_of_isEnd (f : Frame order) (h : f.IsWork) (hend : f.IsEnd) :
    (f.effects conn xmlBuff).1 = [] ∧
      (f.effects conn xmlBuff).2.filterMap Effect.work? =
        [(xmlBuff.flatMap Prod.snd ++ f.body, f.whead)] ∧
      (f.effects conn xmlBuff).2.filterMap Effect.hc? = [] := by
  have hw : f.whead.handleId = handleIdWorkRequest := h
  have he : f.whead.replyKindId = replyKindIdEnd := hend
  have hne : ¬ f.whead.handleId = handleIdHcRequest := by
    rw [hw]
    decide
  unfold effects
  split
  · rename_i hb
    rw [withoutData, if_neg hne, if_pos hw, if_pos he, hb, List.append_nil]
    exact ⟨rfl, rfl, rfl⟩
  · rw [withData, if_pos hw, if_pos he, cstr_of_noNul f.noNul]
    refine ⟨rfl, ?_, rfl⟩
    change [((xmlBuff ++ [(conn, f.body)]).flatMap Prod.snd, f.whead)] = _
    simp

/-- Another frame of a message appends its body. -/
theorem effects_of_not_isEnd (f : Frame order) (h : f.IsWork) (hend : ¬ f.IsEnd) :
    (f.effects conn xmlBuff).1.flatMap Prod.snd = xmlBuff.flatMap Prod.snd ++ f.body ∧
      (f.effects conn xmlBuff).2.filterMap Effect.work? = [] ∧
      (f.effects conn xmlBuff).2.filterMap Effect.hc? = [] := by
  have hw : f.whead.handleId = handleIdWorkRequest := h
  have he : ¬ f.whead.replyKindId = replyKindIdEnd := hend
  have hc : f.whead.replyKindId = replyKindIdContinue := (f.kind hw).resolve_left he
  have hne : ¬ f.whead.handleId = handleIdHcRequest := by
    rw [hw]
    decide
  unfold effects
  split
  · rename_i hb
    rw [withoutData, if_neg hne, if_pos hw, if_neg he, hb, List.append_nil]
    exact ⟨rfl, rfl, rfl⟩
  · rw [withData, if_pos hw, if_neg he, if_pos hc, cstr_of_noNul f.noNul]
    refine ⟨?_, rfl, rfl⟩
    simp

end Frame

/-- **The messages.**  What the work thread gets, from a buffer that holds the bodies of
`pending` on. -/
theorem work_reassembly (conn : Nat) {xmlBuff : List (Nat × Str)} {pending : List (Frame order)}
    (frames : List (Frame order)) (h : xmlBuff.flatMap Prod.snd = pending.flatMap Frame.body) :
    (reassembly conn xmlBuff frames).filterMap (fun e => e.effect.work?) =
      (messages pending (frames.filter fun f => f.IsWork)).map
        fun m => (m.text, m.last.whead) := by
  induction frames generalizing xmlBuff pending with
  | nil => rfl
  | cons f frames ih =>
      rw [reassembly, List.filterMap_append, List.filterMap_map]
      change (f.effects conn xmlBuff).2.filterMap Effect.work? ++ _ = _
      by_cases hw : f.IsWork
      · rw [List.filter_cons_of_pos (by simpa using hw), messages]
        by_cases he : f.IsEnd
        · obtain ⟨hbuff, hwork, -⟩ := f.effects_of_isEnd conn xmlBuff hw he
          have hstart : ([] : List (Nat × Str)).flatMap Prod.snd =
              ([] : List (Frame order)).flatMap Frame.body := rfl
          rw [if_pos he, hwork, hbuff, ih hstart, h]
          simp [Message.text]
        · obtain ⟨hbuff, hwork, -⟩ := f.effects_of_not_isEnd conn xmlBuff hw he
          rw [if_neg he, hwork, List.nil_append]
          exact ih (by rw [hbuff, h]; simp)
      · obtain ⟨hbuff, hwork, -⟩ := f.effects_of_not_isWork conn xmlBuff hw
        rw [List.filter_cons_of_neg (by simpa using hw), hwork, hbuff, List.nil_append]
        exact ih h

/-- **The heads.**  What the HC thread gets. -/
theorem hc_reassembly (conn : Nat) (xmlBuff : List (Nat × Str)) (frames : List (Frame order)) :
    (reassembly conn xmlBuff frames).filterMap (fun e => e.effect.hc?) =
      (frames.filter fun f => ¬ f.IsWork).map Frame.whead := by
  induction frames generalizing xmlBuff with
  | nil => rfl
  | cons f frames ih =>
      rw [reassembly, List.filterMap_append, List.filterMap_map, ih]
      change (f.effects conn xmlBuff).2.filterMap Effect.hc? ++ _ = _
      by_cases hw : f.IsWork
      · have hhc : (f.effects conn xmlBuff).2.filterMap Effect.hc? = [] := by
          by_cases he : f.IsEnd
          · exact (f.effects_of_isEnd conn xmlBuff hw he).2.2
          · exact (f.effects_of_not_isEnd conn xmlBuff hw he).2.2
        rw [List.filter_cons_of_neg (by simpa using hw), hhc, List.nil_append]
      · rw [List.filter_cons_of_pos (by simpa using hw),
          (f.effects_of_not_isWork conn xmlBuff hw).2.2]
        rfl

/-- **Reassembly.**  For complete frames on a connection, in whatever segments they arrive, the
loop hands over what `reassembly` says and waits for the next connection: to the work thread a
text for each message, to the HC thread the heads of the other frames. -/
theorem reading_reassembles (frames : List (Frame order)) {segs : List Str} {cut : Cut}
    {r : Reader} {later : List Conn} (hgone : r.gone = false) (hbuff : r.xmlBuff = [])
    (hconns : r.conns = ⟨segs, cut⟩ :: later) (hsegs : segs.flatten = frames.flatMap Frame.bytes) :
    ∃ r' c', (reading order).exec (List.replicate frames.length ()) r = some r' ∧
      readWork order r' = some (r'.broken later) ∧
      r'.conns = c' :: later ∧ c'.unread = [] ∧
      r'.events = r.events ++ reassembly r.conn [] frames ∧
      (reassembly r.conn [] frames).filterMap (fun e => e.effect.work?) =
        (messages [] (frames.filter fun f => f.IsWork)).map (fun m => (m.text, m.last.whead)) ∧
      (reassembly r.conn [] frames).filterMap (fun e => e.effect.hc?) =
        (frames.filter fun f => ¬ f.IsWork).map Frame.whead := by
  have hc : Conn.unread ⟨segs, cut⟩ = frames.flatMap Frame.bytes ++ [] := by
    rw [List.append_nil]
    exact hsegs
  obtain ⟨c', hc', hexec⟩ := exec_frames frames [] hgone hconns hc
  rw [hbuff] at hexec
  exact ⟨_, c', hexec, readWork_of_unread_nil hgone rfl hc', rfl, hc', rfl,
    work_reassembly r.conn frames rfl, hc_reassembly r.conn [] frames⟩

/-- The head of a frame of a message, on a host of byte order `big`. -/
def workHead (size kind : UInt8) : Str :=
  [0, size, 0, 0, 0x21, 0x01, 0, 0, 0, 0, kind] ++ List.replicate 21 0

/-- A message in one frame. -/
def workFrame : Frame .big :=
  ⟨workHead 31 0, [60], by decide, by decide, by decide, by decide⟩

/-- A message in two pieces, with an HC request between them. -/
def requestInMessage : List (Frame .big) :=
  [⟨workHead 32 0x40, [60, 97], by decide, by decide, by decide, by decide⟩,
    ⟨hcHead 30, [], by decide, by decide, by decide, by decide⟩,
    ⟨workHead 31 0, [62], by decide, by decide, by decide, by decide⟩]

/-- It arrives in two segments, the first of which ends in its first body. -/
def requestInSegments : Conn :=
  ⟨[workHead 32 0x40 ++ [60], [97] ++ hcHead 30 ++ workHead 31 0 ++ [62]], .eof⟩

theorem reading_reassembles_requestInMessage :
    ∃ r, (reading .big).exec [(), (), ()] (.first [requestInSegments]) = some r ∧
      readWork .big r = some (r.broken []) ∧
      r.events.filterMap (fun e => e.effect.work?) =
        [([60, 97, 62], .ofBytes .big (workHead 31 0))] := by
  have hsegs : requestInSegments.segs.flatten = requestInMessage.flatMap Frame.bytes := by decide
  have hconns : (Reader.first [requestInSegments]).conns =
      ⟨requestInSegments.segs, .eof⟩ :: [] := rfl
  obtain ⟨r, -, hexec, hbroken, -, -, hevents, hwork, -⟩ :=
    reading_reassembles requestInMessage rfl rfl hconns hsegs
  refine ⟨r, hexec, hbroken, ?_⟩
  rw [hevents, List.filterMap_append, hwork]
  decide

end Realwork.Receive
