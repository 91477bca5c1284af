import Mathlib.Algebra.Group.Nat.Defs
import Mathlib.Data.List.GetD
import Realwork.Receive.Socket

/-!
# Receive — the replies

`WHead` with all its members, and the setters that make a reply of a request: each changes a
member and the bytes of `m_data` it stands for.  `WHead::Run` sends the reply to an HC request,
and to a request that is neither this nor a work request, and `WSaxXml::SendReponse` the reply to
a work request.

* `Consistent.apply`: a setter keeps the members and the bytes together.
* `replies`: what a receiver decodes of a reply.
-/

namespace Realwork.Receive

open Realwork.Lib

/-! ### Bytes and numbers -/

/-- An `unsigned int` at an offset of the head. -/
def ByteOrder.int (order : ByteOrder) (data : Str) (offset : Nat) : Nat :=
  match order with
  | .big => 0x10000 * order.short data offset + order.short data (offset + 2)
  | .little => order.short data offset + 0x10000 * order.short data (offset + 2)

/-- An `unsigned char` at an offset of the head. -/
def charAt (data : Str) (offset : Nat) : Nat := (data.getD offset 0).toNat

/-- The bytes of an `unsigned short`. -/
def ByteOrder.shortBytes (order : ByteOrder) (n : Nat) : Str :=
  match order with
  | .big => [(n / 0x100).toUInt8, n.toUInt8]
  | .little => [n.toUInt8, (n / 0x100).toUInt8]

/-- The bytes of an `unsigned int`. -/
def ByteOrder.intBytes (order : ByteOrder) (n : Nat) : Str :=
  match order with
  | .big => order.shortBytes (n / 0x10000) ++ order.shortBytes n
  | .little => order.shortBytes n ++ order.shortBytes (n / 0x10000)

/-- `memcpy( m_data+offset, bytes, n )`. -/
def memcpy (data : Str) (offset : Nat) (bytes : Str) : Str :=
  data.take offset ++ bytes ++ data.drop (offset + bytes.length)

/-! ### `WHead` -/

def opBusinessId : Nat := 2
def opMethodId : Nat := 3
def opHandleId : Nat := 4
def opReplyId : Nat := 6
def opReplyKindId : Nat := 10
def opDestinationId : Nat := 12
def opSourceId : Nat := 16
def opSequenceId : Nat := 20
def opReserve1 : Nat := 21
def opTime : Nat := 22
def opDataSize : Nat := 28
def opRepeatCount : Nat := 30
def opReserve2 : Nat := 31

/-- `WHead` with all its members. -/
@[ext] structure FullHead extends WHead where
  replyId : Nat
  destinationId : Nat
  sourceId : Nat
  sequenceId : Nat
  dataSize : Nat
  repeatCount : Nat
  businessId : Nat
  methodId : Nat
  reserve1 : Nat
  reserve2 : Nat
  deriving DecidableEq

/-- `struct tm`, as far as a head has it. -/
structure Tm where
  year : Int
  mon : Int
  mday : Int
  hour : Int
  min : Int
  sec : Int

/-- `BIN_BCD`. -/
def binBcd (val : UInt8) : UInt8 := val / 10 * 16 + val % 10

/-- `nc_time`. -/
def Tm.ncTime (tm : Tm) : Str :=
  [tm.year - 100, tm.mon + 1, tm.mday, tm.hour, tm.min, tm.sec].map fun val =>
    binBcd (UInt8.ofInt val)

def handleIdHcReply : UInt16 := 0x2002
def handleIdWorkReply : UInt16 := 0x2102
def equipmentIdNeptun : Nat := 0x00007901
def equipmentIdTemip : Nat := 0x00009001

namespace FullHead

/-- The constructor `WHead(pHead)`. -/
def ofBytes (order : ByteOrder) (pHead : Str) : FullHead where
  toWHead := .ofBytes order pHead
  businessId := charAt pHead opBusinessId
  methodId := charAt pHead opMethodId
  replyId := order.int pHead opReplyId
  destinationId := order.int pHead opDestinationId
  sourceId := order.int pHead opSourceId
  sequenceId := charAt pHead opSequenceId
  reserve1 := charAt pHead opReserve1
  dataSize := order.short pHead opDataSize
  repeatCount := charAt pHead opRepeatCount
  reserve2 := charAt pHead opReserve2

section

variable (order : ByteOrder)

def setHandleId (handleId : UInt16) (h : FullHead) : FullHead :=
  { h with
    handleId := handleId.toNat
    data := memcpy h.data opHandleId (order.shortBytes handleId.toNat) }

def setTime (now : Tm) (h : FullHead) : FullHead :=
  { h with data := memcpy h.data opTime now.ncTime }

def setSize (h : FullHead) : FullHead :=
  let data := memcpy h.data 0 (order.shortBytes (headSize - 2))
  let data := memcpy data opDataSize (order.shortBytes 0)
  let data := memcpy data opRepeatCount [0]
  let data := memcpy data opSequenceId [0]
  { h with totalSize := headSize - 2, dataSize := 0, repeatCount := 0, sequenceId := 0, data }

def setDefault (now : Tm) (h : FullHead) : FullHead :=
  let data := memcpy h.data opDestinationId (order.intBytes equipmentIdNeptun)
  let data := memcpy data opSourceId (order.intBytes equipmentIdTemip)
  let data := memcpy data opReplyKindId (order.shortBytes 0)
  setSize order (setTime now
    { h with
      destinationId := equipmentIdNeptun, sourceId := equipmentIdTemip, replyKindId := 0, data })

/-- `WHead::Run`: the head that is passed to `WriteResponse`. -/
def run (now : Tm) (h : FullHead) : FullHead :=
  if h.handleId = handleIdHcRequest then setDefault order now (setHandleId order handleIdHcReply h)
  else if h.handleId = handleIdWorkRequest then
    setDefault order now (setHandleId order handleIdWorkReply h)
  else setDefault order now h

/-- `WSaxXml::SendReponse`, with `m_head`: the head that is passed to `WriteResponse`. -/
def sendReponse (now : Tm) (h : FullHead) : FullHead :=
  setDefault order now (setHandleId order handleIdWorkReply h)

end

end FullHead

/-! ### What is read of the bytes -/

section

variable {order : ByteOrder} {data bytes : Str} {offset i n : Nat}

theorem length_memcpy (h : offset + bytes.length ≤ data.length) :
    (memcpy data offset bytes).length = data.length := by
  simp only [memcpy, List.length_append, List.length_take, List.length_drop]
  omega

theorem getD_memcpy (h : offset ≤ data.length) :
    (memcpy data offset bytes).getD i 0 =
      if i < offset then data.getD i 0
      else if i < offset + bytes.length then bytes.getD (i - offset) 0
      else data.getD i 0 := by
  have hlen : (data.take offset).length = offset := List.length_take_of_le h
  simp only [memcpy, List.getD_eq_getElem?_getD]
  split
  · rename_i hi
    rw [List.append_assoc, List.getElem?_append_left (by omega), List.getElem?_take_of_lt hi]
  · rename_i hi
    rw [List.append_assoc, List.getElem?_append_right (by omega), hlen]
    split
    · rename_i hi'
      rw [List.getElem?_append_left (by omega)]
    · rename_i hi'
      rw [List.getElem?_append_right (by omega), List.getElem?_drop]
      congr 2
      omega

@[simp] theorem length_shortBytes : (order.shortBytes n).length = 2 := by cases order <;> rfl

@[simp] theorem length_intBytes : (order.intBytes n).length = 4 := by cases order <;> rfl

@[simp] theorem length_ncTime (tm : Tm) : tm.ncTime.length = 6 := rfl

/-- A number that is written elsewhere. -/
theorem short_memcpy_of_ne (h : offset ≤ data.length)
    (hi : i + 2 ≤ offset ∨ offset + bytes.length ≤ i) :
    order.short (memcpy data offset bytes) i = order.short data i := by
  have h₀ : (memcpy data offset bytes).getD i 0 = data.getD i 0 := by
    rw [getD_memcpy h]
    split_ifs <;> first | rfl | omega
  have h₁ : (memcpy data offset bytes).getD (i + 1) 0 = data.getD (i + 1) 0 := by
    rw [getD_memcpy h]
    split_ifs <;> first | rfl | omega
  simp only [ByteOrder.short, h₀, h₁]

theorem charAt_memcpy_of_ne (h : offset ≤ data.length)
    (hi : i + 1 ≤ offset ∨ offset + bytes.length ≤ i) :
    charAt (memcpy data offset bytes) i = charAt data i := by
  rw [charAt, getD_memcpy h]
  split_ifs <;> first | rfl | omega

theorem int_memcpy_of_ne (h : offset ≤ data.length)
    (hi : i + 4 ≤ offset ∨ offset + bytes.length ≤ i) :
    order.int (memcpy data offset bytes) i = order.int data i := by
  have h₀ : order.short (memcpy data offset bytes) i = order.short data i :=
    short_memcpy_of_ne h (by omega)
  have h₂ : order.short (memcpy data offset bytes) (i + 2) = order.short data (i + 2) :=
    short_memcpy_of_ne h (by omega)
  simp only [ByteOrder.int, h₀, h₂]

/-- A number that is read where it was written, among other bytes. -/
theorem short_memcpy_append (pre post : Str) (h : offset ≤ data.length) :
    order.short (memcpy data offset (pre ++ (order.shortBytes n ++ post))) (offset + pre.length) =
      n % 0x10000 := by
  have hhigh : (n / 0x100).toUInt8.toNat = n / 0x100 % 0x100 := UInt8.toNat_ofNat'
  have hlow : n.toUInt8.toNat = n % 0x100 := UInt8.toNat_ofNat'
  have hbyte : ∀ k < 2, (memcpy data offset (pre ++ (order.shortBytes n ++ post))).getD
      (offset + pre.length + k) 0 = (order.shortBytes n).getD k 0 := by
    intro k hk
    have hlen : k < (order.shortBytes n).length := by rwa [length_shortBytes]
    rw [getD_memcpy h, if_neg (by omega), if_pos (by simp; omega), Nat.add_assoc,
      Nat.add_sub_cancel_left, List.getD_append_right _ _ _ _ (by omega),
      Nat.add_sub_cancel_left, List.getD_append _ _ _ _ hlen]
  have h₀ := hbyte 0 (by decide)
  have h₁ := hbyte 1 (by decide)
  rw [Nat.add_zero] at h₀
  unfold ByteOrder.short
  rw [h₀, h₁]
  cases order <;> simp only [ByteOrder.shortBytes, List.getD_cons_zero, List.getD_cons_succ,
    hhigh, hlow] <;> omega

theorem short_memcpy_self (h : offset ≤ data.length) (hn : n < 0x10000) :
    order.short (memcpy data offset (order.shortBytes n)) offset = n := by
  have hself := @short_memcpy_append order data offset n [] [] h
  simpa [Nat.mod_eq_of_lt hn] using hself

theorem int_memcpy_self (h : offset ≤ data.length) (hn : n < 0x100000000) :
    order.int (memcpy data offset (order.intBytes n)) offset = n := by
  cases order with
  | big =>
      have hhigh := @short_memcpy_append .big data offset (n / 0x10000) []
        (ByteOrder.big.shortBytes n) h
      have hlow := @short_memcpy_append .big data offset n (ByteOrder.big.shortBytes (n / 0x10000))
        [] h
      simp only [List.nil_append, List.append_nil, List.length_nil, length_shortBytes] at hhigh hlow
      simp only [ByteOrder.int, ByteOrder.intBytes, hlow]
      rw [Nat.add_zero] at hhigh
      rw [hhigh]
      omega
  | little =>
      have hlow := @short_memcpy_append .little data offset n []
        (ByteOrder.little.shortBytes (n / 0x10000)) h
      have hhigh := @short_memcpy_append .little data offset (n / 0x10000)
        (ByteOrder.little.shortBytes n) [] h
      simp only [List.nil_append, List.append_nil, List.length_nil, length_shortBytes] at hhigh hlow
      simp only [ByteOrder.int, ByteOrder.intBytes, hhigh]
      rw [Nat.add_zero] at hlow
      rw [hlow]
      omega

theorem charAt_memcpy_self (h : offset ≤ data.length) (b : UInt8) :
    charAt (memcpy data offset [b]) offset = b.toNat := by
  rw [charAt, getD_memcpy h]
  simp

end

/-! ### The members and the bytes -/

/-- The calls of the setters. -/
inductive HeadCall where
  | setHandleId (handleId : UInt16)
  | setDefault (now : Tm)
  | setSize
  | setTime (now : Tm)

def HeadCall.apply (order : ByteOrder) : FullHead → HeadCall → FullHead
  | h, .setHandleId handleId => h.setHandleId order handleId
  | h, .setDefault now => h.setDefault order now
  | h, .setSize => h.setSize order
  | h, .setTime now => h.setTime now

/-- The members that stand for bytes of `m_data`. -/
inductive Member where
  | totalSize
  | businessId
  | methodId
  | handleId
  | replyId
  | replyKindId
  | destinationId
  | sourceId
  | sequenceId
  | reserve1
  | dataSize
  | repeatCount
  | reserve2
  deriving DecidableEq

namespace Member

/-- The offset and the size of a member. -/
def place : Member → Nat × Nat
  | totalSize => (0, 2)
  | businessId => (opBusinessId, 1)
  | methodId => (opMethodId, 1)
  | handleId => (opHandleId, 2)
  | replyId => (opReplyId, 4)
  | replyKindId => (opReplyKindId, 2)
  | destinationId => (opDestinationId, 4)
  | sourceId => (opSourceId, 4)
  | sequenceId => (opSequenceId, 1)
  | reserve1 => (opReserve1, 1)
  | dataSize => (opDataSize, 2)
  | repeatCount => (opRepeatCount, 1)
  | reserve2 => (opReserve2, 1)

/-- The value of a member. -/
def get (h : FullHead) : Member → Nat
  | totalSize => h.totalSize
  | businessId => h.businessId
  | methodId => h.methodId
  | handleId => h.handleId
  | replyId => h.replyId
  | replyKindId => h.replyKindId
  | destinationId => h.destinationId
  | sourceId => h.sourceId
  | sequenceId => h.sequenceId
  | reserve1 => h.reserve1
  | dataSize => h.dataSize
  | repeatCount => h.repeatCount
  | reserve2 => h.reserve2

def set (n : Nat) (h : FullHead) : Member → FullHead
  | totalSize => { h with totalSize := n }
  | businessId => { h with businessId := n }
  | methodId => { h with methodId := n }
  | handleId => { h with handleId := n }
  | replyId => { h with replyId := n }
  | replyKindId => { h with replyKindId := n }
  | destinationId => { h with destinationId := n }
  | sourceId => { h with sourceId := n }
  | sequenceId => { h with sequenceId := n }
  | reserve1 => { h with reserve1 := n }
  | dataSize => { h with dataSize := n }
  | repeatCount => { h with repeatCount := n }
  | reserve2 => { h with reserve2 := n }

/-- The value that the bytes of a member have. -/
def read (order : ByteOrder) (data : Str) (m : Member) : Nat :=
  match m.place with
  | (offset, 1) => charAt data offset
  | (offset, 2) => order.short data offset
  | (offset, _) => order.int data offset

/-- The bytes of a value of a member. -/
def bytes (order : ByteOrder) (n : Nat) (m : Member) : Str :=
  match m.place.2 with
  | 1 => [n.toUInt8]
  | 2 => order.shortBytes n
  | _ => order.intBytes n

/-- A member and its bytes are set. -/
def put (order : ByteOrder) (m : Member) (n : Nat) (h : FullHead) : FullHead :=
  { m.set n h with data := memcpy h.data m.place.1 (m.bytes order n) }

variable {order : ByteOrder} {h : FullHead} {m m' : Member} {n : Nat} {data bs : Str}

theorem get_set_self : get (m.set n h) m = n := by cases m <;> rfl

theorem get_set_of_ne (hm : m' ≠ m) : get (m.set n h) m' = get h m' := by
  cases m <;> cases m' <;> first | rfl | exact absurd rfl hm

theorem length_bytes : (m.bytes order n).length = m.place.2 := by
  cases m <;> cases order <;> rfl

/-- A member is in the head, and no two of them overlap, or overlap the time. -/
theorem place_le (m : Member) : m.place.1 + m.place.2 ≤ headSize := by cases m <;> decide

theorem place_disjoint (hm : m' ≠ m) :
    m'.place.1 + m'.place.2 ≤ m.place.1 ∨ m.place.1 + m.place.2 ≤ m'.place.1 := by
  cases m <;> cases m' <;> first | exact absurd rfl hm | decide

theorem place_opTime (m : Member) :
    m.place.1 + m.place.2 ≤ opTime ∨ opTime + 6 ≤ m.place.1 := by cases m <;> decide

/-- **A member that is written elsewhere** than at its place. -/
theorem read_memcpy_of_ne {offset : Nat} (h : offset ≤ data.length)
    (hm : m.place.1 + m.place.2 ≤ offset ∨ offset + bs.length ≤ m.place.1) :
    read order (memcpy data offset bs) m = read order data m := by
  cases m
  all_goals first
    | exact short_memcpy_of_ne h hm
    | exact int_memcpy_of_ne h hm
    | exact charAt_memcpy_of_ne h hm

/-- **A member that is written at its place.** -/
theorem read_memcpy_self (h : m.place.1 ≤ data.length) (hn : n < 0x100 ^ m.place.2) :
    read order (memcpy data m.place.1 (m.bytes order n)) m = n := by
  have hchar : n < 0x100 → n.toUInt8.toNat = n := fun hlt => by
    rw [show n.toUInt8.toNat = n % 0x100 from UInt8.toNat_ofNat', Nat.mod_eq_of_lt hlt]
  cases m
  all_goals first
    | exact short_memcpy_self h hn
    | exact int_memcpy_self h hn
    | exact (charAt_memcpy_self h _).trans (hchar hn)

end Member

namespace FullHead

/-- Every member is what is read of `m_data`. -/
structure Consistent (order : ByteOrder) (h : FullHead) : Prop where
  length : h.data.length = headSize
  get_eq : ∀ m, m.get h = Member.read order h.data m

variable {order : ByteOrder} {h : FullHead} {m : Member} {n : Nat}

theorem get_ofBytes (order : ByteOrder) (data : Str) (m : Member) :
    Member.get (ofBytes order data) m = Member.read order data m := by
  cases m <;> rfl

theorem Consistent.ofBytes {data : Str} (hlength : data.length = headSize) :
    (FullHead.ofBytes order data).Consistent order := ⟨hlength, get_ofBytes order data⟩

/-- **A member is set** with its bytes, and the others are left. -/
theorem Consistent.put (hc : h.Consistent order) (hn : n < 0x100 ^ m.place.2) :
    (m.put order n h).Consistent order := by
  obtain ⟨hlength, hget⟩ := hc
  have hplace := m.place_le
  have hle : m.place.1 ≤ h.data.length := by omega
  constructor
  · refine (length_memcpy ?_).trans hlength
    rw [Member.length_bytes, hlength]
    exact hplace
  · intro m'
    by_cases hm : m' = m
    · subst hm
      exact Member.get_set_self.trans (Member.read_memcpy_self hle hn).symm
    · have hdisjoint : m'.place.1 + m'.place.2 ≤ m.place.1 ∨
          m.place.1 + (m.bytes order n).length ≤ m'.place.1 := by
        rw [Member.length_bytes]
        exact Member.place_disjoint hm
      calc Member.get (m.put order n h) m'
          = Member.get h m' := Member.get_set_of_ne hm
        _ = Member.read order h.data m' := hget m'
        _ = Member.read order (m.put order n h).data m' :=
          (Member.read_memcpy_of_ne hle hdisjoint).symm

theorem Consistent.setTime (hc : h.Consistent order) (now : Tm) :
    (h.setTime now).Consistent order := by
  obtain ⟨hlength, hget⟩ := hc
  have hle : opTime + now.ncTime.length ≤ h.data.length := by
    rw [hlength, length_ncTime]
    decide
  refine ⟨(length_memcpy hle).trans hlength, fun m => (hget m).trans ?_⟩
  exact (Member.read_memcpy_of_ne (by omega) m.place_opTime).symm

/-! ### The setters -/

theorem setHandleId_eq (handleId : UInt16) (h : FullHead) :
    h.setHandleId order handleId = Member.handleId.put order handleId.toNat h := rfl

theorem setSize_eq (h : FullHead) :
    h.setSize order = Member.sequenceId.put order 0 (Member.repeatCount.put order 0
      (Member.dataSize.put order 0 (Member.totalSize.put order 30 h))) := rfl

theorem setDefault_eq (now : Tm) (h : FullHead) :
    h.setDefault order now = ((Member.replyKindId.put order 0
      (Member.sourceId.put order equipmentIdTemip
        (Member.destinationId.put order equipmentIdNeptun h))).setTime now).setSize order := rfl

theorem Consistent.setHandleId (hc : h.Consistent order) (handleId : UInt16) :
    (h.setHandleId order handleId).Consistent order := by
  rw [setHandleId_eq]
  exact hc.put handleId.toNat_lt

theorem Consistent.setSize (hc : h.Consistent order) : (h.setSize order).Consistent order := by
  rw [setSize_eq]
  exact (((hc.put (by decide)).put (by decide)).put (by decide)).put (by decide)

theorem Consistent.setDefault (hc : h.Consistent order) (now : Tm) :
    (h.setDefault order now).Consistent order := by
  rw [setDefault_eq]
  exact ((((hc.put (by decide)).put (by decide)).put (by decide)).setTime now).setSize

/-- **A setter** keeps the members and the bytes together. -/
theorem Consistent.apply (hc : h.Consistent order) (c : HeadCall) :
    (c.apply order h).Consistent order := by
  cases c with
  | setHandleId handleId => exact hc.setHandleId handleId
  | setDefault now => exact hc.setDefault now
  | setSize => exact hc.setSize
  | setTime now => exact hc.setTime now

theorem Consistent.calls (hc : h.Consistent order) (calls : List HeadCall) :
    (calls.foldl (HeadCall.apply order) h).Consistent order := by
  induction calls generalizing h with
  | nil => exact hc
  | cons c calls ih => exact ih (hc.apply c)

/-! ### The replies -/

/-- The handle id of the reply to a request. -/
def replyHandleId (handleId : Nat) : Nat :=
  if handleId = handleIdHcRequest then 0x2002
  else if handleId = handleIdWorkRequest then 0x2102
  else handleId

/-- What is decoded of a reply, by what is decoded of the request. -/
structure IsReply (request reply : FullHead) : Prop where
  length : reply.data.length = headSize
  totalSize : reply.totalSize = 30
  dataSize : reply.dataSize = 0
  repeatCount : reply.repeatCount = 0
  sequenceId : reply.sequenceId = 0
  replyKindId : reply.replyKindId = 0
  sourceId : reply.sourceId = 0x9001
  destinationId : reply.destinationId = 0x7901
  handleId : reply.handleId = replyHandleId request.handleId
  businessId : reply.businessId = request.businessId
  methodId : reply.methodId = request.methodId
  replyId : reply.replyId = request.replyId
  reserve1 : reply.reserve1 = request.reserve1
  reserve2 : reply.reserve2 = request.reserve2

theorem isReply_run (request : FullHead) (now : Tm)
    (hlength : (request.run order now).data.length = headSize) :
    IsReply request (request.run order now) := by
  have hhandle : (request.run order now).handleId = replyHandleId request.handleId := by
    simp only [run, replyHandleId]
    split_ifs <;> rfl
  refine ⟨hlength, ?_, ?_, ?_, ?_, ?_, ?_, ?_, hhandle, ?_, ?_, ?_, ?_, ?_⟩
  all_goals
    simp only [run]
    split_ifs <;> rfl

/-- `SendReponse` answers a work request as `Run` does. -/
theorem sendReponse_eq_run {request : FullHead} (h : request.handleId = handleIdWorkRequest)
    (now : Tm) : request.sendReponse order now = request.run order now := by
  rw [run, if_neg (by rw [h]; decide), if_pos h, sendReponse]

theorem Consistent.run (hc : h.Consistent order) (now : Tm) :
    (h.run order now).Consistent order := by
  simp only [FullHead.run]
  split_ifs
  · exact (hc.setHandleId _).setDefault now
  · exact (hc.setHandleId _).setDefault now
  · exact hc.setDefault now

/-- A head whose members and bytes are together is what its bytes are decoded to. -/
theorem Consistent.eq_ofBytes (hc : h.Consistent order) :
    h = FullHead.ofBytes order h.data := by
  ext
  · exact hc.get_eq .totalSize
  · exact hc.get_eq .handleId
  · exact hc.get_eq .replyKindId
  · rfl
  · exact hc.get_eq .replyId
  · exact hc.get_eq .destinationId
  · exact hc.get_eq .sourceId
  · exact hc.get_eq .sequenceId
  · exact hc.get_eq .dataSize
  · exact hc.get_eq .repeatCount
  · exact hc.get_eq .businessId
  · exact hc.get_eq .methodId
  · exact hc.get_eq .reserve1
  · exact hc.get_eq .reserve2

/-- The loop makes a `WSaxXml` of the head of a work request only. -/
theorem handleId_of_work {conn : Nat} {xmlBuff text : List (Nat × Str)} {head head' : WHead}
    {buff : Str} (hwork : .work text head' ∈ (withoutData xmlBuff head).2 ∨
      .work text head' ∈ (withData conn xmlBuff head buff).2) :
    head' = head ∧ head.handleId = handleIdWorkRequest := by
  unfold withoutData withData at hwork
  split_ifs at hwork with hhc hh hend
  case pos => exact absurd (hhc.symm.trans hh) (by decide)
  all_goals simp at hwork
  all_goals first
    | exact ⟨hwork.2, ‹_›⟩
    | (rcases hwork with hwork | hwork <;> exact ⟨hwork.2, ‹_›⟩)

end FullHead

open FullHead

/-- **The replies.**  What is passed to `WriteResponse`, by `Run` or by `SendReponse` of a `WSaxXml`
that the loop has made of the request, is decoded to a reply of the request, with its size, so that
a receiver does not expect a body; and whatever setters are called, the members are what the bytes
are decoded to. -/
theorem replies (order : ByteOrder) (now : Tm) {request : Str}
    (hlength : request.length = headSize) :
    IsReply (ofBytes order request) (ofBytes order ((ofBytes order request).run order now).data) ∧
    (∀ (conn : Nat) (xmlBuff text : List (Nat × Str)) (head : WHead) (buff : Str),
      .work text head ∈ (withoutData xmlBuff (.ofBytes order request)).2 ∨
        .work text head ∈ (withData conn xmlBuff (.ofBytes order request) buff).2 →
      IsReply (ofBytes order request)
        (ofBytes order ((ofBytes order head.data).sendReponse order now).data)) ∧
    ∀ calls : List HeadCall,
      calls.foldl (HeadCall.apply order) (ofBytes order request) =
        ofBytes order (calls.foldl (HeadCall.apply order) (ofBytes order request)).data := by
  have hofBytes : (ofBytes order request).Consistent order := .ofBytes hlength
  have hrun := hofBytes.run now
  have hreply : IsReply (ofBytes order request)
      (ofBytes order ((ofBytes order request).run order now).data) := by
    rw [← hrun.eq_ofBytes]
    exact isReply_run _ now hrun.length
  refine ⟨hreply, fun conn xmlBuff text head buff hwork => ?_, fun calls => ?_⟩
  · obtain ⟨rfl, hhandle⟩ := handleId_of_work hwork
    have hdata : (WHead.ofBytes order request).data = request := rfl
    have hsend : (ofBytes order request).sendReponse order now =
        (ofBytes order request).run order now := sendReponse_eq_run hhandle now
    rwa [hdata, hsend]
  · exact (hofBytes.calls calls).eq_ofBytes

/-- An HC request with other values in the members that a reply does not take over. -/
theorem replies_hc : IsReply
    (ofBytes .big (lit "\x00\x1e\x01\x02\x20\x01" ++ List.replicate 26 0x7f))
    (ofBytes .big ((ofBytes .big (lit "\x00\x1e\x01\x02\x20\x01" ++
      List.replicate 26 0x7f)).run .big ⟨109, 0, 4, 12, 30, 59⟩).data) :=
  (replies .big ⟨109, 0, 4, 12, 30, 59⟩ (by decide)).1

end Realwork.Receive
