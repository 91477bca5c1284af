import Realwork.Receive.Socket

/-!
# Receive — the length of a body

`ReadWork` takes the length of a body from the head the peer sends: an `unsigned short`, less 30, is
an `int`; the `int` is the size of an array and, as a `size_t`, the number of bytes `Readn` is to
store.  No branch tests it.

* `bodySafe_iff`: the array is large enough for every head whose size is 30 at least, and for no
  other one is the length a length.
* `readBody_gone_iff`: the reading loop is left on the heads of a size below 29.
-/

namespace Realwork.Receive

/-- The conversion of an `int` to a `size_t` of 64 bits. -/
def sizeT (n : Int) : Nat := (n % 0x10000000000000000).toNat

/-- `NO_TOTALSIZE_HEAD_SIZE`. -/
def noTotalsizeHeadSize : Int := 30

/-- `int dataSize = pHead->GetTotalSize() - NO_TOTALSIZE_HEAD_SIZE;`. -/
def WHead.dataSize (head : WHead) : Int := head.totalSize - noTotalsizeHeadSize

/-- What the branch for a body does with its array. -/
structure BodyAccess where
  /-- The bytes of `buff`. -/
  size : Nat
  /-- What `memset` clears. -/
  cleared : Nat
  /-- What `Readn` is asked for. -/
  asked : Nat
  /-- The index of `buff[dataSize]='\0'`. -/
  last : Int
  deriving DecidableEq

/-- `new char[n]`; a negative number is not the size of an array. -/
def newChar (n : Int) : Option Nat := if n < 0 then none else some n.toNat

/-- The branch for a body; there is none where the length is 0, or where `new` throws. -/
def WHead.bodyAccess (head : WHead) : Option BodyAccess :=
  if head.dataSize = 0 then none
  else (newChar (head.dataSize + 1)).map fun size =>
    { size, cleared := sizeT (head.dataSize + 1), asked := sizeT head.dataSize,
      last := head.dataSize }

/-- The accesses are inside of the array, and the last byte is left for the zero. -/
structure BodyAccess.Inside (a : BodyAccess) : Prop where
  cleared : a.cleared ≤ a.size
  asked : (a.asked : Int) ≤ a.size - 1
  last : 0 ≤ a.last ∧ a.last < a.size

/-- The length is a length, and what is done with it stays inside of the array. -/
def WHead.BodySafe (head : WHead) : Prop :=
  0 ≤ head.dataSize ∧ ∀ a ∈ head.bodyAccess, a.Inside

theorem sizeT_of_nonneg {n : Int} (h : 0 ≤ n) (hlt : n < 0x10000000000000000) :
    sizeT n = n.toNat := by
  rw [sizeT, Int.emod_eq_of_lt h hlt]

theorem ByteOrder.short_lt (order : ByteOrder) (data : Str) (offset : Nat) :
    order.short data offset < 0x10000 := by
  have h₀ := (data.getD offset 0).toNat_lt
  have h₁ := (data.getD (offset + 1) 0).toNat_lt
  cases order <;> simp only [ByteOrder.short] <;> omega

section

variable (order : ByteOrder) (data : Str)

/-- The length of a body is between -30 and 65505. -/
theorem dataSize_ofBytes :
    (WHead.ofBytes order data).dataSize = order.short data 0 - 30 ∧ order.short data 0 < 0x10000 :=
  ⟨rfl, order.short_lt data 0⟩

/-- Only a head of size 29 gives an array that is too small: it has no byte, and `Readn` is asked
for the largest number there is.  The sizes below give no array. -/
theorem bodyAccess_inside_iff :
    (∀ a ∈ (WHead.ofBytes order data).bodyAccess, a.Inside) ↔ order.short data 0 ≠ 29 := by
  obtain ⟨hsize, hlt⟩ := dataSize_ofBytes order data
  set head := WHead.ofBytes order data with hhead
  by_cases hzero : head.dataSize = 0
  · rw [WHead.bodyAccess, if_pos hzero]
    exact ⟨fun _ => by omega, fun _ a ha => absurd ha (by simp)⟩
  by_cases hneg : head.dataSize + 1 < 0
  · rw [WHead.bodyAccess, if_neg hzero, newChar, if_pos hneg]
    exact ⟨fun _ => by omega, fun _ a ha => absurd ha (by simp)⟩
  rw [WHead.bodyAccess, if_neg hzero, newChar, if_neg hneg, Option.map_some]
  simp only [Option.mem_some_iff, forall_eq']
  constructor
  · rintro ⟨-, -, hlast⟩ h29
    exact absurd hlast.1 (by dsimp only; omega)
  · intro h29
    have hcleared := sizeT_of_nonneg (n := head.dataSize + 1) (by omega) (by omega)
    have hasked := sizeT_of_nonneg (n := head.dataSize) (by omega) (by omega)
    refine ⟨?_, ?_, ?_⟩
    · exact hcleared.le
    · dsimp only
      rw [hasked]
      omega
    · dsimp only
      omega

/-- **The length of a body** is safe for the heads whose size is 30 at least, and for no other. -/
theorem bodySafe_iff : (WHead.ofBytes order data).BodySafe ↔ 30 ≤ order.short data 0 := by
  obtain ⟨hsize, -⟩ := dataSize_ofBytes order data
  rw [WHead.BodySafe, bodyAccess_inside_iff, hsize]
  constructor
  · intro h
    omega
  · intro h
    exact ⟨by omega, by omega⟩

end

/-- Of a head of zeros the length is -30; for one of size 29 `Readn` is asked for the largest number
of bytes, of which its array has none. -/
theorem bodySafe_short :
    ¬ (WHead.ofBytes .big (List.replicate headSize 0)).BodySafe ∧
      ¬ (WHead.ofBytes .big (0 :: 29 :: List.replicate 30 0)).BodySafe ∧
      (WHead.ofBytes .big (0 :: 29 :: List.replicate 30 0)).bodyAccess =
        some ⟨0, 0, 0xffffffffffffffff, -1⟩ :=
  ⟨fun h => absurd h.1 (by decide), fun h => absurd h.1 (by decide), by decide⟩

/-- **The reading loop** is left where the array has no size, which is on the heads of a size
below 29; on one of size 29 the connection is broken off. -/
theorem readBody_gone_iff {order : ByteOrder} {r : Reader} {c : Conn} (later : List Conn)
    (got : Str) (hr : r.gone = false) :
    (readBody order r c later got).gone = true ↔ order.short (padded headSize got) 0 < 29 := by
  set size := order.short (padded headSize got) 0 with hdef
  have hdata : ((WHead.ofBytes order (padded headSize got)).totalSize : Int) = size := rfl
  simp only [readBody, hdata]
  by_cases h₀ : (size : Int) - 30 = 0
  · rw [if_pos h₀]
    simp only [Reader.done, hr, Bool.false_eq_true, false_iff]
    omega
  rw [if_neg h₀]
  by_cases h₁ : (size : Int) - 30 < -1
  · rw [if_pos h₁]
    simp only [true_iff]
    omega
  rw [if_neg h₁]
  by_cases h₂ : (size : Int) - 30 = -1
  · rw [if_pos h₂]
    simp only [Reader.broken, hr, Bool.false_eq_true, false_iff]
    omega
  rw [if_neg h₂]
  split
  · simp only [Reader.broken, hr, Bool.false_eq_true, false_iff]
    omega
  · simp only [Reader.done, hr, Bool.false_eq_true, false_iff]
    omega

end Realwork.Receive
