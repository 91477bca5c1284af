import Mathlib.Data.List.Nodup
import Mathlib.Logic.Function.Basic

/-!
# Lib — writers with buffers of their own

The writers `0`, `1`, … append to one file, each through a buffer of its own: what a writer puts is
collected there, and spilled when the buffer is full, and the rest is flushed at the end.  Each
piece of the file has its writer.

* `stream_put`, `stream_spill`, `stream_flush`: what a writer has put is in its pieces of the file
  and in its buffer.
* `Full.flush`, `Flushed.pieces_eq`: a writer that never fills its buffer writes one piece.
* `exists_order`: what the file is then.
-/

namespace Realwork.Lib

/-- The buffers, and the pieces of the file with their writers. -/
structure Buffers (α : Type) where
  buffer : Nat → List α
  file : List (Nat × List α)

namespace Buffers

variable {α : Type}

/-- Nothing has been put. -/
def empty : Buffers α := ⟨fun _ => [], []⟩

def put (w : Nat) (as : List α) (b : Buffers α) : Buffers α :=
  { b with buffer := Function.update b.buffer w (b.buffer w ++ as) }

/-- The first `size` elements of the buffer are written. -/
def spill (size w : Nat) (b : Buffers α) : Buffers α where
  buffer := Function.update b.buffer w ((b.buffer w).drop size)
  file := b.file ++ [(w, (b.buffer w).take size)]

/-- All of the buffer is written. -/
def flush (w : Nat) (b : Buffers α) : Buffers α where
  buffer := Function.update b.buffer w []
  file := b.file ++ [(w, b.buffer w)]

/-- What is in the file. -/
def text (b : Buffers α) : List α := b.file.flatMap Prod.snd

/-- The pieces of a writer. -/
def pieces (b : Buffers α) (w : Nat) : List (List α) :=
  (b.file.filter fun piece => piece.1 = w).map Prod.snd

/-- What a writer has put. -/
def stream (b : Buffers α) (w : Nat) : List α := (b.pieces w).flatten ++ b.buffer w

variable {b : Buffers α} {size w u : Nat} {as : List α}

/-! ### What the operations do -/

theorem buffer_put : (b.put w as).buffer w = b.buffer w ++ as := Function.update_self ..

theorem buffer_put_of_ne (h : u ≠ w) : (b.put w as).buffer u = b.buffer u :=
  Function.update_of_ne h ..

theorem pieces_append {piece : List α} {buffer : Nat → List α} :
    pieces ⟨buffer, b.file ++ [(w, piece)]⟩ w = b.pieces w ++ [piece] := by
  simp [pieces]

theorem pieces_append_of_ne (h : u ≠ w) {piece : List α} {buffer : Nat → List α} :
    pieces ⟨buffer, b.file ++ [(w, piece)]⟩ u = b.pieces u := by
  simp [pieces, h.symm]

theorem stream_put : (b.put w as).stream w = b.stream w ++ as := by
  rw [stream, stream, buffer_put, List.append_assoc]
  rfl

theorem stream_put_of_ne (h : u ≠ w) : (b.put w as).stream u = b.stream u := by
  rw [stream, buffer_put_of_ne h]
  rfl

/-- A piece that is the beginning of the buffer moves to the file. -/
theorem stream_write {piece rest : List α} (h : piece ++ rest = b.buffer w) (u : Nat) :
    stream ⟨Function.update b.buffer w rest, b.file ++ [(w, piece)]⟩ u = b.stream u := by
  by_cases hu : u = w
  · subst hu
    have hrest : Function.update b.buffer u rest u = rest := Function.update_self ..
    rw [stream, stream, pieces_append, List.flatten_append, List.flatten_singleton, ← h,
      List.append_assoc]
    exact congrArg (fun rest => (b.pieces u).flatten ++ (piece ++ rest)) hrest
  · have hsame : Function.update b.buffer w rest u = b.buffer u := Function.update_of_ne hu ..
    rw [stream, stream, pieces_append_of_ne hu]
    exact congrArg ((b.pieces u).flatten ++ ·) hsame

theorem stream_spill (u : Nat) : (b.spill size w).stream u = b.stream u :=
  stream_write (List.take_append_drop size (b.buffer w)) u

theorem stream_flush (u : Nat) : (b.flush w).stream u = b.stream u :=
  stream_write (List.append_nil (b.buffer w)) u

/-! ### Pieces of full buffers -/

/-- The writer has spilled full buffers only. -/
def Full (size w : Nat) (b : Buffers α) : Prop := ∀ piece ∈ b.pieces w, piece.length = size

/-- The writer has flushed what was left behind its full buffers. -/
def Flushed (size w : Nat) (b : Buffers α) : Prop :=
  b.buffer w = [] ∧ ∃ pieces last, b.pieces w = pieces ++ [last] ∧
    ∀ piece ∈ pieces, piece.length = size

theorem full_empty : Full size w (empty : Buffers α) := fun _ hpiece => nomatch hpiece

theorem Full.put (h : b.Full size w) (u : Nat) (as : List α) : (b.put u as).Full size w := h

theorem Full.spill (h : b.Full size w) (hfull : size ≤ (b.buffer w).length) :
    (b.spill size w).Full size w := by
  intro piece hpiece
  rw [Buffers.spill, pieces_append] at hpiece
  rcases List.mem_append.mp hpiece with hpiece | hpiece
  · exact h piece hpiece
  · rw [List.mem_singleton.mp hpiece]
    exact List.length_take_of_le hfull

theorem Full.flush (h : b.Full size w) : (b.flush w).Flushed size w :=
  ⟨Function.update_self .., b.pieces w, b.buffer w, pieces_append, h⟩

/-- The other writers do not matter. -/
theorem Full.of_ne (h : b.Full size u) (hu : u ≠ w) {piece : List α} {buffer : Nat → List α} :
    Full size u ⟨buffer, b.file ++ [(w, piece)]⟩ := by
  intro piece' hpiece
  rw [pieces_append_of_ne hu] at hpiece
  exact h piece' hpiece

theorem Flushed.of_ne (h : b.Flushed size u) (hu : u ≠ w) {piece rest : List α} :
    Flushed size u ⟨Function.update b.buffer w rest, b.file ++ [(w, piece)]⟩ := by
  obtain ⟨hbuffer, pieces, last, hpieces, hfull⟩ := h
  refine ⟨(Function.update_of_ne hu ..).trans hbuffer, pieces, last, ?_, hfull⟩
  rw [pieces_append_of_ne hu, hpieces]

theorem Flushed.put_of_ne (h : b.Flushed size u) (hu : u ≠ w) : (b.put w as).Flushed size u :=
  ⟨(buffer_put_of_ne hu).trans h.1, h.2⟩

theorem Flushed.flatten_pieces (h : b.Flushed size w) : (b.pieces w).flatten = b.stream w := by
  rw [stream, h.1, List.append_nil]

/-- A full piece is not longer than what its writer has put. -/
theorem le_length_stream {pieces rest : List (List α)}
    (hfull : ∀ piece ∈ pieces, piece.length = size) (hne : pieces ≠ [])
    (h : b.pieces w = pieces ++ rest) : size ≤ (b.stream w).length := by
  obtain ⟨piece, pieces, rfl⟩ := List.exists_cons_of_ne_nil hne
  rw [stream, h, List.cons_append, List.flatten_cons, List.append_assoc, List.length_append,
    hfull piece List.mem_cons_self]
  exact Nat.le_add_right ..

/-- **A writer that has not filled its buffer** writes one piece. -/
theorem Flushed.pieces_eq (h : b.Flushed size w) (hless : (b.stream w).length < size) :
    b.pieces w = [b.stream w] := by
  have hstream := h.flatten_pieces
  obtain ⟨-, pieces, last, hpieces, hfull⟩ := h
  have hnil : pieces = [] := by
    by_contra hne
    exact Nat.not_le_of_lt hless (le_length_stream hfull hne hpieces)
  rw [hpieces, hnil, List.nil_append] at hstream ⊢
  rw [← hstream, List.flatten_singleton]

theorem Full.pieces_eq_nil (h : b.Full size w) (hless : (b.stream w).length < size) :
    b.pieces w = [] := by
  by_contra hne
  exact Nat.not_le_of_lt hless (le_length_stream h hne (List.append_nil _).symm)

/-- **What is in the file**, if each writer has written one piece at most, and has put nothing
else: what the writers have put, one after the other. -/
theorem exists_order (h : ∀ w, b.pieces w = [] ∨ b.pieces w = [b.stream w]) :
    ∃ order : List Nat, order.Nodup ∧ (∀ w, w ∈ order ↔ b.pieces w ≠ []) ∧
      b.text = order.flatMap b.stream := by
  have hcount (w : Nat) : (b.file.map Prod.fst).count w = (b.pieces w).length := by
    rw [List.count_eq_length_filter, pieces, List.length_map, List.filter_map, List.length_map]
    congr
  refine ⟨b.file.map Prod.fst, List.nodup_iff_count_le_one.mpr fun w => ?_, fun w => ?_, ?_⟩
  · rw [hcount]
    rcases h w with hw | hw
    · rw [hw]
      exact Nat.zero_le 1
    · rw [hw]
      exact Nat.le_refl 1
  · rw [← List.count_pos_iff, hcount, List.length_pos_iff]
  · rw [text, List.flatMap_map]
    refine List.flatMap_congr fun piece hpiece => ?_
    have hmem : piece.2 ∈ b.pieces piece.1 := List.mem_map_of_mem (by simpa using hpiece)
    rcases h piece.1 with hw | hw
    · rw [hw] at hmem
      exact absurd hmem List.not_mem_nil
    · rw [hw] at hmem
      exact List.mem_singleton.mp hmem

end Buffers

end Realwork.Lib
