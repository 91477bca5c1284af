import Mathlib.Data.List.Basic

/-!
# Lib — streams in segments

A stream that arrives in segments, and the loop that reads a given number of elements of it: it
takes what each segment has, and leaves what it does not need.

* `readn_fst`, `readn_snd`: what is read and what is left depend on the stream only, not on its
  division into segments.
-/

namespace Realwork.Lib

variable {α : Type}

/-- Read `n` elements, or all there are; and the segments that are left. -/
def readn (n : Nat) : List (List α) → List α × List (List α)
  | [] => ([], [])
  | seg :: segs =>
      if n < seg.length then (seg.take n, seg.drop n :: segs)
      else
        let (got, rest) := readn (n - seg.length) segs
        (seg ++ got, rest)

theorem readn_fst (n : Nat) (segs : List (List α)) :
    (readn n segs).1 = segs.flatten.take n := by
  induction segs generalizing n with
  | nil => simp [readn]
  | cons seg segs ih =>
      rw [readn, List.flatten_cons, List.take_append]
      split
      · rename_i hlt
        simp [Nat.sub_eq_zero_of_le (Nat.le_of_lt hlt)]
      · rename_i hle
        simp only [ih]
        rw [List.take_of_length_le (Nat.le_of_not_lt hle)]

theorem readn_snd (n : Nat) (segs : List (List α)) :
    (readn n segs).2.flatten = segs.flatten.drop n := by
  induction segs generalizing n with
  | nil => simp [readn]
  | cons seg segs ih =>
      rw [readn, List.flatten_cons, List.drop_append]
      split
      · rename_i hlt
        simp [Nat.sub_eq_zero_of_le (Nat.le_of_lt hlt)]
      · rename_i hle
        simp only [ih]
        rw [List.drop_of_length_le (Nat.le_of_not_lt hle), List.nil_append]

end Realwork.Lib
