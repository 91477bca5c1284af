import Mathlib.Data.List.Infix

/-!
# Lib — the first and the last place in a text

What a pattern of a scripting language takes of a text: it matches at the first place it can, and
what is repeated in it takes as much as it can.

* `cutLast_eq_none_iff`: nothing is found exactly if there is no place.
* `cutLast_append`: the text is cut at the last place.
-/

namespace Realwork.Lib

variable {α β : Type}

/-- What `f` finds at the first place of the text at which it finds something. -/
def leftmost (f : List α → Option β) (s : List α) : Option β := s.tails.findSome? f

/-- The text before the last place at which `f` finds something, and what it finds there. -/
def cutLast (f : List α → Option β) : List α → Option (List α × β)
  | [] => (f []).map ([], ·)
  | a :: s =>
      match cutLast f s with
      | some (x, b) => some (a :: x, b)
      | none => (f (a :: s)).map ([], ·)

variable {f : List α → Option β} {s : List α} {a : α} {b : β}

theorem leftmost_of_eq_some (h : f s = some b) : leftmost f s = some b := by
  cases s <;> simp [leftmost, h]

theorem cutLast_eq_none_iff : cutLast f s = none ↔ ∀ t, t <:+ s → f t = none := by
  induction s with
  | nil => simp [cutLast]
  | cons a s ih =>
      have hcons : (∀ t, t <:+ a :: s → f t = none) ↔
          f (a :: s) = none ∧ ∀ t, t <:+ s → f t = none := by
        simp only [List.suffix_cons_iff, or_imp, forall_and, forall_eq]
      rw [hcons, ← ih, cutLast]
      cases hs : cutLast f s with
      | none => simp
      | some found => simp

/-- **The text is cut at the last place.** -/
theorem cutLast_append (h : f (a :: s) = some b) (hlast : cutLast f s = none) (x : List α) :
    cutLast f (x ++ a :: s) = some (x, b) := by
  induction x with
  | nil => rw [List.nil_append, cutLast, hlast, h, Option.map_some]
  | cons c x ih => rw [List.cons_append, cutLast, ih]

end Realwork.Lib
