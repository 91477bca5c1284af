import Mathlib.Data.List.Destutter

/-!
# Lib — changes

Of a sequence the elements whose value is not that of the element before.

* `changes_concat`: one element more.
* `map_getLast?_changes`: the last change has the value of the last element.
-/

namespace Realwork.Lib

variable {α β : Type} [DecidableEq β] (f : α → β)

/-- The elements that change the value. -/
def changes (l : List α) : List α := l.destutter fun a b => f a ≠ f b

variable {f} {l : List α} {a : α}

omit [DecidableEq β] in
theorem map_getLast?_cons (a b : α) (h : f a = f b) (l : List α) :
    (a :: b :: l).getLast?.map f = (a :: l).getLast?.map f := by
  cases l with
  | nil => simp [h]
  | cons c l => simp

theorem destutter'_concat (b : α) (l : List α) (a : α) :
    (l ++ [a]).destutter' (fun a b => f a ≠ f b) b =
      l.destutter' (fun a b => f a ≠ f b) b ++
        if (b :: l).getLast?.map f = some (f a) then [] else [a] := by
  induction l generalizing b with
  | nil =>
      by_cases h : f b = f a
      · simp [h]
      · simp [h]
  | cons c l ih =>
      by_cases h : f b = f c
      · rw [List.cons_append, List.destutter'_cons_neg _ (not_not.mpr h), ih,
          List.destutter'_cons_neg _ (not_not.mpr h), map_getLast?_cons b c h]
      · rw [List.cons_append, List.destutter'_cons_pos _ h, ih, List.destutter'_cons_pos _ h,
          List.getLast?_cons_cons, List.cons_append]

/-- **One element more** is a change if the last element has another value. -/
theorem changes_concat :
    changes f (l ++ [a]) =
      changes f l ++ if l.getLast?.map f = some (f a) then [] else [a] := by
  cases l with
  | nil => rfl
  | cons b l => exact destutter'_concat b l a

/-- **The last change** has the value of the last element. -/
theorem map_getLast?_changes (l : List α) :
    (changes f l).getLast?.map f = l.getLast?.map f := by
  induction l using List.reverseRecOn with
  | nil => rfl
  | append_singleton l a ih =>
      rw [changes_concat]
      split
      · rename_i h
        rw [List.append_nil, ih, h, List.getLast?_concat, Option.map_some]
      · rw [List.getLast?_concat, List.getLast?_concat]

end Realwork.Lib
