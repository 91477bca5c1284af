import Mathlib.Data.List.Perm.Basic

/-!
# Lib — worklists

A list of items that wait, any of which may be handled next: it puts out something, and other
items come to wait for it.  What an item is good for (`Values`) is what it puts out, with what the
items that come for it are good for.

* `perm_handle`: what is put out, with what the waiting items are good for, is the same after an
  item has been handled, in another order.
* `length_handle`: each time an item is handled, one less is left to be handled.
-/

namespace Realwork.Lib

open scoped List

/-- What comes of an item. -/
structure Worklist (ι ο : Type) where
  emit : ι → List ο
  spawn : ι → List ι

namespace Worklist

variable {ι ο : Type} (W : Worklist ι ο)

/-- `value` is what the items are good for. -/
def Values (value : ι → List ο) : Prop :=
  ∀ a, W.emit a ++ (W.spawn a).flatMap value ~ value a

/-- The worklist that puts out the items it handles. -/
def handled : Worklist ι ι := { emit := fun a => [a], spawn := W.spawn }

/-- The items that wait after the `n`-th of them has been handled, and what it puts out. -/
def handle (items : List ι) (n : Nat) : Option (List ι × List ο) :=
  items[n]?.map fun a => (items.eraseIdx n ++ W.spawn a, W.emit a)

variable {W} {items items' : List ι} {out : List ο} {n : Nat}

theorem exists_of_handle (h : W.handle items n = some (items', out)) :
    ∃ a, items ~ a :: items.eraseIdx n ∧ items' = items.eraseIdx n ++ W.spawn a ∧
      out = W.emit a := by
  obtain ⟨a, ha, heq⟩ := Option.map_eq_some_iff.mp h
  obtain ⟨hn, rfl⟩ := List.getElem?_eq_some_iff.mp ha
  cases heq
  exact ⟨_, (List.getElem_cons_eraseIdx_perm hn).symm, rfl, rfl⟩

/-- **Nothing is lost, and nothing is done twice.** -/
theorem perm_handle {value : ι → List ο} (hvalue : W.Values value)
    (h : W.handle items n = some (items', out)) :
    out ++ items'.flatMap value ~ items.flatMap value := by
  obtain ⟨a, hitems, rfl, rfl⟩ := exists_of_handle h
  rw [List.flatMap_append]
  calc W.emit a ++ ((items.eraseIdx n).flatMap value ++ (W.spawn a).flatMap value)
      ~ W.emit a ++ ((W.spawn a).flatMap value ++ (items.eraseIdx n).flatMap value) :=
        List.perm_append_comm.append_left _
    _ ~ value a ++ (items.eraseIdx n).flatMap value := by
        rw [← List.append_assoc]
        exact (hvalue a).append_right _
    _ ~ items.flatMap value := (hitems.flatMap_right value).symm

/-- **One less is left to be handled.** -/
theorem length_handle {calls : ι → List ι} (hcalls : W.handled.Values calls)
    (h : W.handle items n = some (items', out)) :
    (items'.flatMap calls).length + 1 = (items.flatMap calls).length := by
  obtain ⟨a, ha, heq⟩ := Option.map_eq_some_iff.mp h
  cases heq
  have hhandled : W.handled.handle items n = some (items.eraseIdx n ++ W.spawn a, [a]) := by
    rw [handle, ha]
    rfl
  rw [← (perm_handle hcalls hhandled).length_eq, List.length_append, List.length_singleton,
    Nat.add_comm]

end Worklist

end Realwork.Lib
