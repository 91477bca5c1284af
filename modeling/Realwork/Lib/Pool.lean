import Mathlib.Algebra.BigOperators.Group.Finset.Piecewise
import Mathlib.Algebra.Order.BigOperators.Group.Finset
import Mathlib.Data.List.Perm.Lattice

/-!
# Lib — pools of parties

The parties `0`, …, `n - 1`, each at a place of its own.  How many of them are at places of some
kind is a sum of weights, and a move of one party exchanges one weight for another.

* `weight_update`: the weight after a move.
* `exists_of_weight_pos`, `le_weight`: what the weight says about the parties.
* `perm_flatMap_filter`: what is dealt out into shares is there once.
-/

namespace Realwork.Lib

variable {P : Type} {n : Nat} {f g : P → Nat} {place : Nat → P}

/-- The weight of the places of `n` parties. -/
def weight (n : Nat) (f : P → Nat) (place : Nat → P) : Nat := ∑ w ∈ Finset.range n, f (place w)

theorem le_weight {w : Nat} (hw : w < n) : f (place w) ≤ weight n f place :=
  Finset.single_le_sum (f := fun w => f (place w)) (fun _ _ => Nat.zero_le _)
    (Finset.mem_range.mpr hw)

/-- **A move** of one party. -/
theorem weight_update {w : Nat} (hw : w < n) (p : P) :
    weight n f (Function.update place w p) + f (place w) = weight n f place + f p := by
  have hmem : w ∈ Finset.range n := Finset.mem_range.mpr hw
  have hmoved : f ∘ Function.update place w p = Function.update (f ∘ place) w (f p) :=
    Function.comp_update f place w p
  have hbefore : weight n f place = f (place w) + ∑ u ∈ Finset.range n \ {w}, f (place u) :=
    Finset.sum_eq_add_sum_sdiff_singleton_of_mem hmem (f ∘ place)
  have hafter : weight n f (Function.update place w p) =
      f p + ∑ u ∈ Finset.range n \ {w}, f (place u) := by
    calc weight n f (Function.update place w p)
        = ∑ u ∈ Finset.range n, Function.update (f ∘ place) w (f p) u := by rw [← hmoved]; rfl
      _ = _ := Finset.sum_update_of_mem hmem _ _
  omega

theorem weight_const (n : Nat) (f : P → Nat) (p : P) : weight n f (fun _ => p) = n * f p := by
  simp [weight]

theorem weight_mono (h : ∀ p, f p ≤ g p) : weight n f place ≤ weight n g place :=
  Finset.sum_le_sum fun w _ => h (place w)

theorem exists_of_weight_pos (h : 0 < weight n f place) : ∃ w < n, 0 < f (place w) := by
  obtain ⟨w, hw, hpos⟩ := Finset.exists_ne_zero_of_sum_ne_zero (Nat.pos_iff_ne_zero.mp h)
  exact ⟨w, Finset.mem_range.mp hw, Nat.pos_of_ne_zero hpos⟩

/-- Elements dealt out by a function into the shares of `l` are there once. -/
theorem perm_flatMap_filter {α β : Type} [DecidableEq β] (f : α → β) {l : List β} (hl : l.Nodup)
    (as : List α) :
    (l.flatMap fun b => as.filter fun a => f a = b).Perm (as.filter fun a => f a ∈ l) := by
  induction l with
  | nil => simp
  | cons b l ih =>
      obtain ⟨hb, hl⟩ := List.nodup_cons.mp hl
      have hrest : as.filter (fun a => f a ∈ l) =
          (as.filter fun a => f a ∈ b :: l).filter fun a => !decide (f a = b) := by
        rw [List.filter_filter]
        refine List.filter_congr fun a _ => ?_
        by_cases ha : f a = b
        · simp [ha, hb]
        · simp [ha]
      have hfirst : as.filter (fun a => f a = b) =
          (as.filter fun a => f a ∈ b :: l).filter fun a => f a = b := by
        rw [List.filter_filter]
        refine List.filter_congr fun a _ => ?_
        by_cases ha : f a = b
        · simp [ha]
        · simp [ha]
      calc ((b :: l).flatMap fun b => as.filter fun a => f a = b)
          = as.filter (fun a => f a = b) ++ l.flatMap fun b => as.filter fun a => f a = b :=
            List.flatMap_cons
        List.Perm _ (as.filter (fun a => f a = b) ++ as.filter fun a => f a ∈ l) :=
            (ih hl).append_left _
        List.Perm _ (as.filter fun a => f a ∈ b :: l) := by
            rw [hrest, hfirst]
            exact List.filter_append_perm _ _

end Realwork.Lib
