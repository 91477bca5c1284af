import Mathlib.Data.List.Induction

/-!
# Lib — the best of a list

Elements are looked at one after the other, and the best one so far is kept: one that meets a
condition, and is replaced by another one only if that has a smaller key.

* `isBest_foldl`: the one that is left has the smallest key of all that meet the condition.
-/

namespace Realwork.Lib

variable {α : Type} (p : α → Bool) (key : α → Nat)

/-- The best of the elements so far and another one. -/
def better (best : Option α) (a : α) : Option α :=
  if p a && best.all (fun b => decide (key a < key b)) then some a else best

/-- `best` is one of the best of `as`, and `none` if no element meets the condition. -/
structure IsBest (as : List α) (best : Option α) : Prop where
  empty : best = none → ∀ a ∈ as, p a = false
  mem : ∀ b ∈ best, b ∈ as ∧ p b = true
  least : ∀ b ∈ best, ∀ a ∈ as, p a = true → key b ≤ key a

variable {p key}

theorem IsBest.concat {as : List α} {best : Option α} (h : IsBest p key as best) (a : α) :
    IsBest p key (as ++ [a]) (better p key best a) := by
  rw [better]
  split
  · rename_i hbetter
    obtain ⟨hp, hkey⟩ := Bool.and_eq_true_iff.mp hbetter
    refine ⟨fun hnone => (by cases hnone), ?_, ?_⟩
    · rintro b ⟨⟩
      exact ⟨List.mem_append_right as (List.mem_singleton_self a), hp⟩
    · rintro b ⟨⟩ c hc hpc
      rcases List.mem_append.mp hc with hc | hc
      · cases best with
        | none => exact absurd hpc (by simp [h.empty rfl c hc])
        | some b =>
            have hlt : key a < key b := of_decide_eq_true hkey
            exact Nat.le_trans (Nat.le_of_lt hlt) (h.least b rfl c hc hpc)
      · exact (List.mem_singleton.mp hc ▸ Nat.le_refl _)
  · rename_i hworse
    refine ⟨fun hnone c hc => ?_, fun b hb => ?_, fun b hb c hc hpc => ?_⟩
    · rcases List.mem_append.mp hc with hc | hc
      · exact h.empty hnone c hc
      · rw [List.mem_singleton.mp hc]
        simpa [hnone] using hworse
    · obtain ⟨hmem, hpb⟩ := h.mem b hb
      exact ⟨List.mem_append_left _ hmem, hpb⟩
    · rcases List.mem_append.mp hc with hc | hc
      · exact h.least b hb c hc hpc
      · obtain rfl := List.mem_singleton.mp hc
        cases hb
        simpa [hpc] using hworse

/-- **The element that is left is the best.** -/
theorem isBest_foldl (as : List α) : IsBest p key as (as.foldl (better p key) none) := by
  induction as using List.reverseRecOn with
  | nil => exact ⟨by simp, by simp, by simp⟩
  | append_singleton as a ih =>
      rw [List.foldl_append]
      exact ih.concat a

end Realwork.Lib
