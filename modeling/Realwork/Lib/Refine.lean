import Realwork.Lib.Machine

/-!
# Lib — a machine that follows another one

`M.Follows C A D R`: the runs of `M` whose steps meet `C`, seen through `R`, are runs of `A` whose
steps meet `D`.  A step of `M` is a step of `A`, or one that `A` does not see.

* `Follows.reach`: every state of `M` stands for a state of `A`.
-/

namespace Realwork.Lib

namespace Machine

variable {σ α τ β : Type}

/-- The machine `M` follows `A`, its states standing for those of `A` by `R`. -/
structure Follows (M : Machine σ α) (C : α → σ → Prop) (A : Machine τ β) (D : β → τ → Prop)
    (R : σ → τ → Prop) : Prop where
  start : ∀ s, M.start s → ∃ t, A.start t ∧ R s t
  step : ∀ a s s' t, R s t → C a s → M.step a s = some s' →
    R s' t ∨ ∃ b t', D b t ∧ A.step b t = some t' ∧ R s' t'

variable {M : Machine σ α} {C : α → σ → Prop} {A : Machine τ β} {D : β → τ → Prop}
  {R : σ → τ → Prop}

/-- **The rule of simulation.** -/
theorem Follows.reach (h : M.Follows C A D R) {s : σ} (hs : M.Reach C s) :
    ∃ t, A.Reach D t ∧ R s t := by
  induction hs with
  | start hs =>
      obtain ⟨t, ht, hR⟩ := h.start _ hs
      exact ⟨t, .start ht, hR⟩
  | step _ hc hs ih =>
      obtain ⟨t, ht, hR⟩ := ih
      rcases h.step _ _ _ t hR hc hs with hR' | ⟨b, t', hb, ht', hR'⟩
      · exact ⟨t, ht, hR'⟩
      · exact ⟨t', .step ht hb ht', hR'⟩

end Machine

end Realwork.Lib
