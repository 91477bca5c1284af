import Mathlib.Data.Option.Basic

/-!
# Lib — what a procedure does not look at

A change of the state that a procedure does not see: it makes no difference whether the change is
made before the procedure or behind it.  Such changes are what was written into an output before,
a bound that was reached before, and the like.

* `Unseen.bind`, `Unseen.ite`, `Unseen.foldlM`: a procedure that is put together from others that
  do not see the change does not see it.
-/

namespace Realwork.Lib

variable {σ β : Type} {f : σ → σ} {p q : σ → Option σ}

/-- `p` does not see the change `f`; `none` is an exception. -/
def Unseen (f : σ → σ) (p : σ → Option σ) : Prop := ∀ s, p (f s) = (p s).map f

theorem Unseen.some {g : σ → σ} (h : ∀ s, g (f s) = f (g s)) : Unseen f fun s => some (g s) :=
  fun s => congrArg Option.some (h s)

theorem Unseen.bind (hp : Unseen f p) (hq : Unseen f q) : Unseen f fun s => (p s).bind q := by
  intro s
  change (p (f s)).bind q = ((p s).bind q).map f
  rw [hp]
  cases p s with
  | none => rfl
  | some s₁ => exact hq s₁

/-- A condition that the change leaves alone. -/
theorem Unseen.ite {c : σ → Prop} [DecidablePred c] (hc : ∀ s, c (f s) ↔ c s) (hp : Unseen f p)
    (hq : Unseen f q) : Unseen f fun s => if c s then p s else q s := by
  intro s
  by_cases h : c s
  · simp only [h, (hc s).mpr h, if_true]
    exact hp s
  · simp only [h, mt (hc s).mp h, if_false]
    exact hq s

/-- A loop of procedures. -/
theorem Unseen.foldlM {step : σ → β → Option σ} (h : ∀ b, Unseen f fun s => step s b)
    (l : List β) : Unseen f fun s => l.foldlM step s := by
  induction l with
  | nil => exact fun _ => rfl
  | cons b l ih => exact (h b).bind ih

end Realwork.Lib
