import Mathlib.Data.List.Basic

/-!
# Lib — condition variables

The threads at a condition variable are those that wait, and those that a signal has woken and
that do not have the mutex yet.  A signal wakes at least one of the threads that wait and may wake
more; which ones is the choice of a mask, so that a step that signals is a function of it.

* `signal_woken`: a signal is not lost while a thread waits.
* `resume_spec`: a woken thread gets the mutex once.
-/

namespace Realwork.Lib

/-- The threads at a condition variable. -/
structure Cond (τ : Type) where
  waiting : List τ := []
  woken : List τ := []

namespace Cond

variable {τ : Type}

/-- A thread begins to wait. -/
def wait (c : Cond τ) (t : τ) : Cond τ := { c with waiting := c.waiting ++ [t] }

/-- The threads at the places the mask has, and the others. -/
def choose : List Bool → List τ → List τ × List τ
  | true :: mask, t :: ts => (t :: (choose mask ts).1, (choose mask ts).2)
  | false :: mask, t :: ts => ((choose mask ts).1, t :: (choose mask ts).2)
  | _, ts => ([], ts)

/-- A signal wakes the threads the mask chooses; if it chooses none, the first one. -/
def signal (c : Cond τ) (mask : List Bool) : Cond τ :=
  match choose mask c.waiting with
  | ([], t :: ts) => ⟨ts, c.woken ++ [t]⟩
  | (chosen, others) => ⟨others, c.woken ++ chosen⟩

/-- The woken thread at a place gets the mutex. -/
def resume (c : Cond τ) (i : Nat) : Option (τ × Cond τ) :=
  c.woken[i]?.map fun t => (t, { c with woken := c.woken.eraseIdx i })

theorem choose_eq_nil_iff {mask : List Bool} {ts : List τ} :
    choose mask ts = ([], []) ↔ ts = [] := by
  constructor
  · intro h
    rcases ts with _ | ⟨t, ts⟩
    · rfl
    · rcases mask with _ | ⟨_ | _, mask⟩ <;> simp [choose] at h
  · rintro rfl
    cases mask <;> simp [choose]

/-- Where no thread waits, a signal has no effect. -/
theorem signal_of_none {c : Cond τ} (h : c.waiting = []) (mask : List Bool) :
    c.signal mask = c := by
  obtain ⟨waiting, woken⟩ := c
  subst h
  simp [signal, choose_eq_nil_iff.mpr rfl]

/-- **A signal is not lost** while a thread waits. -/
theorem signal_woken {c : Cond τ} (h : c.waiting ≠ []) (mask : List Bool) :
    (c.signal mask).woken ≠ [] := by
  unfold signal
  -- the mask chooses somebody, or there is a first one
  rcases hc : choose mask c.waiting with ⟨_ | ⟨t, chosen⟩, _ | ⟨t', others⟩⟩
  · exact absurd (choose_eq_nil_iff.mp hc) h
  · simp
  · simp
  · simp

theorem resume_spec {c c' : Cond τ} {i : Nat} {t : τ} (h : c.resume i = some (t, c')) :
    c'.waiting = c.waiting ∧ c'.woken.length + 1 = c.woken.length := by
  obtain ⟨t', ht, he⟩ := Option.map_eq_some_iff.mp h
  obtain ⟨hi, -⟩ := List.getElem?_eq_some_iff.mp ht
  cases he
  refine ⟨rfl, ?_⟩
  rw [List.length_eraseIdx_of_lt hi]
  omega

end Cond

end Realwork.Lib
