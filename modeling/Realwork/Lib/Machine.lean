import Mathlib.Logic.Basic
import Mathlib.Order.WellFounded

/-!
# Lib — guarded machines

A machine is a set of starting states and a step that is `none` where an action is not
enabled, so that one definition is run on a fixed schedule (`Machine.exec`) and reasoned about
over every schedule (`Machine.Reach`).

* `Reach M C`: the states of the runs of `M` whose every step meets the condition `C` in the
  state it is taken from.  `Reach M always` are the states of all runs.
* `Reach.invariant`: what holds at the start and survives every step that meets `C` holds in
  every state of `Reach M C`.
* `Reach.of_exec`, `Reach.exists_of_exec`: a schedule that runs through, each of its steps meeting
  `C`, ends in `Reach M C`.
* `exec_length_le`: a measure that every step lowers bounds the length of a schedule.
* `not_exists_run`: no run goes on for ever if its steps keep an invariant and lower a measure in a
  well-founded order.
-/

namespace Realwork.Lib

/-- Starting states, and a step that is `none` where the action is not enabled. -/
structure Machine (σ α : Type) where
  start : σ → Prop
  step : α → σ → Option σ

namespace Machine

variable {σ α : Type}

/-- The states of the runs whose every step meets `C` in the state it is taken from. -/
inductive Reach (M : Machine σ α) (C : α → σ → Prop) : σ → Prop where
  | start {s : σ} (h : M.start s) : Reach M C s
  | step {s s' : σ} {a : α} (hr : Reach M C s) (hc : C a s) (hs : M.step a s = some s') :
      Reach M C s'

/-- The condition every step meets. -/
def always : α → σ → Prop := fun _ _ => True

variable {M : Machine σ α} {C D : α → σ → Prop}

/-- **The invariant rule.**  What holds at the start and survives every step that meets `C`
holds in every state of `Reach M C`. -/
theorem Reach.invariant {P : σ → Prop} (h₀ : ∀ s, M.start s → P s)
    (h₁ : ∀ a s s', P s → C a s → M.step a s = some s' → P s') {s : σ} (h : Reach M C s) :
    P s := by
  induction h with
  | start h => exact h₀ _ h
  | step _ hc hs ih => exact h₁ _ _ _ ih hc hs

theorem Reach.mono (hCD : ∀ a s, C a s → D a s) {s : σ} (h : Reach M C s) : Reach M D s := by
  induction h with
  | start h => exact .start h
  | step _ hc hs ih => exact .step ih (hCD _ _ hc) hs

/-- Take the actions of a schedule one after the other. -/
def exec (M : Machine σ α) : List α → σ → Option σ
  | [], s => some s
  | a :: as, s => (M.step a s).bind (M.exec as)

/-- Each action of the schedule meets `C` in the state it is taken from. -/
def Meets (M : Machine σ α) (C : α → σ → Prop) : List α → σ → Prop
  | [], _ => True
  | a :: as, s => C a s ∧ ∀ s' ∈ M.step a s, M.Meets C as s'

instance Meets.decidable (M : Machine σ α) (C : α → σ → Prop) [∀ a s, Decidable (C a s)] :
    (as : List α) → (s : σ) → Decidable (M.Meets C as s)
  | [], _ => .isTrue trivial
  | a :: as, s =>
      have := Meets.decidable M C as
      inferInstanceAs (Decidable (C a s ∧ ∀ s' ∈ M.step a s, M.Meets C as s'))

theorem meets_always (M : Machine σ α) (as : List α) (s : σ) : M.Meets always as s := by
  induction as generalizing s with
  | nil => trivial
  | cons a as ih => exact ⟨trivial, fun s' _ => ih s'⟩

/-- A schedule that runs through, each of its steps meeting `C`, stays in `Reach M C`. -/
theorem Reach.of_exec {as : List α} {s s' : σ} (h : Reach M C s) (hm : M.Meets C as s)
    (he : M.exec as s = some s') : Reach M C s' := by
  induction as generalizing s with
  | nil => cases he; exact h
  | cons a as ih =>
      simp only [exec, Option.bind_eq_some_iff] at he
      obtain ⟨s₁, hs, he⟩ := he
      exact ih (.step h hm.1 hs) (hm.2 s₁ hs) he

/-- What a schedule that runs through ends in. -/
theorem eq_some_getD {o : Option σ} {s : σ} (h : o.isSome) : o = some (o.getD s) := by
  obtain ⟨s', rfl⟩ := Option.isSome_iff_exists.mp h
  rfl

/-- A measure that every step lowers bounds the schedules that run through. -/
theorem exec_length_le {μ : σ → Nat} (hμ : ∀ a s s', M.step a s = some s' → μ s' < μ s)
    {as : List α} {s s' : σ} (h : M.exec as s = some s') : as.length + μ s' ≤ μ s := by
  induction as generalizing s with
  | nil =>
      cases h
      simp
  | cons a as ih =>
      obtain ⟨s₁, hs, h⟩ := Option.bind_eq_some_iff.mp h
      have hlower := hμ a s s₁ hs
      have hrest := ih h
      rw [List.length_cons]
      omega

/-- **The rule of termination.**  Steps that keep an invariant and lower a measure come to an
end. -/
theorem not_exists_run {β : Type} [LT β] [WellFoundedLT β] {R : σ → σ → Prop} {I : σ → Prop}
    (μ : σ → β) (hstep : ∀ s s', I s → R s s' → I s' ∧ μ s' < μ s) {s : σ} (hs : I s) :
    ¬ ∃ run : Nat → σ, run 0 = s ∧ ∀ n, R (run n) (run (n + 1)) := by
  rintro ⟨run, rfl, hrun⟩
  have hall (n : Nat) : I (run n) := by
    induction n with
    | zero => exact hs
    | succ n ih => exact (hstep _ _ ih (hrun n)).1
  obtain ⟨n, hn⟩ := WellFounded.not_rel_apply_succ (r := (· < ·)) fun n => μ (run n)
  exact hn (hstep _ _ (hall n) (hrun n)).2

/-- A property of the state a schedule ends in. -/
theorem Reach.exists_of_exec {P : σ → Prop} (as : List α) (s : σ) (h : M.start s)
    (hm : M.Meets C as s) (he : ∃ s' ∈ M.exec as s, P s') : ∃ s', Reach M C s' ∧ P s' := by
  obtain ⟨s', hs', hp⟩ := he
  exact ⟨s', .of_exec (.start h) hm hs', hp⟩

end Machine

end Realwork.Lib
