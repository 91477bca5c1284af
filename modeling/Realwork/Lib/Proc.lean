import Mathlib.Logic.Basic

/-!
# Lib — procedures that may raise

`EStateM ε σ α` is a procedure over a state `σ` that returns an `α` or raises an `ε`, and keeps
in both cases the state it has reached: what a raising call has changed stays changed for the
handler.  `Ends x s Q E` says that `x` run from `s` returns in `Q` or raises in `E`.

* `ends_bind`, `ends_tryCatch`, …: one rule for each way to build a procedure.
* `Ends.forM`: the loop rule, with an invariant over the elements done so far.
* `Keeps`: an invariant of the state that holds however the procedure ends, with a rule for each
  way to build one.
-/

namespace Realwork.Lib

variable {ε σ α β : Type}

/-- `x` run from `s` returns in `Q` or raises in `E`. -/
def Ends (x : EStateM ε σ α) (s : σ) (Q : α → σ → Prop) (E : ε → σ → Prop) : Prop :=
  match x.run s with
  | .ok a s' => Q a s'
  | .error e s' => E e s'

variable {x : EStateM ε σ α} {s s' : σ} {Q Q' : α → σ → Prop} {E E' : ε → σ → Prop}

theorem Ends.mono (h : Ends x s Q E) (hQ : ∀ a s', Q a s' → Q' a s')
    (hE : ∀ e s', E e s' → E' e s') : Ends x s Q' E' := by
  cases hx : x.run s with
  | ok a s' => simp only [Ends, hx] at h ⊢; exact hQ _ _ h
  | error e s' => simp only [Ends, hx] at h ⊢; exact hE _ _ h

theorem Ends.ok (h : Ends x s Q E) {a : α} (he : x.run s = .ok a s') : Q a s' := by
  unfold Ends at h
  rwa [he] at h

/-- A procedure that cannot raise returns. -/
theorem Ends.returns (h : Ends x s Q fun _ _ => False) :
    ∃ a s', x.run s = .ok a s' ∧ Q a s' := by
  unfold Ends at h
  cases hx : x.run s with
  | ok a s' => rw [hx] at h; exact ⟨a, s', rfl, h⟩
  | error e s' => rw [hx] at h; exact h.elim

theorem run_bind_of_ok {f : α → EStateM ε σ β} {a : α} (h : x.run s = .ok a s') :
    (x >>= f).run s = (f a).run s' := by
  simp only [EStateM.run, bind, EStateM.bind] at h ⊢
  rw [h]

theorem run_forM_append {l l' : List β} {f : β → EStateM ε σ PUnit} {a : PUnit}
    (h : (l.forM f).run s = .ok a s') : ((l ++ l').forM f).run s = (l'.forM f).run s' := by
  have happ : (l ++ l').forM f = (do l.forM f; l'.forM f) := List.forM_append
  rw [happ]
  exact run_bind_of_ok h

@[simp] theorem ends_pure {a : α} : Ends (pure a : EStateM ε σ α) s Q E ↔ Q a s := Iff.rfl

@[simp] theorem ends_throw {e : ε} : Ends (throw e : EStateM ε σ α) s Q E ↔ E e s := Iff.rfl

@[simp] theorem ends_get {Q : σ → σ → Prop} :
    Ends (get : EStateM ε σ σ) s Q E ↔ Q s s := Iff.rfl

@[simp] theorem ends_modify {f : σ → σ} {Q : Unit → σ → Prop} :
    Ends (modify f : EStateM ε σ Unit) s Q E ↔ Q () (f s) := Iff.rfl

theorem ends_bind {f : α → EStateM ε σ β} {Q : β → σ → Prop} :
    Ends (x >>= f) s Q E ↔ Ends x s (fun a s' => Ends (f a) s' Q E) E := by
  simp only [Ends, EStateM.run, bind, EStateM.bind]
  cases x s <;> rfl

theorem ends_tryCatch {h : ε → EStateM ε σ α} :
    Ends (tryCatch x h) s Q E ↔ Ends x s Q fun e s' => Ends (h e) s' Q E := by
  have hrun : (tryCatch x h).run s =
      match x.run s with
      | .ok a s' => .ok a s'
      | .error e s' => (h e).run s' := by
    show EStateM.tryCatch x h s = match x s with | .ok a s' => .ok a s' | .error e s' => h e s'
    delta EStateM.tryCatch
    cases x s <;> rfl
  unfold Ends
  rw [hrun]
  cases x.run s <;> rfl

/-- **The loop rule.**  `I pre` holds before the element after `pre`; an iteration takes it to
the next one or raises in `E`. -/
theorem Ends.forM {l : List β} {f : β → EStateM ε σ PUnit} (I : List β → σ → Prop)
    (h₀ : I [] s)
    (h₁ : ∀ pre b post, l = pre ++ b :: post → ∀ s, I pre s →
      Ends (f b) s (fun _ s' => I (pre ++ [b]) s') E) :
    Ends (l.forM f) s (fun _ s' => I l s') E := by
  have go : ∀ pre post, l = pre ++ post → ∀ s, I pre s →
      Ends (post.forM f) s (fun _ s' => I l s') E := by
    intro pre post
    induction post generalizing pre with
    | nil =>
        intro hl s hs
        rw [List.append_nil] at hl
        exact hl ▸ hs
    | cons b post ih =>
        intro hl s hs
        refine ends_bind.mpr ((h₁ pre b post hl s hs).mono (fun _ s' hs' => ?_) fun _ _ h => h)
        exact ih (pre ++ [b]) (by simp [hl]) s' hs'
  exact go [] l rfl s h₀

/-- `x` keeps `I`, whether it returns or raises. -/
def Keeps (I : σ → Prop) (x : EStateM ε σ α) : Prop :=
  ∀ s, I s → Ends x s (fun _ => I) fun _ => I

namespace Keeps

variable {I : σ → Prop}

theorem pure (a : α) : Keeps I (Pure.pure a : EStateM ε σ α) := fun _ h => ends_pure.mpr h

theorem throw (e : ε) : Keeps I (throw e : EStateM ε σ α) := fun _ h => ends_throw.mpr h

theorem get : Keeps I (MonadState.get : EStateM ε σ σ) := fun _ h => ends_get.mpr h

theorem modify {f : σ → σ} (h : ∀ s, I s → I (f s)) : Keeps I (modify f : EStateM ε σ Unit) :=
  fun s hs => ends_modify.mpr (h s hs)

theorem bind {f : α → EStateM ε σ β} (hx : Keeps I x) (hf : ∀ a, Keeps I (f a)) :
    Keeps I (x >>= f) :=
  fun s hs => ends_bind.mpr ((hx s hs).mono (fun a s' hs' => hf a s' hs') fun _ _ h => h)

theorem tryCatch {h : ε → EStateM ε σ α} (hx : Keeps I x) (hh : ∀ e, Keeps I (h e)) :
    Keeps I (tryCatch x h) :=
  fun s hs => ends_tryCatch.mpr ((hx s hs).mono (fun _ _ h => h) fun e s' hs' => hh e s' hs')

theorem forM {l : List β} {f : β → EStateM ε σ PUnit} (hf : ∀ b, Keeps I (f b)) :
    Keeps I (l.forM f) :=
  fun _ h => Ends.forM (fun _ => I) h fun _ b _ _ s hs => hf b s hs

theorem ite {p : Prop} [Decidable p] {y : EStateM ε σ α} (hx : Keeps I x) (hy : Keeps I y) :
    Keeps I (if p then x else y) := by
  split
  · exact hx
  · exact hy

end Keeps

end Realwork.Lib
