import Mathlib.Data.List.Chain
import Mathlib.Data.List.Nodup
import Mathlib.Logic.Relation

/-!
# Lib — loops

A loop is its body: a round goes on in another state (`.inl`), or leaves the loop with a result
(`.inr`).

* `rounds_spec`: the loop rule.  An invariant, and a measure that every round lowers, take a loop
  to a result.
* `rounds_ends`: a measure alone takes it to some result.
* `rounds_mono`: more rounds do not change the result.
* `Lowers.not_transGen`, `Lowers.nodup_of_isChain`: a relation that lowers a measure has no cycle.
-/

namespace Realwork.Lib

section

variable {σ ρ : Type} (body : σ → σ ⊕ ρ)

/-- What the loop is left with in at most `n` rounds; `none` if it is not left. -/
def rounds : Nat → σ → Option ρ
  | 0, _ => none
  | n + 1, s =>
      match body s with
      | .inl s => rounds n s
      | .inr r => some r

variable {body}

/-- **The loop rule.** -/
theorem rounds_spec (μ : σ → Nat) {I : σ → Prop} {Q : ρ → Prop}
    (hnext : ∀ s s', I s → body s = .inl s' → I s' ∧ μ s' < μ s)
    (hleave : ∀ s r, I s → body s = .inr r → Q r) {n : Nat} {s : σ} (hs : I s) (hn : μ s < n) :
    ∃ r, rounds body n s = some r ∧ Q r := by
  induction n generalizing s with
  | zero => exact absurd hn (Nat.not_lt_zero _)
  | succ n ih =>
      rw [rounds]
      cases hbody : body s with
      | inl s' =>
          obtain ⟨hs', hlower⟩ := hnext s s' hs hbody
          exact ih hs' (by omega)
      | inr r => exact ⟨r, rfl, hleave s r hs hbody⟩

/-- A loop whose rounds lower a measure ends. -/
theorem rounds_ends (μ : σ → Nat) (hnext : ∀ s s', body s = .inl s' → μ s' < μ s) {n : Nat} {s : σ}
    (hn : μ s < n) : ∃ r, rounds body n s = some r := by
  obtain ⟨r, hr, -⟩ := @rounds_spec _ _ body μ (fun _ => True) (fun _ => True)
    (fun s s' _ h => ⟨trivial, hnext s s' h⟩) (fun _ _ _ _ => trivial) n s trivial hn
  exact ⟨r, hr⟩

theorem rounds_mono {n m : Nat} (hnm : n ≤ m) {s : σ} {r : ρ} (h : rounds body n s = some r) :
    rounds body m s = some r := by
  induction n generalizing m s with
  | zero => cases h
  | succ n ih =>
      obtain ⟨m, rfl⟩ := Nat.exists_eq_add_of_le' (Nat.le_trans (Nat.succ_le_succ n.zero_le) hnm)
      rw [rounds] at h ⊢
      cases hbody : body s with
      | inl s' =>
          rw [hbody] at h
          exact ih (Nat.le_of_succ_le_succ hnm) h
      | inr r' =>
          rw [hbody] at h
          exact h

end

/-! ### Relations that lower a measure -/

section

variable {α : Type} {r : α → α → Prop} {μ : α → Nat}

/-- What is related is lower. -/
def Lowers (r : α → α → Prop) (μ : α → Nat) : Prop := ∀ a b, r a b → μ b < μ a

theorem Lowers.transGen (h : Lowers r μ) {a b : α} (hab : Relation.TransGen r a b) : μ b < μ a := by
  induction hab with
  | single hab => exact h _ _ hab
  | tail _ hbc ih => exact (h _ _ hbc).trans ih

/-- **There is no cycle.** -/
theorem Lowers.not_transGen (h : Lowers r μ) (a : α) : ¬ Relation.TransGen r a a :=
  fun haa => Nat.lt_irrefl _ (h.transGen haa)

theorem Lowers.nodup_of_isChain (h : Lowers r μ) {l : List α} (hl : l.IsChain r) : l.Nodup := by
  have hlower : (l.map μ).IsChain (· > ·) := List.isChain_map_of_isChain μ (fun a b => h a b) hl
  exact List.Nodup.of_map μ (hlower.pairwise.imp fun hab => Nat.ne_of_gt hab)

end

end Realwork.Lib
