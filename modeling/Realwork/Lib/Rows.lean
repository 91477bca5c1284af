import Mathlib.Data.List.Basic

/-!
# Lib — edits of rows by key

A table is a list of rows with a key that need not be unique.  `editAt key k g` replaces each row
of key `k` by what `g` makes of it, or deletes it; the other rows stay as they are.

* `foldl_editAt`: edits at pairwise different keys, one after the other, are one pass over the
  rows, in which each row meets the edit of its key.
-/

namespace Realwork.Lib

variable {ρ κ : Type} [DecidableEq κ] (key : ρ → κ)

/-- Edit the rows of key `k`. -/
def editAt (k : κ) (g : ρ → Option ρ) (rows : List ρ) : List ρ :=
  rows.filterMap fun r => if key r = k then g r else some r

/-- What edits at pairwise different keys make of a row. -/
def editBy (edits : List (κ × (ρ → Option ρ))) (r : ρ) : Option ρ :=
  match edits.find? fun e => e.1 = key r with
  | some e => e.2 r
  | none => some r

/-- The edit keeps the key of the rows it is for. -/
def KeepsKey (e : κ × (ρ → Option ρ)) : Prop :=
  ∀ r r', key r = e.1 → e.2 r = some r' → key r' = e.1

variable {key}

/-- **Edits at pairwise different keys are one pass.** -/
theorem foldl_editAt {edits : List (κ × (ρ → Option ρ))} (hkeep : ∀ e ∈ edits, KeepsKey key e)
    (hne : edits.Pairwise fun a b => a.1 ≠ b.1) (rows : List ρ) :
    edits.foldl (fun rows e => editAt key e.1 e.2 rows) rows =
      rows.filterMap (editBy key edits) := by
  induction edits generalizing rows with
  | nil => exact List.filterMap_some.symm
  | cons e edits ih =>
      obtain ⟨hhead, htail⟩ := List.pairwise_cons.mp hne
      rw [List.foldl_cons, ih (fun e he => hkeep e (List.mem_cons_of_mem _ he)) htail, editAt,
        List.filterMap_filterMap]
      refine List.filterMap_congr fun r _ => ?_
      by_cases hr : key r = e.1
      · have hrest : ∀ r', key r' = e.1 → editBy key edits r' = some r' := fun r' hr' => by
          have hnone : (edits.find? fun e => e.1 = key r') = none := by
            refine List.find?_eq_none.mpr fun e' he' => ?_
            simpa [hr'] using (hhead e' he').symm
          simp [editBy, hnone]
        have hfirst : editBy key (e :: edits) r = e.2 r := by simp [editBy, hr]
        rw [if_pos hr, hfirst]
        cases hg : e.2 r with
        | none => rfl
        | some r' => exact hrest r' (hkeep e (by simp) r r' hr hg)
      · rw [if_neg hr, Option.bind_some]
        simp [editBy, Ne.symm hr]

end Realwork.Lib
