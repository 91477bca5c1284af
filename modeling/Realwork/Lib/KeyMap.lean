import Mathlib.Data.List.Pairwise
import Mathlib.Order.Lattice

/-!
# Lib — ordered maps over a rank

`KeyMap rank ν` is a map whose keys are compared by their rank only, as `std::map` compares
them with a comparator `rank a < rank b`: two keys of one rank are the same key, and the first
one inserted stays.  The entries are kept in increasing rank, which is a field of the
structure, so a map with two entries of one rank cannot be built.

* `find?_eq_some_iff`, `find?_eq_none_iff`: what a lookup returns, in terms of the entries.
* `mem_insert`: the entries after an insertion that does not overwrite.
* `find?_ofList`: a map filled from a list holds, for each rank, the first entry of that rank.
-/

namespace Realwork.Lib

variable {κ ν ι : Type} [LinearOrder ι]

/-- A map with keys of pairwise different rank, in increasing rank. -/
structure KeyMap (rank : κ → ι) (ν : Type) where
  entries : List (κ × ν)
  sorted : entries.Pairwise fun a b => rank a.1 < rank b.1

namespace KeyMap

variable {rank : κ → ι}

instance : EmptyCollection (KeyMap rank ν) := ⟨⟨[], .nil⟩⟩

@[simp] theorem entries_empty : (∅ : KeyMap rank ν).entries = [] := rfl

@[ext] theorem ext {m n : KeyMap rank ν} (h : m.entries = n.entries) : m = n := by
  cases m; cases n; cases h; rfl

/-- The entry whose key has the rank of `k`. -/
def find? (m : KeyMap rank ν) (k : κ) : Option (κ × ν) :=
  m.entries.find? fun e => rank e.1 = rank k

/-- Put `e` at its place, unless an entry of its rank is there already. -/
def insertEntry (rank : κ → ι) (e : κ × ν) : List (κ × ν) → List (κ × ν)
  | [] => [e]
  | e' :: es =>
      if rank e.1 < rank e'.1 then e :: e' :: es
      else if rank e'.1 < rank e.1 then e' :: insertEntry rank e es
      else e' :: es

theorem mem_insertEntry_imp {e x : κ × ν} {es : List (κ × ν)}
    (h : x ∈ insertEntry rank e es) : x = e ∨ x ∈ es := by
  induction es with
  | nil => exact .inl (by simpa [insertEntry] using h)
  | cons e' es ih =>
      simp only [insertEntry] at h
      split at h
      · simpa using h
      · split at h
        · rcases List.mem_cons.mp h with rfl | h
          · exact .inr (by simp)
          · exact (ih h).imp_right (List.mem_cons_of_mem _)
        · exact .inr h

theorem pairwise_insertEntry {e : κ × ν} {es : List (κ × ν)}
    (h : es.Pairwise fun a b => rank a.1 < rank b.1) :
    (insertEntry rank e es).Pairwise fun a b => rank a.1 < rank b.1 := by
  induction es with
  | nil => simp [insertEntry]
  | cons e' es ih =>
      obtain ⟨h₁, h₂⟩ := List.pairwise_cons.mp h
      simp only [insertEntry]
      split
      · rename_i hlt
        refine List.pairwise_cons.mpr ⟨fun x hx => ?_, h⟩
        rcases List.mem_cons.mp hx with rfl | hx
        · exact hlt
        · exact lt_trans hlt (h₁ x hx)
      · split
        · rename_i hlt
          refine List.pairwise_cons.mpr ⟨fun x hx => ?_, ih h₂⟩
          rcases mem_insertEntry_imp hx with rfl | hx
          · exact hlt
          · exact h₁ x hx
        · exact h

/-- `map::insert`: an entry of the same rank that is already there stays. -/
def insert (m : KeyMap rank ν) (k : κ) (v : ν) : KeyMap rank ν :=
  ⟨insertEntry rank (k, v) m.entries, pairwise_insertEntry m.sorted⟩

/-- Two entries of one rank are the same entry. -/
theorem eq_of_rank_eq (m : KeyMap rank ν) {a b : κ × ν} (ha : a ∈ m.entries)
    (hb : b ∈ m.entries) (h : rank a.1 = rank b.1) : a = b := by
  by_contra hne
  have hs : m.entries.Pairwise fun a b => rank a.1 ≠ rank b.1 :=
    m.sorted.imp fun h => ne_of_lt h
  have : Std.Symm fun a b : κ × ν => rank a.1 ≠ rank b.1 := ⟨fun _ _ h => h.symm⟩
  exact hs.forall ha hb hne h

theorem find?_eq_some_iff {m : KeyMap rank ν} {k : κ} {e : κ × ν} :
    m.find? k = some e ↔ e ∈ m.entries ∧ rank e.1 = rank k := by
  refine ⟨fun h => ⟨List.mem_of_find?_eq_some h, by simpa using List.find?_some h⟩,
    fun ⟨he, hr⟩ => ?_⟩
  cases h : m.find? k with
  | none =>
      have := List.find?_eq_none.mp h e he
      simp [hr] at this
  | some e' =>
      have he' := List.mem_of_find?_eq_some h
      have hr' : rank e'.1 = rank k := by simpa using List.find?_some h
      rw [m.eq_of_rank_eq he' he (hr'.trans hr.symm)]

theorem find?_eq_none_iff {m : KeyMap rank ν} {k : κ} :
    m.find? k = none ↔ ∀ e ∈ m.entries, rank e.1 ≠ rank k := by
  simp [find?, List.find?_eq_none]

/-- A lookup sees the rank of its key only. -/
theorem find?_congr (m : KeyMap rank ν) {k k' : κ} (h : rank k = rank k') :
    m.find? k = m.find? k' := by
  simp only [find?, h]

/-- The entry of a key itself. -/
theorem find?_exact [DecidableEq κ] (m : KeyMap rank ν) (k : κ) :
    (m.entries.find? fun e => e.1 = k) = (m.find? k).filter fun e => e.1 = k := by
  cases h : m.entries.find? fun e => e.1 = k with
  | some e =>
      have hk : e.1 = k := by simpa using List.find?_some h
      have hm : m.find? k = some e :=
        find?_eq_some_iff.mpr ⟨List.mem_of_find?_eq_some h, congrArg rank hk⟩
      simp [hm, hk, Option.filter]
  | none =>
      cases hm : m.find? k with
      | none => rfl
      | some e =>
          have hk : e.1 ≠ k := by
            simpa using List.find?_eq_none.mp h e (find?_eq_some_iff.mp hm).1
          simp [hk, Option.filter]

@[simp] theorem find?_empty (k : κ) : (∅ : KeyMap rank ν).find? k = none := rfl

theorem mem_insertEntry {e x : κ × ν} {es : List (κ × ν)}
    (h : es.Pairwise fun a b => rank a.1 < rank b.1) :
    x ∈ insertEntry rank e es ↔ x ∈ es ∨ (x = e ∧ ∀ y ∈ es, rank y.1 ≠ rank e.1) := by
  induction es with
  | nil => simp [insertEntry]
  | cons e' es ih =>
      obtain ⟨h₁, h₂⟩ := List.pairwise_cons.mp h
      simp only [insertEntry]
      split
      · rename_i hlt
        have hfree : ∀ y ∈ e' :: es, rank y.1 ≠ rank e.1 := fun y hy => by
          rcases List.mem_cons.mp hy with rfl | hy
          · exact ne_of_gt hlt
          · exact ne_of_gt (lt_trans hlt (h₁ y hy))
        simp only [List.mem_cons] at hfree ⊢
        exact ⟨fun hx => hx.elim (fun h => .inr ⟨h, hfree⟩) .inl,
          fun hx => hx.elim .inr fun h => .inl h.1⟩
      · split
        · rename_i hlt
          rw [List.mem_cons, ih h₂]
          simp only [List.mem_cons, forall_eq_or_imp, or_assoc, ne_of_lt hlt, ne_eq,
            not_false_eq_true, true_and]
        · rename_i hle hge
          have heq : rank e'.1 = rank e.1 := le_antisymm (not_lt.mp hle) (not_lt.mp hge)
          simp [heq]

/-- **The entries after an insertion.** -/
theorem mem_insert {m : KeyMap rank ν} {k : κ} {v : ν} {x : κ × ν} :
    x ∈ (m.insert k v).entries ↔ x ∈ m.entries ∨ (x = (k, v) ∧ m.find? k = none) := by
  rw [find?_eq_none_iff]
  exact mem_insertEntry m.sorted

theorem find?_insert (m : KeyMap rank ν) (k k' : κ) (v : ν) :
    (m.insert k v).find? k' =
      (m.find? k').or (if rank k = rank k' then some (k, v) else none) := by
  cases h : m.find? k' with
  | some e =>
      obtain ⟨he, hr⟩ := find?_eq_some_iff.mp h
      exact find?_eq_some_iff.mpr ⟨mem_insert.mpr (.inl he), hr⟩
  | none =>
      have hnone := find?_eq_none_iff.mp h
      by_cases hr : rank k = rank k'
      · simp only [hr, if_true, Option.none_or]
        refine find?_eq_some_iff.mpr ⟨mem_insert.mpr (.inr ⟨rfl, ?_⟩), hr⟩
        rw [m.find?_congr hr, h]
      · simp only [hr, if_false, Option.none_or]
        refine find?_eq_none_iff.mpr fun e he => ?_
        rcases mem_insert.mp he with he | ⟨rfl, -⟩
        · exact hnone e he
        · exact hr

/-- Insert the entries of a list from left to right. -/
def ofList (rank : κ → ι) (es : List (κ × ν)) : KeyMap rank ν :=
  es.foldl (fun m e => m.insert e.1 e.2) ∅

theorem find?_foldl_insert (es : List (κ × ν)) (m : KeyMap rank ν) (k : κ) :
    (es.foldl (fun m e => m.insert e.1 e.2) m).find? k =
      (m.find? k).or (es.find? fun e => rank e.1 = rank k) := by
  induction es generalizing m with
  | nil => simp
  | cons e es ih =>
      rw [List.foldl_cons, ih, find?_insert, Option.or_assoc, List.find?_cons]
      by_cases hr : rank e.1 = rank k <;> simp [hr]

/-- **A map filled from a list** holds, for each rank, the first entry of that rank. -/
theorem find?_ofList (es : List (κ × ν)) (k : κ) :
    (ofList rank es).find? k = es.find? fun e => rank e.1 = rank k := by
  rw [ofList, find?_foldl_insert, find?_empty, Option.none_or]

theorem mem_ofList {es : List (κ × ν)} {e : κ × ν} :
    e ∈ (ofList rank es).entries ↔ es.find? (fun e' => rank e'.1 = rank e.1) = some e := by
  rw [← find?_ofList, find?_eq_some_iff]
  simp

end KeyMap

end Realwork.Lib
