import Mathlib.Data.List.Basic

/-!
# Lib — the earliest of a list

The earliest of times that are compared one after the other, and a mark that is moved to the
earliest of those times that are before it: it is then the earliest of all, and nothing is before
it any more.
-/

namespace Realwork.Lib

variable {β : Type} [LT β]

/-- `t` or the earliest of the times after it. -/
def earliest [DecidableLT β] (t : β) (ts : List β) : β :=
  ts.foldl (fun e t => if t < e then t else e) t

structure IsEarliest (t : β) (ts : List β) : Prop where
  mem : t ∈ ts
  least : ∀ u ∈ ts, ¬ u < t

/-- A time that is before a mark; every time is before a mark that is not set. -/
def Before (mark : Option β) (t : β) : Prop := ∀ m ∈ mark, t < m

/-- Nothing is before the earliest. -/
theorem IsEarliest.not_before {t : β} {ts : List β} (h : IsEarliest t ts) {u : β} (hu : u ∈ ts) :
    ¬ Before (some t) u :=
  fun hbefore => h.least u hu (hbefore t rfl)

section

variable [Trans (fun t u : β => t < u) (fun t u : β => t < u) (fun t u : β => t < u)]

/-- **The earliest of the times before a mark is the earliest of all.** -/
theorem IsEarliest.of_before {mark : Option β} {t : β} {ts us : List β}
    (hus : ∀ u, u ∈ us ↔ u ∈ ts ∧ Before mark u) (h : IsEarliest t us) :
    IsEarliest t ts ∧ Before mark t := by
  obtain ⟨ht, hbefore⟩ := (hus t).mp h.mem
  refine ⟨⟨ht, fun u hu hlt => h.least u ((hus u).mpr ⟨hu, ?_⟩) hlt⟩, hbefore⟩
  exact fun m hm => Trans.trans hlt (hbefore m hm)

variable [DecidableLT β]

theorem earliest_le (t : β) (ts : List β) : earliest t ts = t ∨ earliest t ts < t := by
  induction ts generalizing t with
  | nil => exact .inl rfl
  | cons u ts ih =>
      rw [earliest, List.foldl_cons]
      by_cases hut : u < t
      · rw [if_pos hut]
        rcases ih u with heq | hlt
        · right
          show earliest u ts < t
          rwa [heq]
        · exact .inr (Trans.trans hlt hut)
      · rw [if_neg hut]
        exact ih t

theorem isEarliest_earliest [Std.Irrefl (fun t u : β => t < u)] (t : β) (ts : List β) :
    IsEarliest (earliest t ts) (t :: ts) := by
  induction ts generalizing t with
  | nil =>
      refine ⟨List.mem_singleton_self t, fun u hu => ?_⟩
      rw [List.mem_singleton.mp hu]
      exact Std.Irrefl.irrefl t
  | cons u ts ih =>
      rw [earliest, List.foldl_cons]
      by_cases hut : u < t
      · rw [if_pos hut]
        refine ⟨List.mem_cons_of_mem t (ih u).mem, List.forall_mem_cons.mpr ⟨?_, (ih u).least⟩⟩
        intro ht
        exact (ih u).least u List.mem_cons_self (Trans.trans hut ht)
      · rw [if_neg hut]
        have hleast := List.forall_mem_cons.mp (ih t).least
        refine ⟨?_, List.forall_mem_cons.mpr ⟨hleast.1, List.forall_mem_cons.mpr ⟨?_, hleast.2⟩⟩⟩
        · exact (List.mem_cons.mp (ih t).mem).elim (fun h => List.mem_cons.mpr (.inl h)) fun h =>
            List.mem_cons_of_mem t (List.mem_cons_of_mem u h)
        · intro hu
          rcases earliest_le t ts with heq | hlt
          · exact hut (heq ▸ hu)
          · exact hut (Trans.trans hu hlt)

end

end Realwork.Lib
