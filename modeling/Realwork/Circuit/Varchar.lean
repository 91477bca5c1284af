import Mathlib.Algebra.GroupWithZero.Nat
import Realwork.Base.Decimal
import Realwork.Lib.Fields

/-!
# Circuit — texts

The functions of PL/SQL on texts that `circuit_discovery.plsql` cuts its texts with.  A text is a
byte string, and NULL is the empty one; positions are counted from 1.

* `instr_cases`: a text is cut at the first byte that is searched for.
* `splitOn_slotText`, `words_slotText`: the numbers of a list of slots.
* `length_slotText`: how long its text is.
-/

namespace Realwork.Circuit

open Lib

/-- `'-'` -/
def hyphen : UInt8 := 0x2d

/-- `'&'` -/
def ampersand : UInt8 := 0x26

/-- `INSTR(s, c)`: the first place of `c`, or 0. -/
def instr (s : Str) (c : UInt8) : Nat := if c ∈ s then s.idxOf c + 1 else 0

/-- `SUBSTR(s, pos)`; the position 0 is taken for 1. -/
def substr (s : Str) (pos : Nat) : Str := s.drop (pos - 1)

/-- `SUBSTR(s, pos, len)`; it is NULL if `len` is not positive. -/
def substrOf (s : Str) (pos len : Nat) : Str := (substr s pos).take len

/-- `INSTR(s, c, pos)` -/
def instrFrom (s : Str) (c : UInt8) (pos : Nat) : Nat :=
  let place := instr (substr s pos) c
  if 0 < place then pos - 1 + place else 0

/-- An assignment to a `VARCHAR2(n)`; `none` is `VALUE_ERROR`. -/
def varchar2 (n : Nat) (s : Str) : Option Str := if s.length ≤ n then some s else none

theorem varchar2_eq_some {n : Nat} {s t : Str} (h : varchar2 n s = some t) : t = s := by
  rw [varchar2] at h
  split at h
  · exact (Option.some.inj h).symm
  · cases h

section

variable {s u v : Str} {c : UInt8}

theorem instr_of_not_mem (h : c ∉ s) : instr s c = 0 := if_neg h

theorem instr_pos_iff : 0 < instr s c ↔ c ∈ s := by
  rw [instr]
  split
  · rename_i h
    exact iff_of_true (Nat.succ_pos _) h
  · rename_i h
    exact iff_of_false (Nat.lt_irrefl 0) h

theorem instr_append_cons (h : c ∉ u) : instr (u ++ c :: v) c = u.length + 1 := by
  rw [instr, if_pos (List.mem_append_right u List.mem_cons_self), List.idxOf_append_of_notMem h,
    List.idxOf_cons_self, Nat.add_zero]

theorem substrOf_append_cons (h : c ∉ u) :
    substrOf (u ++ c :: v) 1 (instr (u ++ c :: v) c - 1) = u := by
  rw [instr_append_cons h]
  exact List.take_left

theorem substr_append_cons (h : c ∉ u) :
    substr (u ++ c :: v) (instr (u ++ c :: v) c + 1) = v := by
  rw [instr_append_cons h, ← List.singleton_append, ← List.append_assoc]
  exact List.drop_left' (by simp)

theorem instrFrom_le (s : Str) (c : UInt8) (pos : Nat) : instrFrom s c pos ≤ s.length := by
  rw [instrFrom]
  split
  · rename_i hpos
    obtain ⟨u, v, hs, hu⟩ := List.eq_append_cons_of_mem (instr_pos_iff.mp hpos)
    have hlen := congrArg List.length hs
    rw [substr, List.length_drop, List.length_append, List.length_cons] at hlen
    rw [hs, instr_append_cons hu]
    omega
  · exact Nat.zero_le _

theorem le_instrFrom {s : Str} {c : UInt8} {pos : Nat} (h : 0 < instrFrom s c pos) :
    pos ≤ instrFrom s c pos := by
  rw [instrFrom] at h ⊢
  split at h
  · rename_i hplace
    rw [if_pos hplace]
    omega
  · exact absurd h (Nat.lt_irrefl 0)

/-- What is behind a place is cut at the next `c`. -/
theorem instrFrom_append_cons {s u v : Str} {c : UInt8} {pos : Nat} (hpos : 0 < pos)
    (hs : substr s pos = u ++ c :: v) (hu : c ∉ u) :
    instrFrom s c pos = pos + u.length ∧ substrOf s pos u.length = u ∧
      substr s (pos + u.length + 1) = v := by
  have hplace : instr (substr s pos) c = u.length + 1 := by rw [hs, instr_append_cons hu]
  refine ⟨?_, ?_, ?_⟩
  · rw [instrFrom, hplace, if_pos (Nat.succ_pos _)]
    omega
  · rw [substrOf, hs, List.take_left]
  · have hdrop : substr s (pos + u.length + 1) = (substr s pos).drop (u.length + 1) := by
      rw [substr, substr, List.drop_drop]
      congr 1
      omega
    rw [hdrop, hs, ← List.singleton_append, ← List.append_assoc]
    exact List.drop_left' (by simp)

/-- **The cut at the first `c`.** -/
theorem instr_cases (s : Str) (c : UInt8) :
    (c ∉ s ∧ substrOf s 1 (instr s c - 1) = [] ∧ substr s (instr s c + 1) = s) ∨
    ∃ u v, c ∉ u ∧ s = u ++ c :: v ∧
      substrOf s 1 (instr s c - 1) = u ∧ substr s (instr s c + 1) = v := by
  by_cases h : c ∈ s
  · obtain ⟨u, v, hs, hu⟩ := List.eq_append_cons_of_mem h
    subst hs
    exact .inr ⟨u, v, hu, rfl, substrOf_append_cons hu, substr_append_cons hu⟩
  · rw [instr_of_not_mem h]
    exact .inl ⟨h, rfl, rfl⟩

theorem not_mem_substrOf (s : Str) (c : UInt8) : c ∉ substrOf s 1 (instr s c - 1) := by
  obtain ⟨-, hu, -⟩ | ⟨u, v, hu, -, heq, -⟩ := instr_cases s c
  · rw [hu]
    exact List.not_mem_nil
  · rw [heq]
    exact hu

theorem count_substr (s : Str) (c : UInt8) :
    (substr s (instr s c + 1)).count c = s.count c - 1 := by
  obtain ⟨hs, -, heq⟩ | ⟨u, v, hu, hs, -, heq⟩ := instr_cases s c
  · rw [heq, List.count_eq_zero_of_not_mem hs]
  · rw [heq, hs, List.count_append, List.count_cons_self, List.count_eq_zero_of_not_mem hu]
    omega

end

/-! ### Lists of slots -/

/-- Slot numbers with `&` between them. -/
def slotText (slots : List Nat) : Str :=
  [ampersand].intercalate (slots.map fun slot : Nat => decimal slot)

section

variable {slots : List Nat}

theorem ampersand_not_mem_decimal (n : Nat) : ampersand ∉ decimal n :=
  fun h => absurd (isdigit_of_mem_decimal h) (by decide)

theorem decimal_ne_nil (n : Nat) : decimal n ≠ [] := by
  intro h
  rw [decimal_natCast, List.map_eq_nil_iff] at h
  exact Nat.toDigits_ne_nil h

theorem slotText_singleton (slot : Nat) : slotText [slot] = decimal slot :=
  List.intercalate_singleton

theorem slotText_cons (slot : Nat) (hne : slots ≠ []) :
    slotText (slot :: slots) = decimal slot ++ ampersand :: slotText slots := by
  obtain ⟨slot', slots, rfl⟩ := List.exists_cons_of_ne_nil hne
  rw [slotText, List.map_cons, List.map_cons, List.intercalate_cons_cons, List.append_assoc]
  rfl

theorem slotText_ne_nil (hne : slots ≠ []) : slotText slots ≠ [] := by
  obtain ⟨slot, slots, rfl⟩ := List.exists_cons_of_ne_nil hne
  by_cases hnil : slots = []
  · rw [hnil, slotText_singleton]
    exact decimal_ne_nil slot
  · rw [slotText_cons slot hnil]
    exact List.append_ne_nil_of_right_ne_nil _ (List.cons_ne_nil _ _)

theorem splitOn_slotText (hne : slots ≠ []) :
    (slotText slots).splitOn ampersand = slots.map fun slot : Nat => decimal slot := by
  refine List.splitOn_intercalate _ ?_ (by simpa using hne)
  rw [List.forall_mem_map]
  exact fun slot _ => ampersand_not_mem_decimal slot

theorem words_slotText (slots : List Nat) :
    words (· == ampersand) (slotText slots) = slots.map fun slot : Nat => decimal slot := by
  by_cases hne : slots = []
  · rw [hne]
    rfl
  · have hsplit : (slotText slots).splitOnP (· == ampersand) = _ := splitOn_slotText hne
    rw [words, hsplit, List.filter_eq_self, List.forall_mem_map]
    intro slot _
    simpa using decimal_ne_nil slot

/-- Between `k` numbers there are `k - 1` separators. -/
theorem count_slotText (slots : List Nat) :
    (slotText slots).count ampersand = slots.length - 1 := by
  induction slots with
  | nil => rfl
  | cons slot slots ih =>
      have hslot : (decimal slot).count ampersand = 0 :=
        List.count_eq_zero_of_not_mem (ampersand_not_mem_decimal slot)
      by_cases hne : slots = []
      · rw [hne, slotText_singleton, hslot]
        rfl
      · rw [slotText_cons slot hne, List.count_append, hslot, List.count_cons_self, ih]
        have hpos := List.length_pos_iff.mpr hne
        rw [List.length_cons]
        omega

theorem length_le_slotText (slots : List Nat) : slots.length ≤ (slotText slots).length + 1 := by
  have hle := List.count_le_length (a := ampersand) (l := slotText slots)
  rw [count_slotText] at hle
  omega

theorem slotText_append {slots' : List Nat} (hne : slots ≠ []) (hne' : slots' ≠ []) :
    slotText (slots ++ slots') = slotText slots ++ ampersand :: slotText slots' := by
  induction slots with
  | nil => exact absurd rfl hne
  | cons slot slots ih =>
      by_cases hnil : slots = []
      · rw [hnil, slotText_singleton, List.singleton_append, slotText_cons slot hne']
      · rw [List.cons_append, slotText_cons slot (List.append_ne_nil_of_left_ne_nil hnil _),
          ih hnil, slotText_cons slot hnil, List.append_assoc, List.cons_append]

theorem length_slotText_append_le (slots slots' : List Nat) :
    (slotText slots).length ≤ (slotText (slots ++ slots')).length := by
  by_cases hne : slots = []
  · rw [hne]
    exact Nat.zero_le _
  by_cases hne' : slots' = []
  · rw [hne', List.append_nil]
  · rw [slotText_append hne hne', List.length_append]
    omega

/-- Every number takes its digits, and a separator. -/
theorem length_slotText (hne : slots ≠ []) :
    (slotText slots).length + 1 = (slots.map fun slot : Nat => (decimal slot).length + 1).sum := by
  induction slots with
  | nil => exact absurd rfl hne
  | cons slot slots ih =>
      by_cases hnil : slots = []
      · rw [hnil, slotText_singleton]
        simp
      · rw [slotText_cons slot hnil, List.length_append, List.length_cons, List.map_cons,
          List.sum_cons, ← ih hnil]
        omega

/-- A list has no longer text than another one if its numbers are some of those, or lower. -/
theorem length_slotText_filterMap_le {f : Nat → Option Nat}
    (hf : ∀ slot, ∀ slot' ∈ f slot, slot' ≤ slot) (slots : List Nat) :
    (slotText (slots.filterMap f)).length ≤ (slotText slots).length := by
  have hsum : ((slots.filterMap f).map fun slot : Nat => (decimal slot).length + 1).sum ≤
      (slots.map fun slot : Nat => (decimal slot).length + 1).sum := by
    induction slots with
    | nil => exact Nat.le_refl _
    | cons slot slots ih =>
        cases hslot : f slot with
        | none =>
            rw [List.filterMap_cons_none hslot, List.map_cons, List.sum_cons]
            omega
        | some slot' =>
            have hle := length_decimal_le (hf slot slot' hslot)
            rw [List.filterMap_cons_some hslot, List.map_cons, List.map_cons, List.sum_cons,
              List.sum_cons]
            omega
  by_cases hnone : slots.filterMap f = []
  · rw [hnone]
    exact Nat.zero_le _
  · have hne : slots ≠ [] := by
      rintro rfl
      exact hnone rfl
    have hlen := length_slotText hne
    have hlen' := length_slotText hnone
    omega

end

end Realwork.Circuit
