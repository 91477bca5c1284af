import Mathlib.Data.List.DropRight
import Mathlib.Data.List.GetD

/-!
# Lib — separated fields

A line of fields between which a separator stands, and the reader that splits it: it drops the
empty fields at the end of the line, and strips the fields.

* `getD_splitFields`: a field that is not there is read as an empty one, so each field is read
  back at its place.
* `stripBy_of_clean`: stripping leaves a field alone that has nothing to strip.
* `intercalate_inj`: a line has its fields only.
* `append_cons_inj`: the first separator of a line is where its first field ends.
* `mem_words`: the words of a text are what stands in it between separators.
-/

namespace Realwork.Lib

variable {α : Type}

/-- Drop the elements at both ends that are in `p`. -/
def stripBy (p : α → Bool) (s : List α) : List α := (s.dropWhile p).rdropWhile p

theorem stripBy_of_clean {p : α → Bool} {s : List α} (hhead : ∀ a ∈ s.head?, p a = false)
    (hlast : ∀ a ∈ s.getLast?, p a = false) : stripBy p s = s := by
  have hdrop : s.dropWhile p = s := by
    cases s with
    | nil => rfl
    | cons a s => exact List.dropWhile_cons_of_neg (by simpa using hhead a rfl)
  rw [stripBy, hdrop, List.rdropWhile_eq_self_iff]
  intro hne
  simpa using hlast _ (List.getLast?_eq_some_getLast hne)

/-- What is neither in the separator nor in a field is not in the line. -/
theorem not_mem_intercalate {a : α} {sep : List α} (hsep : a ∉ sep) {fields : List (List α)}
    (h : ∀ field ∈ fields, a ∉ field) : a ∉ sep.intercalate fields := by
  induction fields with
  | nil => simp
  | cons field fields ih =>
      rw [List.forall_mem_cons] at h
      cases fields with
      | nil => simpa using h.1
      | cons field' fields =>
          rw [List.intercalate_cons_cons, List.mem_append, List.mem_append, not_or, not_or]
          exact ⟨⟨h.1, hsep⟩, ih h.2⟩

/-- The first field of a line and the rest of it. -/
theorem append_cons_inj {sep : α} {s t x y : List α} (hs : sep ∉ s) (ht : sep ∉ t) :
    s ++ sep :: x = t ++ sep :: y ↔ s = t ∧ x = y := by
  induction s generalizing t with
  | nil =>
      cases t with
      | nil => simp
      | cons b t => simp [(List.ne_of_not_mem_cons ht)]
  | cons a s ih =>
      cases t with
      | nil => simp [(List.ne_of_not_mem_cons hs).symm]
      | cons b t =>
          rw [List.cons_append, List.cons_append, List.cons.injEq,
            ih (List.not_mem_of_not_mem_cons hs) (List.not_mem_of_not_mem_cons ht),
            List.cons.injEq, and_assoc]

/-- The fields of a line. -/
theorem intercalate_inj {sep : α} {fields fields' : List (List α)}
    (h : ∀ field ∈ fields, sep ∉ field) (h' : ∀ field ∈ fields', sep ∉ field) (hne : fields ≠ [])
    (hne' : fields' ≠ []) :
    [sep].intercalate fields = [sep].intercalate fields' ↔ fields = fields' := by
  classical
  refine ⟨fun heq => ?_, fun heq => heq ▸ rfl⟩
  rw [← List.splitOn_intercalate sep h hne, heq, List.splitOn_intercalate sep h' hne']

theorem getD_rdropWhile_isEmpty (fields : List (List α)) (i : Nat) :
    (fields.rdropWhile fun field => field.isEmpty).getD i [] = fields.getD i [] := by
  induction fields using List.reverseRecOn with
  | nil => rfl
  | append_singleton fields field ih =>
      by_cases hfield : field = []
      · rw [List.rdropWhile_concat_pos _ _ _ (by simp [hfield]), ih, hfield]
        by_cases hi : i < fields.length
        · rw [List.getD_append _ _ _ _ hi]
        · rw [List.getD_append_right _ _ _ _ (by omega), List.getD_eq_default _ _ (by omega)]
          cases i - fields.length <;> rfl
      · rw [List.rdropWhile_concat_neg _ _ _ (by simp [hfield])]

/-! ### Words -/

/-- The words of a text between elements of `p`. -/
def words (p : α → Bool) (s : List α) : List (List α) :=
  (s.splitOnP p).filter fun w => !w.isEmpty

/-- Between `u` and `v` a word ends on both sides. -/
structure Delimited (p : α → Bool) (u v : List α) : Prop where
  before : ∀ a ∈ u.getLast?, p a = true
  after : ∀ a ∈ v.head?, p a = true

section

variable {p : α → Bool} {s w : List α}

theorem exists_of_mem_splitOnP (h : w ∈ s.splitOnP p) :
    (∀ a ∈ w, p a = false) ∧ ∃ u v, s = u ++ w ++ v ∧ Delimited p u v := by
  induction hn : s.length using Nat.strong_induction_on generalizing s with
  | _ n ih =>
      by_cases hs : ∀ a ∈ s, p a = false
      · rw [List.splitOnP_eq_singleton hs, List.mem_singleton] at h
        exact ⟨h ▸ hs, [], [], by simp [h], by simp, by simp⟩
      · push Not at hs
        obtain ⟨sep, hsep, hp⟩ := hs
        rw [ne_eq, Bool.not_eq_false] at hp
        obtain ⟨x, y, rfl⟩ := List.append_of_mem hsep
        rw [List.length_append, List.length_cons] at hn
        rw [List.splitOnP_append_cons _ _ hp, List.mem_append] at h
        rcases h with h | h
        · obtain ⟨hw, u, v, rfl, hbefore, hafter⟩ := ih _ (by omega) h rfl
          refine ⟨hw, u, v ++ sep :: y, by simp, hbefore, ?_⟩
          cases v with
          | nil => simpa using hp
          | cons a v => simpa using hafter
        · obtain ⟨hw, u, v, rfl, hbefore, hafter⟩ := ih _ (by omega) h rfl
          refine ⟨hw, x ++ sep :: u, v, by simp, ?_, hafter⟩
          cases u using List.reverseRecOn with
          | nil => simpa using hp
          | append_singleton u a =>
              rw [← List.cons_append, ← List.append_assoc, List.getLast?_concat]
              rwa [List.getLast?_concat] at hbefore

theorem mem_splitOnP_of_delimited {u v : List α} (hw : ∀ a ∈ w, p a = false)
    (h : Delimited p u v) : w ∈ (u ++ w ++ v).splitOnP p := by
  have hend : w ∈ (w ++ v).splitOnP p := by
    cases v with
    | nil =>
        rw [List.append_nil, List.splitOnP_eq_singleton hw]
        exact List.mem_singleton_self w
    | cons a v =>
        rw [List.splitOnP_append_cons _ _ (h.after a rfl), List.splitOnP_eq_singleton hw]
        exact List.mem_cons_self
  cases u using List.reverseRecOn with
  | nil => exact hend
  | append_singleton u a =>
      rw [List.append_assoc, List.append_assoc, List.singleton_append,
        List.splitOnP_append_cons _ _ (h.before a (by simp))]
      exact List.mem_append_right _ hend

/-- **The words of a text** are what stands in it between separators. -/
theorem mem_words : w ∈ words p s ↔
    w ≠ [] ∧ (∀ a ∈ w, p a = false) ∧ ∃ u v, s = u ++ w ++ v ∧ Delimited p u v := by
  rw [words, List.mem_filter, and_comm, Bool.not_eq_true', List.isEmpty_eq_false_iff]
  refine and_congr_right fun _ => ⟨exists_of_mem_splitOnP, ?_⟩
  rintro ⟨hw, u, v, rfl, h⟩
  exact mem_splitOnP_of_delimited hw h

theorem words_append_cons {sep : α} {u v : List α} (hsep : p sep = true) :
    words p (u ++ sep :: v) = words p u ++ words p v := by
  rw [words, List.splitOnP_append_cons _ _ hsep, List.filter_append]
  rfl

theorem words_eq_singleton (hne : w ≠ []) (hw : ∀ a ∈ w, p a = false) : words p w = [w] := by
  rw [words, List.splitOnP_eq_singleton hw, List.filter_singleton,
    List.isEmpty_eq_false_iff.mpr hne]
  rfl

theorem words_eq_nil (h : ∀ a ∈ s, p a = true) : words p s = [] := by
  rw [List.eq_nil_iff_forall_not_mem]
  intro w hw
  obtain ⟨hne, hfree, u, v, rfl, -⟩ := mem_words.mp hw
  obtain ⟨a, ha⟩ := List.exists_mem_of_ne_nil w hne
  have hmem := h a (List.mem_append_left v (List.mem_append_right u ha))
  rw [hfree a ha] at hmem
  cases hmem

end

variable [DecidableEq α] (sep : α)

/-- The fields of a line, without the empty ones at its end. -/
def splitFields (line : List α) : List (List α) :=
  (line.splitOn sep).rdropWhile fun field => field.isEmpty

/-- **Each field is read back at its place.** -/
theorem getD_splitFields {fields : List (List α)} (hne : fields ≠ [])
    (hsep : ∀ field ∈ fields, sep ∉ field) (i : Nat) :
    (splitFields sep ([sep].intercalate fields)).getD i [] = fields.getD i [] := by
  rw [splitFields, getD_rdropWhile_isEmpty, List.splitOn_intercalate _ hsep hne]

end Realwork.Lib
