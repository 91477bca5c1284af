import Mathlib.Data.List.DropRight

/-!
# Lib — columns

A line of fields, each filled up with blanks to the width of its column; a field that is too wide
is not cut.  The reader takes the columns by their widths, the last one to the end of the line, and
drops the blanks behind the fields.

* `readColumns_writeColumns_iff`: when the fields are read back.
-/

namespace Realwork.Lib

variable {α : Type} [DecidableEq α] (blank : α)

/-- Fill a field up to its width. -/
def pad (width : Nat) (field : List α) : List α :=
  field ++ List.replicate (width - field.length) blank

def writeColumns (widths : List Nat) (fields : List (List α)) : List α :=
  (List.zipWith (pad blank) widths fields).flatten

/-- A field without the blanks behind it. -/
def unpad (column : List α) : List α := column.rdropWhile (· = blank)

def readColumns : List Nat → List α → List (List α)
  | [], _ => []
  | [_], s => [unpad blank s]
  | width :: width' :: widths, s =>
      unpad blank (s.take width) :: readColumns (width' :: widths) (s.drop width)

/-- No field but the last one is wider than its column. -/
def Fit : List Nat → List (List α) → Prop
  | width :: width' :: widths, field :: fields =>
      field.length ≤ width ∧ Fit (width' :: widths) fields
  | _, _ => True

variable {blank} {width : Nat} {widths : List Nat} {field : List α} {fields : List (List α)}

theorem unpad_append_replicate (n : Nat) (field : List α) :
    unpad blank (field ++ List.replicate n blank) = unpad blank field := by
  induction n with
  | zero => rw [List.replicate_zero, List.append_nil]
  | succ n ih =>
      rw [unpad, List.replicate_succ', ← List.append_assoc,
        List.rdropWhile_concat_pos _ _ _ (by simp)]
      exact ih

theorem unpad_eq_self_iff : unpad blank field = field ↔ field.getLast? ≠ some blank := by
  rw [unpad, List.rdropWhile_eq_self_iff]
  constructor
  · intro h hlast
    have hne : field ≠ [] := by
      rintro rfl
      cases hlast
    rw [List.getLast?_eq_some_getLast hne] at hlast
    exact h hne (decide_eq_true (Option.some.inj hlast))
  · intro h hne hlast
    rw [List.getLast?_eq_some_getLast hne, of_decide_eq_true hlast] at h
    exact h rfl

theorem length_unpad_le (column : List α) : (unpad blank column).length ≤ column.length :=
  (List.rdropWhile_prefix _ _).length_le

omit [DecidableEq α] in
theorem length_pad (h : field.length ≤ width) : (pad blank width field).length = width := by
  rw [pad, List.length_append, List.length_replicate]
  omega

/-- A column is read back when its field fits, and has no blank at its end. -/
theorem unpad_take_pad_iff (rest : List α) :
    unpad blank ((pad blank width field ++ rest).take width) = field ↔
      field.length ≤ width ∧ field.getLast? ≠ some blank := by
  by_cases hfit : field.length ≤ width
  · rw [List.take_left' (length_pad hfit), pad, unpad_append_replicate, unpad_eq_self_iff]
    exact (and_iff_right hfit).symm
  · refine iff_of_false (fun heq => hfit ?_) fun h => hfit h.1
    have hle := @length_unpad_le _ _ blank ((pad blank width field ++ rest).take width)
    rw [heq, List.length_take] at hle
    omega

omit [DecidableEq α] in
/-- What is not a blank is of some field. -/
theorem mem_writeColumns (hlen : fields.length = widths.length) {a : α} (ha : a ≠ blank) :
    a ∈ writeColumns blank widths fields ↔ ∃ field ∈ fields, a ∈ field := by
  induction widths generalizing fields with
  | nil =>
      rw [List.length_eq_zero_iff.mp hlen]
      simp [writeColumns]
  | cons width widths ih =>
      obtain ⟨field, fields, rfl⟩ := List.exists_cons_of_length_eq_add_one hlen
      have hwrite : writeColumns blank (width :: widths) (field :: fields) =
          pad blank width field ++ writeColumns blank widths fields := rfl
      rw [hwrite, List.mem_append, ih (Nat.succ.inj hlen), pad, List.mem_append,
        List.exists_mem_cons_iff]
      refine or_congr_left (or_iff_left fun hmem => ha ?_)
      exact (List.mem_replicate.mp hmem).2

theorem length_readColumns (s : List α) : (readColumns blank widths s).length = widths.length := by
  fun_induction readColumns blank widths s with
  | case1 => rfl
  | case2 => rfl
  | case3 width width' widths s ih => exact congrArg (· + 1) ih

/-- **The fields are read back** exactly if each of them fits its column, and none has a blank at
its end. -/
theorem readColumns_writeColumns_iff (hlen : fields.length = widths.length) :
    readColumns blank widths (writeColumns blank widths fields) = fields ↔
      Fit widths fields ∧ ∀ field ∈ fields, field.getLast? ≠ some blank := by
  induction widths generalizing fields with
  | nil =>
      rw [List.length_eq_zero_iff.mp hlen]
      simp [readColumns, Fit]
  | cons width widths ih =>
      obtain ⟨field, fields, rfl⟩ := List.exists_cons_of_length_eq_add_one hlen
      have hrest : fields.length = widths.length := Nat.succ.inj hlen
      cases widths with
      | nil =>
          rw [List.length_eq_zero_iff.mp hrest]
          simp [readColumns, writeColumns, Fit, pad, unpad_append_replicate, unpad_eq_self_iff]
      | cons width' widths =>
          have hwrite : writeColumns blank (width :: width' :: widths) (field :: fields) =
              pad blank width field ++ writeColumns blank (width' :: widths) fields := rfl
          rw [readColumns, hwrite, List.cons.injEq, unpad_take_pad_iff, List.forall_mem_cons, Fit]
          by_cases hfit : field.length ≤ width
          · rw [List.drop_left' (length_pad hfit), ih hrest]
            tauto
          · simp [hfit]

end Realwork.Lib
