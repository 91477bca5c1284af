import Mathlib.Data.List.DropRight

/-!
# Lib — lines

Sequences of lines, each ended by a separator, and the reader that takes a line of limited
length.

* `takeLine_line`, `takeLine_full`: what the reader takes of a line that is short enough.
* `splitOn_unlines`, `prefix_of_unlines`: the lines of a text, and of the beginning of one.
* `rtakeWhile_append`, `rdropWhile_append`: a list that is cut where a property ends.
-/

namespace Realwork.Lib

variable {α : Type} (sep : α)

/-- A line with its separator. -/
def line (l : List α) : List α := l ++ [sep]

/-- Lines, one after the other. -/
def unlines (ls : List (List α)) : List α := ls.flatMap (line sep)

variable {sep}

@[simp] theorem unlines_nil : unlines sep [] = [] := rfl

@[simp] theorem unlines_cons (l : List α) (ls : List (List α)) :
    unlines sep (l :: ls) = line sep l ++ unlines sep ls := rfl

@[simp] theorem unlines_append (ls ls' : List (List α)) :
    unlines sep (ls ++ ls') = unlines sep ls ++ unlines sep ls' :=
  List.flatMap_append

/-- The lines end with the separator of the last one. -/
theorem getLast?_unlines (ls : List (List α)) : ∀ a ∈ (unlines sep ls).getLast?, a = sep := by
  induction ls using List.reverseRecOn with
  | nil => simp
  | append_singleton ls l => simp [line]

/-- The first element with a property that only separators have is that of the first line. -/
theorem eq_of_prefix_line {p : α → Bool} {l l' rest : List α} {a : α} (hl : ∀ b ∈ l, p b = false)
    (hsep : p sep = true) (hl' : ∀ b ∈ l', p b = false) (ha : p a = true)
    (h : l' ++ [a] <+: line sep l ++ rest) : l' = l ∧ a = sep := by
  obtain ⟨rest', h⟩ := h
  simp only [line, List.append_assoc, List.singleton_append] at h
  have htaken := congrArg (List.takeWhile fun b => !p b) h
  rw [List.takeWhile_append_of_pos fun b hb => by simp [hl' b hb],
    List.takeWhile_append_of_pos fun b hb => by simp [hl b hb],
    List.takeWhile_cons_of_neg (by simp [ha]), List.takeWhile_cons_of_neg (by simp [hsep]),
    List.append_nil, List.append_nil] at htaken
  subst htaken
  exact ⟨rfl, (List.cons.inj (List.append_cancel_left h)).1⟩

variable [DecidableEq α]

variable (sep) in
/-- Take elements up to and with the first separator, and at most `n`. -/
def takeLine : Nat → List α → List α
  | 0, _ => []
  | _ + 1, [] => []
  | n + 1, a :: s => if a = sep then [a] else a :: takeLine n s

theorem prefix_takeLine (n : Nat) (s : List α) : takeLine sep n s <+: s := by
  induction n generalizing s with
  | zero => exact List.nil_prefix
  | succ n ih =>
      cases s with
      | nil => exact List.nil_prefix
      | cons a s =>
          rw [takeLine]
          split
          · exact List.prefix_append [a] s
          · exact List.prefix_cons_inj a |>.mpr (ih s)

/-- A line that fits is taken with its separator. -/
theorem takeLine_line {l : List α} (hsep : sep ∉ l) {n : Nat} (hn : l.length < n)
    (s : List α) : takeLine sep n (line sep l ++ s) = line sep l := by
  induction l generalizing n with
  | nil =>
      obtain ⟨n, rfl⟩ := Nat.exists_eq_succ_of_ne_zero (Nat.ne_of_gt hn)
      simp [line, takeLine]
  | cons a l ih =>
      obtain ⟨n, rfl⟩ := Nat.exists_eq_succ_of_ne_zero (Nat.ne_of_gt (Nat.zero_lt_of_lt hn))
      obtain ⟨ha, hl⟩ := not_or.mp (mt List.mem_cons.mpr hsep)
      have ih := ih hl (Nat.lt_of_succ_lt_succ hn)
      simp only [line, List.cons_append, takeLine, if_neg (Ne.symm ha), List.append_assoc] at ih ⊢
      rw [ih]

/-- Of a line as long as the limit the separator is left. -/
theorem takeLine_full {l : List α} (hsep : sep ∉ l) (s : List α) :
    takeLine sep l.length (line sep l ++ s) = l := by
  induction l with
  | nil => rfl
  | cons a l ih =>
      obtain ⟨ha, hl⟩ := not_or.mp (mt List.mem_cons.mpr hsep)
      have ih := ih hl
      simp only [line, List.cons_append, List.length_cons, takeLine, if_neg (Ne.symm ha),
        List.append_assoc] at ih ⊢
      rw [ih]

/-- A separator ends what is taken. -/
theorem not_mem_dropLast_takeLine (n : Nat) (s : List α) : sep ∉ (takeLine sep n s).dropLast := by
  induction n generalizing s with
  | zero => exact List.not_mem_nil
  | succ n ih =>
      cases s with
      | nil => exact List.not_mem_nil
      | cons a s =>
          rw [takeLine]
          split
          · exact List.not_mem_nil
          · rename_i ha
            intro h
            cases htaken : takeLine sep n s with
            | nil =>
                rw [htaken] at h
                exact List.not_mem_nil h
            | cons b taken =>
                rw [htaken, List.dropLast_cons_cons, List.mem_cons] at h
                exact h.elim (Ne.symm ha) fun h => ih s (htaken ▸ h)

/-- The lines of a text; what follows its last separator is empty. -/
theorem splitOn_unlines {ls : List (List α)} (h : ∀ l ∈ ls, sep ∉ l) :
    (unlines sep ls).splitOn sep = ls ++ [[]] := by
  induction ls with
  | nil => simp
  | cons l ls ih =>
      rw [List.forall_mem_cons] at h
      rw [unlines_cons, line, List.append_assoc, List.singleton_append,
        List.splitOn_append_cons_self_of_not_mem h.1, ih h.2, List.cons_append]

/-- Lines that a text of lines begins with are lines of it. -/
theorem prefix_of_unlines {ls ls' : List (List α)} (h : ∀ l ∈ ls, sep ∉ l)
    (h' : ∀ l ∈ ls', sep ∉ l) (hpre : unlines sep ls <+: unlines sep ls') : ls <+: ls' := by
  induction ls generalizing ls' with
  | nil => exact List.nil_prefix
  | cons l ls ih =>
      cases ls' with
      | nil => simp [line] at hpre
      | cons l' ls' =>
          rw [List.forall_mem_cons] at h h'
          obtain ⟨rest, hrest⟩ := hpre
          have hsplit := congrArg (List.splitOn sep) hrest
          simp only [unlines_cons, line, List.append_assoc, List.cons_append,
            List.splitOn_append_cons_self_of_not_mem h.1,
            List.splitOn_append_cons_self_of_not_mem h'.1, List.cons.injEq] at hsplit
          obtain ⟨rfl, -⟩ := hsplit
          simp only [unlines_cons, List.append_assoc, List.append_cancel_left_eq] at hrest
          exact List.prefix_cons_inj l |>.mpr (ih h.2 h'.2 ⟨rest, hrest⟩)

/-! ### The end of a list -/

section

variable {α : Type} {p : α → Bool} {pre l : List α}

theorem rtakeWhile_append (hpre : ∀ a ∈ pre.getLast?, p a = false) (hl : ∀ a ∈ l, p a = true) :
    (pre ++ l).rtakeWhile p = l := by
  induction l using List.reverseRecOn with
  | nil =>
      rw [List.append_nil, List.rtakeWhile_eq_nil_iff]
      intro hne
      simp [hpre _ (List.getLast?_eq_some_getLast hne)]
  | append_singleton l a ih =>
      rw [← List.append_assoc, List.rtakeWhile_concat_pos _ _ _ (hl a (by simp)),
        ih fun b hb => hl b (List.mem_append_left _ hb)]

theorem rdropWhile_append (hpre : ∀ a ∈ pre.getLast?, p a = false) (hl : ∀ a ∈ l, p a = true) :
    (pre ++ l).rdropWhile p = pre := by
  induction l using List.reverseRecOn with
  | nil =>
      rw [List.append_nil, List.rdropWhile_eq_self_iff]
      intro hne
      simp [hpre _ (List.getLast?_eq_some_getLast hne)]
  | append_singleton l a ih =>
      rw [← List.append_assoc, List.rdropWhile_concat_pos _ _ _ (hl a (by simp)),
        ih fun b hb => hl b (List.mem_append_left _ hb)]

/-- What ends otherwise than `l` is not found to reach into `l`. -/
theorem infix_append_of_last {pattern : List α} (hne : pattern ≠ [])
    (hlast : ∀ a ∈ pattern.getLast?, p a = false) (hl : ∀ a ∈ l, p a = true) :
    pattern <:+: pre ++ l ↔ pattern <:+: pre := by
  induction l using List.reverseRecOn with
  | nil => rw [List.append_nil]
  | append_singleton l a ih =>
      rw [← List.append_assoc, List.infix_concat_iff,
        ih fun b hb => hl b (List.mem_append_left _ hb)]
      refine or_iff_right fun hsuffix => ?_
      have ha : a ∈ pattern.getLast? := by
        obtain ⟨before, hbefore⟩ := hsuffix
        have hget := congrArg List.getLast? hbefore
        rwa [List.getLast?_append_of_ne_nil _ hne, List.getLast?_concat] at hget
      have hfalse := hlast a ha
      rw [hl a (by simp)] at hfalse
      cases hfalse

end

end Realwork.Lib
