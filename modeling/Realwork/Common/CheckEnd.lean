import Realwork.Common.Log

/-!
# Common — the end of a log as its writer sees it

`RTWLog::CheckEnd`, which asks `tail` for the last line of a file, collects the answer as C strings
and takes the last byte of it off without looking whether there is one.

* `collected_eq_seen`: what is collected, by the places of the NULs of the output.
* `prints_iff`: of which outputs anything is collected.
* `checkEnd_unlines`: what `CheckEnd` says of a file of whole lines.
-/

namespace Realwork.Common

open Realwork.Lib

/-! ### `CheckEnd` -/

/-- `RESULT_MAXLINE`. -/
def resultMaxline : Nat := 1024

/-- The output of `tail -n 1`. -/
def tailLine (content : Str) : Str :=
  content.dropLast.rtakeWhile (· ≠ newline) ++ content.getLast?.toList

/-- What the calls of `fgets( buff, RESULT_MAXLINE, fp )` read, the first number being enough of
them. -/
def pieces : Nat → Str → List Str
  | 0, _ => []
  | _, [] => []
  | n + 1, s =>
      let buff := takeLine newline (resultMaxline - 1) s
      buff :: pieces n (s.drop buff.length)

/-- `result`, when the output has been read. -/
def collected (output : Str) : Str := (pieces output.length output).flatMap cstr

/-- `CheckEnd`, of a `tail` that could be run; `none` is the substring of an empty `result`. -/
def checkEnd (files : LogFiles) (name : LogName) : Option Bool :=
  let result := collected (tailLine (files.content name))
  if result.length = 0 then none else some (result.dropLast = logFileEnd)

/-! ### The pieces of the output -/

theorem takeLine_eq_take {s : Str} (h : newline ∉ s.dropLast) (n : Nat) :
    takeLine newline n s = s.take n := by
  induction s generalizing n with
  | nil => cases n <;> rfl
  | cons b s ih =>
      cases n with
      | zero => rfl
      | succ n =>
          rw [takeLine, List.take_succ_cons]
          cases s with
          | nil => cases n <;> simp [takeLine]
          | cons c s =>
              rw [List.dropLast_cons_cons, List.mem_cons, not_or] at h
              rw [if_neg (Ne.symm h.1), ih h.2]

theorem newline_not_mem_tailLine (content : Str) : newline ∉ (tailLine content).dropLast := by
  rcases List.eq_nil_or_concat' content with rfl | ⟨init, last, rfl⟩
  · simp [tailLine]
  · simp only [tailLine, List.dropLast_concat, List.getLast?_concat, Option.toList_some]
    intro h
    simpa using List.mem_rtakeWhile_imp h

theorem dropLast_drop (s : Str) (n : Nat) : (s.drop n).dropLast = s.dropLast.drop n := by
  rw [List.dropLast_eq_take, List.dropLast_eq_take, List.drop_take, List.length_drop,
    Nat.sub_right_comm]

/-- The first piece of a text, and the text behind it. -/
theorem pieces_cons {n : Nat} {b : UInt8} {s : Str} (h : newline ∉ (b :: s).dropLast) :
    pieces (n + 1) (b :: s) = (b :: s).take (resultMaxline - 1) ::
      pieces n ((b :: s).drop (resultMaxline - 1)) := by
  have hbuff := takeLine_eq_take h (resultMaxline - 1)
  have hrest : (b :: s).drop (takeLine newline (resultMaxline - 1) (b :: s)).length =
      (b :: s).drop (resultMaxline - 1) := by
    rw [hbuff, List.length_take, Nat.min_def]
    split
    · rfl
    · rw [List.drop_length, List.drop_eq_nil_of_le (by omega)]
  rw [← hrest, ← hbuff]
  rfl

/-! ### What is collected -/

/-- The byte at a place is not behind a NUL in the piece it is in, nor one. -/
def Seen (s : Str) (i : Nat) : Prop :=
  ∀ j ≤ i, j / (resultMaxline - 1) = i / (resultMaxline - 1) → s[j]? ≠ some 0

instance (s : Str) : DecidablePred (Seen s) := fun _ => inferInstanceAs (Decidable (∀ j ≤ _, _))

/-- The bytes of a text that are not behind a NUL in their piece. -/
def seen (s : Str) : Str := (s.zipIdx.filter fun p => Seen s p.2).map Prod.fst

/-- One of the pieces begins with something else than a NUL. -/
def Prints (output : Str) : Prop :=
  ∃ k b, output[(resultMaxline - 1) * k]? = some b ∧ b ≠ 0

theorem cstr_concat_of_mem {s : Str} {b : UInt8} (h : 0 ∈ s ++ [b]) : cstr (s ++ [b]) = cstr s := by
  rw [cstr, cstr, List.takeWhile_append]
  split
  · rename_i hlen
    have hs := (List.takeWhile_prefix _).eq_of_length hlen
    have hzero : 0 ∉ s := fun hmem => by
      rw [← hs] at hmem
      simpa using List.mem_takeWhile_imp hmem
    have hb : b = 0 := by simpa [hzero, eq_comm] using h
    rw [hs, hb]
    exact List.append_nil s
  · rfl

/-- A C string, by the places of the NULs. -/
theorem cstr_eq_filter (s : Str) :
    (s.zipIdx.filter fun p => ∀ j ≤ p.2, s[j]? ≠ some 0).map Prod.fst = cstr s := by
  induction s using List.reverseRecOn with
  | nil => rfl
  | append_singleton s b ih =>
      have hleft : (s.zipIdx.filter fun p => ∀ j ≤ p.2, (s ++ [b])[j]? ≠ some 0) =
          s.zipIdx.filter fun p => ∀ j ≤ p.2, s[j]? ≠ some 0 := by
        refine List.filter_congr fun p hp => ?_
        have hlt : p.2 < s.length := by simpa using List.snd_lt_of_mem_zipIdx hp
        refine decide_eq_decide.mpr (forall₂_congr fun j hj => ?_)
        rw [List.getElem?_append_left (by omega)]
      have hlast : (∀ j ≤ s.length, (s ++ [b])[j]? ≠ some 0) ↔ 0 ∉ s ++ [b] := by
        rw [List.mem_iff_getElem?, not_exists]
        refine forall_congr' fun j => ⟨fun h hj => ?_, fun h _ => h⟩
        obtain ⟨hlt, -⟩ := List.getElem?_eq_some_iff.mp hj
        exact h (Nat.le_of_lt_succ (by simpa using hlt)) hj
      have hsingle : [b].zipIdx (0 + s.length) = [(b, s.length)] := by simp
      rw [List.zipIdx_append, List.filter_append, hleft, List.map_append, ih, hsingle]
      by_cases hzero : 0 ∈ s ++ [b]
      · rw [List.filter_cons_of_neg (by simpa only [decide_eq_true_eq, hlast, not_not]),
          cstr_concat_of_mem hzero]
        exact List.append_nil _
      · rw [List.filter_cons_of_pos (by simpa only [decide_eq_true_eq, hlast]),
          cstr_eq_self hzero, cstr_eq_self fun hs => hzero (List.mem_append_left _ hs)]
        rfl

theorem seen_drop_iff {s : Str} {i : Nat} :
    Seen s (resultMaxline - 1 + i) ↔ Seen (s.drop (resultMaxline - 1)) i := by
  have hdiv (k : Nat) : (resultMaxline - 1 + k) / (resultMaxline - 1) =
      k / (resultMaxline - 1) + 1 := by
    rw [Nat.add_div_left k (by decide)]
  simp only [Seen, List.getElem?_drop]
  constructor
  · intro h j hj heq
    exact h _ (Nat.add_le_add_left hj _) (by rw [hdiv, hdiv, heq])
  · intro h j hj heq
    -- a place of a later piece is behind the first one
    have hle : resultMaxline - 1 ≤ j := by
      by_contra hlt
      rw [hdiv, Nat.div_eq_of_lt (Nat.lt_of_not_le hlt)] at heq
      exact absurd heq.symm (Nat.succ_ne_zero _)
    obtain ⟨k, rfl⟩ := Nat.exists_eq_add_of_le hle
    rw [hdiv, hdiv, Nat.succ_inj] at heq
    exact h k (Nat.le_of_add_le_add_left hj) heq

/-- The bytes of the first piece, and those of the pieces behind it. -/
theorem seen_pieces (s : Str) :
    seen s = cstr (s.take (resultMaxline - 1)) ++ seen (s.drop (resultMaxline - 1)) := by
  set n := resultMaxline - 1 with hn
  have hfirst : ((s.take n).zipIdx.filter fun p => Seen s p.2) =
      (s.take n).zipIdx.filter fun p => ∀ j ≤ p.2, (s.take n)[j]? ≠ some 0 := by
    refine List.filter_congr fun p hp => decide_eq_decide.mpr (forall₂_congr fun j hj => ?_)
    have hlt : p.2 < n := by
      have hlen := List.snd_lt_of_mem_zipIdx hp
      rw [List.length_take] at hlen
      omega
    rw [← hn, Nat.div_eq_of_lt hlt, Nat.div_eq_of_lt (hj.trans_lt hlt),
      List.getElem?_take_of_lt (hj.trans_lt hlt)]
    exact ⟨fun h => h rfl, fun h _ => h⟩
  have hrest : ((s.drop n).zipIdx (0 + (s.take n).length)).filter (fun p => Seen s p.2) =
      ((s.drop n).zipIdx.filter fun p => Seen (s.drop n) p.2).map fun p => (p.1, n + p.2) := by
    rcases Nat.lt_or_ge n s.length with hlt | hle
    · rw [List.zipIdx_eq_map_add, List.filter_map, List.length_take, Nat.min_eq_left hlt.le,
        Nat.zero_add]
      congr 1
      refine List.filter_congr fun p _ => decide_eq_decide.mpr ?_
      exact seen_drop_iff
    · rw [List.drop_eq_nil_of_le hle]
      rfl
  calc seen s
      = (((s.take n ++ s.drop n).zipIdx).filter fun p => Seen s p.2).map Prod.fst := by
        rw [List.take_append_drop, seen]
    _ = cstr (s.take n) ++ seen (s.drop n) := by
        rw [List.zipIdx_append, List.filter_append, hfirst, hrest, List.map_append,
          cstr_eq_filter, List.map_map]
        rfl

/-- **What is collected** of the output of `tail`. -/
theorem collected_eq_seen {output : Str} (h : newline ∉ output.dropLast) :
    collected output = seen output := by
  have hpieces : ∀ n (s : Str), s.length ≤ n → newline ∉ s.dropLast →
      (pieces n s).flatMap cstr = seen s := by
    intro n
    induction n with
    | zero =>
        intro s hn _
        rw [List.length_eq_zero_iff.mp (Nat.le_zero.mp hn)]
        rfl
    | succ n ih =>
        intro s hn hline
        cases s with
        | nil => rfl
        | cons b s =>
            have hdrop : newline ∉ ((b :: s).drop (resultMaxline - 1)).dropLast := fun hm =>
              hline (List.mem_of_mem_drop (dropLast_drop (b :: s) _ ▸ hm))
            have hlen : ((b :: s).drop (resultMaxline - 1)).length ≤ n := by
              rw [List.length_drop, resultMaxline]
              rw [List.length_cons] at hn ⊢
              omega
            rw [pieces_cons hline, List.flatMap_cons, ih _ hlen hdrop, ← seen_pieces]
  exact hpieces _ output (Nat.le_refl _) h

theorem seen_ne_nil_iff {s : Str} : seen s ≠ [] ↔ ∃ i < s.length, Seen s i := by
  rw [seen, ne_eq, List.map_eq_nil_iff, List.filter_eq_nil_iff]
  simp only [decide_eq_true_eq, not_forall, not_not]
  constructor
  · rintro ⟨p, hp, hseen⟩
    exact ⟨p.2, by simpa using List.snd_lt_of_mem_zipIdx hp, hseen⟩
  · rintro ⟨i, hi, hseen⟩
    exact ⟨(s[i], i), List.mem_zipIdx_iff_getElem?.mpr (List.getElem?_eq_getElem hi), hseen⟩

/-- **Something is collected** of the output of `tail` if one of its pieces begins with something
else than a NUL. -/
theorem prints_iff {output : Str} : Prints output ↔ seen output ≠ [] := by
  rw [seen_ne_nil_iff]
  constructor
  · rintro ⟨k, b, hb, hne⟩
    refine ⟨(resultMaxline - 1) * k, (List.getElem?_eq_some_iff.mp hb).1, fun j hj hdiv => ?_⟩
    -- the place is the first one of its piece
    rw [Nat.mul_div_cancel_left k (by decide)] at hdiv
    have hle := Nat.div_mul_le_self j (resultMaxline - 1)
    rw [hdiv, Nat.mul_comm] at hle
    rw [Nat.le_antisymm hj hle, hb]
    exact fun h => hne (Option.some.inj h)
  · rintro ⟨i, hi, hseen⟩
    have hle : (resultMaxline - 1) * (i / (resultMaxline - 1)) ≤ i := Nat.mul_div_le i _
    have hget := List.getElem?_eq_getElem (hle.trans_lt hi)
    refine ⟨i / (resultMaxline - 1), _, hget, fun hzero => ?_⟩
    exact hseen _ hle (Nat.mul_div_cancel_left _ (by decide)) (hget.trans (congrArg some hzero))

instance : DecidablePred Prints := fun _ => decidable_of_iff _ prints_iff.symm

/-! ### Files of whole lines -/

/-- The bytes of a line, with its line feed, that are not behind a NUL in their piece are `[END]`
and one more. -/
def TakenForEnd (l : Str) : Prop := ∃ b, seen (line newline l) = logFileEnd ++ [b]

section

variable {files : LogFiles} {name : LogName} {init : List Str} {l : Str}

theorem takenForEnd_iff_dropLast : TakenForEnd l ↔
    seen (line newline l) ≠ [] ∧ (seen (line newline l)).dropLast = logFileEnd := by
  constructor
  · rintro ⟨b, hb⟩
    rw [hb]
    exact ⟨by simp, List.dropLast_concat⟩
  · rintro ⟨hne, hend⟩
    exact ⟨_, by rw [← hend, List.dropLast_append_getLast hne]⟩

instance : DecidablePred TakenForEnd := fun _ =>
  decidable_of_iff (_ ∧ _) takenForEnd_iff_dropLast.symm

/-- Of a line without a NUL every byte is seen. -/
theorem seen_eq_self {s : Str} (h : 0 ∉ s) : seen s = s := by
  have hall : (s.zipIdx.filter fun p => Seen s p.2) = s.zipIdx := by
    refine List.filter_eq_self.mpr fun p _ => decide_eq_true fun j _ _ hj => ?_
    exact h (List.mem_of_getElem? hj)
  rw [seen, hall, List.zipIdx_map_fst]

theorem seen_line (h : 0 ∉ l) : seen (line newline l) = line newline l := by
  refine seen_eq_self ?_
  rw [line, List.mem_append, List.mem_singleton, not_or]
  exact ⟨h, by decide⟩

theorem prints_of_no_nul (h : 0 ∉ l) : Prints (line newline l) := by
  rw [prints_iff, seen_line h]
  exact List.concat_ne_nil _ _

/-- A line without a NUL is taken for `[END]` if it is. -/
theorem takenForEnd_iff (h : 0 ∉ l) : TakenForEnd l ↔ l = logFileEnd := by
  rw [TakenForEnd, seen_line h, line]
  constructor
  · rintro ⟨b, hb⟩
    exact (List.append_inj' hb rfl).1
  · rintro rfl
    exact ⟨newline, rfl⟩

theorem takenForEnd_logFileEnd : TakenForEnd logFileEnd := (takenForEnd_iff (by decide)).mpr rfl

theorem tailLine_unlines (h : newline ∉ l) :
    tailLine (unlines newline (init ++ [l])) = line newline l := by
  have hlast : unlines newline (init ++ [l]) = (unlines newline init ++ l) ++ [newline] := by
    simp [line]
  have hrun : (unlines newline init ++ l).rtakeWhile (· ≠ newline) = l := by
    refine rtakeWhile_append (fun b hb => ?_) fun b hb => ?_
    · simp [getLast?_unlines init b hb]
    · have hne : b ≠ newline := fun heq => h (heq ▸ hb)
      simpa using hne
  rw [tailLine, hlast, List.dropLast_concat, hrun]
  simp [line]

/-- **`CheckEnd`** of a file of whole lines looks at the last one. -/
theorem checkEnd_unlines (hl : newline ∉ l)
    (h : files.content name = unlines newline (init ++ [l])) :
    checkEnd files name =
      if Prints (line newline l) then some (decide (TakenForEnd l)) else none := by
  have hcollected : collected (tailLine (files.content name)) = seen (line newline l) := by
    rw [h, tailLine_unlines hl]
    exact collected_eq_seen (by rwa [line, List.dropLast_concat])
  rw [checkEnd, hcollected]
  by_cases hprints : Prints (line newline l)
  · have hne := prints_iff.mp hprints
    rw [if_neg (mt List.length_eq_zero_iff.mp hne), if_pos hprints, Option.some.injEq,
      decide_eq_decide, takenForEnd_iff_dropLast, and_iff_right hne]
  · rw [if_pos (List.length_eq_zero_iff.mpr (not_not.mp (mt prints_iff.mpr hprints))),
      if_neg hprints]

/-- What is taken for `[END]` is printed. -/
theorem TakenForEnd.prints (h : TakenForEnd l) : Prints (line newline l) :=
  prints_iff.mpr (takenForEnd_iff_dropLast.mp h).1

end

end Realwork.Common
