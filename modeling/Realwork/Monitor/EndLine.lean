import Realwork.Common.CheckEnd
import Realwork.Monitor.LogAnalyzer

/-!
# Monitor — the end of a log as its writer and its reader see it

`RTWLog::CheckEnd` compares the last line of a file with `[END]`; `LogAnalyzer::IsEndLogFile` looks
for `[END]` in the last text of it, behind which there are only returns.

* `isLogEnd_iff`: where `IsEndLogFile` finds `[END]`.
* `endsAlike_iff`: when both say the same.
-/

namespace Realwork.Monitor

open Realwork.Lib Realwork.Common

/-! ### Where `[END]` is found -/

/-- In a file that has only returns the loop goes back to the start. -/
theorem lastLineFrom_returns {content : Str} (h : ∀ b ∈ content, isReturn b = true) :
    lastLineFrom content true (content.length - 1) = 0 := by
  cases hi : content.length - 1 with
  | zero => simp [lastLineFrom]
  | succ i =>
      rw [lastLineFrom_skip (j := 1) (Nat.le_refl _) (by omega)]
      · simp [lastLineFrom]
      · intro k hk hk'
        rw [List.getD_eq_getElem _ _ (by omega)]
        exact h _ (List.getElem_mem _)

/-- What is before the last text of a file, the text, and the returns behind it. -/
structure Parts (content before text rets : Str) : Prop where
  eq : content = before ++ text ++ rets
  ends : ∀ b ∈ before.getLast?, isReturn b = true
  line : ∀ b ∈ text, isReturn b = false
  returns : ∀ b ∈ rets, isReturn b = true
  nil : text = [] → before = []

/-- The bytes that are before the last text, and those of it. -/
def beforeLast (content : Str) : Str :=
  (content.rdropWhile isReturn).rdropWhile fun b => !isReturn b

def lastBytes (content : Str) : Str :=
  (content.rdropWhile isReturn).rtakeWhile fun b => !isReturn b

theorem parts (content : Str) :
    Parts content (beforeLast content) (lastBytes content) (content.rtakeWhile isReturn) where
  eq := by
    rw [beforeLast, lastBytes, List.rdropWhile_append_rtakeWhile, List.rdropWhile_append_rtakeWhile]
  ends b hb := by
    obtain ⟨hne, rfl⟩ := List.mem_getLast?_eq_getLast hb
    have hlast := List.rdropWhile_last_not (fun b => !isReturn b) _ hne
    rwa [Bool.not_eq_true, Bool.not_eq_false'] at hlast
  line b hb := by simpa using List.mem_rtakeWhile_imp hb
  returns b hb := List.mem_rtakeWhile_imp hb
  nil hnil := by
    -- the file has only returns
    have hbody : content.rdropWhile isReturn = [] := by
      by_contra hbody
      have hreturn := List.rtakeWhile_eq_nil_iff.mp hnil hbody
      exact hreturn (by simpa using List.rdropWhile_last_not isReturn content hbody)
    rw [beforeLast, hbody]
    rfl

section

variable {content before text rets : Str}

/-- **Where the loop stops.**  A return that is the first byte of the file is not seen. -/
theorem Parts.stop (h : Parts content before text rets) :
    lastLineFrom content true (content.length - 1) =
      if before.length ≤ 1 then 0 else before.length := by
  by_cases hnil : text = []
  · rw [h.nil hnil]
    refine lastLineFrom_returns fun b hb => h.returns b ?_
    rwa [h.eq, h.nil hnil, hnil] at hb
  · rw [h.eq]
    exact lastLineFrom_text h.ends hnil h.line h.returns

/-- The line that is read there. -/
theorem Parts.readLastLineOfFile (h : Parts content before text rets) :
    readLastLineOfFile content = bufferedLine (takeLine newline lineBuffSize
      ((if before.length = 1 then before ++ text else text) ++ rets)) := by
  have hdrop : content.drop (if before.length ≤ 1 then 0 else before.length) =
      (if before.length = 1 then before ++ text else text) ++ rets := by
    rw [h.eq]
    by_cases hshort : before.length ≤ 1
    · rw [if_pos hshort, List.drop_zero]
      rcases Nat.le_one_iff_eq_zero_or_eq_one.mp hshort with hzero | hone
      · rw [if_neg (by omega), List.length_eq_zero_iff.mp hzero, List.nil_append]
      · rw [if_pos hone]
    · rw [if_neg hshort, if_neg (by omega), List.append_assoc, List.drop_left]
  rw [Monitor.readLastLineOfFile]
  split
  · rename_i hnil
    rw [← hdrop, hnil, List.drop_nil]
    decide
  · simp only [h.stop, hdrop]

end

theorem has_iff {flag s : Str} : has flag s = true ↔ flag <:+: s := by
  induction s with
  | nil =>
      by_cases h : flag = []
      · simp [has, find, h]
      · simp [has, find, h]
  | cons b s ih =>
      rw [List.infix_cons_iff, ← List.isPrefixOf_iff_prefix, ← ih, has, has, find]
      by_cases hp : flag.isPrefixOf (b :: s) = true
      · simp [hp]
      · simp [hp]

/-- `[END]` does not reach into returns. -/
theorem infix_append_returns {s rets : Str} (hrets : ∀ b ∈ rets, isReturn b = true) :
    logFileEnd <:+: s ++ rets ↔ logFileEnd <:+: s := by
  refine infix_append_of_last (by decide) (fun b hb => ?_) hrets
  exact isReturn_logFileEnd b (List.mem_of_getLast? hb)

/-- The cut of the returns leaves every `[END]`. -/
theorem isLogEnd_chomp {s : Str} : isLogEnd (chomp s) = true ↔ logFileEnd <:+: s := by
  have hcut : chomp s ++ s.rtakeWhile isReturn = s := List.rdropWhile_append_rtakeWhile
  rw [isLogEnd, has_iff]
  conv_rhs => rw [← hcut]
  exact (infix_append_returns fun b hb => List.mem_rtakeWhile_imp hb).symm

/-- Neither do the returns behind a text matter to the C string of it. -/
theorem infix_cstr_append {s rets : Str} (hrets : ∀ b ∈ rets, isReturn b = true) :
    logFileEnd <:+: cstr (s ++ rets) ↔ logFileEnd <:+: cstr s := by
  rw [cstr, cstr, List.takeWhile_append]
  split
  · rename_i hlen
    rw [(List.takeWhile_prefix _).eq_of_length hlen]
    exact infix_append_returns fun b hb => hrets b ((List.takeWhile_sublist _).subset hb)
  · exact Iff.rfl

/-- The line of `fgets` is what is before the line feed, with returns behind it. -/
theorem takeLine_returns {s rets : Str} (hrets : ∀ b ∈ rets, isReturn b = true) (n : Nat) :
    ∃ returns, (∀ b ∈ returns, isReturn b = true) ∧
      takeLine newline n (s ++ rets) = (s.takeWhile (· ≠ newline)).take n ++ returns := by
  induction s generalizing n with
  | nil =>
      refine ⟨takeLine newline n rets, fun b hb => hrets b ?_, by simp⟩
      exact (prefix_takeLine n rets).subset hb
  | cons a s ih =>
      cases n with
      | zero => exact ⟨[], by simp, by simp [takeLine]⟩
      | succ n =>
          by_cases ha : a = newline
          · subst ha
            exact ⟨[newline], isReturn_newline, by simp [takeLine]⟩
          · obtain ⟨returns, hreturns, htake⟩ := ih n
            exact ⟨returns, hreturns, by simp [takeLine, ha, htake]⟩

/-- The line that is read where the loop has stopped. -/
theorem isLogEnd_bufferedLine {s rets : Str} (hrets : ∀ b ∈ rets, isReturn b = true) (n : Nat) :
    isLogEnd (bufferedLine (takeLine newline n (s ++ rets))) = true ↔
      logFileEnd <:+: cstr ((s.takeWhile (· ≠ newline)).take n) := by
  obtain ⟨returns, hreturns, htake⟩ := takeLine_returns (s := s) hrets n
  rw [bufferedLine, isLogEnd_chomp, htake, infix_cstr_append hreturns]

/-- `[END]` is in the last text of the file: behind its last return that has something else behind
it, and before the returns at its end.  No NUL is before it in the text, and it ends within the
buffer.  A return that is the first byte of the file is not seen: if it is a line feed nothing of
the text behind it is read, if it is a carriage return it is read with the text. -/
def Quoted (content : Str) : Prop :=
  ∃ before head tail rets, content = before ++ (head ++ logFileEnd ++ tail) ++ rets ∧
    (∀ b ∈ before.getLast?, isReturn b = true) ∧
    (∀ b ∈ head ++ tail, isReturn b = false) ∧ (∀ b ∈ rets, isReturn b = true) ∧
    0 ∉ head ∧ before ≠ [newline] ∧
    (if before.length = 1 then 1 else 0) + head.length + logFileEnd.length ≤ lineBuffSize

/-- `[END]` in what is read of a text. -/
theorem infix_cstr_take {text : Str} {n : Nat} :
    logFileEnd <:+: cstr (text.take n) ↔
      ∃ head tail, text = head ++ logFileEnd ++ tail ∧ 0 ∉ head ∧
        head.length + logFileEnd.length ≤ n := by
  constructor
  · rintro ⟨head, tail, htext⟩
    have hcstr : head ++ logFileEnd <+: cstr (text.take n) := ⟨tail, htext⟩
    have htake := hcstr.trans (List.takeWhile_prefix _)
    obtain ⟨hpre, hlen⟩ := List.prefix_take_iff.mp htake
    obtain ⟨rest, hrest⟩ := hpre
    refine ⟨head, rest, hrest.symm, fun hzero => ?_, by simpa using hlen⟩
    have hmem : (0 : UInt8) ∈ cstr (text.take n) :=
      hcstr.subset (List.mem_append_left _ hzero)
    simpa using List.mem_takeWhile_imp hmem
  · rintro ⟨head, tail, rfl, hzero, hlen⟩
    have htake : head ++ logFileEnd <+: (head ++ logFileEnd ++ tail).take n :=
      List.prefix_take_iff.mpr ⟨List.prefix_append _ _, by simpa using hlen⟩
    obtain ⟨rest, hrest⟩ := htake
    have hkept : cstr (head ++ logFileEnd ++ rest) = head ++ logFileEnd ++ cstr rest := by
      refine List.takeWhile_append_of_pos fun b hb => ?_
      have hne : b ≠ 0 := fun heq => by
        subst heq
        rcases List.mem_append.mp hb with hb | hb
        · exact hzero hb
        · exact absurd hb (by decide)
      simpa using hne
    rw [← hrest, hkept]
    exact ⟨head, cstr rest, rfl⟩

/-- A text behind a return is read up to the end of it. -/
theorem takeWhile_text {text : Str} (h : ∀ b ∈ text, isReturn b = false) :
    text.takeWhile (· ≠ newline) = text := by
  refine List.takeWhile_eq_self_iff.mpr fun b hb => ?_
  have hne : b ≠ newline := fun heq => by
    subst heq
    exact absurd (h newline hb) (by decide)
  simpa using hne

/-- Where `[END]` is found in the parts of a file. -/
theorem Parts.isLogEnd_iff {content before text rets : Str} (h : Parts content before text rets) :
    isLogEnd (Monitor.readLastLineOfFile content) = true ↔ before ≠ [newline] ∧ ∃ head tail,
      text = head ++ logFileEnd ++ tail ∧ 0 ∉ head ∧
        (if before.length = 1 then 1 else 0) + head.length + logFileEnd.length ≤ lineBuffSize := by
  rw [h.readLastLineOfFile, isLogEnd_bufferedLine h.returns]
  by_cases hone : before.length = 1
  · rw [if_pos hone, if_pos hone]
    obtain ⟨b, rfl⟩ := List.length_eq_one_iff.mp hone
    have hb : isReturn b = true := h.ends b rfl
    by_cases hfeed : b = newline
    · subst hfeed
      exact iff_of_false (by simp [logFileEnd, cstr, lit]) fun h => h.1 rfl
    · have hread : ([b] ++ text).takeWhile (· ≠ newline) = b :: text := by
        rw [List.singleton_append, List.takeWhile_cons_of_pos (by simpa using hfeed),
          takeWhile_text h.line]
      rw [hread, infix_cstr_take, and_iff_right (by simpa using hfeed)]
      constructor
      · rintro ⟨head, tail, htext, hzero, hlen⟩
        -- the return is before `[END]`
        cases head with
        | nil =>
            have hhead : b = 0x5b := (List.cons.inj htext).1
            rw [hhead] at hb
            exact absurd hb (by decide)
        | cons a head =>
            rw [List.cons_append, List.cons_append, List.cons.injEq] at htext
            rw [List.length_cons] at hlen
            exact ⟨head, tail, htext.2, fun hmem => hzero (List.mem_cons_of_mem _ hmem), by omega⟩
      · rintro ⟨head, tail, htext, hzero, hlen⟩
        refine ⟨b :: head, tail, by rw [htext]; rfl, ?_, by rw [List.length_cons]; omega⟩
        rw [List.mem_cons, not_or]
        refine ⟨fun heq => ?_, hzero⟩
        rw [← heq] at hb
        exact absurd hb (by decide)
  · have hne : before ≠ [newline] := fun heq => hone (by rw [heq]; rfl)
    rw [if_neg hone, if_neg hone, takeWhile_text h.line, infix_cstr_take, and_iff_right hne]
    simp only [Nat.zero_add]

/-- **`IsEndLogFile`** finds `[END]` in the last text of a file. -/
theorem isLogEnd_iff {content : Str} :
    isLogEnd (readLastLineOfFile content) = true ↔ Quoted content := by
  constructor
  · intro h
    have hparts := parts content
    obtain ⟨hne, head, tail, htext, hzero, hlen⟩ := hparts.isLogEnd_iff.mp h
    refine ⟨_, head, tail, _, htext ▸ hparts.eq, hparts.ends, fun b hb => hparts.line b ?_,
      hparts.returns, hzero, hne, hlen⟩
    rw [htext]
    rcases List.mem_append.mp hb with hb | hb <;> simp [hb]
  · rintro ⟨before, head, tail, rets, heq, hends, hline, hrets, hzero, hne, hlen⟩
    have hparts : Parts content before (head ++ logFileEnd ++ tail) rets := by
      have hquote : head ++ logFileEnd ++ tail ≠ [] := by simp [logFileEnd, lit]
      refine ⟨heq, hends, fun b hb => ?_, hrets, fun hnil => absurd hnil hquote⟩
      rcases List.mem_append.mp hb with hb | hb
      · rcases List.mem_append.mp hb with hb | hb
        · exact hline b (List.mem_append_left _ hb)
        · exact isReturn_logFileEnd b hb
      · exact hline b (List.mem_append_right _ hb)
    exact hparts.isLogEnd_iff.mpr ⟨hne, head, tail, rfl, hzero, hlen⟩

/-! ### Writer and reader -/

/-- The last line is `[END]`, and has not only an empty line before it; or it prints something and
is not taken for `[END]`, and `[END]` is not in the last text of the file; or it has a NUL and is
taken for `[END]`, and `[END]` is in the last text. -/
def EndsAlike (init : List Str) (l : Str) : Prop :=
  l = logFileEnd ∧ init ≠ [[]] ∨
    Prints (line newline l) ∧ ¬ TakenForEnd l ∧ ¬ Quoted (unlines newline (init ++ [l])) ∨
    0 ∈ l ∧ TakenForEnd l ∧ Quoted (unlines newline (init ++ [l]))

/-- `[END]` is found in the last line, unless only an empty line is before it. -/
theorem quoted_ended {init : List Str} :
    Quoted (unlines newline (init ++ [logFileEnd])) ↔ init ≠ [[]] := by
  constructor
  · rintro h rfl
    exact absurd (isLogEnd_iff.mpr h) (by decide +kernel)
  · intro hinit
    refine ⟨unlines newline init, [], [], [newline], by simp [line], fun b hb => ?_, by simp,
      isReturn_newline, by simp, fun heq => hinit ?_, ?_⟩
    · rw [getLast?_unlines init b hb]
      decide
    · have hlen := congrArg List.length heq
      rcases init with _ | ⟨l, _ | ⟨l', init⟩⟩
      · cases heq
      · simpa [line] using heq
      · simp only [unlines_cons, line, List.length_append, List.length_singleton] at hlen
        omega
    · split <;> decide

/-- **Writer and reader say the same** of a file of whole lines exactly when `EndsAlike` holds of
its lines. -/
theorem endsAlike_iff {files : LogFiles} {name : LogName} {init : List Str} {l : Str} {mtime : Nat}
    (hl : newline ∉ l) (hfile : files name = some ⟨unlines newline (init ++ [l]), mtime⟩) :
    (∃ ended, checkEnd files name = some ended ∧ (ended = true ↔ isEndLogFile files name = 1)) ↔
      EndsAlike init l := by
  have hreader : isEndLogFile files name = 1 ↔ Quoted (unlines newline (init ++ [l])) := by
    rw [← isLogEnd_iff, isEndLogFile, hfile]
    dsimp only
    split
    · exact iff_of_true rfl ‹_›
    · exact iff_of_false (by decide) ‹_›
  have hwriter : (∃ ended, checkEnd files name = some ended ∧
        (ended = true ↔ isEndLogFile files name = 1)) ↔
      Prints (line newline l) ∧ (TakenForEnd l ↔ Quoted (unlines newline (init ++ [l]))) := by
    rw [checkEnd_unlines hl (LogFiles.content_eq hfile), hreader]
    by_cases hprints : Prints (line newline l) <;> simp [hprints]
  rw [hwriter, EndsAlike]
  constructor
  · rintro ⟨hprints, h⟩
    by_cases htaken : TakenForEnd l
    · by_cases hzero : 0 ∈ l
      · exact .inr (.inr ⟨hzero, htaken, h.mp htaken⟩)
      · obtain rfl := (takenForEnd_iff hzero).mp htaken
        exact .inl ⟨rfl, quoted_ended.mp (h.mp htaken)⟩
    · exact .inr (.inl ⟨hprints, htaken, mt h.mpr htaken⟩)
  · rintro (⟨rfl, hinit⟩ | ⟨hprints, htaken, hquoted⟩ | ⟨-, htaken, hquoted⟩)
    · exact ⟨takenForEnd_logFileEnd.prints,
        iff_of_true takenForEnd_logFileEnd (quoted_ended.mpr hinit)⟩
    · exact ⟨hprints, iff_of_false htaken hquoted⟩
    · exact ⟨htaken.prints, iff_of_true htaken hquoted⟩

/-- A file with a line before `[END]`. -/
theorem endsAlike_iff_ended :
    ∃ files, files LogName.first = some ⟨unlines newline ([lit "x"] ++ [logFileEnd]), 0⟩ ∧
      ∃ ended, checkEnd files .first = some ended ∧
        (ended = true ↔ isEndLogFile files .first = 1) :=
  ⟨fun _ => some ⟨unlines newline ([lit "x"] ++ [logFileEnd]), 0⟩, rfl,
    (endsAlike_iff (by decide) rfl).mpr (.inl ⟨rfl, by decide⟩)⟩

/-- The last line quotes `[END]`, and only the reader finds the file ended; an empty line and
`[END]` are the whole file, and only the writer does; or the last line is a NUL, and the writer
raises an error. -/
theorem endLine_disagrees :
    (∃ files l, files LogName.first = some ⟨unlines newline ([] ++ [l]), 0⟩ ∧ newline ∉ l ∧
        checkEnd files .first = some false ∧ isEndLogFile files .first = 1) ∧
      (∃ files, files LogName.first = some ⟨unlines newline ([[]] ++ [logFileEnd]), 0⟩ ∧
        checkEnd files .first = some true ∧ isEndLogFile files .first ≠ 1) ∧
      ∃ files, files LogName.first = some ⟨unlines newline ([] ++ [[0x00]]), 0⟩ ∧
        checkEnd files .first = none := by
  let quoting : LogFiles := fun _ => some ⟨unlines newline ([] ++ [lit "say [END] now"]), 0⟩
  let afterEmpty : LogFiles := fun _ => some ⟨unlines newline ([[]] ++ [logFileEnd]), 0⟩
  let nul : LogFiles := fun _ => some ⟨unlines newline ([] ++ [[0x00]]), 0⟩
  refine ⟨⟨quoting, lit "say [END] now", rfl, ?_⟩, ⟨afterEmpty, rfl, ?_⟩, nul, rfl, ?_⟩ <;>
    decide +kernel

end Realwork.Monitor
