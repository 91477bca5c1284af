import Mathlib.Data.List.GetD
import Mathlib.Data.List.TakeWhile
import Realwork.Common.Log

/-!
# Monitor — the lines of a log

`LogAnalyzer.cpp`: which lines are commands, and whether a file has been ended.
`ReadLastLineOfFile` goes back from the end of the file, byte by byte, to the line feed before
its last line.

* `lastLineFrom_text`: what the loop finds in a file that ends with a line.
* `readLastLine_ended`: a file of whole lines that ends with `[END]` is found ended.
-/

namespace Realwork.Monitor

open Realwork.Lib Realwork.Common

/-! ### Commands -/

/-- `string::find`. -/
def find (pattern : Str) : Str → Option Nat
  | [] => if pattern = [] then some 0 else none
  | b :: s => if pattern.isPrefixOf (b :: s) then some 0 else (find pattern s).map (· + 1)

/-- `lineBuf.find(flag) != string::npos`. -/
def has (flag lineBuf : Str) : Bool := (find flag lineBuf).isSome

def cmdLogHcCntFlag : Str := lit "<HC_COUNT>"
def cmdLogWorkCntFlag : Str := lit "<WORK_COUNT>"
def cmdLogOtherCntFlag : Str := lit "<ERROR_COUNT>"
def cmdLogCommonCntFlag : Str := lit "<COMMAND>"
def cmdLogEndFlag : Str := lit "[END]"

def isValidCmdLineBuf (lineBuf : Str) : Bool :=
  has cmdLogHcCntFlag lineBuf || has cmdLogWorkCntFlag lineBuf ||
    has cmdLogOtherCntFlag lineBuf || has cmdLogCommonCntFlag lineBuf

def isLogEnd (lineBuf : Str) : Bool := has cmdLogEndFlag lineBuf

/-- `AoCmdType_e`. -/
inductive AoCmdType where
  | unknown
  | hcCounter
  | workCounter
  | otherCounter
  | common
  deriving DecidableEq

structure AoCommand where
  type : AoCmdType := .unknown
  cmdContent : Str := []
  deriving DecidableEq

/-- `lineBuf.substr(lineBuf.find(flag) + strlen(flag))`. -/
def after (flag lineBuf : Str) : Str :=
  match find flag lineBuf with
  | some pos => lineBuf.drop (pos + flag.length)
  | none => []

def getAoCmdFromLine (lineBuf : Str) : AoCommand :=
  if has cmdLogHcCntFlag lineBuf then ⟨.hcCounter, after cmdLogHcCntFlag lineBuf⟩
  else if has cmdLogWorkCntFlag lineBuf then ⟨.workCounter, after cmdLogWorkCntFlag lineBuf⟩
  else if has cmdLogOtherCntFlag lineBuf then ⟨.otherCounter, after cmdLogOtherCntFlag lineBuf⟩
  else if has cmdLogCommonCntFlag lineBuf then ⟨.common, after cmdLogCommonCntFlag lineBuf⟩
  else {}

/-! ### Files -/

/-- `LINE_BUFF_SIZE`. -/
def lineBuffSize : Nat := 1024 * 10

/-- `c == '\n' || c == '\r'`. -/
def isReturn (c : UInt8) : Bool := c = 0x0a || c = 0x0d

/-- The loop that cuts the returns off a line. -/
def chomp (buf : Str) : Str := (buf.reverse.dropWhile isReturn).reverse

/-- A line as it is in the buffer after `fgets( buf, LINE_BUFF_SIZE + 1, fp )` and the cut. -/
def bufferedLine (taken : Str) : Str := chomp (cstr taken)

/-- Where the loop of `ReadLastLineOfFile` leaves the file, if the byte at `i` is the next one
it reads; `rtCharFlag` is `true` while it skips the returns at the end. -/
def lastLineFrom (content : Str) : Bool → Nat → Nat
  | rtCharFlag, 0 => if isReturn (content.getD 0 0) && !rtCharFlag then 1 else 0
  | rtCharFlag, 1 => if isReturn (content.getD 1 0) && !rtCharFlag then 2 else 0
  | rtCharFlag, i + 2 =>
      if isReturn (content.getD (i + 2) 0) then
        if rtCharFlag then lastLineFrom content true (i + 1) else i + 3
      else lastLineFrom content false (i + 1)

/-- `ReadLastLineOfFile`. -/
def readLastLineOfFile (content : Str) : Str :=
  if content = [] then []
  else
    let pos := lastLineFrom content true (content.length - 1)
    bufferedLine (takeLine newline lineBuffSize (content.drop pos))

/-- `IsFileExist`. -/
def isFileExist (files : LogFiles) (filename : LogName) : Bool := (files filename).isSome

/-- `IsEmptyFile`. -/
def isEmptyFile (files : LogFiles) (filename : LogName) : Bool :=
  match files filename with
  | some file => file.content = []
  | none => false

/-- `IsEndLogFile`. -/
def isEndLogFile (files : LogFiles) (filename : LogName) : Int :=
  match files filename with
  | some file => if isLogEnd (readLastLineOfFile file.content) then 1 else 0
  | none => -1

/-- `GetNewerFile`, on the two files; `none` is `return false`. -/
def getNewerFile (files : LogFiles) : Option LogName :=
  match files .first, files .second with
  | some file1, some file2 => some (if file1.mtime > file2.mtime then .first else .second)
  | _, _ => none

/-! ### Lines of a log -/

theorem isReturn_newline : ∀ b ∈ [newline], isReturn b = true :=
  List.forall_mem_singleton.mpr rfl

/-- There is no return in `[END]`. -/
theorem isReturn_logFileEnd : ∀ b ∈ logFileEnd, isReturn b = false := by
  have hall : logFileEnd.all (fun b => !isReturn b) = true := by decide
  intro b hb
  simpa using List.all_eq_true.mp hall b hb

/-- A line without NUL that does not end with a return comes out of the buffer as it went in. -/
theorem bufferedLine_line {l : Str} (h₀ : ∀ b ∈ l, b ≠ 0)
    (hlast : ∀ b ∈ l.getLast?, isReturn b = false) :
    bufferedLine (line newline l) = l ∧ bufferedLine l = l := by
  have hzero : 0 ∉ l := fun h => h₀ 0 h rfl
  -- `chomp` is `List.rdropWhile`
  have hchomp : chomp (line newline l) = l := rdropWhile_append hlast isReturn_newline
  have hchomp' : chomp l = l := by
    have hnone := rdropWhile_append (l := []) hlast (by simp)
    rwa [List.append_nil] at hnone
  constructor
  · rw [bufferedLine, cstr_eq_self, hchomp]
    rw [line, List.mem_append, List.mem_singleton, not_or]
    exact ⟨hzero, by decide⟩
  · rw [bufferedLine, cstr_eq_self hzero, hchomp']

section

variable {content : Str} {i j : Nat}

/-- The loop goes back over a byte of the last line. -/
theorem lastLineFrom_back {rtCharFlag : Bool} (h : isReturn (content.getD (i + 2) 0) = false) :
    lastLineFrom content rtCharFlag (i + 2) = lastLineFrom content false (i + 1) := by
  rw [lastLineFrom, h]
  rfl

/-- The loop stops behind the line feed before the last line. -/
theorem lastLineFrom_stop (h : isReturn (content.getD (i + 1) 0) = true) :
    lastLineFrom content false (i + 1) = i + 2 := by
  cases i with
  | zero => simp only [lastLineFrom, h]; rfl
  | succ i => simp only [lastLineFrom, h]; rfl

/-- The loop skips the returns at the end. -/
theorem lastLineFrom_skip (hj : 1 ≤ j) (hji : j ≤ i)
    (h : ∀ k, j < k → k ≤ i → isReturn (content.getD k 0) = true) :
    lastLineFrom content true i = lastLineFrom content true j := by
  induction i, hji using Nat.le_induction with
  | base => rfl
  | succ i hji ih =>
      obtain ⟨i, rfl⟩ := Nat.exists_eq_add_of_le' (hj.trans hji)
      rw [lastLineFrom, if_pos (h _ (by omega) (Nat.le_refl _)), if_pos rfl]
      exact ih fun k hjk hki => h k hjk (by omega)

/-- The loop goes back over the last line. -/
theorem lastLineFrom_over (hj : 1 ≤ j) (hji : j ≤ i)
    (h : ∀ k, j < k → k ≤ i → isReturn (content.getD k 0) = false) :
    lastLineFrom content false i = lastLineFrom content false j := by
  induction i, hji using Nat.le_induction with
  | base => rfl
  | succ i hji ih =>
      obtain ⟨i, rfl⟩ := Nat.exists_eq_add_of_le' (hj.trans hji)
      rw [lastLineFrom_back (h _ (by omega) (Nat.le_refl _))]
      exact ih fun k hjk hki => h k hjk (by omega)

end

section

variable {pre text rets : Str} {k : Nat}

/-- The bytes of the last text, the bytes behind it, and the byte before it. -/
theorem isReturn_text (htext : ∀ b ∈ text, isReturn b = false) (hk : pre.length ≤ k)
    (hk' : k < pre.length + text.length) :
    isReturn ((pre ++ text ++ rets).getD k 0) = false := by
  rw [List.getD_append _ _ _ _ (by simp; omega), List.getD_append_right _ _ _ _ hk,
    List.getD_eq_getElem _ _ (by omega)]
  exact htext _ (List.getElem_mem _)

theorem isReturn_rets (hrets : ∀ b ∈ rets, isReturn b = true) (hk : pre.length + text.length ≤ k)
    (hk' : k < (pre ++ text ++ rets).length) :
    isReturn ((pre ++ text ++ rets).getD k 0) = true := by
  simp only [List.length_append] at hk'
  rw [List.getD_append_right _ _ _ _ (by simpa using hk), List.getD_eq_getElem _ _ (by simp; omega)]
  exact hrets _ (List.getElem_mem _)

theorem isReturn_pre (hpre : ∀ b ∈ pre.getLast?, isReturn b = true) (hk : pre.length = k + 1) :
    isReturn ((pre ++ text ++ rets).getD k 0) = true := by
  have hlast := hpre _ (List.getLast?_eq_some_getLast (List.ne_nil_of_length_pos (by omega)))
  rw [List.getLast_eq_getElem] at hlast
  rw [List.append_assoc, List.getD_append _ _ _ _ (by omega), List.getD_eq_getElem _ _ (by omega)]
  simpa only [hk, Nat.add_sub_cancel] using hlast

/-- **The loop stops** behind the return before the last text, or at the start of the file: a
return that is the first byte is not seen. -/
theorem lastLineFrom_text (hpre : ∀ b ∈ pre.getLast?, isReturn b = true)
    (hne : text ≠ []) (htext : ∀ b ∈ text, isReturn b = false)
    (hrets : ∀ b ∈ rets, isReturn b = true) :
    lastLineFrom (pre ++ text ++ rets) true ((pre ++ text ++ rets).length - 1) =
      if pre.length ≤ 1 then 0 else pre.length := by
  have hm : 0 < text.length := List.length_pos_iff.mpr hne
  have hlen : (pre ++ text ++ rets).length = pre.length + text.length + rets.length := by
    simp [Nat.add_assoc]
  by_cases hshort : pre.length + text.length = 1
  · -- the text is the first byte
    rw [if_pos (by omega)]
    cases hi : (pre ++ text ++ rets).length - 1 with
    | zero => simp [lastLineFrom]
    | succ i =>
        rw [lastLineFrom_skip (j := 1) (Nat.le_refl _) (by omega)
          fun k hk hk' => isReturn_rets hrets (by omega) (by omega)]
        simp [lastLineFrom]
  · obtain ⟨e, he⟩ : ∃ e, pre.length + text.length = e + 2 :=
      Nat.exists_eq_add_of_le' (by omega)
    rw [lastLineFrom_skip (j := e + 1) (by omega) (by omega)
      fun k hk hk' => isReturn_rets hrets (by omega) (by omega)]
    have hlast : isReturn ((pre ++ text ++ rets).getD (e + 1) 0) = false :=
      isReturn_text htext (by omega) (by omega)
    cases e with
    | zero =>
        rw [if_pos (by omega), lastLineFrom, hlast]
        rfl
    | succ e =>
        rw [lastLineFrom_back hlast]
        by_cases hfirst : pre.length ≤ 1
        · rw [if_pos hfirst, lastLineFrom_over (j := 1) (Nat.le_refl _) (by omega)
            fun k hk hk' => isReturn_text htext (by omega) (by omega), lastLineFrom,
            isReturn_text htext hfirst (by omega)]
          rfl
        · obtain ⟨i, hi⟩ : ∃ i, pre.length = i + 2 := Nat.exists_eq_add_of_le' (by omega)
          rw [if_neg hfirst, lastLineFrom_over (j := i + 1) (by omega) (by omega)
            fun k hk hk' => isReturn_text htext (by omega) (by omega),
            lastLineFrom_stop (isReturn_pre hpre hi), hi]

end

/-- **The end of a file.**  `IsEndLogFile` finds a file ended whose last line is `[END]`, unless
that line is after a single byte. -/
theorem readLastLine_ended {pre : Str} (h : pre = [] ∨ ∃ s, s ≠ [] ∧ pre = line newline s) :
    isLogEnd (readLastLineOfFile (pre ++ line newline logFileEnd)) = true := by
  have hpre : ∀ b ∈ pre.getLast?, isReturn b = true := by
    obtain rfl | ⟨s, -, rfl⟩ := h
    · simp
    · simp [line, isReturn, newline]
  have hpos : (if pre.length ≤ 1 then 0 else pre.length) = pre.length := by
    obtain rfl | ⟨s, hs, rfl⟩ := h
    · rfl
    · have hlen := List.length_pos_iff.mpr hs
      exact if_neg (by simp [line]; omega)
  have hstop : lastLineFrom (pre ++ line newline logFileEnd) true
      ((pre ++ line newline logFileEnd).length - 1) = pre.length := by
    have htext : lastLineFrom (pre ++ logFileEnd ++ [newline]) true
        ((pre ++ logFileEnd ++ [newline]).length - 1) = _ :=
      lastLineFrom_text hpre (by decide) isReturn_logFileEnd isReturn_newline
    rw [List.append_assoc, hpos] at htext
    exact htext
  have hne : pre ++ line newline logFileEnd ≠ [] := by simp [line]
  simp only [readLastLineOfFile, if_neg hne, hstop, List.drop_left]
  decide +kernel

end Realwork.Monitor
