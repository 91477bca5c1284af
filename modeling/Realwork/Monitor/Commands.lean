import Realwork.Base.Decimal
import Realwork.Monitor.EndLine

/-!
# Monitor — the command lines

The macros of `common_log.hxx` write a command into the log: the time, the tag of the command and
its text.  `LogAnalyzer` looks for the tags in an order of its own, anywhere in the line, and takes
what is behind the tag it finds for the text.

* `has_written`, `after_written`: the first `<` of a line is that of its tag.
* `command_readBack_iff`: a command is read back as it was written if and only if its text has no
  tag that is looked for before its own.
-/

namespace Realwork.Monitor

open Realwork.Common

/-! ### The writer -/

/-- The local time `TimeNow` prints, and the microseconds. -/
structure TimeOfDay where
  year : Nat
  mon : Nat
  mday : Nat
  hour : Nat
  min : Nat
  sec : Nat
  usec : Nat

/-- A number with at least `width` digits. -/
def zeroPadded (width n : Nat) : Str :=
  List.replicate (width - (decimal n).length) 0x30 ++ decimal n

/-- `RTWTrace::TimeNow`: the formats `%Y-%m-%d %H:%M:%S` and `.%06llu`. -/
def timeNow (t : TimeOfDay) : Str :=
  decimal t.year ++ lit "-" ++ zeroPadded 2 t.mon ++ lit "-" ++ zeroPadded 2 t.mday ++ lit " " ++
    zeroPadded 2 t.hour ++ lit ":" ++ zeroPadded 2 t.min ++ lit ":" ++ zeroPadded 2 t.sec ++
    lit "." ++ zeroPadded 6 t.usec

/-- `RTWCommand`, from the configuration. -/
structure RTWCommand where
  osi_entity : Str
  oc_name : Str
  hc_count_ao_id : Str
  work_count_ao_id : Str
  error_count_ao_id : Str

/-- The message of a macro: its tag, and the text of the command. -/
structure AoMessage where
  tag : Str
  text : Str

/-- `SEND_NOTIFY_AO`. -/
def sendNotifyAo (c : RTWCommand) (addText : Str) : AoMessage where
  tag := lit "<COMMAND>"
  text := lit "submit_event osi_system " ++ c.osi_entity ++ lit " event type=equipmentalarm, " ++
    lit "probable cause=unknown, perceived-securityalarm severity=critical,add text=\"" ++
    addText ++ lit "\""

/-- The text of the three macros that set a counter. -/
def setText (c : RTWCommand) (aoId addText : Str) : Str :=
  lit "set oper " ++ c.oc_name ++ lit " alarm " ++ aoId ++ lit " additional text=\"" ++ addText ++
    lit "\""

/-- `SET_HC_AO`. -/
def setHcAo (c : RTWCommand) (addText : Str) : AoMessage :=
  ⟨lit "<HC_COUNT>", setText c c.hc_count_ao_id addText⟩

/-- `SET_WORK_AO`. -/
def setWorkAo (c : RTWCommand) (addText : Str) : AoMessage :=
  ⟨lit "<WORK_COUNT>", setText c c.work_count_ao_id addText⟩

/-- `SET_ERROR_AO`. -/
def setErrorAo (c : RTWCommand) (addText : Str) : AoMessage :=
  ⟨lit "<ERROR_COUNT>", setText c c.error_count_ao_id addText⟩

/-- The line of `TRACE_COMMAND`. -/
def traceCommand (t : TimeOfDay) (m : AoMessage) : Str := timeNow t ++ (m.tag ++ m.text)

/-- The macros. -/
inductive AoMacro where
  | sendNotify
  | setHc
  | setWork
  | setError
  deriving DecidableEq

namespace AoMacro

def message : AoMacro → RTWCommand → Str → AoMessage
  | sendNotify => sendNotifyAo
  | setHc => setHcAo
  | setWork => setWorkAo
  | setError => setErrorAo

/-- The type the reader has for the macro. -/
def type : AoMacro → AoCmdType
  | sendNotify => .common
  | setHc => .hcCounter
  | setWork => .workCounter
  | setError => .otherCounter

/-- The tags `GetAoCmdFromLine` looks for before the tag of the macro. -/
def before : AoMacro → List Str
  | setHc => []
  | setWork => [cmdLogHcCntFlag]
  | setError => [cmdLogHcCntFlag, cmdLogWorkCntFlag]
  | sendNotify => [cmdLogHcCntFlag, cmdLogWorkCntFlag, cmdLogOtherCntFlag]

end AoMacro

/-! ### The first `<` of a line -/

theorem isdigit_zeroPadded (width n : Nat) : ∀ b ∈ zeroPadded width n, isdigit b = true := by
  intro b hb
  rcases List.mem_append.mp hb with hzero | hdigit
  · rw [List.eq_of_mem_replicate hzero]
    rfl
  · exact isdigit_of_mem_decimal hdigit

/-- There is no `<` in the time. -/
theorem not_mem_timeNow (t : TimeOfDay) : 0x3c ∉ timeNow t := by
  have hnumber : ∀ s : Str, (∀ b ∈ s, isdigit b = true) → 0x3c ∉ s := by
    intro s hs hmem
    exact absurd (hs _ hmem) (by decide)
  have hpadded : ∀ width n, 0x3c ∉ zeroPadded width n :=
    fun width n => hnumber _ (isdigit_zeroPadded width n)
  have hyear : 0x3c ∉ decimal t.year := hnumber _ fun _ => isdigit_of_mem_decimal
  have hmark : ∀ s ∈ ["-", " ", ":", "."], 0x3c ∉ lit s := by decide
  simp only [List.forall_mem_cons] at hmark
  simp [timeNow, hpadded, hyear, hmark]

section

variable {a : UInt8} {flag pre s : Str}

/-- A tag is not found before its first byte is. -/
theorem infix_append_of_fresh (hpre : a ∉ pre) :
    a :: flag <:+: pre ++ s ↔ a :: flag <:+: s := by
  induction pre with
  | nil => exact Iff.rfl
  | cons b pre ih =>
      obtain ⟨hb, hpre⟩ := not_or.mp (mt List.mem_cons.mpr hpre)
      rw [List.cons_append, List.infix_cons_iff, List.cons_prefix_cons, ih hpre]
      exact or_iff_right fun h => hb h.1

theorem find_append_of_fresh (hpre : a ∉ pre) :
    find (a :: flag) (pre ++ s) = (find (a :: flag) s).map (· + pre.length) := by
  induction pre with
  | nil => simp
  | cons b pre ih =>
      obtain ⟨hb, hpre⟩ := not_or.mp (mt List.mem_cons.mpr hpre)
      have hno : (a :: flag).isPrefixOf (b :: (pre ++ s)) = false := by
        simp [List.isPrefixOf, hb]
      rw [List.cons_append, find, if_neg (by simp [hno]), ih hpre, Option.map_map]
      congr 1

theorem find_append_self : find (a :: flag) (a :: flag ++ s) = some 0 := by
  have hyes : (a :: flag).isPrefixOf (a :: (flag ++ s)) = true := by
    rw [List.isPrefixOf_iff_prefix]
    exact List.prefix_append (a :: flag) s
  rw [List.cons_append, find, if_pos hyes]

end

/-! ### The reader -/

/-- The tags `LogAnalyzer` looks for. -/
def cmdLogFlags : List Str :=
  [cmdLogHcCntFlag, cmdLogWorkCntFlag, cmdLogOtherCntFlag, cmdLogCommonCntFlag]

/-- A tag begins with a `<` and has no other. -/
theorem cmdLogFlags_cons : ∀ flag ∈ cmdLogFlags, flag = 0x3c :: flag.tail ∧ 0x3c ∉ flag.tail := by
  decide +kernel

/-- No tag is the beginning of another one. -/
theorem cmdLogFlags_prefix : ∀ flag ∈ cmdLogFlags, ∀ tag ∈ cmdLogFlags,
    flag <+: tag ∨ tag <+: flag → flag = tag := by
  decide +kernel

namespace AoMacro

/-- The tag of a macro does not depend on its arguments. -/
theorem tag_message (ao : AoMacro) (c : RTWCommand) (addText : Str) :
    (ao.message c addText).tag = (ao.message ⟨[], [], [], [], []⟩ []).tag := by
  cases ao <;> rfl

/-- The reader knows the tag of a macro, and the tags before it are others. -/
theorem tag_spec (ao : AoMacro) (c : RTWCommand) (addText : Str) :
    (ao.message c addText).tag ∈ cmdLogFlags ∧
      ∀ flag ∈ ao.before, flag ∈ cmdLogFlags ∧ flag ≠ (ao.message c addText).tag := by
  rw [tag_message]
  cases ao <;> decide +kernel

end AoMacro

section

variable {t : TimeOfDay} {m : AoMessage} {flag : Str}

/-- **Where a tag is found** in a line: it is the one the line was written with, or it is in the
text. -/
theorem has_written (hm : m.tag ∈ cmdLogFlags) (hflag : flag ∈ cmdLogFlags) :
    has flag (traceCommand t m) = true ↔ flag = m.tag ∨ flag <:+: m.text := by
  obtain ⟨htag, hnew⟩ := cmdLogFlags_cons _ hm
  have hline : has flag (traceCommand t m) = true ↔ flag <:+: m.tag ++ m.text := by
    rw [has_iff, traceCommand, (cmdLogFlags_cons _ hflag).1,
      infix_append_of_fresh (not_mem_timeNow t)]
  have htext : flag <:+: m.tag.tail ++ m.text ↔ flag <:+: m.text := by
    rw [(cmdLogFlags_cons _ hflag).1, infix_append_of_fresh hnew]
  rw [hline, htag, List.cons_append, List.infix_cons_iff, htext, ← List.cons_append, ← htag]
  refine or_congr_left ⟨fun hpre => ?_, fun h => h ▸ List.prefix_append _ _⟩
  exact cmdLogFlags_prefix _ hflag _ hm
    (List.prefix_or_prefix_of_prefix hpre (List.prefix_append _ _))

/-- What is behind the tag the line was written with. -/
theorem after_written (hm : m.tag ∈ cmdLogFlags) : after m.tag (traceCommand t m) = m.text := by
  have hfind : find m.tag (traceCommand t m) = some (timeNow t).length := by
    rw [traceCommand, (cmdLogFlags_cons _ hm).1, find_append_of_fresh (not_mem_timeNow t),
      find_append_self]
    simp
  rw [after, hfind]
  simp [traceCommand, ← List.drop_drop]

end

/-- The tags in the order the reader looks for them, and their types. -/
def aoReaders : List (Str × AoCmdType) :=
  [(cmdLogHcCntFlag, .hcCounter), (cmdLogWorkCntFlag, .workCounter),
    (cmdLogOtherCntFlag, .otherCounter), (cmdLogCommonCntFlag, .common)]

theorem isValidCmdLineBuf_eq (lineBuf : Str) :
    isValidCmdLineBuf lineBuf = aoReaders.any fun r => has r.1 lineBuf := by
  simp [isValidCmdLineBuf, aoReaders, Bool.or_assoc]

theorem getAoCmdFromLine_eq (lineBuf : Str) :
    getAoCmdFromLine lineBuf = match aoReaders.find? fun r => has r.1 lineBuf with
      | some r => ⟨r.2, after r.1 lineBuf⟩
      | none => {} := by
  simp only [getAoCmdFromLine, aoReaders, List.find?]
  split_ifs <;> simp_all

/-- The place of a macro among them. -/
theorem AoMacro.aoReaders_split (ao : AoMacro) (c : RTWCommand) (addText : Str) :
    ∃ pre post, aoReaders = pre ++ ((ao.message c addText).tag, ao.type) :: post ∧
      pre.map Prod.fst = ao.before ∧ ∀ r ∈ pre, r.2 ≠ ao.type := by
  cases ao with
  | sendNotify => exact ⟨aoReaders.take 3, [], rfl, rfl, by decide⟩
  | setHc => exact ⟨[], aoReaders.drop 1, rfl, rfl, by decide⟩
  | setWork => exact ⟨aoReaders.take 1, aoReaders.drop 2, rfl, rfl, by decide⟩
  | setError => exact ⟨aoReaders.take 2, aoReaders.drop 3, rfl, rfl, by decide⟩

/-- A tag that is looked for before the one of the macro is found in the text or not at all. -/
theorem AoMacro.has_before {ao : AoMacro} {c : RTWCommand} {addText flag : Str} (t : TimeOfDay)
    (h : flag ∈ ao.before) :
    has flag (traceCommand t (ao.message c addText)) = true ↔
      flag <:+: (ao.message c addText).text := by
  obtain ⟨htag, hbefore⟩ := ao.tag_spec c addText
  obtain ⟨hknown, hother⟩ := hbefore flag h
  exact (has_written htag hknown).trans (or_iff_right hother)

/-- **A command is read back** as it was written, if and only if its text has no tag that the
reader looks for before the tag of the macro. -/
theorem command_readBack_iff (t : TimeOfDay) (c : RTWCommand) (ao : AoMacro) (addText : Str) :
    (isValidCmdLineBuf (traceCommand t (ao.message c addText)) = true ∧
      getAoCmdFromLine (traceCommand t (ao.message c addText)) =
        ⟨ao.type, (ao.message c addText).text⟩) ↔
      ∀ flag ∈ ao.before, ¬ flag <:+: (ao.message c addText).text := by
  have htag := (ao.tag_spec c addText).1
  obtain ⟨pre, post, hsplit, hbefore, htype⟩ := ao.aoReaders_split c addText
  set m := ao.message c addText with hm
  have hown : has m.tag (traceCommand t m) = true := (has_written htag htag).mpr (.inl rfl)
  have hvalid : isValidCmdLineBuf (traceCommand t m) = true := by
    rw [isValidCmdLineBuf_eq, hsplit, List.any_eq_true]
    exact ⟨(m.tag, ao.type), by simp, hown⟩
  have hnone : (∀ flag ∈ ao.before, ¬ flag <:+: m.text) ↔
      pre.find? (fun r => has r.1 (traceCommand t m)) = none := by
    rw [List.find?_eq_none, ← hbefore, List.forall_mem_map]
    refine forall₂_congr fun r hr => not_congr ?_
    exact (AoMacro.has_before t (hbefore ▸ List.mem_map_of_mem hr)).symm
  rw [hnone, getAoCmdFromLine_eq, hsplit, List.find?_append]
  refine ⟨fun h => ?_, fun h => ⟨hvalid, ?_⟩⟩
  · by_contra hsome
    obtain ⟨r, hr⟩ := Option.ne_none_iff_exists'.mp hsome
    rw [hr] at h
    exact htype r (List.mem_of_find?_eq_some hr) (congrArg AoCommand.type h.2)
  · have hfirst : ((m.tag, ao.type) :: post).find? (fun r => has r.1 (traceCommand t m)) =
        some (m.tag, ao.type) := by
      rw [List.find?_cons, hown]
    rw [h, Option.none_or, hfirst]
    exact congrArg (AoCommand.mk ao.type) (after_written htag)

/-- The notification of an SQL error about a construction number that the peer sends as
`&lt;HC_COUNT&gt;`. -/
def numberNotified : AoMessage :=
  sendNotifyAo ⟨lit "oc", lit "oc", lit "1", lit "2", lit "3"⟩ (lit "No:<HC_COUNT>")

/-- It is read as a command for the HC counter, and its beginning is lost. -/
theorem command_readBack_lost :
    newline ∉ lit "No:<HC_COUNT>" ∧
      ¬ (isValidCmdLineBuf (traceCommand ⟨2009, 1, 4, 0, 0, 0, 0⟩ numberNotified) = true ∧
        getAoCmdFromLine (traceCommand ⟨2009, 1, 4, 0, 0, 0, 0⟩ numberNotified) =
          ⟨AoMacro.sendNotify.type, numberNotified.text⟩) ∧
      getAoCmdFromLine (traceCommand ⟨2009, 1, 4, 0, 0, 0, 0⟩ numberNotified) =
        ⟨.hcCounter, lit "\""⟩ := by
  decide +kernel

end Realwork.Monitor
