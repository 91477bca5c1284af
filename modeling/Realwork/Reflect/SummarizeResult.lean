import Realwork.Lib.Greedy
import Realwork.Reflect.Update

/-!
# Reflect — the result of a summarize

`HandleSummarizeResult` of `update_control_time.pl` reads the report of the alarm objects of some
operation contexts: the name of a context, and for each of its alarm objects the attributes, a long
one on several lines.  It writes the commands that set their control time.

* `readAttribute`: a value on several lines is put together again.
* `readAlarm`: what the script collects of an alarm object depends on the lines of that object and
  the name of its context only.
* `handleSummarizeResult_written`: the commands for a whole report.
-/

namespace Realwork.Reflect

open Realwork.Lib

/-! ### The patterns of the script -/

/-- `/\:\.(\S+) alarm_object \d+/`; what is not a blank ends at the blank only. -/
def ocNameOf (l : Str) : Option Str :=
  leftmost (fun s => do
    let rest ← s.dropPrefix? (lit ":.")
    let name := rest.takeWhile fun b => !isspace b
    let rest ← (rest.dropWhile fun b => !isspace b).dropPrefix? (lit " alarm_object ")
    if name ≠ [] ∧ rest.head?.any isdigit then some name else none) l

/-- `/Identifier = (\d+)/`. -/
def identifierOf (l : Str) : Option Str :=
  leftmost (fun s => do
    let rest ← s.dropPrefix? (lit "Identifier = ")
    let digits := rest.takeWhile isdigit
    if digits ≠ [] then some digits else none) l

/-- `/Perceived Severity = .+/`. -/
def isSeverity (l : Str) : Bool :=
  (leftmost (fun s => do
    let rest ← s.dropPrefix? (lit "Perceived Severity = ")
    if rest ≠ [] then some rest else none) l).isSome

/-- ` = (.+)` -/
def valueAfter (s : Str) : Option Str := do
  let value ← s.dropPrefix? (lit " = ")
  if value ≠ [] then some value else none

/-- `(.+) = (.+)`. -/
def named : Str → Option (Str × Str)
  | [] => none
  | b :: s => (cutLast valueAfter s).map fun found => (b :: found.1, found.2)

/-- `/\s+(.+) = (.+)/`: as many of the blanks are taken as leave a name. -/
def attributeOf (l : Str) : Option (Str × Str) :=
  leftmost (fun s =>
    (List.range (s.takeWhile isspace).length).reverse.findSome? fun n => named (s.drop (n + 1))) l

/-- `/.+ (MMS .+) $/`: the last `MMS` counts. -/
def mmsOf : Str → Option Str
  | [] => none
  | _ :: s =>
      (cutLast (fun s => do
        let rest ← s.dropPrefix? (lit " MMS ")
        if rest.getLast? = some 0x20 ∧ rest.dropLast ≠ [] then
          some (lit "MMS " ++ rest.dropLast)
        else none) s).map Prod.snd

/-- `s/^"//; s/"$//`. -/
def unquote (value : Str) : Str :=
  let value := (value.dropPrefix? [0x22]).getD value
  if value.getLast? = some 0x22 then value.dropLast else value

/-- `index`. -/
def index (s pattern : Str) : Nat := s.tails.findIdx fun t => pattern.isPrefixOf t

/-! ### The script -/

/-- `$ao`; what is not there is read as an empty text. -/
abbrev Ao := Str → Str

/-- `$ao = {..}`. -/
def newAo (identifier : Str) : Ao := Function.update (fun _ => []) (lit "Identifier") identifier

/-- What `NeedToBeUpdated` reads. -/
def Ao.object (ao : Ao) : AlarmObject where
  neType := ao (lit "neType")
  nodeId := ao (lit "nodeId")
  openCloseFlag := ao (lit "openCloseFlag")
  aoType := ao (lit "aoType")
  workFlag := ao (lit "workFlag")
  pfFlag := ao (lit "pfFlag")
  controlTime := ao (lit "controlTime")
  patternId := ao (lit "patternId")
  managedObject := ao (lit "Managed Object")

/-- The variables of `HandleSummarizeResult`. -/
structure Report where
  ocName : Str := []
  /-- Whether `/Identifier = \d+/ ... /Perceived Severity = .+/` is between the two. -/
  between : Bool := false
  ao : Ao := fun _ => []
  name : Str := []
  ipos : Nat := 0
  atLeastOne : Bool := false
  /-- `SET_CONTROL_TIME_FCL` -/
  fcl : List Str := []

/-- `set $ao->{Identifier} controlTime="$ao->{controlTime}"`. -/
def setCommand (identifier controlTime : Str) : Str :=
  lit "set " ++ identifier ++ lit " controlTime=\"" ++ controlTime ++ lit "\"\n"

section

variable (perl : Str → Str → Option Bool) (hash : WorkHash)

/-- The end of an alarm object. -/
def endAo (st : Report) : Option Report :=
  match mmsOf (st.ao (lit "Managed Object")) with
  | none => some st
  | some mo => do
      let ao := Function.update st.ao (lit "Managed Object") mo
      let (object, ret) ← needToBeUpdated perl hash (Ao.object ao)
      let ao := Function.update ao (lit "controlTime") object.controlTime
      return if ret then
        { st with
          ao
          fcl := st.fcl ++ [setCommand (ao (lit "Identifier")) (ao (lit "controlTime"))]
          atLeastOne := true }
      else { st with ao }

/-- A line between the identifier and the severity. -/
def readAo (st : Report) (l : Str) : Option Report :=
  match identifierOf l with
  | some n => some { st with ao := newAo (lit "oper " ++ st.ocName ++ lit " alarm " ++ n) }
  | none =>
      if isSeverity l then endAo perl hash st
      else
        match attributeOf l with
        | some (name, value) => some { st with
            name
            ao := Function.update st.ao name (unquote value)
            ipos := name.length + 3 + index l (name ++ lit " = ") }
        | none => some { st with
            ao := Function.update st.ao st.name (st.ao st.name ++ l.drop st.ipos) }

/-- The body of the loop of `HandleSummarizeResult`. -/
def readReportLine (st : Report) (l : Str) : Option Report :=
  match ocNameOf l with
  | some ocName => some { st with ocName }
  | none =>
      -- with three dots the line that opens the range does not close it
      if st.between then readAo perl hash { st with between := !isSeverity l } l
      else if (identifierOf l).isSome then readAo perl hash { st with between := true } l
      else some st

/-- `HandleSummarizeResult`; `none` is that the script dies. -/
def handleSummarizeResult (content : Str) : Option Report :=
  (fileLines content).foldlM (readReportLine perl hash) {}

end

/-! ### The report -/

/-- An attribute: the first line of its value, and what the lines after it add. -/
structure Attribute where
  indent : Str
  name : Str
  value : Str
  more : List Str := []

namespace Attribute

/-- Where the value starts. -/
def width (a : Attribute) : Nat := a.name.length + 3 + a.indent.length

def first (a : Attribute) : Str := a.indent ++ (a.name ++ lit " = " ++ a.value)

/-- The lines after the first one start below the value. -/
def lines (a : Attribute) : List Str :=
  a.first :: a.more.map fun text => List.replicate a.width 0x20 ++ text

/-- The value that is read: only the first line is without its quotes. -/
def text (a : Attribute) : Str := unquote a.value ++ a.more.flatten

end Attribute

/-- A line that neither begins nor ends an alarm object. -/
structure Inner (l : Str) : Prop where
  context : ocNameOf l = none
  identifier : identifierOf l = none
  severity : isSeverity l = false

structure Attribute.Wf (a : Attribute) : Prop where
  indent : a.indent ≠ [] ∧ ∀ b ∈ a.indent, isspace b = true
  name : a.name ≠ [] ∧ ∀ b ∈ a.name.head?, isspace b = false
  /-- The last ` = ` is the one before the value. -/
  value : a.value ≠ [] ∧ ¬ lit " = " <:+: lit "= " ++ a.value
  inner : ∀ l ∈ a.lines, Inner l
  more : ∀ text ∈ a.more, attributeOf (List.replicate a.width 0x20 ++ text) = none

/-- An alarm object: the line of its identifier, its attributes, and the line of its severity. -/
structure Alarm where
  first : Str
  number : Str
  attributes : List Attribute
  last : Str

def Alarm.lines (a : Alarm) : List Str :=
  a.first :: (a.attributes.flatMap Attribute.lines ++ [a.last])

structure Alarm.Wf (a : Alarm) : Prop where
  first : ocNameOf a.first = none ∧ identifierOf a.first = some a.number
  attributes : ∀ x ∈ a.attributes, x.Wf
  last : ocNameOf a.last = none ∧ identifierOf a.last = none ∧ isSeverity a.last = true

/-- The parts of a report. -/
inductive Item where
  | context (l name : Str)
  | alarm (a : Alarm)
  | other (l : Str)

namespace Item

def lines : Item → List Str
  | context l _ => [l]
  | alarm a => a.lines
  | other l => [l]

def Wf : Item → Prop
  | context l name => ocNameOf l = some name
  | alarm a => a.Wf
  | other l => ocNameOf l = none ∧ identifierOf l = none

end Item

/-- What is collected of an alarm object of the context `ocName`. -/
def Alarm.ao (ocName : Str) (a : Alarm) : Ao :=
  a.attributes.foldl (fun ao x => Function.update ao x.name x.text)
    (newAo (lit "oper " ++ ocName ++ lit " alarm " ++ a.number))

section

variable (perl : Str → Str → Option Bool) (hash : WorkHash)

/-- The command for an alarm object, if it is to be updated. -/
def Ao.command (ao : Ao) : Option (Option Str) :=
  match mmsOf (ao (lit "Managed Object")) with
  | none => some none
  | some mo => do
      let (object, ret) ← needToBeUpdated perl hash { ao.object with managedObject := mo }
      return if ret then some (setCommand (ao (lit "Identifier")) object.controlTime) else none

/-- The commands for a report that begins in the context `ocName`. -/
def commands : Str → List Item → Option (List Str)
  | _, [] => some []
  | _, .context _ ocName :: items => commands ocName items
  | ocName, .other _ :: items => commands ocName items
  | ocName, .alarm a :: items => do
      let command ← (a.ao ocName).command perl hash
      let rest ← commands ocName items
      return command.toList ++ rest

end

/-! ### Attributes -/

section

variable {perl : Str → Str → Option Bool} {hash : WorkHash} {st : Report} {a : Attribute}

theorem valueAfter_eq_some (b : UInt8) (s : Str) :
    valueAfter (lit " = " ++ b :: s) = some (b :: s) := by
  rw [valueAfter, List.dropPrefix?_append_of_beq _ (beq_self_eq_true _)]
  rfl

theorem valueAfter_eq_none {s : Str} (h : ¬ lit " = " <:+: s) {t : Str} (ht : t <:+ s) :
    valueAfter t = none := by
  have hnone : t.dropPrefix? (lit " = ") = none := by
    rw [Option.eq_none_iff_forall_ne_some]
    intro value hvalue
    obtain ⟨p, rfl, hp⟩ := List.dropPrefix?_eq_some_iff.mp hvalue
    rw [eq_of_beq hp] at ht
    exact h ((List.prefix_append _ _).isInfix.trans ht.isInfix)
  rw [valueAfter, hnone]
  rfl

theorem named_eq (h : a.Wf) : named (a.name ++ lit " = " ++ a.value) = some (a.name, a.value) := by
  obtain ⟨hvalue, hlast⟩ := h.value
  cases hname : a.name with
  | nil => exact absurd hname h.name.1
  | cons b name =>
      cases hv : a.value with
      | nil => exact absurd hv hvalue
      | cons c value =>
          rw [hv] at hlast
          have hcut : cutLast valueAfter (name ++ lit " = " ++ c :: value) =
              some (name, c :: value) := by
            rw [List.append_assoc]
            refine cutLast_append (valueAfter_eq_some c value) ?_ name
            exact cutLast_eq_none_iff.mpr fun t ht => valueAfter_eq_none hlast ht
          rw [List.cons_append, List.cons_append, named, hcut]
          rfl

theorem takeWhile_first (h : a.Wf) : a.first.takeWhile isspace = a.indent := by
  obtain ⟨hname, hhead⟩ := h.name
  rw [Attribute.first, List.takeWhile_append_of_pos h.indent.2]
  cases hn : a.name with
  | nil => exact absurd hn hname
  | cons b name =>
      have hb : isspace b = false := hhead b (by rw [hn]; rfl)
      simp [hb]

/-- The first line of an attribute. -/
theorem attributeOf_first (h : a.Wf) : attributeOf a.first = some (a.name, a.value) := by
  refine leftmost_of_eq_some ?_
  rw [takeWhile_first h]
  obtain ⟨n, hn⟩ := Nat.exists_eq_succ_of_ne_zero (mt List.eq_nil_of_length_eq_zero h.indent.1)
  have hdrop : a.first.drop (n + 1) = a.name ++ lit " = " ++ a.value := by
    rw [← Nat.succ_eq_add_one, ← hn, Attribute.first, List.drop_left]
  rw [hn, List.range_succ, List.reverse_append, List.reverse_singleton, List.singleton_append,
    List.findSome?_cons, hdrop, named_eq h]

/-- What does not start in the blanks before it is found behind them. -/
theorem index_append {x pattern : Str} (hx : ∀ b ∈ x, isspace b = true) (hne : pattern ≠ [])
    (hhead : ∀ b ∈ pattern.head?, isspace b = false) (y : Str) :
    index (x ++ (pattern ++ y)) pattern = x.length := by
  induction x with
  | nil =>
      cases pattern with
      | nil => exact absurd rfl hne
      | cons b pattern =>
          have hyes : (b :: pattern).isPrefixOf (b :: (pattern ++ y)) = true :=
            List.isPrefixOf_iff_prefix.mpr (List.prefix_append (b :: pattern) y)
          rw [List.nil_append, List.cons_append, index, List.tails_cons, List.findIdx_cons, hyes]
          rfl
  | cons c x ih =>
      rw [List.forall_mem_cons] at hx
      have hnot : pattern.isPrefixOf (c :: x ++ (pattern ++ y)) = false := by
        cases pattern with
        | nil => exact absurd rfl hne
        | cons b pattern =>
            have hb : isspace b = false := hhead b rfl
            have hbc : b ≠ c := by
              rintro rfl
              rw [hx.1] at hb
              cases hb
            simp [List.isPrefixOf, hbc]
      have hstep : index (c :: x ++ (pattern ++ y)) pattern =
          index (x ++ (pattern ++ y)) pattern + 1 := by
        rw [index, List.cons_append, List.tails_cons, List.findIdx_cons, ← List.cons_append, hnot]
        rfl
      rw [hstep, ih hx.2, List.length_cons]

theorem index_first (h : a.Wf) : index a.first (a.name ++ lit " = ") = a.indent.length := by
  refine index_append h.indent.2 (List.append_ne_nil_of_left_ne_nil h.name.1 _) (fun b hb => ?_) _
  rw [List.head?_append_of_ne_nil _ h.name.1] at hb
  exact h.name.2 b hb

/-- What the script does with a line of an attribute. -/
theorem readReportLine_inner (hbetween : st.between = true) {l : Str} (h : Inner l) :
    readReportLine perl hash st l = some (match attributeOf l with
      | some (name, value) => { st with
          name
          ao := Function.update st.ao name (unquote value)
          ipos := name.length + 3 + index l (name ++ lit " = ") }
      | none => { st with
          ao := Function.update st.ao st.name (st.ao st.name ++ l.drop st.ipos) }) := by
  have hst : { st with between := !isSeverity l } = st := by
    rw [h.severity, Bool.not_false, ← hbetween]
  rw [readReportLine, h.context]
  dsimp only
  rw [if_pos hbetween, hst, readAo, h.identifier, h.severity]
  cases attributeOf l <;> rfl

/-- The lines after the first one are put behind it. -/
theorem readMore {width : Nat} (hbetween : st.between = true) (hwidth : st.ipos = width)
    {more : List Str} (hmore : ∀ text ∈ more, Inner (List.replicate width 0x20 ++ text) ∧
      attributeOf (List.replicate width 0x20 ++ text) = none) :
    (more.map fun text => List.replicate width 0x20 ++ text).foldlM
        (readReportLine perl hash) st =
      some { st with ao := Function.update st.ao st.name (st.ao st.name ++ more.flatten) } := by
  induction more generalizing st with
  | nil =>
      rw [List.flatten_nil, List.append_nil, Function.update_eq_self]
      rfl
  | cons text more ih =>
      rw [List.forall_mem_cons] at hmore
      obtain ⟨⟨hinner, hnone⟩, hmore⟩ := hmore
      have hdrop : (List.replicate width 0x20 ++ text).drop st.ipos = text := by
        rw [hwidth]
        exact List.drop_left' (List.length_replicate)
      have hline : readReportLine perl hash st (List.replicate width 0x20 ++ text) =
          some { st with ao := Function.update st.ao st.name (st.ao st.name ++ text) } := by
        rw [readReportLine_inner hbetween hinner, hnone]
        simp only [hdrop]
      rw [List.map_cons, List.foldlM_cons, hline, Option.bind_eq_bind, Option.bind_some,
        @ih { st with ao := Function.update st.ao st.name (st.ao st.name ++ text) } hbetween hwidth
          hmore]
      simp only [Function.update_self, Function.update_idem, List.flatten_cons, List.append_assoc]

/-- **The lines of an attribute.** -/
theorem readAttribute (hbetween : st.between = true) (h : a.Wf) :
    a.lines.foldlM (readReportLine perl hash) st =
      some { st with
        ao := Function.update st.ao a.name a.text
        name := a.name
        ipos := a.width } := by
  obtain ⟨hfirst, hinner⟩ := List.forall_mem_cons.mp h.inner
  have hline : readReportLine perl hash st a.first = some { st with
      ao := Function.update st.ao a.name (unquote a.value)
      name := a.name
      ipos := a.width } := by
    rw [readReportLine_inner hbetween hfirst, attributeOf_first h]
    simp only [index_first h, Attribute.width]
  rw [Attribute.lines, List.foldlM_cons, hline, Option.bind_eq_bind, Option.bind_some, readMore]
  · simp only [Function.update_self, Function.update_idem, Attribute.text]
  · exact hbetween
  · rfl
  · exact fun text htext => ⟨hinner _ (List.mem_map_of_mem htext), h.more text htext⟩

/-- The lines of some attributes. -/
theorem readAttributes (hbetween : st.between = true) {attributes : List Attribute}
    (h : ∀ a ∈ attributes, a.Wf) :
    ∃ name ipos, (attributes.flatMap Attribute.lines).foldlM (readReportLine perl hash) st =
      some { st with
        ao := attributes.foldl (fun ao x => Function.update ao x.name x.text) st.ao
        name
        ipos } := by
  induction attributes generalizing st with
  | nil => exact ⟨st.name, st.ipos, rfl⟩
  | cons a attributes ih =>
      rw [List.forall_mem_cons] at h
      obtain ⟨name, ipos, hrest⟩ := @ih { st with
        ao := Function.update st.ao a.name a.text
        name := a.name
        ipos := a.width } hbetween h.2
      refine ⟨name, ipos, ?_⟩
      rw [List.flatMap_cons, List.foldlM_append, readAttribute hbetween h.1, Option.bind_eq_bind,
        Option.bind_some, hrest]
      rfl

/-! ### The whole report -/

/-- What is not about the alarm object that is read. -/
def Report.outer (st : Report) : Str × Bool × List Str × Bool :=
  (st.ocName, st.between, st.fcl, st.atLeastOne)

/-- The end of an alarm object writes its command. -/
theorem endAo_outer (st : Report) :
    (endAo perl hash st).map Report.outer = (st.ao.command perl hash).map fun command =>
      (st.ocName, st.between, st.fcl ++ command.toList, st.atLeastOne || command.isSome) := by
  rw [endAo, Ao.command]
  cases mmsOf (st.ao (lit "Managed Object")) with
  | none => simp [Report.outer]
  | some mo =>
      have hobject : Ao.object (Function.update st.ao (lit "Managed Object") mo) =
          { st.ao.object with managedObject := mo } := by
        rfl
      dsimp only
      rw [hobject]
      cases needToBeUpdated perl hash { st.ao.object with managedObject := mo } with
      | none => rfl
      | some res =>
          obtain ⟨object, ret⟩ := res
          cases ret with
          | false => simp [Report.outer]
          | true =>
              have hidentifier : Function.update (Function.update st.ao (lit "Managed Object") mo)
                  (lit "controlTime") object.controlTime (lit "Identifier") =
                st.ao (lit "Identifier") := rfl
              simp [Report.outer, hidentifier]

/-- **The lines of an alarm object.**  Whatever was read before, they end in its command. -/
theorem readAlarm {a : Alarm} (hbetween : st.between = false) (h : a.Wf) :
    (a.lines.foldlM (readReportLine perl hash) st).map Report.outer =
      ((a.ao st.ocName).command perl hash).map fun command =>
        (st.ocName, false, st.fcl ++ command.toList, st.atLeastOne || command.isSome) := by
  have hfirst : readReportLine perl hash st a.first = some { st with
      between := true
      ao := newAo (lit "oper " ++ st.ocName ++ lit " alarm " ++ a.number) } := by
    rw [readReportLine, h.first.1]
    dsimp only
    rw [hbetween, if_neg Bool.false_ne_true, h.first.2, if_pos Option.isSome_some, readAo,
      h.first.2]
  have hlast (st : Report) (hst : st.between = true) :
      readReportLine perl hash st a.last = endAo perl hash { st with between := false } := by
    rw [readReportLine, h.last.1]
    dsimp only
    rw [if_pos hst, readAo, h.last.2.1, h.last.2.2]
    rfl
  obtain ⟨name, ipos, hattributes⟩ := @readAttributes perl hash { st with
    between := true
    ao := newAo (lit "oper " ++ st.ocName ++ lit " alarm " ++ a.number) } rfl a.attributes
      h.attributes
  rw [Alarm.lines, List.foldlM_cons, hfirst, Option.bind_eq_bind, Option.bind_some,
    List.foldlM_append, hattributes, Option.bind_eq_bind, Option.bind_some, List.foldlM_cons,
    hlast _ rfl]
  simp only [List.foldlM_nil, bind_pure, endAo_outer]
  rfl

/-- **A report from any context.** -/
theorem readItems {items : List Item} (hbetween : st.between = false) (h : ∀ i ∈ items, i.Wf) :
    ((items.flatMap Item.lines).foldlM (readReportLine perl hash) st).map
        (fun st' => (st'.fcl, st'.atLeastOne)) =
      (commands perl hash st.ocName items).map fun written =>
        (st.fcl ++ written, st.atLeastOne || !written.isEmpty) := by
  induction items generalizing st with
  | nil => simp [commands]
  | cons i items ih =>
      rw [List.forall_mem_cons] at h
      rw [List.flatMap_cons, List.foldlM_append]
      cases i with
      | context l ocName =>
          have hl : ocNameOf l = some ocName := h.1
          have hline : readReportLine perl hash st l = some { st with ocName } := by
            rw [readReportLine, hl]
          rw [Item.lines, List.foldlM_cons, hline, commands]
          exact @ih { st with ocName } hbetween h.2
      | other l =>
          obtain ⟨hcontext, hidentifier⟩ : ocNameOf l = none ∧ identifierOf l = none := h.1
          have hline : readReportLine perl hash st l = some st := by
            rw [readReportLine, hcontext]
            dsimp only
            rw [hbetween, if_neg Bool.false_ne_true, hidentifier]
            rfl
          rw [Item.lines, List.foldlM_cons, hline, commands]
          exact ih hbetween h.2
      | alarm a =>
          have halarm := @readAlarm perl hash st a hbetween h.1
          rw [Item.lines, commands]
          cases hcommand : (a.ao st.ocName).command perl hash with
          | none =>
              rw [hcommand, Option.map_none, Option.map_eq_none_iff] at halarm
              rw [halarm]
              rfl
          | some command =>
              rw [hcommand, Option.map_some, Option.map_eq_some_iff] at halarm
              obtain ⟨st', hst', houter⟩ := halarm
              rw [Report.outer, Prod.mk.injEq, Prod.mk.injEq, Prod.mk.injEq] at houter
              obtain ⟨hoc, hbetween', hfcl, hleast⟩ := houter
              rw [hst', Option.bind_eq_bind, Option.bind_some, ih hbetween' h.2, hoc, hfcl, hleast]
              cases commands perl hash st.ocName items with
              | none => rfl
              | some written => cases command <;> simp

end

/-- **The script reads what is written.**  A report is written from its items; for each alarm object
in it the script collects the attributes of that object and no others, and the commands are those
for the objects that are to be updated. -/
theorem handleSummarizeResult_written (perl : Str → Str → Option Bool) (hash : WorkHash)
    {items : List Item} (h : ∀ i ∈ items, i.Wf)
    (hlines : ∀ i ∈ items, ∀ l ∈ i.lines, 0x0a ∉ l) :
    (handleSummarizeResult perl hash (unlines 0x0a (items.flatMap Item.lines))).map
        (fun st => (st.fcl, st.atLeastOne)) =
      (commands perl hash [] items).map fun written => (written, !written.isEmpty) := by
  have hread : fileLines (unlines 0x0a (items.flatMap Item.lines)) = items.flatMap Item.lines := by
    have hsplit := @splitOn_unlines UInt8 0x0a _ (items.flatMap Item.lines) fun l hl => by
      obtain ⟨i, hi, hli⟩ := List.mem_flatMap.mp hl
      exact hlines i hi l hli
    simp [fileLines, hsplit]
  rw [handleSummarizeResult, hread, readItems rfl h]
  simp

instance decidableInner (l : Str) : Decidable (Inner l) :=
  decidable_of_iff (ocNameOf l = none ∧ identifierOf l = none ∧ isSeverity l = false)
    ⟨fun h => ⟨h.1, h.2.1, h.2.2⟩, fun h => ⟨h.context, h.identifier, h.severity⟩⟩

instance Attribute.decidableWf (a : Attribute) : Decidable a.Wf :=
  decidable_of_iff ((a.indent ≠ [] ∧ a.indent.all isspace = true) ∧
    (a.name ≠ [] ∧ a.name.head?.all (fun b => !isspace b) = true) ∧
    (a.value ≠ [] ∧ ¬ lit " = " <:+: lit "= " ++ a.value) ∧ (∀ l ∈ a.lines, Inner l) ∧
    ∀ text ∈ a.more, attributeOf (List.replicate a.width 0x20 ++ text) = none)
    ⟨fun h => ⟨⟨h.1.1, List.all_eq_true.1 h.1.2⟩,
      ⟨h.2.1.1, by simpa [Option.all_eq_true] using h.2.1.2⟩, h.2.2.1, h.2.2.2.1, h.2.2.2.2⟩,
      fun h => ⟨⟨h.indent.1, List.all_eq_true.2 h.indent.2⟩,
        ⟨h.name.1, by simpa [Option.all_eq_true] using h.name.2⟩, h.value, h.inner, h.more⟩⟩

instance Alarm.decidableWf (a : Alarm) : Decidable a.Wf :=
  decidable_of_iff ((ocNameOf a.first = none ∧ identifierOf a.first = some a.number) ∧
    (∀ x ∈ a.attributes, x.Wf) ∧
    (ocNameOf a.last = none ∧ identifierOf a.last = none ∧ isSeverity a.last = true))
    ⟨fun h => ⟨h.1, h.2.1, h.2.2⟩, fun h => ⟨h.first, h.attributes, h.last⟩⟩

instance Item.decidableWf : DecidablePred Item.Wf
  | .context l name => inferInstanceAs (Decidable (ocNameOf l = some name))
  | .alarm a => inferInstanceAs (Decidable a.Wf)
  | .other l => inferInstanceAs (Decidable (ocNameOf l = none ∧ identifierOf l = none))

/-- The pattern id of an alarm object on two lines, and another one that has no work flag. -/
def twoAlarms : List Item :=
  [.context (lit "x:.oc1 alarm_object 7") (lit "oc1"),
    .alarm {
      first := lit " Identifier = 7"
      number := lit "7"
      attributes := [
        { indent := lit " ", name := lit "Managed Object", value := lit "NW MMS 1 " },
        { indent := lit " ", name := lit "workFlag", value := 0x22 :: circle ++ [0x22] },
        { indent := lit " ", name := lit "patternId", value := lit "\"A1-2 ",
          more := [lit "A1-1\""] }]
      last := lit " Perceived Severity = Major" },
    .alarm {
      first := lit " Identifier = 8"
      number := lit "8"
      attributes := [{ indent := lit " ", name := lit "Managed Object", value := lit "NW MMS 1 " }]
      last := lit " Perceived Severity = Major" }]

theorem handleSummarizeResult_written_twoAlarms :
    (handleSummarizeResult perlEngine (fun _ => some [endedWork (lit "2009/01/03 00:00:00")])
        (unlines 0x0a (twoAlarms.flatMap Item.lines))).map (fun st => (st.fcl, st.atLeastOne)) =
      some ([lit "set oper oc1 alarm 7 controlTime=\"2009/01/03 00:00:00\"\n"], true) := by
  have hwf : ∀ i ∈ twoAlarms, i.Wf := by decide +kernel
  refine (handleSummarizeResult_written perlEngine _ hwf (by decide +kernel)).trans ?_
  decide +kernel

end Realwork.Reflect
