import Realwork.Monitor.LogWatcher

/-!
# Monitor — the commands of one pass

`WatchLog` keeps of the lines it reads in one pass the last command of each counter and all
common commands, and `MakeTmpAoFile` writes them into the file that is executed: the counters,
then the common commands.

* `readLine_eq`: a step of the watcher handles a line as a pass does; `exec_pass`: its steps over a
  file are a pass, over lines without line feeds (`newline_not_mem_linesRead`).
* `run_commands_put`: a command more, in the container and after the file.
* `runFile_pass`: the file does what the commands of the lines do one by one.
-/

namespace Realwork.Monitor

open Realwork.Lib Realwork.Common

/-! ### The pass and the file -/

/-- A line of the log: the container after it, or none if it ends the log. -/
def passLine (aoCmdContainer : AoCommandContainer) (lineString : Str) :
    Option AoCommandContainer :=
  if isValidCmdLineBuf lineString then
    some (aoCmdContainer.put (getAoCmdFromLine lineString))
  else if isLogEnd lineString then none
  else some aoCmdContainer

/-- The lines that are read until there is no more, or one ends the log. -/
def pass : AoCommandContainer → List Str → AoCommandContainer
  | aoCmdContainer, [] => aoCmdContainer
  | aoCmdContainer, lineString :: ls =>
      match passLine aoCmdContainer lineString with
      | some aoCmdContainer => pass aoCmdContainer ls
      | none => aoCmdContainer

/-- The command of a counter, if there is one. -/
def AoCommand.written (aoCmd : AoCommand) : List Str :=
  if aoCmd.isEmpty then [] else [aoCmd.cmdContent]

/-- The commands `MakeTmpAoFile` writes. -/
def AoCommandContainer.commands (aoCmdContainer : AoCommandContainer) : List Str :=
  aoCmdContainer.hcCntCmd.written ++ aoCmdContainer.workCntCmd.written ++
    aoCmdContainer.otherCntCmd.written ++ aoCmdContainer.contents

/-- `MakeTmpAoFile`: the file. -/
def AoCommandContainer.makeTmpAoFile (aoCmdContainer : AoCommandContainer) : Str :=
  unlines newline aoCmdContainer.commands

/-- The file of a pass; a container without commands is not sent. -/
def sentFile (aoCmdContainer : AoCommandContainer) : Option Str :=
  if aoCmdContainer.isEmpty then none else some aoCmdContainer.makeTmpAoFile

/-- The commands of the valid lines, up to a line that ends the log. -/
def commandsOf (ls : List Str) : List AoCommand :=
  ((ls.takeWhile fun l => isValidCmdLineBuf l || !isLogEnd l).filter isValidCmdLineBuf).map
    getAoCmdFromLine

/-- **A step of the watcher** handles the line in its buffer as a pass does. -/
theorem readLine_eq {sticky eof : Bool} {s : Watched} {name : LogName} {pos : Nat} {buf : Str}
    {aoCmdContainer : AoCommandContainer}
    (hbuf : fgets sticky eof (s.files.content name) pos = buf) (hne : buf ≠ []) :
    s.readLine sticky name pos eof aoCmdContainer =
      match passLine aoCmdContainer (bufferedLine buf) with
      | some aoCmdContainer' =>
          { s with watch := .reading name (pos + buf.length) eof aoCmdContainer' }
      | none => { s with watch := .look false, sent := s.send aoCmdContainer } := by
  simp only [Watched.readLine, hbuf, if_neg hne, passLine]
  split
  · rfl
  · split
    · rfl
    · rfl

theorem pass_eq (aoCmdContainer : AoCommandContainer) (ls : List Str) :
    pass aoCmdContainer ls = (commandsOf ls).foldl .put aoCmdContainer := by
  induction ls generalizing aoCmdContainer with
  | nil => rfl
  | cons l ls ih =>
      simp only [pass, passLine]
      cases hvalid : isValidCmdLineBuf l with
      | true => simp [commandsOf, hvalid, ih]
      | false => cases hend : isLogEnd l <;> simp [hvalid, hend, ih, commandsOf]

/-- The lines in the buffer, one `fgets` after the other; the first number is enough of them. -/
def linesRead : Nat → Str → List Str
  | 0, _ => []
  | _, [] => []
  | n + 1, s =>
      let buf := takeLine newline lineBuffSize s
      bufferedLine buf :: linesRead n (s.drop buf.length)

/-- The cut leaves no line feed of a line. -/
theorem newline_not_mem_bufferedLine {buf : Str} (h : newline ∉ buf.dropLast) :
    newline ∉ bufferedLine buf := by
  intro hmem
  have hne : bufferedLine buf ≠ [] := List.ne_nil_of_mem hmem
  have hlast : newline ≠ (bufferedLine buf).getLast hne := by
    intro heq
    have hreturn := List.rdropWhile_last_not isReturn (cstr buf) hne
    exact hreturn (heq ▸ isReturn_newline newline List.mem_cons_self)
  obtain ⟨rest, hrest⟩ : bufferedLine buf <+: buf :=
    (List.rdropWhile_prefix isReturn _).trans (List.takeWhile_prefix _)
  have hline := List.dropLast_append_getLast hne
  rw [← hrest, ← hline, List.append_assoc,
    List.dropLast_append_of_ne_nil (by simp), List.mem_append, not_or] at h
  rw [← hline, List.mem_append, List.mem_singleton] at hmem
  exact hmem.elim h.1 hlast

theorem newline_not_mem_linesRead (k : Nat) (s : Str) : ∀ l ∈ linesRead k s, newline ∉ l := by
  induction k generalizing s with
  | zero => exact fun l hl => absurd hl List.not_mem_nil
  | succ k ih =>
      cases s with
      | nil => exact fun l hl => absurd hl List.not_mem_nil
      | cons b s =>
          have hbuf : newline ∉ (takeLine newline lineBuffSize (b :: s)).dropLast :=
            not_mem_dropLast_takeLine _ _
          exact List.forall_mem_cons.mpr ⟨newline_not_mem_bufferedLine hbuf, ih _⟩

theorem takeLine_ne_nil {n : Nat} {s : Str} (hn : n ≠ 0) (hs : s ≠ []) :
    takeLine newline n s ≠ [] := by
  obtain ⟨n, rfl⟩ := Nat.exists_eq_succ_of_ne_zero hn
  obtain ⟨b, s, rfl⟩ := List.exists_cons_of_ne_nil hs
  rw [takeLine]
  split
  · exact List.cons_ne_nil _ _
  · exact List.cons_ne_nil _ _

section

variable {maxSize : Nat} {sticky : Bool} {s : Watched} {name : LogName} {pos : Nat}
  {c : AoCommandContainer}

theorem step_reading (hwatch : s.watch = .reading name pos false c) :
    (watching maxSize sticky).step .watch s = some (s.readLine sticky name pos false c) := by
  simp only [watching, Watched.step, Watched.watchLog, hwatch]

theorem exec_one {s' : Watched} (h : (watching maxSize sticky).step .watch s = some s') :
    (watching maxSize sticky).exec (List.replicate 1 .watch) s = some s' := by
  rw [List.replicate_one, Machine.exec, h]
  rfl

theorem fgets_eq (sticky : Bool) (content : Str) (pos : Nat) :
    fgets sticky false content pos = takeLine newline lineBuffSize (content.drop pos) := by
  rw [fgets, Bool.and_false, if_neg Bool.false_ne_true]

/-- At the end of the file the container is sent. -/
theorem readLine_end (h : (s.files.content name).drop pos = []) :
    (s.readLine sticky name pos false c).sent = s.send c := by
  rw [Watched.readLine, fgets_eq, h]
  simp [takeLine, lineBuffSize]

variable (maxSize sticky)

/-- **One pass of the watcher** over what is there of a file sends the container of its lines. -/
theorem exec_pass {k : Nat} (hwatch : s.watch = .reading name pos false c)
    (hk : ((s.files.content name).drop pos).length ≤ k) :
    ∃ n s', (watching maxSize sticky).exec (List.replicate n .watch) s = some s' ∧
      s'.sent = s.send (pass c (linesRead k ((s.files.content name).drop pos))) := by
  induction k generalizing s pos c with
  | zero =>
      have hnil := List.length_eq_zero_iff.mp (Nat.le_zero.mp hk)
      refine ⟨1, _, exec_one (step_reading hwatch), ?_⟩
      rw [readLine_end hnil, hnil]
      rfl
  | succ k ih =>
      cases hrest : (s.files.content name).drop pos with
      | nil =>
          refine ⟨1, _, exec_one (step_reading hwatch), ?_⟩
          rw [readLine_end hrest]
          rfl
      | cons b rest =>
          rw [hrest] at hk
          set buf := takeLine newline lineBuffSize (b :: rest) with hbuf
          have hne : buf ≠ [] := takeLine_ne_nil (by decide) (List.cons_ne_nil b rest)
          have hpos := List.length_pos_iff.mpr hne
          have hlines : linesRead (k + 1) (b :: rest) =
              bufferedLine buf :: linesRead k ((b :: rest).drop buf.length) := rfl
          have hstep := @step_reading maxSize sticky s name pos c hwatch
          rw [readLine_eq ((fgets_eq _ _ _).trans (by rw [hrest])) hne] at hstep
          rw [hlines, pass]
          cases hline : passLine c (bufferedLine buf) with
          | none =>
              rw [hline] at hstep
              exact ⟨1, _, exec_one hstep, rfl⟩
          | some c' =>
              rw [hline] at hstep
              -- the rest of the file is behind the line
              have hdrop : (s.files.content name).drop (pos + buf.length) =
                  (b :: rest).drop buf.length := by rw [← List.drop_drop, hrest]
              have hlen : ((s.files.content name).drop (pos + buf.length)).length ≤ k := by
                rw [hdrop, List.length_drop]
                omega
              obtain ⟨n, s', hexec, hsent⟩ :=
                @ih { s with watch := .reading name (pos + buf.length) false c' } _ c' rfl hlen
              refine ⟨n + 1, s', ?_, ?_⟩
              · rw [List.replicate_succ, Machine.exec, hstep]
                exact hexec
              · rw [hsent, hdrop]
                rfl

end

/-! ### Executing commands -/

/-- The objects of the alarms: the texts of all objects, and the common commands that have been
executed. -/
@[ext] structure Alarms (Obj : Type) where
  text : Obj → Str
  commands : List Str

/-- What executes commands: the object a command addresses, the text it gives to a counter, and the
three counters. -/
structure Executor (Obj : Type) where
  target : Str → Obj
  newText : Str → Str
  hc : Obj
  work : Obj
  other : Obj
  distinct : hc ≠ work ∧ hc ≠ other ∧ work ≠ other

namespace Executor

variable {Obj : Type} (P : Executor Obj)

def IsCounter (o : Obj) : Prop := o = P.hc ∨ o = P.work ∨ o = P.other

/-- A command of a type addresses the object of the type. -/
def Addresses (aoCmd : AoCommand) : Prop :=
  match aoCmd.type with
  | .hcCounter => P.target aoCmd.cmdContent = P.hc
  | .workCounter => P.target aoCmd.cmdContent = P.work
  | .otherCounter => P.target aoCmd.cmdContent = P.other
  | _ => ¬ P.IsCounter (P.target aoCmd.cmdContent)

/-- The commands of a container address the objects of their places. -/
structure Places (c : AoCommandContainer) : Prop where
  hc : ∀ x ∈ c.hcCntCmd.written, P.target x = P.hc
  work : ∀ x ∈ c.workCntCmd.written, P.target x = P.work
  other : ∀ x ∈ c.otherCntCmd.written, P.target x = P.other
  common : ∀ x ∈ c.contents, ¬ P.IsCounter (P.target x)

theorem written_of_type {aoCmd : AoCommand} {type : AoCmdType} (h : aoCmd.type = type)
    (htype : type ≠ .unknown) : aoCmd.written = [aoCmd.cmdContent] := by
  rw [AoCommand.written, AoCommand.isEmpty, h, decide_eq_false htype]
  rfl

variable {P} {x : Str} {c : AoCommandContainer} {aoCmd : AoCommand}

theorem Places.empty : P.Places {} := ⟨by simp [AoCommand.written, AoCommand.isEmpty],
  by simp [AoCommand.written, AoCommand.isEmpty], by simp [AoCommand.written, AoCommand.isEmpty],
  by simp [AoCommandContainer.contents]⟩

theorem Places.put (h : P.Places c) (ha : P.Addresses aoCmd) : P.Places (c.put aoCmd) := by
  unfold Addresses at ha
  unfold AoCommandContainer.put
  cases htype : aoCmd.type with
  | hcCounter =>
      rw [htype] at ha
      refine { h with hc := ?_ }
      simpa [written_of_type htype (by decide)] using ha
  | workCounter =>
      rw [htype] at ha
      refine { h with work := ?_ }
      simpa [written_of_type htype (by decide)] using ha
  | otherCounter =>
      rw [htype] at ha
      refine { h with other := ?_ }
      simpa [written_of_type htype (by decide)] using ha
  | unknown | common =>
      rw [htype] at ha
      refine { h with common := fun x hx => ?_ }
      simp only [AoCommandContainer.contents, List.map_append, List.mem_append, List.map_cons,
        List.map_nil, List.mem_singleton] at hx
      rcases hx with hx | rfl
      · exact h.common x hx
      · exact ha

/-- What is written for a counter is no command, or one of the counter. -/
theorem written_cases {aoCmd : AoCommand} {o : Obj} (h : ∀ x ∈ aoCmd.written, P.target x = o)
    (hx : P.target x = o) :
    aoCmd.written = [] ∨ ∃ y, aoCmd.written = [y] ∧ P.target x = P.target y := by
  by_cases hempty : aoCmd.isEmpty
  · exact .inl (by rw [AoCommand.written, if_pos hempty])
  · have hwritten : aoCmd.written = [aoCmd.cmdContent] := by
      rw [AoCommand.written, if_neg hempty]
    refine .inr ⟨_, hwritten, hx.trans (h _ ?_).symm⟩
    rw [hwritten]
    exact List.mem_singleton_self _

variable [DecidableEq Obj] (P)

instance (o : Obj) : Decidable (P.IsCounter o) := inferInstanceAs (Decidable (_ ∨ _))

/-- A command: a counter's text is overwritten, and another command is done after those before. -/
def exec (s : Alarms Obj) (cmd : Str) : Alarms Obj :=
  if P.IsCounter (P.target cmd) then
    { s with text := Function.update s.text (P.target cmd) (P.newText cmd) }
  else { s with commands := s.commands ++ [cmd] }

def run (s : Alarms Obj) (cmds : List Str) : Alarms Obj := cmds.foldl P.exec s

/-- A file of commands, one in each line. -/
def runFile (s : Alarms Obj) (file : Option Str) : Alarms Obj :=
  P.run s ((file.map fun text => (text.splitOn newline).dropLast).getD [])

variable {P} {s : Alarms Obj} {x y : Str} {before after : List Str}

theorem run_append (cmds cmds' : List Str) :
    P.run s (cmds ++ cmds') = P.run (P.run s cmds) cmds' := List.foldl_append

/-- The last of two commands of a counter counts. -/
theorem exec_exec_self (h : P.target x = P.target y) (hx : P.IsCounter (P.target x)) :
    P.exec (P.exec s y) x = P.exec s x := by
  have hy : P.IsCounter (P.target y) := h ▸ hx
  simp only [exec, if_pos hy, h, Function.update_idem]

/-- A command of a counter may be done before one of another object. -/
theorem exec_exec_comm (h : P.target x ≠ P.target y) (hx : P.IsCounter (P.target x)) :
    P.exec (P.exec s x) y = P.exec (P.exec s y) x := by
  by_cases hy : P.IsCounter (P.target y)
  · simp only [exec, if_pos hx, if_pos hy, Function.update_comm h]
  · simp only [exec, if_pos hx, if_neg hy]

theorem run_exec_comm (hx : P.IsCounter (P.target x))
    (h : ∀ y ∈ after, P.target x ≠ P.target y) :
    P.run (P.exec s x) after = P.exec (P.run s after) x := by
  induction after generalizing s with
  | nil => rfl
  | cons y after ih =>
      rw [List.forall_mem_cons] at h
      show P.run (P.exec (P.exec s x) y) after = P.exec (P.run (P.exec s y) after) x
      rw [exec_exec_comm h.1 hx, ih h.2]

/-- **A counter's command** may take the place of the one before it, in front of commands of other
objects. -/
theorem run_replace (hx : P.IsCounter (P.target x)) {old : List Str}
    (hold : old = [] ∨ ∃ y, old = [y] ∧ P.target x = P.target y)
    (h : ∀ y ∈ after, P.target x ≠ P.target y) :
    P.run s (before ++ ([x] ++ after)) = P.exec (P.run s (before ++ (old ++ after))) x := by
  rw [run_append, run_append, run_append]
  have hone (s : Alarms Obj) (x : Str) : P.run s [x] = P.exec s x := rfl
  rw [hone, run_exec_comm hx h]
  rcases hold with rfl | ⟨y, rfl, hy⟩
  · rfl
  · have hother : ∀ z ∈ after, P.target y ≠ P.target z := hy ▸ h
    rw [run_append, hone, run_exec_comm (hy ▸ hx) hother, exec_exec_self hy hx]

/-- **A command more** in the container is a command more after the file. -/
theorem run_commands_put (h : P.Places c) (ha : P.Addresses aoCmd) (s : Alarms Obj) :
    P.run s (c.put aoCmd).commands = P.exec (P.run s c.commands) aoCmd.cmdContent := by
  obtain ⟨hhw, hho, hwo⟩ := P.distinct
  unfold Addresses at ha
  unfold AoCommandContainer.put
  have hother : ∀ x ∈ c.otherCntCmd.written ++ c.contents,
      P.target x = P.other ∨ ¬ P.IsCounter (P.target x) := by
    intro x hx
    exact (List.mem_append.mp hx).imp (h.other x) (h.common x)
  have hwork : ∀ x ∈ c.workCntCmd.written ++ (c.otherCntCmd.written ++ c.contents),
      P.target x = P.work ∨ P.target x = P.other ∨ ¬ P.IsCounter (P.target x) := by
    intro x hx
    exact (List.mem_append.mp hx).imp (h.work x) (hother x)
  cases htype : aoCmd.type with
  | hcCounter =>
      rw [htype] at ha
      have hone := written_of_type htype (by decide)
      simp only [AoCommandContainer.commands, List.append_assoc, hone]
      show P.run s ([] ++ ([aoCmd.cmdContent] ++ _)) =
        P.exec (P.run s ([] ++ (c.hcCntCmd.written ++ _))) _
      refine run_replace (.inl ha) (written_cases h.hc ha) fun x hx heq => ?_
      have hx := hwork x hx
      rw [← heq, ha] at hx
      exact hx.elim hhw fun hx => hx.elim hho fun hx => hx (.inl rfl)
  | workCounter =>
      rw [htype] at ha
      have hone := written_of_type htype (by decide)
      simp only [AoCommandContainer.commands, List.append_assoc, hone]
      refine run_replace (.inr (.inl ha)) (written_cases h.work ha) fun x hx heq => ?_
      have hx := hother x hx
      rw [← heq, ha] at hx
      exact hx.elim hwo fun hx => hx (.inr (.inl rfl))
  | otherCounter =>
      rw [htype] at ha
      have hone := written_of_type htype (by decide)
      simp only [AoCommandContainer.commands, hone]
      rw [List.append_assoc, List.append_assoc (_ ++ _)]
      refine run_replace (.inr (.inr ha)) (written_cases h.other ha) fun x hx heq => ?_
      have hx := h.common x hx
      rw [← heq, ha] at hx
      exact hx (.inr (.inr rfl))
  | unknown | common =>
      simp only [AoCommandContainer.commands, AoCommandContainer.contents, List.map_append]
      rw [← List.append_assoc, run_append]
      rfl

/-- **The commands of a container** do what those put into it do one by one. -/
theorem run_commands_foldl {cmds : List AoCommand} (h : P.Places c)
    (ha : ∀ aoCmd ∈ cmds, P.Addresses aoCmd) (s : Alarms Obj) :
    P.run s (cmds.foldl .put c).commands =
      P.run (P.run s c.commands) (cmds.map AoCommand.cmdContent) := by
  induction cmds generalizing c with
  | nil => rfl
  | cons aoCmd cmds ih =>
      rw [List.forall_mem_cons] at ha
      rw [List.foldl_cons, ih (h.put ha.1) ha.2, run_commands_put h ha.1]
      rfl

/-! ### The file -/

theorem mem_commands_put {c : AoCommandContainer} {aoCmd : AoCommand} {x : Str}
    (h : x ∈ (c.put aoCmd).commands) : x ∈ c.commands ∨ x = aoCmd.cmdContent := by
  have hone : ∀ y ∈ aoCmd.written, y = aoCmd.cmdContent := by
    intro y hy
    rw [AoCommand.written] at hy
    split at hy
    · cases hy
    · exact List.mem_singleton.mp hy
  unfold AoCommandContainer.put at h
  cases htype : aoCmd.type <;>
    simp only [htype, AoCommandContainer.commands, AoCommandContainer.contents, List.map_append,
      List.mem_append, List.map_cons, List.map_nil, List.mem_singleton] at h ⊢
  case hcCounter => grind
  case workCounter => grind
  case otherCounter => grind
  case common => grind
  case unknown => grind

/-- Every command of the file is one of those put into the container. -/
theorem mem_commands_foldl {c : AoCommandContainer} {cmds : List AoCommand} {x : Str}
    (h : x ∈ (cmds.foldl AoCommandContainer.put c).commands) :
    x ∈ c.commands ∨ x ∈ cmds.map AoCommand.cmdContent := by
  induction cmds generalizing c with
  | nil => exact .inl h
  | cons aoCmd cmds ih =>
      rcases ih h with h | h
      · rcases mem_commands_put h with h | rfl
        · exact .inl h
        · exact .inr List.mem_cons_self
      · exact .inr (List.mem_cons_of_mem _ h)

theorem newline_not_mem_cmdContent {l : Str} (h : newline ∉ l) :
    newline ∉ (getAoCmdFromLine l).cmdContent := by
  have hafter (flag : Str) : newline ∉ Monitor.after flag l := by
    unfold Monitor.after
    split
    · exact fun hm => h (List.mem_of_mem_drop hm)
    · exact List.not_mem_nil
  unfold getAoCmdFromLine
  split_ifs <;> first | exact hafter _ | exact List.not_mem_nil

theorem commands_of_isEmpty {c : AoCommandContainer} (h : c.isEmpty = true) : c.commands = [] := by
  simp only [AoCommandContainer.isEmpty, Bool.and_eq_true, decide_eq_true_eq] at h
  obtain ⟨⟨⟨hhc, hwork⟩, hother⟩, hcommon⟩ := h
  simp [AoCommandContainer.commands, AoCommand.written, hhc, hwork, hother,
    AoCommandContainer.contents, List.length_eq_zero_iff.mp hcommon]

/-- What is executed of a file are the commands of the container. -/
theorem runFile_sentFile {c : AoCommandContainer} (h : ∀ x ∈ c.commands, newline ∉ x)
    (s : Alarms Obj) : P.runFile s (sentFile c) = P.run s c.commands := by
  unfold sentFile runFile
  split
  · rename_i hempty
    rw [commands_of_isEmpty hempty]
    rfl
  · rw [Option.map_some, Option.getD_some, AoCommandContainer.makeTmpAoFile, splitOn_unlines h,
      List.dropLast_concat]

/-- **The file of a pass** leaves the alarms as the commands of its valid lines do, executed one by
one. -/
theorem runFile_pass {ls : List Str} (hls : ∀ l ∈ ls, newline ∉ l)
    (haddress : ∀ aoCmd ∈ commandsOf ls, P.Addresses aoCmd) (s : Alarms Obj) :
    P.runFile s (sentFile (pass {} ls)) =
      P.run s ((commandsOf ls).map AoCommand.cmdContent) := by
  have hnewline : ∀ x ∈ (pass {} ls).commands, newline ∉ x := by
    intro x hx
    rw [pass_eq] at hx
    rcases mem_commands_foldl hx with hx | hx
    · rw [commands_of_isEmpty rfl] at hx
      cases hx
    · obtain ⟨aoCmd, haoCmd, rfl⟩ := List.mem_map.mp hx
      obtain ⟨l, hl, rfl⟩ := List.mem_map.mp haoCmd
      have hmem : l ∈ ls := (List.takeWhile_prefix _).subset (List.mem_of_mem_filter hl)
      exact newline_not_mem_cmdContent (hls l hmem)
  rw [runFile_sentFile hnewline, pass_eq, run_commands_foldl Places.empty haddress]
  rfl

end Executor

/-- Commands that begin with a letter for their object, and have the text behind it. -/
def letters : Executor (Option UInt8) where
  target := List.head?
  newText := List.tail
  hc := some 0x68
  work := some 0x77
  other := some 0x6f
  distinct := by decide

/-- Two commands of one counter around another one, a line that is none, and a line behind
`[END]`. -/
def hcLines : List Str :=
  [lit "<HC_COUNT>h1", lit "<COMMAND>c", lit "x", lit "<HC_COUNT>h2", lit "[END]",
    lit "<WORK_COUNT>w1"]

theorem runFile_pass_hcLines :
    letters.runFile ⟨fun _ => [], []⟩ (sentFile (pass {} hcLines)) =
      letters.run ⟨fun _ => [], []⟩ [lit "h1", lit "c", lit "h2"] := by
  have hcommands : commandsOf hcLines =
      [⟨.hcCounter, lit "h1"⟩, ⟨.common, lit "c"⟩, ⟨.hcCounter, lit "h2"⟩] := by decide +kernel
  have haddress : ∀ aoCmd ∈ commandsOf hcLines, letters.Addresses aoCmd := by
    rw [hcommands]
    simp only [List.forall_mem_cons, List.not_mem_nil, false_imp_iff, implies_true, and_true]
    exact ⟨rfl, show ¬ letters.IsCounter _ by decide, rfl⟩
  have hrun := Executor.runFile_pass (show ∀ l ∈ hcLines, newline ∉ l by decide +kernel) haddress
    ⟨fun _ => [], []⟩
  rwa [hcommands] at hrun

end Realwork.Monitor
