import Realwork.Snmp.ThreadCollect

/-!
# Snmp — the output of the threads

What `thread_snmp_mib_collect.pl` has printed and written when all its threads have ended.

* `Move.inv`: what a step keeps of the rows.
* `Move.written`: what it keeps of the file.
* `collectThreads_rows`: whatever the order of the threads, they come to an end, the rows they print
  are those of `snmp_mib_collect.pl` if each line has three fields, and the file is made of them if
  no thread fills its buffer.
-/

namespace Realwork.Snmp.Mib.Threads

open Lib
open scoped List

namespace Control

/-! ### What is printed -/

/-- What holds when the threads have been given `hosts`. -/
structure Inv (answers : Answers) (oidConfList : List Str) (hosts : List Host) (s : Control) :
    Prop where
  rows : ∀ row, (s.printed.map fun print => print.2.2).count row +
      weight s.threads (fun p => (rowsOf answers oidConfList p).count row) s.worker +
      (queueRows answers oidConfList s.queue).count row =
    (answers.collectMib oidConfList hosts).count row
  /-- There is an `undef` for each thread that has not taken it, and nothing behind them. -/
  queue : ∃ waiting, s.queue =
      waiting.map some ++ List.replicate (weight s.threads live s.worker) none ∧
    ((∃ w < s.threads, live (s.worker w) = 0) → waiting = [])
  joined : ∀ w < s.joined, s.worker w = .ended
  le : s.joined ≤ s.threads
  closed : s.closed = true → s.joined = s.threads

section

variable {answers : Answers} {oidConfList : List Str} {bufsiz : ℕ+} {hosts : List Host}
  {s s' : Control}

/-- The buffers do not matter. -/
theorem Inv.buffers (h : Inv answers oidConfList hosts s) (output : Buffers UInt8) :
    Inv answers oidConfList hosts { s with output } :=
  ⟨h.rows, h.queue, h.joined, h.le, h.closed⟩

/-- A thread that is not at its end, wherever it goes. -/
theorem Inv.worker (h : Inv answers oidConfList hosts s) {w : Nat} {p q : Worker}
    (hw : w < s.threads) (hplace : s.worker w = p) (hp : p ≠ .ended) {queue : List (Option Host)}
    {rows : List (Str × Row)}
    (hrows : ∀ row, (rows.map Prod.snd).count row + (rowsOf answers oidConfList q).count row +
      (queueRows answers oidConfList queue).count row = (rowsOf answers oidConfList p).count row +
        (queueRows answers oidConfList s.queue).count row)
    (hqueue : ∀ waiting, s.queue =
        waiting.map some ++ List.replicate (weight s.threads live s.worker) none →
      (live p = 0 → waiting = []) →
      ∃ waiting', queue = waiting'.map some ++
          List.replicate (weight s.threads live (Function.update s.worker w q)) none ∧
        (waiting = [] ∨ live q = 0 → waiting' = [])) :
    Inv answers oidConfList hosts
      { s with
        queue
        worker := Function.update s.worker w q
        printed := s.printed ++ rows.map (w, ·) } where
  rows row := by
    have hmove := weight_move hw hplace (fun p => (rowsOf answers oidConfList p).count row) q
    have hbefore := h.rows row
    have hnew := hrows row
    have hprinted : ((rows.map (w, ·)).map fun print => print.2.2) = rows.map Prod.snd :=
      List.map_map
    simp only [List.map_append, List.count_append, hprinted]
    omega
  queue := by
    obtain ⟨waiting, hwaiting, hended⟩ := h.queue
    obtain ⟨waiting', hwaiting', hempty⟩ := hqueue waiting hwaiting fun hdead =>
      hended ⟨w, hw, hplace ▸ hdead⟩
    refine ⟨waiting', hwaiting', ?_⟩
    rintro ⟨u, hu, hdead⟩
    dsimp only at hdead
    by_cases huw : u = w
    · subst huw
      rw [Function.update_self] at hdead
      exact hempty (.inr hdead)
    · rw [Function.update_of_ne huw] at hdead
      exact hempty (.inl (hended ⟨u, hu, hdead⟩))
  joined u hu := by
    have hne : u ≠ w := by
      rintro rfl
      exact hp (hplace.symm.trans (h.joined u hu))
    exact (Function.update_of_ne hne ..).trans (h.joined u hu)
  le := h.le
  closed := h.closed

/-- A thread goes on without the queue. -/
theorem Inv.goOn (h : Inv answers oidConfList hosts s) {w : Nat} {p : Worker} (q : Worker)
    (rows : List (Str × Row)) (hw : w < s.threads) (hplace : s.worker w = p) (hp : p ≠ .ended)
    (hq : live q = live p)
    (hrows : ∀ row, (rows.map Prod.snd).count row + (rowsOf answers oidConfList q).count row =
      (rowsOf answers oidConfList p).count row) :
    Inv answers oidConfList hosts
      { s with
        worker := Function.update s.worker w q
        printed := s.printed ++ rows.map (w, ·) } := by
  have hkeep : weight s.threads live (Function.update s.worker w q) =
      weight s.threads live s.worker := by
    have hmove := weight_move hw hplace live q
    omega
  refine h.worker hw hplace hp (fun row => ?_) fun waiting hwaiting hdead => ?_
  · rw [hrows row]
  · rw [hkeep, hq]
    exact ⟨waiting, hwaiting, fun hor => hor.elim id hdead⟩

/-- It prints nothing then. -/
theorem Inv.goOn_quiet (h : Inv answers oidConfList hosts s) {w : Nat} {p : Worker} (q : Worker)
    (hw : w < s.threads) (hplace : s.worker w = p) (hp : p ≠ .ended) (hq : live q = live p)
    (hrows : rowsOf answers oidConfList q = rowsOf answers oidConfList p) :
    Inv answers oidConfList hosts { s with worker := Function.update s.worker w q } := by
  have hinv := h.goOn q [] hw hplace hp hq fun row => by simp [hrows]
  rwa [List.map_nil, List.append_nil] at hinv

/-- A thread takes the next node. -/
theorem Inv.take (h : Inv answers oidConfList hosts s) {w : Nat} {host : Host}
    {queue : List (Option Host)} (hw : w < s.threads) (hplace : s.worker w = .dequeue)
    (hqueue : s.queue = some host :: queue) :
    Inv answers oidConfList hosts
      { s with
        queue
        worker := Function.update s.worker w (.session host)
        printed := s.printed ++ [].map (w, ·) } := by
  have hmove := weight_move hw hplace live (.session host)
  have hkeep : weight s.threads live (Function.update s.worker w (.session host)) =
      weight s.threads live s.worker := Nat.add_right_cancel hmove
  refine h.worker hw hplace nofun (fun row => ?_) fun waiting hwaiting _ => ?_
  · simp [hqueue, queueRows, rowsOf]
  · have hhead := hqueue.symm.trans hwaiting
    cases waiting with
    | nil =>
        rw [List.map_nil, List.nil_append] at hhead
        have hmem : some host ∈ List.replicate (weight s.threads live s.worker) none :=
          hhead ▸ List.mem_cons_self
        cases List.eq_of_mem_replicate hmem
    | cons host' waiting =>
        rw [List.map_cons, List.cons_append, List.cons.injEq] at hhead
        rw [hkeep]
        exact ⟨waiting, hhead.2, fun hor => hor.elim nofun nofun⟩

/-- A thread takes an `undef`. -/
theorem Inv.stop (h : Inv answers oidConfList hosts s) {w : Nat} {queue : List (Option Host)}
    (hw : w < s.threads) (hplace : s.worker w = .dequeue) (hqueue : s.queue = none :: queue) :
    Inv answers oidConfList hosts
      { s with
        queue
        worker := Function.update s.worker w .ending
        printed := s.printed ++ [].map (w, ·) } := by
  have hmove : weight s.threads live (Function.update s.worker w .ending) + 1 =
      weight s.threads live s.worker := weight_move hw hplace live .ending
  refine h.worker hw hplace nofun (fun row => ?_) fun waiting hwaiting _ => ?_
  · simp [hqueue, queueRows, rowsOf]
  · have hhead := hqueue.symm.trans hwaiting
    cases waiting with
    | nil =>
        rw [← hmove, List.map_nil, List.nil_append, List.replicate_succ, List.cons.injEq] at hhead
        exact ⟨[], hhead.2, fun _ => rfl⟩
    | cons host waiting => cases hhead

/-- **What holds between the steps** of the rows. -/
theorem Move.inv (h : Inv answers oidConfList hosts s)
    (hm : Move answers oidConfList bufsiz s s') : Inv answers oidConfList hosts s' := by
  cases hm with
  | spill hw hfull => exact h.buffers _
  | take hw hplace hqueue =>
      have hinv := h.take hw hplace hqueue
      rwa [List.map_nil, List.append_nil] at hinv
  | stop hw hplace hqueue =>
      have hinv := h.stop hw hplace hqueue
      rwa [List.map_nil, List.append_nil] at hinv
  | @opened w host hw hplace hsession =>
      refine h.goOn_quiet (.get host (answers.oids oidConfList host.node)) hw hplace nofun rfl ?_
      simp [rowsOf, Answers.collect, hsession]
  | failed hw hplace hsession =>
      refine h.goOn_quiet .dequeue hw hplace nofun rfl ?_
      simp [rowsOf, Answers.collect, hsession]
  | @get w host oid oids timeNow hw hplace =>
      have hinv := h.goOn (.get host oids) ((answers.snmpGet host oid).toList.map (timeNow, ·)) hw
        hplace nofun rfl fun row => by
          simp only [rowsOf, List.filterMap_cons]
          cases answers.snmpGet host oid with
          | none => simp
          | some printed =>
              simp only [Option.toList_some, List.map_cons, List.map_nil, List.count_cons,
                List.count_nil]
              omega
      exact hinv.buffers _
  | close hw hplace => exact h.goOn_quiet .dequeue hw hplace nofun rfl (by simp [rowsOf])
  | flush hw hplace => exact (h.goOn_quiet .ended hw hplace nofun rfl rfl).buffers _
  | join hclosed hjoined hplace =>
      refine ⟨h.rows, h.queue, fun w hw => ?_, hjoined, fun hc => ?_⟩
      · rcases Nat.lt_succ_iff_lt_or_eq.mp hw with hw | rfl
        · exact h.joined w hw
        · exact hplace
      · rw [hclosed] at hc
        cases hc
  | closeOutput hclosed hjoined =>
      exact ⟨h.rows, h.queue, h.joined, h.le, fun _ => Nat.le_antisymm h.le (not_lt.mp hjoined)⟩

/-! ### What is written -/

/-- What the threads have printed is in their pieces of the file and in their buffers. -/
structure Written (bufsiz : ℕ+) (s : Control) : Prop where
  stream : ∀ w, s.output.stream w = outputText (s.printedBy w)
  threads : ∀ print ∈ s.printed, print.1 < s.threads
  full : ∀ w, s.worker w ≠ .ended → s.output.Full bufsiz w
  flushed : ∀ w, s.worker w = .ended → s.output.Flushed bufsiz w

/-- A thread that prints nothing and does not end. -/
theorem Written.goOn (h : s.Written bufsiz) {w : Nat} {p q : Worker} (queue : List (Option Host))
    (hplace : s.worker w = p) (hp : p ≠ .ended) (hq : q ≠ .ended) :
    Written bufsiz { s with queue, worker := Function.update s.worker w q } where
  stream := h.stream
  threads := h.threads
  full u hu := by
    by_cases huw : u = w
    · subst huw
      exact h.full u (by rwa [hplace])
    · exact h.full u fun hended => hu ((Function.update_of_ne huw ..).trans hended)
  flushed u hu := by
    by_cases huw : u = w
    · subst huw
      exact absurd ((Function.update_self ..).symm.trans hu) hq
    · exact h.flushed u ((Function.update_of_ne huw ..).symm.trans hu)

theorem printedBy_print (w : Nat) (rows : List (Str × Row)) :
    (s.print w rows).printedBy w = s.printedBy w ++ rows := by
  simp [print, printedBy, List.filter_map, Function.comp_def]

theorem printedBy_print_of_ne {w u : Nat} (hu : u ≠ w) (rows : List (Str × Row)) :
    (s.print w rows).printedBy u = s.printedBy u := by
  simp [print, printedBy, List.filter_map, Function.comp_def, hu.symm]

theorem Written.print (h : s.Written bufsiz) {w : Nat} (hw : w < s.threads)
    (hplace : s.worker w ≠ .ended) (rows : List (Str × Row)) :
    (s.print w rows).Written bufsiz where
  stream u := by
    by_cases hu : u = w
    · subst hu
      rw [printedBy_print, outputText, List.flatMap_append, ← outputText, ← h.stream]
      exact Buffers.stream_put
    · rw [printedBy_print_of_ne hu, ← h.stream]
      exact Buffers.stream_put_of_ne hu
  threads print hprint := by
    rcases List.mem_append.mp hprint with hprint | hprint
    · exact h.threads print hprint
    · obtain ⟨row, -, rfl⟩ := List.mem_map.mp hprint
      exact hw
  full u hu := (h.full u hu).put w _
  flushed u hu := by
    have hne : u ≠ w := by
      rintro rfl
      exact hplace hu
    exact (h.flushed u hu).put_of_ne hne

/-- A full buffer is not that of a thread that has ended. -/
theorem Written.spill (h : s.Written bufsiz) {w : Nat}
    (hfull : bufsiz ≤ (s.output.buffer w).length) :
    Written bufsiz { s with output := s.output.spill bufsiz w } := by
  have hlive : s.worker w ≠ .ended := fun hended => by
    have hpos := bufsiz.pos
    rw [(h.flushed w hended).1, List.length_nil] at hfull
    omega
  refine ⟨fun u => (Buffers.stream_spill u).trans (h.stream u), h.threads, fun u hu => ?_,
    fun u hu => ?_⟩
  · by_cases huw : u = w
    · subst huw
      exact (h.full u hu).spill hfull
    · exact (h.full u hu).of_ne huw
  · have hne : u ≠ w := by
      rintro rfl
      exact hlive hu
    exact (h.flushed u hu).of_ne hne

theorem Written.flush (h : s.Written bufsiz) {w : Nat} (hplace : s.worker w = .ending) :
    Written bufsiz { s with
      worker := Function.update s.worker w .ended
      output := s.output.flush w } where
  stream u := (Buffers.stream_flush u).trans (h.stream u)
  threads := h.threads
  full u hu := by
    have hne : u ≠ w := by
      rintro rfl
      exact hu (Function.update_self ..)
    exact (h.full u fun hended => hu ((Function.update_of_ne hne ..).trans hended)).of_ne hne
  flushed u hu := by
    by_cases huw : u = w
    · subst huw
      exact (h.full u (by rw [hplace]; exact nofun)).flush
    · exact (h.flushed u ((Function.update_of_ne huw ..).symm.trans hu)).of_ne huw

/-- **What holds between the steps** of the file. -/
theorem Move.written (h : s.Written bufsiz) (hm : Move answers oidConfList bufsiz s s') :
    s'.Written bufsiz := by
  cases hm with
  | spill hw hfull => exact h.spill hfull
  | take hw hplace hqueue => exact h.goOn _ hplace nofun nofun
  | stop hw hplace hqueue => exact h.goOn _ hplace nofun nofun
  | opened hw hplace hsession => exact h.goOn _ hplace nofun nofun
  | failed hw hplace hsession => exact h.goOn _ hplace nofun nofun
  | @get w host oid oids timeNow hw hplace =>
      have hprint := h.print hw (by rw [hplace]; exact nofun)
        ((answers.snmpGet host oid).toList.map (timeNow, ·))
      exact hprint.goOn _ hplace nofun nofun
  | close hw hplace => exact h.goOn _ hplace nofun nofun
  | flush hw hplace => exact h.flush hplace
  | join hclosed hjoined hplace => exact ⟨h.stream, h.threads, h.full, h.flushed⟩
  | closeOutput hclosed hjoined => exact ⟨h.stream, h.threads, h.full, h.flushed⟩

/-- **The file** when all threads have ended and none has filled its buffer: the rows of the
threads, one thread after the other. -/
theorem Written.exists_file (h : s.Written bufsiz) (hended : ∀ w < s.threads, s.worker w = .ended)
    (hless : ∀ w, (outputText (s.printedBy w)).length < bufsiz) :
    ∃ file, file ~ s.printed.map Prod.snd ∧ s.output.text = outputText file := by
  have hshort (w : Nat) : (s.output.stream w).length < bufsiz := h.stream w ▸ hless w
  obtain ⟨order, hnodup, hmem, htext⟩ := s.output.exists_order fun w => by
    by_cases hw : s.worker w = .ended
    · exact .inr ((h.flushed w hw).pieces_eq (hshort w))
    · exact .inl ((h.full w hw).pieces_eq_nil (hshort w))
  refine ⟨order.flatMap s.printedBy, ?_, ?_⟩
  · have hall : s.printed.filter (fun print => print.1 ∈ order) = s.printed := by
      refine List.filter_eq_self.mpr fun print hprint => decide_eq_true ((hmem _).mpr ?_)
      have hflushed := h.flushed _ (hended _ (h.threads print hprint))
      rw [hflushed.pieces_eq (hshort _)]
      exact List.cons_ne_nil _ _
    have hdealt := (perm_flatMap_filter Prod.fst hnodup s.printed).map Prod.snd
    rw [hall, List.map_flatMap] at hdealt
    exact hdealt
  · rw [htext, outputText, List.flatMap_assoc]
    exact List.flatMap_congr fun w _ => h.stream w

/-! ### The runs of the threads -/

theorem inv_created (threads : Nat) (hosts : List Host) :
    Inv answers oidConfList hosts (created threads hosts) where
  rows row := by
    have hundef (n : Nat) : queueRows answers oidConfList (List.replicate n none) = [] :=
      List.flatMap_eq_nil_iff.mpr fun host hhost => by
        rw [List.eq_of_mem_replicate hhost]
        rfl
    have hqueue : queueRows answers oidConfList (created threads hosts).queue =
        answers.collectMib oidConfList hosts := by
      rw [created, queueRows, List.flatMap_append, List.flatMap_map, ← queueRows, hundef,
        List.append_nil]
      rfl
    rw [hqueue]
    simp [created, weight_const, rowsOf]
  queue := ⟨hosts, by simp [created, weight_const, live], by
    rintro ⟨w, -, hdead⟩
    cases hdead⟩
  joined w hw := absurd hw (Nat.not_lt_zero w)
  le := Nat.zero_le threads
  closed := nofun

theorem written_created (bufsiz : ℕ+) (threads : Nat) (hosts : List Host) :
    (created threads hosts).Written bufsiz where
  stream _ := rfl
  threads _ hprint := absurd hprint List.not_mem_nil
  full _ _ := Buffers.full_empty
  flushed _ hended := Worker.noConfusion hended

/-- Until the output file is closed, a thread can go on. -/
theorem Inv.exists_step (h : Inv answers oidConfList hosts s) (hclosed : s.closed = false) :
    ∃ a s', s.step answers oidConfList bufsiz a = some s' := by
  by_cases hjoined : s.joined < s.threads
  · have hworker : s.step answers oidConfList bufsiz (.worker s.joined []) =
        s.workerStep answers oidConfList bufsiz s.joined [] := if_pos hjoined
    have hmain : s.step answers oidConfList bufsiz .main = s.mainStep := rfl
    by_cases hfull : bufsiz ≤ (s.output.buffer s.joined).length
    · exact ⟨.worker s.joined [], _, hworker.trans (if_pos hfull)⟩
    cases hplace : s.worker s.joined with
    | dequeue =>
        obtain ⟨waiting, hqueue, -⟩ := h.queue
        have hlive : 1 ≤ weight s.threads live s.worker := by
          have hle := @le_weight Worker s.threads live s.worker s.joined hjoined
          rwa [hplace] at hle
        refine ⟨.worker s.joined [], ?_⟩
        rw [hworker, workerStep, if_neg hfull, hplace]
        cases hq : s.queue with
        | nil =>
            rw [hq, eq_comm, List.append_eq_nil_iff, List.replicate_eq_nil_iff] at hqueue
            omega
        | cons host queue => cases host <;> exact ⟨_, rfl⟩
    | session host =>
        refine ⟨.worker s.joined [], ?_⟩
        rw [hworker, workerStep, if_neg hfull, hplace]
        cases hsession : answers.session host.node with
        | false => exact ⟨_, if_neg (by rw [hsession]; exact Bool.false_ne_true)⟩
        | true => exact ⟨_, if_pos hsession⟩
    | get host oids =>
        refine ⟨.worker s.joined [], ?_⟩
        rw [hworker, workerStep, if_neg hfull, hplace]
        cases oids <;> exact ⟨_, rfl⟩
    | ending =>
        refine ⟨.worker s.joined [], ?_⟩
        rw [hworker, workerStep, if_neg hfull, hplace]
        exact ⟨_, rfl⟩
    | ended =>
        refine ⟨.main, { s with joined := s.joined + 1 }, ?_⟩
        rw [hmain, mainStep, hclosed, if_neg Bool.false_ne_true, if_pos hjoined, hplace]
  · refine ⟨.main, { s with closed := true }, ?_⟩
    rw [show s.step answers oidConfList bufsiz .main = s.mainStep from rfl, mainStep, hclosed,
      if_neg Bool.false_ne_true, if_neg hjoined]

/-- When the output file is closed, all threads have ended. -/
theorem Inv.ended (h : Inv answers oidConfList hosts s) (hclosed : s.closed = true) :
    ∀ w < s.threads, s.worker w = .ended :=
  fun w hw => h.joined w (h.closed hclosed ▸ hw)

/-- All rows have been printed then. -/
theorem Inv.perm (h : Inv answers oidConfList hosts s) (hthreads : 0 < s.threads)
    (hclosed : s.closed = true) :
    (s.printed.map fun print => print.2.2) ~ answers.collectMib oidConfList hosts := by
  have hended := h.ended hclosed
  have hzero (f : Worker → Nat) (hf : f .ended = 0) : weight s.threads f s.worker = 0 := by
    by_contra hne
    obtain ⟨w, hw, hpos⟩ := exists_of_weight_pos (Nat.pos_of_ne_zero hne)
    rw [hended w hw, hf] at hpos
    exact Nat.lt_irrefl 0 hpos
  obtain ⟨waiting, hqueue, hempty⟩ := h.queue
  have hnil : s.queue = [] := by
    have hdead : live (s.worker 0) = 0 := by rw [hended 0 hthreads]; rfl
    rw [hqueue, hempty ⟨0, hthreads, hdead⟩, hzero live rfl]
    rfl
  refine List.perm_iff_count.mpr fun row => ?_
  have hrows := h.rows row
  rw [hnil, hzero _ rfl] at hrows
  exact hrows

end

end Control

/-! ### The two scripts -/

/-- **The threads print what the plain script prints.**  In whatever order they go on: they come to
an end, and the output file is closed then; the rows they have printed are, up to their order, those
of one thread, and those of `snmp_mib_collect.pl` if each line of the node list has three fields;
the pieces a thread has written are what it has printed; and the file consists of the rows if no
thread has filled its buffer. -/
theorem collectThreads_rows (answers : Answers) (bufsiz : ℕ+) (optT : Option Nat)
    (nodeConf oidConf : Str) :
    let oids := readOidListConf oidConf
    let hosts := (nodesOf nodeConf).map answers.threadHostOf
    let control := collectThreads answers oids bufsiz (threadsOf optT) hosts
    (¬ ∃ run : Nat → Control, run 0 = created (threadsOf optT) hosts ∧
        ∀ n, ∃ a, (run n).step answers oids bufsiz a = some (run (n + 1))) ∧
    ∀ s, control.Reach Machine.always s →
      (s.closed = false → ∃ a s', s.step answers oids bufsiz a = some s') ∧
      (s.closed = true →
        (s.printed.map fun print => print.2.2) ~ answers.collectMib oids hosts ∧
        ((∀ line ∈ nodesOf nodeConf, (confList line).length = 3) →
          (s.printed.map fun print => print.2.2) ~
            answers.collectMib oids ((nodesOf nodeConf).map answers.hostOf)) ∧
        (∀ w < s.threads, (s.output.pieces w).flatten = outputText (s.printedBy w)) ∧
        ((∀ w, (outputText (s.printedBy w)).length < bufsiz) →
          ∃ file, file ~ s.printed.map Prod.snd ∧ s.output.text = outputText file)) := by
  intro oids hosts control
  refine ⟨?_, fun s hs => ?_⟩
  · have hless (s s' : Control) (hstep : ∃ a, s.step answers oids bufsiz a = some s') :
        s'.left answers oids < s.left answers oids := by
      obtain ⟨a, hstep⟩ := hstep
      exact (Control.move_of_step hstep).left
    exact Machine.not_exists_run (R := fun s s' => ∃ a, s.step answers oids bufsiz a = some s')
      (I := fun _ => True) (Control.left answers oids)
      (fun s s' _ hstep => ⟨trivial, hless s s' hstep⟩) trivial
  have hinv : (Control.Inv answers oids hosts s ∧ s.Written bufsiz) ∧
      s.threads = threadsOf optT := by
    refine hs.invariant (P := fun s => (Control.Inv answers oids hosts s ∧ s.Written bufsiz) ∧
      s.threads = threadsOf optT) (fun s hstart => ?_) fun a s s' hs _ hstep => ?_
    · cases hstart
      exact ⟨⟨Control.inv_created _ _, Control.written_created _ _ _⟩, rfl⟩
    · have hmove := Control.move_of_step hstep
      refine ⟨⟨hmove.inv hs.1.1, hmove.written hs.1.2⟩, ?_⟩
      cases hmove <;> exact hs.2
  obtain ⟨⟨hinv, hwritten⟩, hthreads⟩ := hinv
  refine ⟨hinv.exists_step, fun hclosed => ?_⟩
  have hperm := hinv.perm (hthreads ▸ threadsOf_pos optT) hclosed
  have hended := hinv.ended hclosed
  refine ⟨hperm, fun hthree => ?_, fun w hw => ?_, hwritten.exists_file hended⟩
  · have hhosts : hosts = (nodesOf nodeConf).map answers.hostOf :=
      List.map_congr_left fun line hline =>
        (threadHostOf_eq_iff answers line).mpr (.inl (hthree line hline))
    rwa [hhosts] at hperm
  · rw [(hwritten.flushed w (hended w hw)).flatten_pieces, hwritten.stream]

end Realwork.Snmp.Mib.Threads
