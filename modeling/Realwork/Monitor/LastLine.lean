import Realwork.Lib.Fields
import Realwork.Lib.Loop
import Realwork.Monitor.EndLine

/-!
# Monitor — the backward scan

`LogAnalyzer::ReadLastLineOfFile` on the file it has open: it reads a byte and seeks two back, in
one loop for the returns at the end and another one around it for the last line.

* `scanLastLine_eq`: the loops end, where `lastLineFrom` says.
* `readLastLine_iff`: when the last line is found.
-/

namespace Realwork.Monitor

open Realwork.Lib Realwork.Common

/-! ### The file -/

/-- A `FILE` that is open for reading. -/
structure File where
  content : Str
  pos : Nat := 0
  eof : Bool := false

namespace File

/-- `fseek`, to a place counted from the start; before the start it is an error, which changes
nothing. -/
def seek (offset : Int) (fp : File) : File :=
  if 0 ≤ offset then { fp with pos := offset.toNat, eof := false } else fp

/-- `fseek(fp, offset, SEEK_END)` -/
def seekEnd (offset : Int) (fp : File) : File := fp.seek (fp.content.length + offset)

/-- `fseek(fp, offset, SEEK_CUR)` -/
def seekCur (offset : Int) (fp : File) : File := fp.seek (fp.pos + offset)

/-- `fgetc(fp)`; `none` is `EOF`. -/
def getc (fp : File) : Option UInt8 × File :=
  match fp.content[fp.pos]? with
  | some c => (some c, { fp with pos := fp.pos + 1 })
  | none => (none, { fp with eof := true })

end File

/-! ### The loops -/

/-- The variables of the loops. -/
structure Scan where
  fp : File
  c : Option UInt8
  rtCharFlag : Bool

/-- A round of the inner loop, which skips the lines that have only returns. -/
def skipRound (s : Scan) : Scan ⊕ Scan :=
  if s.rtCharFlag ∧ s.c.any isReturn then
    let fp := s.fp.seekCur (-1)
    if fp.pos = 0 then .inr { s with fp }
    else
      let fp := fp.seekCur (-1)
      if fp.pos = 0 then .inr { s with fp }
      else
        let (c, fp) := fp.getc
        if fp.eof then .inr { fp := fp.seekCur (-2), c, rtCharFlag := false }
        else .inl { s with fp, c }
  else .inr s

/-- The outer loop goes back over a byte. -/
def goBack (fp : File) : File × Bool ⊕ Option File :=
  let fp := fp.seekCur (-1)
  if fp.pos = 0 then .inr (some fp)
  else
    let fp := fp.seekCur (-1)
    if fp.pos = 0 then .inr (some fp) else .inl (fp, false)

/-- A round of the outer loop, in which the inner one may take `n` rounds; `none` if these are not
enough. -/
def scanRound (n : Nat) (s : File × Bool) : File × Bool ⊕ Option File :=
  let (c, fp) := s.1.getc
  match rounds skipRound n { fp, c, rtCharFlag := s.2 } with
  | none => .inr none
  | some s => if s.c.any isReturn then .inr (some s.fp) else goBack s.fp

/-- `ReadLastLineOfFile` of a file that can be opened; `none` if `n` rounds are not enough for a
loop. -/
def scanLastLine (n : Nat) (content : Str) : Option Str :=
  ((rounds (scanRound n) n (File.seekEnd (-1) { content }, true)).join).map fun fp =>
    bufferedLine (takeLine newline lineBuffSize (fp.content.drop fp.pos))

/-! ### Where the loops stop -/

section

variable {content : Str} {p target n : Nat} {rtCharFlag : Bool}

/-- The file at a place. -/
def File.at (content : Str) (pos : Nat) : File := { content, pos }

theorem getc_at (hp : p < content.length) :
    (File.at content p).getc = (some (content.getD p 0), File.at content (p + 1)) := by
  rw [File.getc, File.at, List.getElem?_eq_getElem hp, List.getD_eq_getElem _ _ hp]
  rfl

theorem seekCur_at (p : Nat) : (File.at content (p + 1)).seekCur (-1) = File.at content p := by
  have hback : ((p + 1 : Nat) : Int) + -1 = p := by omega
  rw [File.seekCur, File.seek, File.at, hback, if_pos (Int.natCast_nonneg p)]
  rfl

/-- The byte at a place has just been read. -/
def Scan.read (content : Str) (p : Nat) (rtCharFlag : Bool) : Scan :=
  { fp := .at content (p + 1), c := some (content.getD p 0), rtCharFlag }

theorem any_read (p : Nat) :
    (Scan.read content p rtCharFlag).c.any isReturn = isReturn (content.getD p 0) := rfl

theorem goBack_at (p : Nat) :
    goBack (.at content (p + 1)) =
      if p ≤ 1 then .inr (some (.at content 0)) else .inl (.at content (p - 1), false) := by
  rw [goBack, seekCur_at]
  match p with
  | 0 => rfl
  | 1 =>
      dsimp only
      rw [seekCur_at]
      rfl
  | p + 2 =>
      dsimp only
      rw [seekCur_at]
      rfl

/-- A round of the inner loop at a return. -/
theorem skipRound_read (hp : p < content.length) (hreturn : isReturn (content.getD p 0) = true) :
    skipRound (.read content p true) =
      if p ≤ 1 then .inr { Scan.read content p true with fp := .at content 0 }
      else .inl (.read content (p - 1) true) := by
  rw [skipRound, if_pos ⟨rfl, hreturn⟩, Scan.read, seekCur_at]
  match p with
  | 0 => rfl
  | 1 =>
      dsimp only
      rw [seekCur_at]
      rfl
  | p + 2 =>
      dsimp only
      rw [seekCur_at, getc_at (by omega)]
      rfl

theorem skipRound_leaves (h : isReturn (content.getD p 0) = true → rtCharFlag = false) :
    skipRound (.read content p rtCharFlag) = .inr (.read content p rtCharFlag) := by
  refine if_neg fun ⟨hflag, hreturn⟩ => ?_
  rw [Scan.read, h hreturn] at hflag
  cases hflag

theorem lastLineFrom_true_of_le (hp : p ≤ 1) : lastLineFrom content true p = 0 := by
  match p with
  | 0 => simp [lastLineFrom]
  | 1 => simp [lastLineFrom]

/-- **The inner loop** stops at the start of the file, or when it has read the last byte that is
not a return. -/
theorem rounds_skipRound (hp : p < content.length) (hn : p < n) :
    ∃ s, rounds skipRound n (.read content p true) = some s ∧
      ((s.c.any isReturn = true ∧ s.fp = .at content 0 ∧ lastLineFrom content true p = 0) ∨
        ∃ q ≤ p, s = .read content q true ∧ isReturn (content.getD q 0) = false ∧
          lastLineFrom content true p = lastLineFrom content true q) := by
  refine rounds_spec (fun s => s.fp.pos - 1) (I := fun s => ∃ q ≤ p, s = .read content q true ∧
    lastLineFrom content true p = lastLineFrom content true q) ?_ ?_ ⟨p, Nat.le_refl p, rfl, rfl⟩ hn
  · rintro s s' ⟨q, hq, rfl, hstop⟩ hround
    by_cases hreturn : isReturn (content.getD q 0) = true
    · rw [skipRound_read (by omega) hreturn] at hround
      split at hround
      · cases hround
      · cases hround
        obtain ⟨i, rfl⟩ : ∃ i, q = i + 2 := Nat.exists_eq_add_of_le' (by omega)
        refine ⟨⟨i + 1, by omega, rfl, ?_⟩, Nat.lt_succ_self (i + 1)⟩
        rw [hstop, lastLineFrom, if_pos hreturn, if_pos rfl]
    · rw [skipRound_leaves fun h => absurd h hreturn] at hround
      cases hround
  · rintro s s' ⟨q, hq, rfl, hstop⟩ hround
    by_cases hreturn : isReturn (content.getD q 0) = true
    · rw [skipRound_read (by omega) hreturn] at hround
      split at hround
      · rename_i hle
        cases hround
        exact .inl ⟨hreturn, rfl, hstop.trans (lastLineFrom_true_of_le hle)⟩
      · cases hround
    · rw [skipRound_leaves fun h => absurd h hreturn] at hround
      cases hround
      exact .inr ⟨q, hq, rfl, by simpa using hreturn, hstop⟩

/-- The last line begins behind a return. -/
theorem lastLineFrom_of_return (h : isReturn (content.getD p 0) = true) :
    lastLineFrom content false p = p + 1 := by
  cases p with
  | zero => simp only [lastLineFrom, h]; rfl
  | succ p => exact lastLineFrom_stop h

/-- The step back over a byte of the last line. -/
theorem goBack_lastLineFrom (h : isReturn (content.getD p 0) = false) :
    goBack (.at content (p + 1)) =
        .inr (some (.at content (lastLineFrom content rtCharFlag p))) ∨
      ∃ q < p, goBack (.at content (p + 1)) = .inl (.at content q, false) ∧
        lastLineFrom content rtCharFlag p = lastLineFrom content false q := by
  rw [goBack_at]
  match p, h with
  | 0, h => exact .inl (by simp only [lastLineFrom, h]; rfl)
  | 1, h => exact .inl (by simp only [lastLineFrom, h]; rfl)
  | p + 2, h => exact .inr ⟨p + 1, Nat.lt_succ_self _, rfl, lastLineFrom_back h⟩

/-- **A round of the outer loop.** -/
theorem scanRound_at (hp : p < content.length) (hn : p < n) :
    scanRound n (.at content p, rtCharFlag) =
        .inr (some (.at content (lastLineFrom content rtCharFlag p))) ∨
      ∃ q < p, scanRound n (.at content p, rtCharFlag) = .inl (.at content q, false) ∧
        lastLineFrom content rtCharFlag p = lastLineFrom content false q := by
  have hread : ({ fp := .at content (p + 1), c := some (content.getD p 0), rtCharFlag } : Scan) =
      .read content p rtCharFlag := rfl
  rw [scanRound, getc_at hp]
  dsimp only
  rw [hread]
  cases rtCharFlag with
  | true =>
      obtain ⟨s, hs, ⟨hreturn, hfp, hstop⟩ | ⟨q, hq, rfl, hbyte, hstop⟩⟩ := rounds_skipRound hp hn
      · left
        rw [hs]
        dsimp only
        rw [if_pos hreturn, hfp, hstop]
      · rw [hs, hstop]
        dsimp only
        rw [any_read, hbyte, if_neg Bool.false_ne_true]
        obtain hleft | ⟨q', hq', hround, hstop'⟩ := @goBack_lastLineFrom content q true hbyte
        · exact .inl hleft
        · exact .inr ⟨q', by omega, hround, hstop'⟩
  | false =>
      obtain ⟨n, rfl⟩ := Nat.exists_eq_add_of_le' (Nat.succ_le_of_lt (p.zero_le.trans_lt hn))
      rw [rounds, skipRound_leaves fun _ => rfl]
      dsimp only
      rw [any_read]
      by_cases hbyte : isReturn (content.getD p 0) = true
      · left
        rw [if_pos hbyte, lastLineFrom_of_return hbyte]
        rfl
      · rw [if_neg hbyte]
        exact goBack_lastLineFrom (by simpa using hbyte)

/-- **The outer loop** stops where `lastLineFrom` says. -/
theorem rounds_scanRound (hp : p < content.length) (hn : content.length ≤ n) :
    rounds (scanRound n) n (.at content p, rtCharFlag) =
      some (some (.at content (lastLineFrom content rtCharFlag p))) := by
  set stop := lastLineFrom content rtCharFlag p with hstop
  have hscan : ∃ r, rounds (scanRound n) n (.at content p, rtCharFlag) = some r ∧
      r = some (.at content stop) := by
    refine rounds_spec (fun s => s.1.pos) (I := fun s => ∃ p < content.length,
      s.1 = .at content p ∧ lastLineFrom content s.2 p = stop) ?_ ?_ ⟨p, hp, rfl, rfl⟩
      (hp.trans_le hn)
    · rintro ⟨fp, rtCharFlag⟩ s' ⟨p, hp, rfl, hfrom⟩ hround
      obtain hleft | ⟨q, hq, hnext, hback⟩ :=
        @scanRound_at content p n rtCharFlag hp (hp.trans_le hn)
      · rw [hleft] at hround
        cases hround
      · rw [hnext] at hround
        cases hround
        exact ⟨⟨q, hq.trans hp, rfl, hback.symm.trans hfrom⟩, hq⟩
    · rintro ⟨fp, rtCharFlag⟩ r ⟨p, hp, rfl, hfrom⟩ hround
      obtain hleft | ⟨q, hq, hnext, hback⟩ :=
        @scanRound_at content p n rtCharFlag hp (hp.trans_le hn)
      · rw [hleft] at hround
        cases hround
        rw [← hfrom]
      · rw [hnext] at hround
        cases hround
  obtain ⟨r, hr, rfl⟩ := hscan
  exact hr

/-- The scan starts at the last byte. -/
theorem seekEnd_last (hlen : 0 < content.length) :
    File.seekEnd (-1) { content } = .at content (content.length - 1) := by
  have hback : (content.length : Int) + -1 = (content.length - 1 : Nat) := by omega
  rw [File.seekEnd, File.seek, hback, if_pos (Int.natCast_nonneg _)]
  rfl

/-- **The scan** ends, with the line that is read where `lastLineFrom` says. -/
theorem scanLastLine_eq (content : Str) (hn : content.length < n) :
    scanLastLine n content = some (readLastLineOfFile content) := by
  by_cases hnil : content = []
  · -- the first byte is the end of the file already
    obtain ⟨n, rfl⟩ := Nat.exists_eq_add_of_le' (Nat.succ_le_of_lt ((Nat.zero_le _).trans_lt hn))
    rw [hnil]
    rfl
  · have hlen : 0 < content.length := List.length_pos_iff.mpr hnil
    rw [scanLastLine, seekEnd_last hlen, rounds_scanRound (Nat.sub_lt hlen Nat.one_pos) hn.le,
      readLastLineOfFile, if_neg hnil]
    rfl

end

/-! ### The last line -/

/-- The last line that has a byte other than the returns, without its line end. -/
def lastTextLine (content : Str) : Str := (words isReturn content).getLast?.getD []

/-- A return is the first byte, and the only line with other bytes begins behind it. -/
def BehindReturn (content : Str) : Prop :=
  ∃ first text rets, content = first :: text ++ rets ∧ isReturn first = true ∧ text ≠ [] ∧
    (∀ b ∈ text, isReturn b = false) ∧ ∀ b ∈ rets, isReturn b = true

section

variable {content before text rets : Str}

theorem Parts.body_eq (h : Parts content before text rets) :
    content.rdropWhile isReturn = before ++ text := by
  rw [h.eq]
  refine rdropWhile_append (fun b hb => ?_) h.returns
  by_cases hnil : text = []
  · rw [hnil, h.nil hnil] at hb
    cases hb
  · rw [List.getLast?_append_of_ne_nil _ hnil] at hb
    exact h.line b (List.mem_of_getLast? hb)

/-- The parts of a file are the only ones. -/
theorem Parts.before_eq (h : Parts content before text rets) : before = beforeLast content := by
  rw [beforeLast, h.body_eq]
  refine (rdropWhile_append (fun b hb => ?_) fun b hb => ?_).symm
  · rw [h.ends b hb]
    rfl
  · rw [h.line b hb]
    rfl

theorem behindReturn_iff (h : Parts content before text rets) :
    BehindReturn content ↔ before.length = 1 := by
  constructor
  · rintro ⟨first, text', rets', heq, hfirst, hne, htext, hrets⟩
    have h' : Parts content [first] text' rets' := by
      refine ⟨heq, fun b hb => ?_, htext, hrets, fun hnil => absurd hnil hne⟩
      rw [List.getLast?_singleton, Option.mem_some_iff] at hb
      exact hb ▸ hfirst
    rw [h.before_eq, ← h'.before_eq, List.length_singleton]
  · intro hone
    obtain ⟨first, rfl⟩ := List.length_eq_one_iff.mp hone
    refine ⟨first, text, rets, h.eq, h.ends first rfl, fun hnil => ?_, h.line, h.returns⟩
    exact absurd (h.nil hnil) (List.cons_ne_nil _ _)

theorem Parts.lastTextLine_eq (h : Parts content before text rets) :
    lastTextLine content = text := by
  by_cases hnil : text = []
  · have hwords : words isReturn content = [] := by
      refine words_eq_nil fun b hb => h.returns b ?_
      rwa [h.eq, h.nil hnil, hnil] at hb
    rw [lastTextLine, hwords, hnil]
    rfl
  have hrets : words isReturn (text ++ rets) = [text] := by
    cases rets with
    | nil => rw [List.append_nil, words_eq_singleton hnil h.line]
    | cons r rets =>
        obtain ⟨hr, hrets⟩ := List.forall_mem_cons.mp h.returns
        rw [words_append_cons hr, words_eq_singleton hnil h.line, words_eq_nil hrets]
        rfl
  have hlast : ∃ ws, words isReturn content = ws ++ [text] := by
    rw [h.eq]
    rcases List.eq_nil_or_concat' before with rfl | ⟨before, b, rfl⟩
    · exact ⟨[], hrets⟩
    · have hb : isReturn b = true := h.ends b List.getLast?_concat
      rw [List.append_assoc, List.append_assoc, List.singleton_append, words_append_cons hb, hrets]
      exact ⟨_, rfl⟩
  obtain ⟨ws, hws⟩ := hlast
  rw [lastTextLine, hws, List.getLast?_concat]
  rfl

theorem length_lastTextLine_le {max : Nat} (h : ∀ l ∈ words isReturn content, l.length ≤ max) :
    (lastTextLine content).length ≤ max := by
  rw [lastTextLine]
  cases hwords : (words isReturn content).getLast? with
  | none => exact Nat.zero_le max
  | some l => exact h l (List.mem_of_getLast? hwords)

/-- Only returns are cut off a text that has no NUL, and behind a NUL nothing is left. -/
theorem bufferedLine_append (htext : ∀ b ∈ text, isReturn b = false)
    (hrets : ∀ b ∈ rets, isReturn b = true) : bufferedLine (text ++ rets) = text ↔ 0 ∉ text := by
  constructor
  · intro heq hzero
    have hfront : bufferedLine (text ++ rets) <+: cstr (text ++ rets) :=
      List.rdropWhile_prefix isReturn _
    rw [heq] at hfront
    have hnonzero := List.mem_takeWhile_imp (hfront.subset hzero)
    exact absurd hnonzero (by decide)
  · intro hzero
    have hzero' : 0 ∉ text ++ rets := by
      rw [List.mem_append, not_or]
      exact ⟨hzero, fun hmem => absurd (hrets 0 hmem) (by decide)⟩
    rw [bufferedLine, cstr_eq_self hzero']
    exact rdropWhile_append (fun b hb => htext b (List.mem_of_getLast? hb)) hrets

/-- What begins with a return is not the text behind it. -/
theorem bufferedLine_takeLine_ne {first : UInt8} (hfirst : isReturn first = true) (hnil : text ≠ [])
    (htext : ∀ b ∈ text, isReturn b = false) (n : Nat) (s : Str) :
    bufferedLine (takeLine newline (n + 1) (first :: s)) ≠ text := by
  intro heq
  obtain ⟨taken, htaken⟩ : ∃ taken, takeLine newline (n + 1) (first :: s) = first :: taken := by
    rw [takeLine]
    split
    · exact ⟨_, rfl⟩
    · exact ⟨_, rfl⟩
  have hnonzero : (first != 0) = true := by
    rw [bne_iff_ne]
    rintro rfl
    exact absurd hfirst (by decide)
  have hfront : text <+: first :: cstr taken := by
    have hcut : bufferedLine (first :: taken) <+: cstr (first :: taken) :=
      List.rdropWhile_prefix isReturn _
    rw [htaken] at heq
    rwa [heq, cstr, List.takeWhile_cons_of_pos (by exact hnonzero)] at hcut
  obtain ⟨b, text, rfl⟩ := List.exists_cons_of_ne_nil hnil
  obtain ⟨rfl, -⟩ := List.cons_prefix_cons.mp hfront
  rw [htext b List.mem_cons_self] at hfirst
  cases hfirst

end

/-- **The last line is found** exactly if it is not the only one with a return before it that is
the first byte, and has no NUL. -/
theorem readLastLine_iff {content : Str}
    (hlines : ∀ l ∈ words isReturn content, l.length ≤ lineBuffSize) :
    ∃ lastline, (∀ n, content.length < n → scanLastLine n content = some lastline) ∧
      (lastline = lastTextLine content ↔
        ¬ BehindReturn content ∧ 0 ∉ lastTextLine content) := by
  refine ⟨_, fun n hn => scanLastLine_eq content hn, ?_⟩
  have h := parts content
  rw [h.readLastLineOfFile, h.lastTextLine_eq, behindReturn_iff h]
  set before := beforeLast content
  set text := lastBytes content
  set rets := content.rtakeWhile isReturn
  by_cases hone : before.length = 1
  · -- what is read begins with the return
    have hnil : text ≠ [] := fun hnil => by simp [h.nil hnil] at hone
    obtain ⟨first, hfirst⟩ := List.length_eq_one_iff.mp hone
    refine iff_of_false ?_ fun h => h.1 hone
    rw [if_pos hone, hfirst]
    exact bufferedLine_takeLine_ne (h.ends first (by rw [hfirst]; rfl)) hnil h.line _ _
  · rw [if_neg hone, and_iff_right hone]
    obtain ⟨returns, hreturns, htake⟩ := takeLine_returns (s := text) h.returns lineBuffSize
    have hline : text.takeWhile (· ≠ newline) = text := by
      refine List.takeWhile_eq_self_iff.mpr fun b hb => decide_eq_true ?_
      rintro rfl
      exact absurd (h.line newline hb) (by decide)
    have hshort : text.length ≤ lineBuffSize := h.lastTextLine_eq ▸ length_lastTextLine_le hlines
    rw [htake, hline, List.take_of_length_le hshort]
    exact bufferedLine_append h.line hreturns

/-- Two lines, and an empty one. -/
theorem readLastLine_iff_twoLines :
    ∃ lastline, (∀ n, 6 < n → scanLastLine n (lit "ab\nc\n\n") = some lastline) ∧
      (lastline = lastTextLine (lit "ab\nc\n\n") ↔
        ¬ BehindReturn (lit "ab\nc\n\n") ∧ 0 ∉ lastTextLine (lit "ab\nc\n\n")) :=
  @readLastLine_iff (lit "ab\nc\n\n") (by decide +kernel)

/-- The only line is behind an empty one, and the empty one is read. -/
theorem readLastLine_behindReturn :
    (∀ l ∈ words isReturn (lit "\nb\n"), l.length ≤ lineBuffSize) ∧
      (∀ n, 3 < n → scanLastLine n (lit "\nb\n") = some []) ∧
      lastTextLine (lit "\nb\n") = lit "b" := by
  refine ⟨by decide +kernel, fun n hn => (scanLastLine_eq (lit "\nb\n") hn).trans ?_,
    by decide +kernel⟩
  decide +kernel

end Realwork.Monitor
