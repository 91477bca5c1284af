import Mathlib.Data.List.Forall2
import Mathlib.Data.List.Induction
import Realwork.Lib.Fields
import Realwork.Lib.Pattern

/-!
# Reflect — the construction number in a pattern id

`ContainCstNo` of `update_control_time.pl`.  The number is pasted into a pattern, so its bytes act
as the pattern language has them act.

* `found_plain`: a number of plain bytes is found where a word stands that it matches letter by
  letter.
* `matchedLiterally_iff`: a number is matched literally if it has no operator, and only then if
  the pattern has a reading.
-/

namespace Realwork.Reflect

open Realwork.Lib

/-! ### The script -/

/-- `$pId=~s/\"$//`; the end of the text may be followed by a newline. -/
def dropQuote (pId : Str) : Str :=
  match pId.reverse with
  | 0x22 :: rest => rest.reverse
  | 0x0a :: 0x22 :: rest => rest.reverse ++ [0x0a]
  | _ => pId

/-- `$pId=~s/\"\"/\"/g`. -/
def halveQuotes : Str → Str
  | 0x22 :: 0x22 :: pId => 0x22 :: halveQuotes pId
  | b :: pId => b :: halveQuotes pId
  | [] => []

def cleanUp (pId : Str) : Str := halveQuotes (dropQuote pId)

/-- `$cNo=~/^\s?$/`. -/
def isNoNumber : Str → Bool
  | [] => true
  | [b] => isspace b
  | [b, 0x0a] => isspace b
  | _ => false

/-- `(^|\s)$cNo($|\s)`. -/
def wordPattern (cNo : Str) : Str := lit "(^|\\s)" ++ cNo ++ lit "($|\\s)"

/-- `ContainCstNo`, on the engine for patterns; `none` is that the script dies. -/
def containCstNo (perl : Str → Str → Option Bool) (pId cNo : Str) : Option Bool :=
  if isNoNumber cNo then some false else perl (wordPattern cNo) (cleanUp pId)

/-! ### What it is to do -/

/-- The number is found in a pattern id exactly if it is one of its words. -/
def MatchedLiterally (perl : Str → Str → Option Bool) (cNo : Str) : Prop :=
  ∀ pId, containCstNo perl pId cNo = some true ↔ cNo ∈ words isspace (cleanUp pId)

/-- A number without an operator. -/
def Literal (cNo : Str) : Prop := ∀ b ∈ cNo, isOperator b = false

instance : DecidablePred Literal := fun cNo =>
  inferInstanceAs (Decidable (∀ b ∈ cNo, isOperator b = false))

/-! ### The clean-up -/

theorem dropQuote_concat (pId : Str) : dropQuote (pId ++ [0x22]) = pId := by
  rw [dropQuote, List.reverse_concat]
  exact List.reverse_reverse pId

theorem halveQuotes_cons {b : UInt8} (hb : b ≠ 0x22) (pId : Str) :
    halveQuotes (b :: pId) = b :: halveQuotes pId := by
  rw [halveQuotes]
  rintro pId rfl
  exact absurd rfl hb

theorem halveQuotes_double (text : Str) :
    halveQuotes (text.flatMap fun b => if b = 0x22 then [0x22, 0x22] else [b]) = text := by
  induction text with
  | nil => rfl
  | cons b text ih =>
      rw [List.flatMap_cons]
      by_cases hb : b = 0x22
      · subst hb
        exact congrArg (0x22 :: ·) ih
      · rw [if_neg hb, List.singleton_append, halveQuotes_cons hb, ih]

/-- Every text is what a pattern id is cleaned up to. -/
theorem exists_cleanUp (text : Str) : ∃ pId, cleanUp pId = text :=
  ⟨_, by rw [cleanUp, dropQuote_concat, halveQuotes_double]⟩

section

variable {perl : Str → Str → Option Bool} {cNo : Str}

theorem isNoNumber_eq_false (hne : cNo ≠ []) (hspace : ∀ b ∈ cNo, isspace b = false) :
    isNoNumber cNo = false := by
  unfold isNoNumber
  split
  · exact absurd rfl hne
  · exact hspace _ (by simp)
  · exact hspace _ (by simp)
  · rfl

/-- The clean-up puts no restriction on the texts the pattern is tried on. -/
theorem matchedLiterally_iff_forall (hne : cNo ≠ []) (hspace : ∀ b ∈ cNo, isspace b = false) :
    MatchedLiterally perl cNo ↔
      ∀ text, perl (wordPattern cNo) text = some true ↔ cNo ∈ words isspace text := by
  have hcontain (pId : Str) : containCstNo perl pId cNo = perl (wordPattern cNo) (cleanUp pId) := by
    rw [containCstNo, isNoNumber_eq_false hne hspace, if_neg Bool.false_ne_true]
  constructor
  · intro h text
    obtain ⟨pId, rfl⟩ := exists_cleanUp text
    rw [← hcontain]
    exact h pId
  · intro h pId
    rw [hcontain]
    exact h (cleanUp pId)

end

/-! ### The pattern of a number -/

/-- `(^|\s)`. -/
def startPattern : Regex CharClass := (Regex.eps.seq .bol).alt (Regex.eps.seq (.atom .space))

/-- `($|\s)`. -/
def endPattern : Regex CharClass := (Regex.eps.seq .eol).alt (Regex.eps.seq (.atom .space))

def plainPattern (cNo : Str) : Regex CharClass :=
  ((Regex.eps.seq startPattern).atoms (cNo.map classOf)).seq endPattern

/-- The reader after `(^|\s)`. -/
def startReader : Reader := Reader.put startPattern {}

theorem foldlM_start : (lit "(^|\\s)").foldlM Reader.step {} = some startReader := rfl

theorem foldlM_end {s : Reader} (hs : s.escaped = false) :
    (lit "($|\\s)").foldlM Reader.step s = some (s.put endPattern) := by
  obtain ⟨outer, level, escaped⟩ := s
  cases hs
  rfl

/-- `($|\s)` after a backslash closes a group of the number. -/
theorem foldlM_end_escaped {s s' : Reader} (hs : s.escaped = true)
    (h : (lit "($|\\s)").foldlM Reader.step s = some s') :
    s.outer ≠ [] ∧ s'.letters ≤ s.letters := by
  obtain ⟨outer, level, escaped⟩ := s
  cases hs
  cases outer with
  | nil => cases h
  | cons l outer =>
      refine ⟨List.cons_ne_nil l outer, ?_⟩
      let group := ((level.put (.atom (.byte 0x28))).anchor .eol).bar.put (.atom .space)
      have hread : (lit "($|\\s)").foldlM Reader.step ⟨l :: outer, level, true⟩ =
          some ⟨outer, l.put group.alternatives, false⟩ := rfl
      rw [hread] at h
      cases h
      simp only [Reader.letters, Reader.outerLetters, group, Level.letters_put,
        Level.letters_alternatives, Level.letters_bar, Level.letters_anchor, Regex.letters,
        CharClass.weight, Bool.toNat_true, Bool.toNat_false]
      omega

theorem letters_end {s s' : Reader} (h : (lit "($|\\s)").foldlM Reader.step s = some s') :
    s'.letters ≤ s.letters := by
  cases hs : s.escaped with
  | true => exact (foldlM_end_escaped hs h).2
  | false =>
      rw [foldlM_end hs] at h
      cases h
      rw [Reader.letters_put]
      exact Nat.le_refl _

/-- The reading of the pattern goes through the number. -/
theorem foldlM_wordPattern (cNo : Str) :
    (wordPattern cNo).foldlM Reader.step {} =
      (cNo.foldlM Reader.step startReader).bind fun s => (lit "($|\\s)").foldlM Reader.step s := by
  rw [wordPattern, List.foldlM_append, List.foldlM_append, foldlM_start]
  rfl

theorem readPattern_plain {cNo : Str} (h : ∀ b ∈ cNo, isPlain b = true) :
    readPattern (wordPattern cNo) = some (plainPattern cNo) := by
  obtain ⟨level, hread, halts, hbranch⟩ := @foldlM_step_plain startReader rfl cNo h
  rw [readPattern, foldlM_wordPattern, hread, Option.bind_some, foldlM_end rfl, Option.bind_some]
  show some (level.put endPattern).alternatives = some (plainPattern cNo)
  rw [Level.alternatives_put halts, hbranch]
  rfl

/-- The letters of the pattern are those of the number, so they are as many only if all its bytes
are plain. -/
theorem plain_of_letters_le {cNo : Str} {r : Regex CharClass}
    (h : readPattern (wordPattern cNo) = some r) (hlen : cNo.length ≤ r.letters CharClass.weight) :
    ∀ b ∈ cNo, isPlain b = true := by
  rw [readPattern, foldlM_wordPattern, Option.bind_eq_some_iff] at h
  obtain ⟨s', h, hdone⟩ := h
  rw [Option.bind_eq_some_iff] at h
  obtain ⟨s, hread, hend⟩ := h
  have hle : r.letters CharClass.weight ≤ s'.letters := by
    rw [Reader.done] at hdone
    split at hdone
    · cases hdone
    · split at hdone
      · cases hdone
        rw [Level.letters_alternatives, Reader.letters]
        omega
      · cases hdone
  have hle' := letters_end hend
  have hstart : startReader.letters = 0 := rfl
  rcases Reader.plain_of_letters rfl hread (by omega) with hplain | ⟨m, rfl, hm⟩
  · exact hplain
  · -- A backslash at the end makes the bracket behind the number a letter of no group.
    obtain ⟨level, hm, -⟩ := @foldlM_step_plain startReader rfl m hm
    rw [List.foldlM_append, hm] at hread
    cases hread
    exact absurd rfl (foldlM_end_escaped rfl hend).1

/-! ### Where a number of plain bytes is found -/

theorem sat_startPattern {p q : Cursor UInt8} :
    startPattern.Sat perlReading p q ↔
      (p.before = [] ∧ q = p) ∨ ∃ a, isspace a = true ∧ Cursor.Past [a] p q := by
  simp [startPattern, Regex.Sat, perlReading]

theorem sat_endPattern {p q : Cursor UInt8} :
    endPattern.Sat perlReading p q ↔
      ((p.after = [] ∨ p.after = [0x0a]) ∧ q = p) ∨
        ∃ a, isspace a = true ∧ Cursor.Past [a] p q := by
  simp [endPattern, Regex.Sat, perlReading]

/-- **A number of plain bytes** is found where a word stands that it matches letter by letter. -/
theorem found_plain {cNo text : Str} : (plainPattern cNo).Found perlReading text ↔
    ∃ u s v, text = u ++ s ++ v ∧ Delimited isspace u v ∧
      List.Forall₂ (fun b a => perlReading.holds (classOf b) a = true) cNo s := by
  constructor
  · rintro ⟨p, q, rfl, m', hatoms, hend⟩
    obtain ⟨m, s, ⟨k, hk, hstart⟩, hs, hpast⟩ := Regex.sat_atoms.mp hatoms
    rw [List.forall₂_map_left_iff] at hs
    rw [show k = p from hk, sat_startPattern] at hstart
    rw [sat_endPattern] at hend
    refine ⟨m.before, s, m'.after, ?_, ⟨?_, ?_⟩, hs⟩
    · have htext : m.text = p.text := by
        rcases hstart with ⟨-, rfl⟩ | ⟨a, -, ha⟩
        · rfl
        · exact ha.text
      rw [← htext, Cursor.text, hpast.1, List.append_assoc]
    · rcases hstart with ⟨hbefore, rfl⟩ | ⟨a, ha, hpast⟩
      · simp [hbefore]
      · simpa [hpast.2] using ha
    · rcases hend with ⟨hafter | hafter, -⟩ | ⟨a, ha, hpast⟩
      · simp [hafter]
      · simp [hafter, isspace]
      · simpa [hpast.1] using ha
  · rintro ⟨u, s, v, rfl, hdelim, hs⟩
    have hstart : ∃ p : Cursor UInt8, p.text = u ++ s ++ v ∧
        startPattern.Sat perlReading p ⟨u, s ++ v⟩ := by
      cases u using List.reverseRecOn with
      | nil => exact ⟨⟨[], s ++ v⟩, rfl, sat_startPattern.mpr (.inl ⟨rfl, rfl⟩)⟩
      | append_singleton u a =>
          have ha : isspace a = true := hdelim.before a (by simp)
          exact ⟨⟨u, a :: (s ++ v)⟩, by simp [Cursor.text],
            sat_startPattern.mpr (.inr ⟨a, ha, rfl, rfl⟩)⟩
    have hend : ∃ q, endPattern.Sat perlReading ⟨u ++ s, v⟩ q := by
      cases v with
      | nil => exact ⟨_, sat_endPattern.mpr (.inl ⟨.inl rfl, rfl⟩)⟩
      | cons a v =>
          have ha : isspace a = true := hdelim.after a rfl
          exact ⟨⟨u ++ s ++ [a], v⟩, sat_endPattern.mpr (.inr ⟨a, ha, rfl, rfl⟩)⟩
    obtain ⟨p, htext, hp⟩ := hstart
    obtain ⟨q, hq⟩ := hend
    refine ⟨p, q, htext, _, Regex.sat_atoms.mpr ⟨⟨u, s ++ v⟩, s, ⟨p, rfl, hp⟩, ?_, rfl, rfl⟩, hq⟩
    rwa [List.forall₂_map_left_iff]

/-- A letter that is no operator matches itself only. -/
theorem forall₂_literal {cNo s : Str} (h : Literal cNo) :
    List.Forall₂ (fun b a => perlReading.holds (classOf b) a = true) cNo s ↔ s = cNo := by
  have hletter (b : UInt8) (hb : isOperator b = false) (a : UInt8) :
      perlReading.holds (classOf b) a = true ↔ a = b := by
    have hdot : b ≠ 0x2e := by
      rintro rfl
      exact absurd hb (by decide)
    rw [classOf, if_neg hdot]
    simp [perlReading]
  induction cNo generalizing s with
  | nil => rw [List.forall₂_nil_left_iff]
  | cons b cNo ih =>
      rw [Literal, List.forall_mem_cons] at h
      cases s with
      | nil => simp
      | cons a s =>
          rw [List.forall₂_cons, hletter b h.1, List.cons.injEq]
          exact and_congr_right fun _ => ih h.2

/-! ### Literal numbers -/

section

variable {perl : Str → Str → Option Bool} {cNo : Str}

/-- A number without an operator is found as a word. -/
theorem matchedLiterally_of_literal (hperl : FollowsReading perl) (hne : cNo ≠ [])
    (hspace : ∀ b ∈ cNo, isspace b = false) (h : Literal cNo) : MatchedLiterally perl cNo := by
  rw [matchedLiterally_iff_forall hne hspace]
  intro text
  have hplain : ∀ b ∈ cNo, isPlain b = true := fun b hb => by simp [isPlain, h b hb]
  rw [hperl.reading _ _ (readPattern_plain hplain), Option.some_inj, Regex.search_iff, found_plain,
    mem_words]
  constructor
  · rintro ⟨u, s, v, rfl, hdelim, hs⟩
    rw [forall₂_literal h] at hs
    exact ⟨hne, hspace, u, v, by rw [hs], hdelim⟩
  · rintro ⟨-, -, u, v, rfl, hdelim⟩
    exact ⟨u, cNo, v, rfl, hdelim, (forall₂_literal h).mpr rfl⟩

/-- A dot is found in a text that has another byte in its place. -/
def undotted (cNo : Str) : Str := cNo.map fun b => if b = 0x2e then 0x21 else b

theorem forall₂_undotted (cNo : Str) :
    List.Forall₂ (fun b a => perlReading.holds (classOf b) a = true) cNo (undotted cNo) := by
  rw [undotted, List.forall₂_map_right_iff, List.forall₂_same]
  intro b _
  by_cases hb : b = 0x2e
  · subst hb
    decide
  · rw [classOf, if_neg hb, if_neg hb]
    simp [perlReading]

/-- A word of a text is no longer than the text, and is the text if it is as long. -/
theorem word_length {w text : Str} (h : w ∈ words isspace text) :
    w.length ≤ text.length ∧ (text.length ≤ w.length → text = w) := by
  obtain ⟨-, -, u, v, rfl, -⟩ := mem_words.mp h
  simp only [List.length_append]
  refine ⟨by omega, fun hle => ?_⟩
  rw [List.length_eq_zero_iff.mp (by omega : u.length = 0),
    List.length_eq_zero_iff.mp (by omega : v.length = 0), List.nil_append, List.append_nil]

/-- A number that is matched literally has no operator, if the pattern has a reading: a text that
the pattern is found in can be shrunk to as many bytes as the number has letters. -/
theorem literal_of_matchedLiterally (hperl : FollowsReading perl) (hne : cNo ≠ [])
    (hspace : ∀ b ∈ cNo, isspace b = false) {r : Regex CharClass}
    (hread : readPattern (wordPattern cNo) = some r) (h : MatchedLiterally perl cNo) :
    Literal cNo := by
  have hfound (text : Str) : r.Found perlReading text ↔ cNo ∈ words isspace text := by
    rw [← (matchedLiterally_iff_forall hne hspace).mp h text, hperl.reading _ _ hread,
      Option.some_inj, Regex.search_iff]
  have hself : cNo ∈ words isspace cNo :=
    mem_words.mpr ⟨hne, hspace, [], [], by simp, by simp, by simp⟩
  have hweight (c : CharClass) (a : UInt8) (ha : a ∈ cNo) (hc : perlReading.holds c a = true) :
      1 ≤ CharClass.weight c := by
    cases c with
    | byte b => exact Nat.le_refl 1
    | any => exact Nat.le_refl 1
    | space => exact absurd (hspace a ha) (by simpa [perlReading] using hc)
  have hends (v : Str) (hv : v <:+ cNo) (hend : perlReading.ends v = true) : v = [] := by
    simp only [perlReading, Bool.or_eq_true, decide_eq_true_eq] at hend
    rcases hend with hend | rfl
    · exact hend
    · exact absurd (hspace 0x0a (hv.subset List.mem_cons_self)) (by decide)
  have hplain : ∀ b ∈ cNo, isPlain b = true := by
    obtain ⟨s, hlen, -, hs⟩ := ((hfound cNo).mpr hself).shrink hweight rfl hends
    exact plain_of_letters_le hread ((word_length ((hfound s).mp hs)).1.trans hlen)
  -- What is left is that a dot is found in place of another byte.
  intro b hb
  by_contra hop
  have hdot : b = 0x2e := by
    have := hplain b hb
    simp_all [isPlain]
  have hr : r = plainPattern cNo := Option.some.inj (hread.symm.trans (readPattern_plain hplain))
  have hword : cNo ∈ words isspace (undotted cNo) := by
    rw [← hfound, hr, found_plain]
    exact ⟨[], undotted cNo, [], by simp, ⟨by simp, by simp⟩, forall₂_undotted cNo⟩
  have heq : undotted cNo = cNo := (word_length hword).2 (by simp [undotted])
  have hmem : (0x2e : UInt8) ∈ undotted cNo := heq.symm ▸ hdot ▸ hb
  rw [undotted, List.mem_map] at hmem
  obtain ⟨a, -, ha⟩ := hmem
  split at ha
  · exact absurd ha (by decide)
  · contradiction

/-- **A number without an operator is matched literally.**  One with an operator is not, if its
pattern has a reading or an unmatched bracket. -/
theorem matchedLiterally_iff (hperl : FollowsReading perl) (hne : cNo ≠ [])
    (hspace : ∀ b ∈ cNo, isspace b = false) :
    (Literal cNo → MatchedLiterally perl cNo) ∧
      ((readPattern (wordPattern cNo)).isSome ∨ Unmatched (wordPattern cNo) →
        MatchedLiterally perl cNo → Literal cNo) := by
  refine ⟨matchedLiterally_of_literal hperl hne hspace, ?_⟩
  rintro (hread | hunmatched) h
  · obtain ⟨r, hread⟩ := Option.isSome_iff_exists.mp hread
    exact literal_of_matchedLiterally hperl hne hspace hread h
  · -- The script dies where the number is to be found.
    have hself : cNo ∈ words isspace cNo :=
      mem_words.mpr ⟨hne, hspace, [], [], by simp, by simp, by simp⟩
    have hfound := ((matchedLiterally_iff_forall hne hspace).mp h cNo).mpr hself
    rw [hperl.unmatched _ hunmatched] at hfound
    cases hfound

end

theorem matchedLiterally_iff_hyphen : MatchedLiterally perlEngine (lit "A1-1") ∧
    ¬ MatchedLiterally perlEngine (lit "A(1-1") := by
  constructor
  · exact (matchedLiterally_iff perlEngine_follows (by decide +kernel) (by decide +kernel)).1
      (by decide +kernel)
  · intro h
    have hliteral : Literal (lit "A(1-1") :=
      (matchedLiterally_iff perlEngine_follows (by decide +kernel) (by decide +kernel)).2
        (.inr (.inr ⟨_, rfl, by decide +kernel⟩)) h
    revert hliteral
    decide +kernel

/-- The dot of a number matches another letter. -/
theorem not_matchedLiterally_dot : ¬ MatchedLiterally perlEngine (lit "A.1-1") := by
  intro h
  have hword : lit "A.1-1" ∈ words isspace (cleanUp (lit "AB1-1")) :=
    (h (lit "AB1-1")).mp (by decide +kernel)
  revert hword
  decide +kernel

end Realwork.Reflect
