import Realwork.Receive.Threads

/-!
# Receive — the repair of any text

`WSaxXml::FixChar` on texts that need not be EUC-JP: what the loop takes for characters, and what
it does with the beginning of a character at the end of a text (`Cuts`).

* `fixChar_cut`: the text after `FixChar`.
* `fixChar_inside_iff`: when every index it uses is inside of the buffer.
* `memBuf_length_iff`: when the parser is handed the length of the text it is handed.
* `fixChar_images`: on EUC-JP text, the images of the characters; what is not read yet is never
  written over.
-/

namespace Realwork.Receive

/-! ### What the loop takes for characters -/

/-- A byte with which the loop goes over more than one byte. -/
def IsLead (b : UInt8) : Prop := (0xa1 ≤ b ∧ b ≤ 0xfe) ∨ b = 0x8e ∨ b = 0x8f

/-- The beginning of a character at the end of a text, or nothing. -/
inductive Partial : Str → Prop where
  | none : Partial []
  | lead {b : UInt8} (h : IsLead b) : Partial [b]
  | triple (t : UInt8) : Partial [0x8f, t]

/-- The loop of `FixChar` takes the bytes of `text` for characters, and `tail` is what is left. -/
structure Cuts (source : Str) (text : List EucChar) (tail : Str) : Prop where
  source_eq : source = text.flatMap EucChar.bytes ++ tail
  cut : ∀ c ∈ text, c.Cut
  tail : Partial tail

theorem Cuts.cons {source : Str} {text : List EucChar} {tail : Str} (h : Cuts source text tail)
    {c : EucChar} (hc : c.Cut) : Cuts (c.bytes ++ source) (c :: text) tail where
  source_eq := by
    rw [h.source_eq, List.flatMap_cons, List.append_assoc]
  cut := List.forall_mem_cons.mpr ⟨hc, h.cut⟩
  tail := h.tail

/-- **Every text** is cut in some way. -/
theorem exists_cuts (source : Str) : ∃ text tail, Cuts source text tail := by
  induction hn : source.length using Nat.strong_induction_on generalizing source with
  | _ n ih =>
      -- the character at the front, if all of it is there
      have hfront : ∀ (c : EucChar) (rest : Str), c.Cut → source = c.bytes ++ rest →
          ∃ text tail, Cuts source text tail := by
        intro c rest hc hsource
        have hpos := c.bytes_length_pos
        obtain ⟨text, tail, h⟩ := ih rest.length (by rw [← hn, hsource]; simp; omega) rest rfl
        exact ⟨c :: text, tail, hsource ▸ h.cons hc⟩
      rcases source with _ | ⟨b, rest⟩
      · exact ⟨[], [], rfl, by simp, .none⟩
      by_cases hpair : 0xa1 ≤ b ∧ b ≤ 0xfe
      · rcases rest with _ | ⟨t, rest⟩
        · exact ⟨[], [b], rfl, by simp, .lead (.inl hpair)⟩
        · exact hfront (.pair b t) rest hpair rfl
      by_cases hkana : b = 0x8e
      · subst hkana
        rcases rest with _ | ⟨t, rest⟩
        · exact ⟨[], [0x8e], rfl, by simp, .lead (.inr (.inl rfl))⟩
        · exact hfront (.kana t) rest trivial rfl
      by_cases htriple : b = 0x8f
      · subst htriple
        rcases rest with _ | ⟨t, _ | ⟨u, rest⟩⟩
        · exact ⟨[], [0x8f], rfl, by simp, .lead (.inr (.inr rfl))⟩
        · exact ⟨[], [0x8f, t], rfl, by simp, .triple t⟩
        · exact hfront (.triple t u) rest trivial rfl
      · exact hfront (.ascii b) rest ⟨hpair, hkana, htriple⟩ rfl

/-- The characters of EUC-JP: a byte below `0x80`, `0x8e` and a byte, `0x8f` and two bytes, and two
bytes of the rows. -/
def EucChar.InCode : EucChar → Prop
  | ascii b => b < 0x80
  | pair lead trail => (0xa1 ≤ lead ∧ lead ≤ 0xfe) ∧ 0xa1 ≤ trail ∧ trail ≤ 0xfe
  | _ => True

theorem EucChar.InCode.cut {c : EucChar} (h : c.InCode) : c.Cut := by
  cases c with
  | ascii b =>
      have hlow : b < 0x80 := h
      show ¬ (0xa1 ≤ b ∧ b ≤ 0xfe) ∧ b ≠ 0x8e ∧ b ≠ 0x8f
      grind
  | kana kk => trivial
  | pair lead trail => exact h.1
  | triple tt uu => trivial

instance : DecidablePred EucChar.InCode
  | .ascii b => inferInstanceAs (Decidable (b < 0x80))
  | .kana _ => .isTrue trivial
  | .pair lead trail => inferInstanceAs
      (Decidable ((0xa1 ≤ lead ∧ lead ≤ 0xfe) ∧ 0xa1 ≤ trail ∧ trail ≤ 0xfe))
  | .triple _ _ => .isTrue trivial

/-! ### The end of a text -/

/-- What `FixChar` makes of the beginning of a character: for the missing trail byte of two it
copies the terminator. -/
def tailImage : Str → Str
  | [] => []
  | [b] => if b = 0x8f then [0xa2, 0xae] else [EucChar.fixLead b, 0]
  | _ => [0xa2, 0xae]

/-- `FixChar` sets `fixed` on the beginning of a character. -/
def tailFixes : Str → Bool
  | [] => false
  | [b] => b = 0x8f ∨ EucChar.fixLead b ≠ b
  | _ => true

/-- The buffer begins with what has been written. -/
def FixState.Wrote (s : FixState) (done : Str) : Prop :=
  (∃ junk, s.outChar = done ++ junk) ∧ s.j = done.length

theorem FixState.Done.wrote {s : FixState} {done rest : Str} (h : s.Done done rest) :
    s.Wrote done := by
  obtain ⟨junk, ho, hj, -⟩ := h
  exact ⟨⟨junk ++ rest, ho⟩, hj⟩

theorem fixLoop_stop {xmlLen : Nat} {s : FixState} (h : xmlLen ≤ s.i) (n : Nat) :
    fixLoop xmlLen n s = s := by
  cases n with
  | zero => rfl
  | succ n => rw [fixLoop, if_neg (Nat.not_lt.mpr h)]

/-- The last iteration. -/
theorem fixLoop_last {xmlLen n : Nat} {s : FixState} (h : s.i < xmlLen)
    (hlast : xmlLen ≤ (fixStep s).i) (hn : 0 < n) : fixLoop xmlLen n s = fixStep s := by
  obtain ⟨n, rfl⟩ := Nat.exists_eq_succ_of_ne_zero hn.ne'
  rw [fixLoop, if_pos h, fixLoop_stop hlast]

/-- One iteration on a `0x8f` that is the last byte of the text. -/
theorem fixStep_loneTriple {s : FixState} {done : Str} (h : s.Done done [0x8f, 0]) :
    (fixStep s).Wrote (done ++ [0xa2, 0xae]) ∧ (fixStep s).i = s.i + 3 ∧
      (fixStep s).fixed = true := by
  obtain ⟨junk, ho, hj, hi⟩ := h
  have hb : s.outChar.getD s.i 0 = 0x8f := by
    rw [ho, hi, ← List.append_assoc]
    exact getD_append_cons _ _ _ _ (by simp)
  have hf : fixStep s =
      ⟨(s.outChar.set s.j 0xa2).set (s.j + 1) 0xae, s.i + 3, s.j + 2, true⟩ := by
    simp only [fixStep, hb]
    exact (if_neg (by decide)).trans ((if_neg (by decide)).trans (if_pos trivial))
  rw [hf]
  refine ⟨⟨⟨(junk ++ [0x8f, 0]).drop 2, ?_⟩, by simp [hj]⟩, rfl, rfl⟩
  dsimp only
  rw [hj, ho, set_two done (by simp), List.append_assoc]

/-- One iteration on the beginning of a character. -/
theorem fixStep_tail {s : FixState} {done tail : Str} (hp : Partial tail) (hne : tail ≠ [])
    (h : s.Done done (tail ++ [0])) :
    (fixStep s).Wrote (done ++ tailImage tail) ∧ s.i + tail.length ≤ (fixStep s).i ∧
      (fixStep s).fixed = (s.fixed || tailFixes tail) := by
  cases hp with
  | none => exact absurd rfl hne
  | triple t =>
      have hc : (EucChar.triple t 0).Cut := trivial
      have h' : s.Done done ((EucChar.triple t 0).bytes ++ []) := h
      obtain ⟨hd, hi, hf⟩ := fixStep_done hc h'
      exact ⟨hd.wrote, by rw [hi]; simp [EucChar.bytes], hf⟩
  | @lead b hb =>
      by_cases htriple : b = 0x8f
      · subst htriple
        obtain ⟨hw, hi, hf⟩ := fixStep_loneTriple h
        exact ⟨hw, by rw [hi]; simp, by simp [hf, tailFixes]⟩
      -- the terminator is taken for the trail byte
      obtain ⟨c, hc, hbytes, hfix, hfixes⟩ : ∃ c : EucChar, c.Cut ∧ c.bytes = [b, 0] ∧
          c.fix.bytes = tailImage [b] ∧ c.fixes = tailFixes [b] := by
        rcases hb with hpair | hkana | hlone
        · exact ⟨.pair b 0, hpair, rfl, by simp [tailImage, htriple, EucChar.fix, EucChar.bytes],
            by simp [tailFixes, htriple, EucChar.fixes]⟩
        · subst hkana
          exact ⟨.kana 0, trivial, rfl, by decide, by decide⟩
        · exact absurd hlone htriple
      have h' : s.Done done (c.bytes ++ []) := by
        rw [hbytes]
        exact h
      obtain ⟨hd, hi, hf⟩ := fixStep_done hc h'
      rw [hfix] at hd
      exact ⟨hd.wrote, by rw [hi, hbytes]; simp, by rw [hf, hfixes]⟩

/-- The variables of `FixChar` after some iterations of its loop. -/
def loopState (source : Str) (n : Nat) : FixState :=
  fixLoop source.length n ⟨source ++ [0], 0, 0, false⟩

/-- The variables of `FixChar` after its loop. -/
def afterLoop (source : Str) : FixState := loopState source source.length

/-- **The loop** on any text. -/
theorem afterLoop_cut {source : Str} {text : List EucChar} {tail : Str}
    (h : Cuts source text tail) :
    (afterLoop source).Wrote ((text.flatMap fun c => c.fix.bytes) ++ tailImage tail) ∧
      (afterLoop source).fixed = (text.any EucChar.fixes || tailFixes tail) := by
  have hlen : source.length = (text.flatMap EucChar.bytes).length + tail.length := by
    rw [h.source_eq, List.length_append]
  have hle := length_le_bytes text
  have h₀ : FixState.Done ⟨source ++ [0], 0, 0, false⟩ []
      (text.flatMap EucChar.bytes ++ (tail ++ [0])) := by
    refine ⟨[], ?_, rfl, rfl⟩
    simp [h.source_eq]
  have hfit : 0 + (text.flatMap EucChar.bytes).length ≤ source.length := by omega
  obtain ⟨n, hn⟩ : ∃ n, source.length = text.length + n := Nat.exists_eq_add_of_le (by omega)
  obtain ⟨s', hrun, hd, hi, hf⟩ := fixLoop_done h.cut h₀ hfit n
  rw [← hn] at hrun
  rw [Nat.zero_add] at hi
  rw [List.nil_append] at hd
  rw [Bool.false_or] at hf
  rw [afterLoop, loopState, hrun]
  by_cases hne : tail = []
  · subst hne
    rw [fixLoop_stop (by rw [hi, hlen]; simp)]
    exact ⟨by simpa [tailImage] using hd.wrote, by simp [hf, tailFixes]⟩
  · have hpos := List.length_pos_iff.mpr hne
    obtain ⟨hw, hi', hf'⟩ := fixStep_tail h.tail hne hd
    rw [fixLoop_last (by omega) (by omega) (by omega)]
    exact ⟨hw, by rw [hf', hf]⟩

/-! ### The text after `FixChar` -/

theorem zero_notMem_images {text : List EucChar} (ht : ∀ c ∈ text, c.Cut)
    (h : 0 ∉ text.flatMap EucChar.bytes) : 0 ∉ text.flatMap fun c => c.fix.bytes := by
  intro hmem
  obtain ⟨c, hc, hmem⟩ := List.mem_flatMap.mp hmem
  have hbytes : 0 ∉ c.bytes := fun h₀ => h (List.mem_flatMap.mpr ⟨c, hc, h₀⟩)
  cases c with
  | ascii b => exact hbytes hmem
  | kana kk => exact hbytes hmem
  | pair lead trail =>
      have hlead := EucChar.fixLead_ne_zero lead (ht _ hc).1
      rcases List.mem_cons.mp hmem with h₀ | hmem
      · exact hlead h₀.symm
      · exact hbytes (List.mem_cons_of_mem _ hmem)
  | triple tt uu => exact absurd hmem (by simp [EucChar.fix, EucChar.bytes])

/-- A terminator behind a text, where the buffer has space for it. -/
theorem cstr_append_set (l junk : Str) : cstr (l ++ junk.set 0 0) = cstr l := by
  induction l with
  | nil => cases junk <;> simp [cstr]
  | cons b l ih =>
      rw [cstr] at ih ⊢
      rw [List.cons_append, List.takeWhile_cons, ih, cstr, cstr, List.takeWhile_cons]

/-- Where nothing is to be fixed at the end of a text, it is kept. -/
theorem cstr_tailImage_of_not_fixes {tail : Str} (hp : Partial tail) (h₀ : 0 ∉ tail)
    (h : tailFixes tail = false) : cstr (tailImage tail) = tail := by
  cases hp with
  | none => rfl
  | triple t => cases h
  | @lead b hb =>
      simp only [tailFixes, decide_eq_false_iff_not, not_or, not_not] at h
      rw [tailImage, if_neg h.1, h.2]
      exact cstr_append_zero (l := [b]) h₀

/-- Where nothing is to be fixed, the images are the characters. -/
theorem images_of_not_fixes {text : List EucChar} (h : text.any EucChar.fixes = false) :
    (text.flatMap fun c => c.fix.bytes) = text.flatMap EucChar.bytes := by
  refine List.flatMap_congr fun c hc => ?_
  rw [EucChar.fix_of_not_fixes]
  simpa using List.any_eq_false.mp h c hc

/-- **The text after `FixChar`.** -/
theorem fixChar_cut {source : Str} {text : List EucChar} {tail : Str} (h : Cuts source text tail)
    (h₀ : 0 ∉ source) :
    fixChar source = (text.flatMap fun c => c.fix.bytes) ++ cstr (tailImage tail) := by
  have hzero : 0 ∉ text.flatMap EucChar.bytes ∧ 0 ∉ tail := by
    rw [h.source_eq, List.mem_append, not_or] at h₀
    exact h₀
  obtain ⟨⟨⟨junk, ho⟩, hj⟩, hf⟩ := afterLoop_cut h
  have himages := zero_notMem_images h.cut hzero.1
  have hcstr : ∀ s, cstr ((text.flatMap fun c => c.fix.bytes) ++ s) =
      (text.flatMap fun c => c.fix.bytes) ++ cstr s := by
    intro s
    rw [cstr, List.takeWhile_append_of_pos]
    · rfl
    · intro b hb
      simpa using fun e : b = 0 => himages (e ▸ hb)
  rw [fixChar, ← loopState, ← afterLoop]
  split
  · rw [hj, ho, List.set_append_right _ _ (Nat.le_refl _), Nat.sub_self, List.append_assoc, hcstr,
      cstr_append_set]
  · rename_i hfix
    rw [hf, Bool.not_eq_true, Bool.or_eq_false_iff] at hfix
    rw [images_of_not_fixes hfix.1, cstr_tailImage_of_not_fixes h.tail hzero.2 hfix.2]
    exact h.source_eq

/-! ### Lengths -/

/-- A character of three bytes, for which `FixChar` writes two. -/
def EucChar.isTriple : EucChar → Bool
  | triple _ _ => true
  | _ => false

theorem length_images (text : List EucChar) :
    (text.flatMap fun c => c.fix.bytes).length + text.countP EucChar.isTriple =
      (text.flatMap EucChar.bytes).length := by
  induction text with
  | nil => rfl
  | cons c text ih =>
      rw [List.flatMap_cons, List.flatMap_cons, List.length_append, List.length_append, ← ih,
        List.countP_cons]
      cases c <;> simp [EucChar.fix, EucChar.bytes, EucChar.isTriple] <;> omega

/-- The end of a text grows by a byte where it is a lone `0x8f`. -/
theorem length_cstr_tailImage {tail : Str} (hp : Partial tail) (h₀ : 0 ∉ tail) :
    (cstr (tailImage tail)).length = tail.length + if tail = [0x8f] then 1 else 0 := by
  cases hp with
  | none => rfl
  | triple t => rfl
  | @lead b hb =>
      by_cases htriple : b = 0x8f
      · subst htriple
        rfl
      · have hlead : 0 ∉ [EucChar.fixLead b] := by
          have hall : ∀ b : UInt8, 0 ∉ [b] → 0 ∉ [EucChar.fixLead b] :=
            forall_byte (by decide +kernel)
          exact hall b h₀
        rw [tailImage, if_neg htriple, if_neg (by simpa using htriple)]
        show (cstr ([EucChar.fixLead b] ++ 0 :: [])).length = 1
        rw [cstr_append_zero hlead]
        rfl

/-- **The length of the text after `FixChar`.** -/
theorem length_fixChar {source : Str} {text : List EucChar} {tail : Str}
    (h : Cuts source text tail) (h₀ : 0 ∉ source) :
    (fixChar source).length + text.countP EucChar.isTriple =
      source.length + if tail = [0x8f] then 1 else 0 := by
  have htail : 0 ∉ tail := by
    rw [h.source_eq, List.mem_append, not_or] at h₀
    exact h₀.2
  have himages := length_images text
  have hsource : source.length = (text.flatMap EucChar.bytes).length + tail.length := by
    rw [h.source_eq, List.length_append]
  rw [fixChar_cut h h₀, List.length_append, length_cstr_tailImage h.tail htail]
  omega

/-! ### The indices of `FixChar` -/

/-- The indices the body of the loop reads and writes. -/
def fixIndices (s : FixState) : List Nat :=
  let b := s.outChar.getD s.i 0
  if (0xa1 ≤ b ∧ b ≤ 0xfe) ∨ b = 0x8e then [s.i, s.j, s.j + 1, s.i + 1]
  else if b = 0x8f then [s.i, s.j, s.j + 1]
  else [s.i, s.j]

/-- The indices of the loop. -/
def fixLoopIndices (xmlLen : Nat) : Nat → FixState → List Nat
  | 0, _ => []
  | n + 1, s =>
      if s.i < xmlLen then fixIndices s ++ fixLoopIndices xmlLen n (fixStep s) else []

/-- The indices of `FixChar`: the terminator before `strcpy`, `strcpy`, the loop, and, where the
text is fixed, the terminator after it and the bytes of the text up to a NUL. -/
def fixCharIndices (inputSource : Str) : List Nat :=
  let s := afterLoop inputSource
  inputSource.length :: List.range (inputSource.length + 1) ++
    fixLoopIndices inputSource.length inputSource.length ⟨inputSource ++ [0], 0, 0, false⟩ ++
    if s.fixed then s.j :: List.range ((cstr (s.outChar.set s.j 0)).length + 1) else []

/-- The writing index does not overtake the reading index, which a step moves behind all that it
writes. -/
theorem fixStep_behind {s : FixState} (h : s.j ≤ s.i) :
    (fixStep s).j ≤ (fixStep s).i ∧ s.i < (fixStep s).i ∧
      (fixStep s).outChar.drop (fixStep s).i = s.outChar.drop (fixStep s).i := by
  have htwo : ∀ lead fixed, (s.two lead fixed).j ≤ (s.two lead fixed).i ∧
      s.i < (s.two lead fixed).i ∧
      (s.two lead fixed).outChar.drop (s.two lead fixed).i =
        s.outChar.drop (s.two lead fixed).i := by
    intro lead fixed
    refine ⟨Nat.add_le_add_right h 2, Nat.lt_add_of_pos_right (by decide), ?_⟩
    simp only [FixState.two]
    rw [List.drop_set_of_lt (by omega), List.drop_set_of_lt (by omega)]
  simp only [fixStep]
  split_ifs
  · exact htwo _ _
  · exact htwo _ _
  · exact htwo _ _
  · exact htwo _ _
  · exact htwo _ _
  · exact htwo _ _
  · refine ⟨by dsimp only; omega, by dsimp only; omega, ?_⟩
    dsimp only
    rw [List.drop_set_of_lt (by omega), List.drop_set_of_lt (by omega)]
  · refine ⟨by dsimp only; omega, by dsimp only; omega, ?_⟩
    dsimp only
    rw [List.drop_set_of_lt (by omega)]

/-- The indices of an iteration are inside of the buffer. -/
theorem fixIndices_le {s : FixState} {xmlLen : Nat} (h : s.j ≤ s.i) (hlt : s.i < xmlLen) :
    ∀ k ∈ fixIndices s, k ≤ xmlLen := by
  simp only [fixIndices]
  split_ifs <;> simp <;> omega

theorem fixLoopIndices_le {xmlLen : Nat} (n : Nat) {s : FixState} (h : s.j ≤ s.i) :
    ∀ k ∈ fixLoopIndices xmlLen n s, k ≤ xmlLen := by
  induction n generalizing s with
  | zero => simp [fixLoopIndices]
  | succ n ih =>
      rw [fixLoopIndices]
      split
      · rename_i hlt
        intro k hk
        rcases List.mem_append.mp hk with hk | hk
        · exact fixIndices_le h hlt k hk
        · exact ih (fixStep_behind h).1 k hk
      · simp

/-- Only the last terminator can be outside of the buffer. -/
theorem fixCharIndices_le_iff (source : Str) :
    (∀ k ∈ fixCharIndices source, k ≤ source.length) ↔
      ((afterLoop source).fixed = true → (afterLoop source).j ≤ source.length) := by
  obtain ⟨text, tail, h⟩ := exists_cuts source
  obtain ⟨⟨⟨junk, ho⟩, hj⟩, -⟩ := afterLoop_cut h
  have hloop : ∀ k ∈ fixLoopIndices source.length source.length ⟨source ++ [0], 0, 0, false⟩,
      k ≤ source.length :=
    fixLoopIndices_le source.length (Nat.le_refl 0)
  rw [fixCharIndices]
  set s := afterLoop source with hs
  -- the text that is read back ends at the terminator, if not before it
  have hread : (cstr (s.outChar.set s.j 0)).length ≤ s.j := by
    rw [hj, ho, List.set_append_right _ _ (Nat.le_refl _), Nat.sub_self, cstr_append_set]
    exact (List.takeWhile_prefix _).length_le
  constructor
  · intro hall hfixed
    exact hall s.j (by simp [hfixed])
  · intro hlast k hk
    rw [List.mem_append, List.cons_append, List.mem_cons, List.mem_append, List.mem_range] at hk
    rcases hk with (hk | hk | hk) | hk
    · exact hk.le
    · exact Nat.lt_succ_iff.mp hk
    · exact hloop k hk
    · split at hk
      · rename_i hfixed
        have hj' := hlast hfixed
        rcases List.mem_cons.mp hk with hk | hk
        · exact hk ▸ hj'
        · have hlt := List.mem_range.mp hk
          omega
      · cases hk

/-- A first byte of a character at the end is written with the byte behind it. -/
theorem length_tailImage_lone (b : UInt8) : (tailImage [b]).length = 2 := by
  simp only [tailImage]
  split <;> rfl

/-- Where the loop ends, by the lengths of what it has read and written. -/
theorem afterLoop_lengths {source : Str} {text : List EucChar} {tail : Str}
    (h : Cuts source text tail) :
    source.length = (text.flatMap fun c => c.fix.bytes).length +
        text.countP EucChar.isTriple + tail.length ∧
      (afterLoop source).j = (text.flatMap fun c => c.fix.bytes).length +
        (tailImage tail).length := by
  constructor
  · rw [length_images, ← List.length_append, ← h.source_eq]
  · rw [(afterLoop_cut h).1.2, List.length_append]

/-- **The indices of `FixChar`** are inside of the buffer, if and only if the text does not end
with the first byte of a character, without a character of three bytes before it, and with one
that is fixed before it or fixed itself. -/
theorem fixChar_inside_iff (source : Str) :
    (∀ k ∈ fixCharIndices source, k ≤ source.length) ↔
      ¬ ∃ text b, Cuts source text [b] ∧ text.countP EucChar.isTriple = 0 ∧
        (text.any EucChar.fixes || tailFixes [b]) = true := by
  rw [fixCharIndices_le_iff]
  constructor
  · rintro hlast ⟨text, b, h, hcount, hfixes⟩
    obtain ⟨hlen, hend⟩ := afterLoop_lengths h
    have hle := hlast ((afterLoop_cut h).2.trans hfixes)
    rw [length_tailImage_lone] at hend
    rw [List.length_singleton] at hlen
    omega
  · intro hnone hfixed
    obtain ⟨text, tail, h⟩ := exists_cuts source
    obtain ⟨hlen, hend⟩ := afterLoop_lengths h
    have hfixes := (afterLoop_cut h).2.symm.trans hfixed
    cases h.tail with
    | none =>
        simp only [tailImage, List.length_nil] at hend hlen
        omega
    | triple t =>
        simp only [tailImage, List.length_cons, List.length_nil] at hend hlen
        omega
    | @lead b hb =>
        by_contra hle
        rw [length_tailImage_lone] at hend
        rw [List.length_singleton] at hlen
        exact hnone ⟨text, b, h, by omega, hfixes⟩

/-- A text that is the first byte of a character: the terminator is written behind the buffer. -/
theorem fixChar_inside_lone : ¬ ∀ k ∈ fixCharIndices [0xa1], k ≤ 1 := by
  decide +kernel

/-- The buffer `Run` hands to the parser, and the length, which it has read before `FixChar`. -/
def WSaxXml.memBuf (xml : WSaxXml) : Str × Nat := (fixChar xml.inputSource, xml.inputSource.length)

theorem WSaxXml.parsed_memBuf (xerces : Nat → Xerces) (xml : WSaxXml) :
    xml.parsed xerces = xerces xml.memBuf.2 xml.memBuf.1 :=
  rfl

/-- **The length of the buffer** is the length of the text in it, if and only if there is no
character of three bytes and no lone `0x8f` at the end, or one and a lone `0x8f` at the end. -/
theorem memBuf_length_iff {xml : WSaxXml} (h₀ : 0 ∉ xml.inputSource) :
    xml.memBuf.2 = xml.memBuf.1.length ↔
      ∃ text tail, Cuts xml.inputSource text tail ∧
        text.countP EucChar.isTriple = if tail = [0x8f] then 1 else 0 := by
  constructor
  · intro heq
    obtain ⟨text, tail, h⟩ := exists_cuts xml.inputSource
    have hlen := length_fixChar h h₀
    have heq' : xml.inputSource.length = (fixChar xml.inputSource).length := heq
    exact ⟨text, tail, h, by omega⟩
  · rintro ⟨text, tail, h, hcount⟩
    have hlen := length_fixChar h h₀
    show xml.inputSource.length = (fixChar xml.inputSource).length
    omega

/-- The characters of a message, one of them of two bytes and one of three. -/
def threeByteText : List EucChar :=
  (lit "<kono>").map .ascii ++ [.pair 0xa4 0xa2, .triple 0xb0 0xa1] ++ (lit "</kono>").map .ascii

/-- They come with a lone `0x8f` at the end. -/
def mixedXml : WSaxXml :=
  ⟨0, threeByteText.flatMap EucChar.bytes ++ [0x8f], WHead.ofBytes .big []⟩

/-- A message with a character of three bytes, for which `FixChar` writes two. -/
def shrinkingXml : WSaxXml :=
  ⟨0, lit "<kono>" ++ [0x8f, 0xb0, 0xa1] ++ lit "</kono>", WHead.ofBytes .big []⟩

theorem memBuf_length_mixed :
    mixedXml.memBuf.2 = mixedXml.memBuf.1.length :=
  (memBuf_length_iff (by decide)).mpr
    ⟨threeByteText, [0x8f], ⟨rfl, fun c hc => EucChar.InCode.cut (by revert c; decide),
      .lead (.inr (.inr rfl))⟩, by decide⟩

/-- The parser is told of a byte more than the text has. -/
theorem memBuf_length_short :
    0 ∉ shrinkingXml.inputSource ∧ shrinkingXml.memBuf.2 = shrinkingXml.memBuf.1.length + 1 := by
  decide +kernel

/-! ### EUC-JP text -/

/-- What is not read yet is as it was, after any number of iterations. -/
theorem loopState_unread (source : Str) (n : Nat) :
    (loopState source n).outChar.drop (loopState source n).i =
      (source ++ [0]).drop (loopState source n).i := by
  have hrun : ∀ s : FixState, s.j ≤ s.i → s.outChar.drop s.i = (source ++ [0]).drop s.i →
      (fixLoop source.length n s).outChar.drop (fixLoop source.length n s).i =
        (source ++ [0]).drop (fixLoop source.length n s).i := by
    induction n with
    | zero => exact fun s _ hs => hs
    | succ n ih =>
        intro s hbehind hs
        rw [fixLoop]
        split
        · obtain ⟨hbehind', hlt, hdrop⟩ := fixStep_behind hbehind
          refine ih _ hbehind' (hdrop.trans ?_)
          -- both are what is behind the bytes the step reads
          obtain ⟨k, hk⟩ := Nat.exists_eq_add_of_le hlt.le
          rw [hk, ← List.drop_drop, ← List.drop_drop, hs]
        · exact hs
  exact hrun _ (Nat.le_refl 0) rfl

/-- **`FixChar` on EUC-JP text** makes its image of every character and changes nothing else; after
any number of iterations the bytes that are not read yet are those of the text. -/
theorem fixChar_images {text : List EucChar} (ht : ∀ c ∈ text, c.InCode)
    (h₀ : 0 ∉ text.flatMap EucChar.bytes) :
    fixChar (text.flatMap EucChar.bytes) = (text.flatMap fun c => c.fix.bytes) ∧
      ∀ n, (loopState (text.flatMap EucChar.bytes) n).outChar.drop
          (loopState (text.flatMap EucChar.bytes) n).i =
        (text.flatMap EucChar.bytes ++ [0]).drop (loopState (text.flatMap EucChar.bytes) n).i := by
  have hcuts : Cuts (text.flatMap EucChar.bytes) text [] :=
    ⟨(List.append_nil _).symm, fun c hc => (ht c hc).cut, .none⟩
  refine ⟨?_, loopState_unread _⟩
  rw [fixChar_cut hcuts h₀]
  exact List.append_nil _

/-- Two characters of three bytes, one of row 1 and one of row 13. -/
theorem fixChar_images_two :
    fixChar [0x8f, 0xb0, 0xa1, 0x8f, 0xb0, 0xa2, 0xa1, 0xa2, 0xad, 0xb5] =
      [0xa2, 0xae, 0xa2, 0xae, 0xf5, 0xa2, 0xfd, 0xb5] :=
  (@fixChar_images [.triple 0xb0 0xa1, .triple 0xb0 0xa2, .pair 0xa1 0xa2, .pair 0xad 0xb5]
    (by decide) (by decide)).1

end Realwork.Receive
